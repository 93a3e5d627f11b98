import FlatpakBlackbox.Coverage.Entries

set_option autoImplicit false

/-! # The coverage model

`CoverageModel.__init__` of `coverage_report.py`. What an accepting run of the constructor
establishes is `ModelData.Valid`, and it is a field of `CoverageModel`: everything proved about
coverage accounting reads the model through that field, so a change to the loaders does not
reach it. `CoverageModel.init` is the constructor itself, and builds the field from the theorems
of `Coverage/Entries.lean`.
-/

namespace FlatpakBlackbox

open PyLib PyException

/-! ## Definitions -/

/-- `Definition`: the hashes a report must match. -/
structure Definition where
  fingerprint : String
  files : Dict String String
  policySha256 : String
  loaderSha256 : String
  referenceCommit : String
  deriving DecidableEq

/-- An object of strings. -/
def textObject (d : Dict String String) : Value :=
  .dict (d.entries.map fun (key, text) => (key, .str text))

/-- The definition as the JSON object a report records. -/
def Definition.toValue (d : Definition) : Value := .dict [
  ("schema", .int 1), ("fingerprint", .str d.fingerprint),
  ("files", textObject d.files), ("policy_sha256", .str d.policySha256),
  ("loader_sha256", .str d.loaderSha256),
  ("reference_commit", .str d.referenceCommit)]

section Snapshot

variable {Bytes : Type}

/-- The files `snapshot` hashes, `sorted(set(paths))`. -/
def snapshotPaths (tree : FileTree Bytes) (cases : Dict CaseKey Behavior) : List Path :=
  let data := ["inventory.json"] :: tree.rglob ["coverage-data"] ".json"
    ++ tree.rglob ["scenario-data"] ".json"
  -- Provisioned-system assertions execute in the privileged bridge too.
  let bridge := [".py", ".sh"].flatMap fun suffix => tree.glob ["ci"] suffix
  let own := [".py", ".c", ".h"].flatMap fun suffix =>
    (tree.glob [] suffix).filter fun path =>
      suffix ≠ ".py" || !startsWith (FileTree.name path) "test_"
  let handlers := cases.values.filterMap fun case =>
    case.handler.map fun handler => [(partition handler ':').1 ++ ".py"]
  (data ++ bridge ++ own ++ handlers).dedup.insertionSort (· ≤ ·)

/-- `snapshot()`. -/
def snapshot (rt : Runtime Bytes) (tree : FileTree Bytes) (cases : Dict CaseKey Behavior)
    (referenceCommit : String) : Except PyException Definition := do
  let hashes ← (snapshotPaths tree cases).mapM fun path => do
    let bytes ← tree.read path
    return ("/".intercalate path, rt.sha256 bytes)
  let files := Dict.ofList hashes
  let policyHash := rt.sha256 rt.policySource
  let loaderHash := rt.sha256 rt.loaderSource
  let fingerprint := rt.sha256 (rt.dumps (.dict [
    ("files", textObject files), ("policy", .str policyHash),
    ("loader", .str loaderHash)]))
  return ⟨fingerprint, files, policyHash, loaderHash, referenceCommit⟩

theorem snapshot_commit {rt : Runtime Bytes} {tree : FileTree Bytes}
    {cases : Dict CaseKey Behavior} {commit : String} {d : Definition}
    (h : snapshot rt tree cases commit = .ok d) : d.referenceCommit = commit := by
  obtain ⟨_, _, h⟩ := bind_eq_ok.mp h
  cases h
  rfl

end Snapshot

/-! ## The model -/

/-- `POLICY`. -/
def policy : List String := [
  "Behavior percentages apply only to the curated obligations, "
    ++ "not all possible Flatpak behavior.",
  "Interface reach means at least one directly related assertion, "
    ++ "not complete coverage of an interface.",
  "Mapped requirements are implemented coverage; "
    ++ "only complete passing cases provide run evidence.",
  "Repeated evidence is counted once. Failed, unselected, unsupported "
    ++ "and system cases do not shrink denominators.",
  "User evidence cannot cover system obligations. "
    ++ "Profile 'any' does not mean both profiles were tested.",
  "Setup calls, fixture preparation, option presence and logged signals "
    ++ "receive no automatic credit.",
  "Verification applies to the recorded target and fixture, "
    ++ "not other versions or implementations.",
  "Current suite hashes are checked; reference-source drift is checked "
    ++ "separately by catalogue.py --check.",
  "Verified function reach also requires a call-stage trace from the library client. "
    ++ "An early error cannot credit an unreached function.",
  "Default/no-op option equivalence checks are reported separately. They establish "
    ++ "the tested command's ordinary result, not a distinguishable effect of the option, "
    ++ "and never increase behavioral interface coverage."]

/-- The attributes of a `CoverageModel`. -/
structure ModelData extends MappingTables where
  surfaces : Dict String Surface
  requirements : Dict String Requirement
  cases : Dict CaseKey Behavior
  limitations : List String
  definition : Definition

namespace ModelData

/-- `self.mapping.get(key, set())`. -/
def mapped (m : ModelData) (key : CaseKey) : List String := m.mapping.getD key []

/-- `self.surface_assertions.get(key, set())`. -/
def asserted (m : ModelData) (key : CaseKey) : List String := m.surfaceAssertions.getD key []

/-- `self.equivalent_options.get(key, set())`. -/
def equivalents (m : ModelData) (key : CaseKey) : List String := m.equivalentOptions.getD key []

/-- What the constructor has checked. -/
structure Valid (m : ModelData) : Prop where
  requirement : ∀ id r, m.requirements.get? id = some r → r.Valid m.surfaces
  case : ∀ key behavior, m.cases.get? key = some behavior → key.Valid behavior
  tables : m.toMappingTables.Valid m.surfaces m.requirements m.cases

end ModelData

/-- A model the constructor accepts. -/
structure CoverageModel extends ModelData where
  valid : toModelData.Valid

section Constructor

variable {Bytes : Type} [UnicodeDatabase]

/-- `CoverageModel(suite)`. -/
def CoverageModel.init (rt : Runtime Bytes) (tree : FileTree Bytes) :
    Except PyException CoverageModel := do
  let path := ["coverage-data", "surfaces.json"]
  let catalogue ← parseCatalogue (← loadJson rt tree path) (tree.text path)
  let listed ← ((catalogue.list? "surfaces").getD []).mapM Surface.ofValue
  let surfaces ← indexed "surface" Surface.id listed
  let read ← withProof (collectRequirements rt tree surfaces)
  let requirements ← withProof (indexed "requirement" Requirement.id read.1.1)
  let behaviors ← loadBehaviors rt tree
  let _ ← indexed "behavior" Behavior.id behaviors
  let cases ← withProof (collectCases behaviors)
  let mappings ← loadMappings rt tree
  let tables ← withProof (collectMappings surfaces requirements.1 cases.1 mappings)
  let commit := ((catalogue.field? "reference").bind (·.str? "commit")).getD ""
  let definition ← snapshot rt tree cases.1 commit
  return {
    toMappingTables := tables.1
    surfaces, requirements := requirements.1, cases := cases.1, definition
    limitations := policy ++ (catalogue.strs? "limitations").getD [] ++ read.1.2
    valid := {
      requirement := fun _ _ hget =>
        collectRequirements_valid read.2 _ (indexed_get? requirements.2 hget).2
      case := collectCases_valid cases.2
      tables := collectMappings_valid tables.2 } }

/-- What the constructor reads, before it is put into dictionaries. -/
structure Loaded where
  catalogue : Value
  requirements : List Requirement
  limitations : List String
  behaviors : List Behavior
  mappings : List CoverageMapping

/-- `self.catalogue["reference"]["commit"]`. -/
def Loaded.commit (loaded : Loaded) : String :=
  ((loaded.catalogue.field? "reference").bind (·.str? "commit")).getD ""

/-- What an accepting run of the constructor builds from what it has read. -/
structure ModelData.BuiltFrom (m : ModelData) (rt : Runtime Bytes) (tree : FileTree Bytes)
    (loaded : Loaded) : Prop where
  catalogue : (do
    let json ← loadJson rt tree ["coverage-data", "surfaces.json"]
    parseCatalogue json (tree.text ["coverage-data", "surfaces.json"])) = .ok loaded.catalogue
  surfaces : (do
    let listed ← ((loaded.catalogue.list? "surfaces").getD []).mapM Surface.ofValue
    indexed "surface" Surface.id listed) = .ok m.surfaces
  read : collectRequirements rt tree m.surfaces = .ok (loaded.requirements, loaded.limitations)
  requirements : indexed "requirement" Requirement.id loaded.requirements = .ok m.requirements
  behaviors : loadBehaviors rt tree = .ok loaded.behaviors
  distinct : ∃ d, indexed "behavior" Behavior.id loaded.behaviors = .ok d
  cases : collectCases loaded.behaviors = .ok m.cases
  mappings : loadMappings rt tree = .ok loaded.mappings
  tables : collectMappings m.surfaces m.requirements m.cases loaded.mappings
    = .ok m.toMappingTables
  definition : snapshot rt tree m.cases loaded.commit = .ok m.definition
  limitations : m.limitations =
    policy ++ (loaded.catalogue.strs? "limitations").getD [] ++ loaded.limitations

/-- What is built so is valid. -/
theorem ModelData.BuiltFrom.valid {m : ModelData} {rt : Runtime Bytes} {tree : FileTree Bytes}
    {loaded : Loaded} (h : m.BuiltFrom rt tree loaded) : m.Valid where
  requirement := fun _ _ hget =>
    collectRequirements_valid h.read _ (indexed_get? h.requirements hget).2
  case := collectCases_valid h.cases
  tables := collectMappings_valid h.tables

/-- **The inversion of the constructor.** -/
theorem CoverageModel.init_eq_ok {rt : Runtime Bytes} {tree : FileTree Bytes}
    {m : CoverageModel} : CoverageModel.init rt tree = .ok m ↔
      ∃ loaded, m.toModelData.BuiltFrom rt tree loaded := by
  unfold CoverageModel.init
  simp only [bind_eq_ok]
  constructor
  · rintro ⟨json, hjson, catalogue, hcatalogue, listed, hlisted, surfaces, hsurfaces, read, hread,
      requirements, hrequirements, behaviors, hbehaviors, distinct, hdistinct, cases, hcases,
      mappings, hmappings, tables, htables, definition, hdefinition, h⟩
    cases h
    exact ⟨⟨catalogue, read.1.1, read.1.2, behaviors, mappings⟩,
      bind_eq_ok.mpr ⟨json, hjson, hcatalogue⟩, bind_eq_ok.mpr ⟨listed, hlisted, hsurfaces⟩,
      read.2, requirements.2, hbehaviors, ⟨distinct, hdistinct⟩, cases.2, hmappings, tables.2,
      hdefinition, rfl⟩
  · rintro ⟨loaded, h⟩
    obtain ⟨json, hjson, hcatalogue⟩ := bind_eq_ok.mp h.catalogue
    obtain ⟨listed, hlisted, hsurfaces⟩ := bind_eq_ok.mp h.surfaces
    obtain ⟨distinct, hdistinct⟩ := h.distinct
    refine ⟨json, hjson, _, hcatalogue, listed, hlisted, _, hsurfaces, ⟨_, h.read⟩,
      withProof_eq_ok.mpr h.read, ⟨_, h.requirements⟩, withProof_eq_ok.mpr h.requirements, _,
      h.behaviors, distinct, hdistinct, ⟨_, h.cases⟩, withProof_eq_ok.mpr h.cases, _,
      h.mappings, ⟨_, h.tables⟩, withProof_eq_ok.mpr h.tables, _, h.definition, ?_⟩
    obtain ⟨data, valid⟩ := m
    refine congrArg Except.ok ?_
    rw [CoverageModel.mk.injEq]
    show { data with limitations := _ } = data
    rw [← h.limitations]

/-- The definition of a new model is the snapshot of its suite, for the commit it names. -/
theorem CoverageModel.snapshot_of_init {rt : Runtime Bytes} {tree : FileTree Bytes}
    {m : CoverageModel} (h : CoverageModel.init rt tree = .ok m) :
    snapshot rt tree m.cases m.definition.referenceCommit = .ok m.definition := by
  obtain ⟨loaded, h⟩ := CoverageModel.init_eq_ok.mp h
  rw [snapshot_commit h.definition]
  exact h.definition

end Constructor

end FlatpakBlackbox
