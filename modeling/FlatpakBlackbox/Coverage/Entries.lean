import FlatpakBlackbox.Coverage.Suite

set_option autoImplicit false

/-! # The entries of a coverage model

The checks of `CoverageModel.__init__` (`coverage_report.py`) on requirements, cases and coverage
mappings. Each check of the source is a function that raises (`checkRequirement`,
`collectCases`, `collectMappings`), and each has one theorem that says what an accepting run has
established (`Requirement.Valid`, `CaseKey.Valid`, `MappingTables.Valid`).

A Python set of strings is a duplicate-free list here, in the order in which it was built.
-/

namespace FlatpakBlackbox

open PyLib PyException

/-! ## Requirements -/

def interfaces : List String := ["cli", "library"]

def profiles : List String := ["user", "system", "any"]

/-- The checks of the constructor on one requirement of an interface. -/
def checkRequirement (surfaces : Dict String Surface) (interface : String) (r : Requirement) :
    Except PyException Unit := do
  raiseIf (r.interface ≠ interface ∨ r.profile ∉ profiles)
    (valueError s!"invalid interface/profile for {r.id}")
  raiseIf (r.description = "" ∨ r.sources = [])
    (valueError s!"requirement lacks contract/source: {r.id}")
  raiseIf (r.requiredCapabilities = [] ∨ "" ∈ r.requiredCapabilities ∨
      ¬ r.requiredCapabilities.Nodup)
    (valueError s!"invalid requirement capabilities: {r.id}")
  raiseIf (r.surfaces = []) (valueError s!"requirement lacks interface references: {r.id}")
  r.surfaces.forM fun surfaceId =>
    match surfaces.get? surfaceId with
    | none => .error (valueError s!"unknown surface {surfaceId} in {r.id}")
    | some surface => raiseIf (surface.kind.ofInterface interface = false)
        (valueError s!"cross-interface surface reference: {r.id}")

/-- What the constructor knows of an accepted requirement. -/
structure Requirement.Valid (surfaces : Dict String Surface) (r : Requirement) : Prop where
  interface : r.interface ∈ interfaces
  profile : r.profile ∈ profiles
  surfaces_known : ∀ surfaceId ∈ r.surfaces, ∃ surface, surfaces.get? surfaceId = some surface ∧
    surface.kind.ofInterface r.interface = true

theorem checkRequirement_valid {surfaces : Dict String Surface} {interface : String}
    {r : Requirement} {u : Unit} (hi : interface ∈ interfaces)
    (h : checkRequirement surfaces interface r = .ok u) : r.Valid surfaces := by
  obtain ⟨_, hfirst, h⟩ := bind_eq_ok.mp h
  obtain ⟨_, _, h⟩ := bind_eq_ok.mp h
  obtain ⟨_, _, h⟩ := bind_eq_ok.mp h
  obtain ⟨_, _, h⟩ := bind_eq_ok.mp h
  have hfirst' := raiseIf_eq_ok.mp hfirst
  simp only [not_or, ne_eq, not_not] at hfirst'
  refine ⟨hfirst'.1 ▸ hi, hfirst'.2, fun surfaceId hs => ?_⟩
  have hstep := forM_eq_ok.mp h surfaceId hs
  cases hget : surfaces.get? surfaceId with
  | none => rw [hget] at hstep; cases hstep
  | some surface =>
      rw [hget] at hstep
      have hkind := raiseIf_eq_ok.mp hstep
      exact ⟨surface, rfl, by rw [hfirst'.1]; simpa using hkind⟩

section Collect

variable {Bytes : Type}

/-- The requirements and limitations of one interface. -/
def readInterface (rt : Runtime Bytes) (tree : FileTree Bytes) (surfaces : Dict String Surface)
    (interface : String) : Except PyException (List Requirement × List String) := do
  let document ← loadRequirements rt tree ["coverage-data", interface ++ "-requirements.json"]
  raiseIf (document.scope ≠ interface)
    (valueError "requirement file has incorrect interface scope")
  document.requirements.forM (checkRequirement surfaces interface)
  return (document.requirements, document.limitations)

/-- The requirements and limitations of both interfaces. -/
def collectRequirements (rt : Runtime Bytes) (tree : FileTree Bytes)
    (surfaces : Dict String Surface) : Except PyException (List Requirement × List String) := do
  let read ← interfaces.mapM (readInterface rt tree surfaces)
  return ((read.map Prod.fst).flatten, (read.map Prod.snd).flatten)

theorem collectRequirements_valid {rt : Runtime Bytes} {tree : FileTree Bytes}
    {surfaces : Dict String Surface} {result : List Requirement × List String}
    (h : collectRequirements rt tree surfaces = .ok result) :
    ∀ r ∈ result.1, r.Valid surfaces := by
  obtain ⟨read, hread, hresult⟩ := bind_eq_ok.mp h
  cases hresult
  intro r hr
  obtain ⟨rs, hrs, hr⟩ := List.mem_flatten.mp hr
  obtain ⟨pair, hpair, rfl⟩ := List.mem_map.mp hrs
  obtain ⟨interface, hi, hinterface⟩ := exists_of_mem_mapM hread hpair
  obtain ⟨document, _, hdoc⟩ := bind_eq_ok.mp hinterface
  obtain ⟨_, _, hdoc⟩ := bind_eq_ok.mp hdoc
  obtain ⟨_, hchecks, hdoc⟩ := bind_eq_ok.mp hdoc
  cases hdoc
  exact checkRequirement_valid hi (forM_eq_ok.mp hchecks r hr)

end Collect

/-! ## Cases -/

/-- The loop of the constructor over the executable behaviors. The record kept for a case is
the behavior itself: `executable_behavior` was already applied by `parse_behavior`. -/
def collectCases (behaviors : List Behavior) : Except PyException (Dict CaseKey Behavior) :=
  (behaviors.filter fun b => b.scenario.isSome).foldlM (fun cases behavior => do
    raiseIf (behavior.profile ∉ profiles)
      (valueError s!"invalid case profile: {behavior.profile}")
    behavior.drivers.foldlM (fun (cases : Dict CaseKey Behavior) driver => do
      let key : CaseKey := ⟨behavior.id, driver, behavior.profile⟩
      raiseIf (key ∈ cases.keys ∨ driver ∉ interfaces)
        (valueError s!"invalid or duplicate case: {key.text}")
      return cases.set key behavior) cases) Dict.empty

/-- What the constructor knows of an accepted case. -/
structure CaseKey.Valid (key : CaseKey) (behavior : Behavior) : Prop where
  id : behavior.id = key.behaviorId
  profile : behavior.profile = key.profile
  driver : key.driver ∈ interfaces
  executable : behavior.scenario.isSome = true

theorem collectCases_valid {behaviors : List Behavior} {cases : Dict CaseKey Behavior}
    (h : collectCases behaviors = .ok cases) :
    ∀ key behavior, cases.get? key = some behavior → key.Valid behavior := by
  refine foldlM_invariant (P := fun cases : Dict CaseKey Behavior =>
    ∀ key behavior, cases.get? key = some behavior → key.Valid behavior) ?_ ?_ h
  · intro key behavior hget
    cases hget
  · intro cases behavior cases' hmem hcases hstep
    obtain ⟨_, _, hdrivers⟩ := bind_eq_ok.mp hstep
    have hexec : behavior.scenario.isSome = true := by
      simpa using (List.mem_filter.mp hmem).2
    refine foldlM_invariant (P := fun cases : Dict CaseKey Behavior =>
      ∀ key behavior, cases.get? key = some behavior → key.Valid behavior) hcases ?_ hdrivers
    intro cases driver cases' _ hcases hset
    obtain ⟨_, hnew, hset⟩ := bind_eq_ok.mp hset
    cases hset
    have hdriver := raiseIf_eq_ok.mp hnew
    simp only [not_or, not_not] at hdriver
    intro key behavior' hget
    rw [Dict.get?_set] at hget
    split at hget
    · next hkey =>
        cases hget
        subst hkey
        exact ⟨rfl, rfl, hdriver.2, hexec⟩
    · exact hcases key behavior' hget

/-! ## Coverage mappings -/

section Mappings

variable (surfaces : Dict String Surface) (requirements : Dict String Requirement)

/-- `surfaces[id]["kind"]`, where the surface exists. -/
def kindOf (id : String) : Option Kind := (surfaces.get? id).map Surface.kind

/-- The checks on one requirement a mapping names. -/
def checkMapped (key : CaseKey) (id : String) : Except PyException Unit :=
  match requirements.get? id with
  | none => .error (valueError s!"unknown mapped requirement: {id}")
  | some r => raiseIf (r.interface ≠ key.driver ∨ r.profile ∉ ["any", key.profile])
      (valueError s!"mapping cannot cover interface/profile: {id} from {key.text}")

/-- The kinds a mapping of this driver may assert directly. -/
def allowedKinds (driver : String) : List Kind :=
  if driver = "cli" then [.cliOption] else [.libraryFunction, .librarySignal]

/-- The loops over `surface_assertions` and `equivalent_options`: each id is accepted and new. -/
def collectIds (accepts : SurfaceAssertion → Bool) (problem : String → PyException)
    (assertions : List SurfaceAssertion) : Except PyException (List String) :=
  assertions.foldlM (fun ids assertion => do
    raiseIf (accepts assertion = false ∨ assertion.id ∈ ids) (problem assertion.id)
    return ids ++ [assertion.id]) []

/-- `self.surface_assertions[key]`. -/
def collectAssertions (mapping : CoverageMapping) : Except PyException (List String) :=
  collectIds (fun assertion =>
      (kindOf surfaces assertion.id).any (fun kind => kind ∈ allowedKinds mapping.key.driver)
        && assertion.rationale ≠ "")
    (fun id => valueError s!"invalid explicit surface assertion: {id} from {mapping.key.text}")
    mapping.surfaceAssertions

/-- The surfaces of a requirement; none for an unknown id. -/
def surfacesOf (id : String) : List String :=
  ((requirements.get? id).map Requirement.surfaces).getD []

/-- `self.equivalent_options[key]`, given the surfaces the mapping covers behaviorally. -/
def collectEquivalents (behavioral : List String) (mapping : CoverageMapping) :
    Except PyException (List String) :=
  collectIds (fun assertion =>
      mapping.key.driver = "cli" && kindOf surfaces assertion.id = some .cliOption
        && strip assertion.rationale.toList ≠ [] && assertion.id ∉ behavioral)
    (fun id => valueError s!"invalid equivalent option: {id} from {mapping.key.text}")
    mapping.equivalentOptions

/-- The three dictionaries the constructor builds from the mappings. -/
structure MappingTables where
  mapping : Dict CaseKey (List String)
  surfaceAssertions : Dict CaseKey (List String)
  equivalentOptions : Dict CaseKey (List String)

/-- One turn of the loop over the mappings. -/
def collectMapping (cases : Dict CaseKey Behavior) (tables : MappingTables)
    (mapping : CoverageMapping) : Except PyException MappingTables := do
  let key := mapping.key
  raiseIf (key ∉ cases.keys ∨ key ∈ tables.mapping.keys)
    (valueError s!"unknown or duplicate coverage case: {key.text}")
  raiseIf (mapping.rationale = "")
    (valueError s!"coverage mapping needs an assertion rationale: {key.text}")
  raiseIf (¬ mapping.requirements.Nodup)
    (valueError s!"duplicate requirement in coverage mapping: {key.text}")
  mapping.requirements.forM (checkMapped requirements key)
  let assertions ← collectAssertions surfaces mapping
  let behavioral := assertions ++ mapping.requirements.flatMap (surfacesOf requirements)
  let equivalents ← collectEquivalents surfaces behavioral mapping
  return {
    mapping := tables.mapping.set key mapping.requirements
    surfaceAssertions := tables.surfaceAssertions.set key assertions
    equivalentOptions := tables.equivalentOptions.set key equivalents }

/-- The loop over the mappings. -/
def collectMappings (cases : Dict CaseKey Behavior) (mappings : List CoverageMapping) :
    Except PyException MappingTables :=
  mappings.foldlM (collectMapping surfaces requirements cases)
    ⟨Dict.empty, Dict.empty, Dict.empty⟩

/-! ### What an accepted mapping establishes -/

theorem collectIds_eq_ok {accepts : SurfaceAssertion → Bool} {problem : String → PyException}
    {assertions : List SurfaceAssertion} {ids : List String}
    (h : collectIds accepts problem assertions = .ok ids) :
    ids.Nodup ∧ ∀ id ∈ ids, ∃ assertion ∈ assertions, assertion.id = id
      ∧ accepts assertion = true := by
  refine foldlM_invariant (P := fun ids : List String => ids.Nodup ∧
    ∀ id ∈ ids, ∃ assertion ∈ assertions, assertion.id = id ∧ accepts assertion = true) ?_ ?_ h
  · exact ⟨List.nodup_nil, fun id hid => by cases hid⟩
  · rintro ids assertion ids' hmem ⟨hnodup, hall⟩ hstep
    obtain ⟨_, hcheck, hids⟩ := bind_eq_ok.mp hstep
    cases hids
    have hok := raiseIf_eq_ok.mp hcheck
    simp only [not_or, Bool.not_eq_false] at hok
    refine ⟨?_, fun id hid => ?_⟩
    · rw [List.nodup_append]
      refine ⟨hnodup, List.nodup_singleton _, fun a ha b hb hab => ?_⟩
      rw [List.mem_singleton.mp hb] at hab
      exact hok.2 (hab ▸ ha)
    · rcases List.mem_append.mp hid with hid | hid
      · exact hall id hid
      · exact ⟨assertion, hmem, (List.mem_singleton.mp hid).symm, hok.1⟩

/-- What the constructor knows of the requirements of a mapping. -/
def ValidMapped (key : CaseKey) (ids : List String) : Prop :=
  ids.Nodup ∧ ∀ id ∈ ids, ∃ r, requirements.get? id = some r ∧ r.interface = key.driver
    ∧ (r.profile = "any" ∨ r.profile = key.profile)

/-- What the constructor knows of the surface assertions of a mapping. -/
def ValidAsserted (key : CaseKey) (ids : List String) : Prop :=
  ids.Nodup ∧ ∀ id ∈ ids, ∃ kind ∈ allowedKinds key.driver, kindOf surfaces id = some kind

/-- What the constructor knows of the equivalent options of a mapping: they are options of the
command line, and none of them is covered behaviorally by the same mapping. -/
def ValidEquivalent (key : CaseKey) (mapped asserted ids : List String) : Prop :=
  ids.Nodup ∧ ∀ id ∈ ids, key.driver = "cli" ∧ kindOf surfaces id = some .cliOption
    ∧ id ∉ asserted ∧ ∀ r ∈ mapped, id ∉ surfacesOf requirements r

/-- What the constructor knows of the three dictionaries. -/
structure MappingTables.Valid (cases : Dict CaseKey Behavior) (t : MappingTables) : Prop where
  mapping_case : ∀ key ∈ t.mapping.keys, key ∈ cases.keys
  assertion_keys : ∀ key, key ∈ t.surfaceAssertions.keys ↔ key ∈ t.mapping.keys
  equivalent_keys : ∀ key, key ∈ t.equivalentOptions.keys ↔ key ∈ t.mapping.keys
  mapped : ∀ key, ValidMapped requirements key (t.mapping.getD key [])
  asserted : ∀ key, ValidAsserted surfaces key (t.surfaceAssertions.getD key [])
  equivalent : ∀ key, ValidEquivalent surfaces requirements key (t.mapping.getD key [])
    (t.surfaceAssertions.getD key []) (t.equivalentOptions.getD key [])

variable {surfaces requirements}

theorem checkMapped_eq_ok {key : CaseKey} {id : String} {u : Unit}
    (h : checkMapped requirements key id = .ok u) :
    ∃ r, requirements.get? id = some r ∧ r.interface = key.driver
      ∧ (r.profile = "any" ∨ r.profile = key.profile) := by
  unfold checkMapped at h
  cases hget : requirements.get? id with
  | none => rw [hget] at h; cases h
  | some r =>
      rw [hget] at h
      have hok := raiseIf_eq_ok.mp h
      simp only [not_or, not_not, ne_eq] at hok
      exact ⟨r, rfl, hok.1, by simpa using hok.2⟩

theorem collectAssertions_valid {mapping : CoverageMapping} {ids : List String}
    (h : collectAssertions surfaces mapping = .ok ids) :
    ValidAsserted surfaces mapping.key ids := by
  obtain ⟨hnodup, hall⟩ := collectIds_eq_ok h
  refine ⟨hnodup, fun id hid => ?_⟩
  obtain ⟨assertion, _, rfl, haccepts⟩ := hall id hid
  have hany := (Bool.and_eq_true_iff.mp haccepts).1
  cases hkind : kindOf surfaces assertion.id with
  | none => rw [hkind] at hany; cases hany
  | some kind =>
      rw [hkind] at hany
      exact ⟨kind, by simpa using hany, rfl⟩

theorem collectEquivalents_valid {mapping : CoverageMapping} {asserted ids : List String}
    (h : collectEquivalents surfaces
      (asserted ++ mapping.requirements.flatMap (surfacesOf requirements)) mapping = .ok ids) :
    ValidEquivalent surfaces requirements mapping.key mapping.requirements asserted ids := by
  obtain ⟨hnodup, hall⟩ := collectIds_eq_ok h
  refine ⟨hnodup, fun id hid => ?_⟩
  obtain ⟨assertion, _, rfl, haccepts⟩ := hall id hid
  simp only [Bool.and_eq_true, decide_eq_true_eq, List.mem_append, List.mem_flatMap,
    not_or, not_exists, not_and] at haccepts
  obtain ⟨⟨⟨hdriver, hkind⟩, _⟩, hasserted, hmapped⟩ := haccepts
  exact ⟨hdriver, hkind, hasserted, hmapped⟩

/-- One turn of the loop keeps the tables valid: the new key is a case without an entry, and its
entries were checked just now. -/
theorem collectMapping_valid {cases : Dict CaseKey Behavior} {t t' : MappingTables}
    {mapping : CoverageMapping} (ht : t.Valid surfaces requirements cases)
    (h : collectMapping surfaces requirements cases t mapping = .ok t') :
    t'.Valid surfaces requirements cases := by
  obtain ⟨_, hkey, h⟩ := bind_eq_ok.mp h
  obtain ⟨_, _, h⟩ := bind_eq_ok.mp h
  obtain ⟨_, hnodup, h⟩ := bind_eq_ok.mp h
  obtain ⟨_, hmapped, h⟩ := bind_eq_ok.mp h
  obtain ⟨asserted, hasserted, h⟩ := bind_eq_ok.mp h
  obtain ⟨equivalents, hequivalents, h⟩ := bind_eq_ok.mp h
  cases h
  have hcase := raiseIf_eq_ok.mp hkey
  simp only [not_or, not_not] at hcase
  have hids : ValidMapped requirements mapping.key mapping.requirements :=
    ⟨not_not.mp (raiseIf_eq_ok.mp hnodup),
      fun id hid => checkMapped_eq_ok (forM_eq_ok.mp hmapped id hid)⟩
  refine ⟨fun key hk => ?_, fun key => ?_, fun key => ?_, fun key => ?_, fun key => ?_,
    fun key => ?_⟩
  · rcases (Dict.mem_keys_set _ _ _ _).mp hk with hk | rfl
    · exact ht.mapping_case key hk
    · exact hcase.1
  · rw [Dict.mem_keys_set, Dict.mem_keys_set, ht.assertion_keys]
  · rw [Dict.mem_keys_set, Dict.mem_keys_set, ht.equivalent_keys]
  all_goals by_cases hk : mapping.key = key
  · subst hk
    simpa [Dict.getD_set] using hids
  · simpa [Dict.getD_set, hk] using ht.mapped key
  · subst hk
    simpa [Dict.getD_set] using collectAssertions_valid hasserted
  · simpa [Dict.getD_set, hk] using ht.asserted key
  · subst hk
    simpa [Dict.getD_set] using collectEquivalents_valid hequivalents
  · simpa [Dict.getD_set, hk] using ht.equivalent key

theorem collectMappings_valid {cases : Dict CaseKey Behavior} {mappings : List CoverageMapping}
    {t : MappingTables} (h : collectMappings surfaces requirements cases mappings = .ok t) :
    t.Valid surfaces requirements cases := by
  refine foldlM_invariant (P := fun t => t.Valid surfaces requirements cases) ?_ ?_ h
  · refine ⟨fun key hk => ?_, fun key => Iff.rfl, fun key => Iff.rfl, fun key => ?_, fun key => ?_,
      fun key => ?_⟩
    · cases hk
    · exact ⟨List.nodup_nil, fun id hid => by cases hid⟩
    · exact ⟨List.nodup_nil, fun id hid => by cases hid⟩
    · exact ⟨List.nodup_nil, fun id hid => by cases hid⟩
  · intro t mapping t' _ ht hstep
    exact collectMapping_valid ht hstep

end Mappings

end FlatpakBlackbox
