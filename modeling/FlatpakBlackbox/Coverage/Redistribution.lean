import FlatpakBlackbox.Basic.Best
import FlatpakBlackbox.Coverage.Layout
import FlatpakBlackbox.Coverage.SameMaps

set_option autoImplicit false

/-! # Splitting the definition files

Two layouts of the same behaviors, mappings and requirements define the same model: the
constructor accepts both or neither, its dictionaries are equal up to the order of their entries,
and a report is summarized alike. Each collecting loop of the constructor is a loop whose steps
commute (`Commutes`), so only the multiset of the items matters.
-/

namespace FlatpakBlackbox

open PyLib PyException

/-! ## The collecting loops -/

section Loops

/-- `indexed` on reordered items. -/
theorem indexed_perm {α : Type} {label : String} {ident : α → String} {items items' : List α}
    (hperm : items.Perm items') {d : Dict String α} (h : indexed label ident items = .ok d) :
    ∃ d', indexed label ident items' = .ok d' ∧ d.Same d' := by
  obtain ⟨d', hd'⟩ : ∃ d', indexed label ident items' = .ok d' :=
    indexed_isOk_iff.mpr ((indexed_isOk_iff.mp ⟨d, h⟩).perm hperm)
  refine ⟨d', hd', fun key => Dict.get?_eq_of_perm ?_ key⟩
  rw [indexed_entries h, indexed_entries hd']
  exact hperm.map _

/-- The cases of a behavior. -/
def casesOf (behavior : Behavior) : List (CaseKey × Behavior) :=
  behavior.drivers.map fun driver => (⟨behavior.id, driver, behavior.profile⟩, behavior)

/-- The check and the assignment of the inner loop over the drivers. -/
def insertCase (cases : Dict CaseKey Behavior) (entry : CaseKey × Behavior) :
    Except PyException (Dict CaseKey Behavior) := do
  raiseIf (entry.1 ∈ cases.keys ∨ entry.1.driver ∉ interfaces)
    (valueError s!"invalid or duplicate case: {entry.1.text}")
  return cases.set entry.1 entry.2

theorem insertCase_eq_ok {cases cases' : Dict CaseKey Behavior} {entry : CaseKey × Behavior} :
    insertCase cases entry = .ok cases' ↔
      entry.1 ∉ cases.keys ∧ entry.1.driver ∈ interfaces ∧ cases' = cases.set entry.1 entry.2 := by
  unfold insertCase
  rw [bind_eq_ok]
  simp only [raiseIf_eq_ok, not_or, not_not, exists_const, and_assoc]
  refine and_congr_right fun _ => and_congr_right fun _ => ?_
  exact ⟨fun h => (Except.ok.inj h).symm, fun h => congrArg Except.ok h.symm⟩

theorem insertCase_commutes : Commutes Dict.Same insertCase where
  refl _ := fun _ => rfl
  trans h h' := h.trans h'
  congr entry hsame h := by
    obtain ⟨hnew, hdriver, rfl⟩ := insertCase_eq_ok.mp h
    rw [hsame.mem_keys_iff] at hnew
    exact ⟨_, insertCase_eq_ok.mpr ⟨hnew, hdriver, rfl⟩, hsame.set _ _⟩
  swap entry entry' h h' := by
    obtain ⟨hnew, hdriver, rfl⟩ := insertCase_eq_ok.mp h
    obtain ⟨hnew', hdriver', rfl⟩ := insertCase_eq_ok.mp h'
    rw [Dict.mem_keys_set, not_or] at hnew'
    refine ⟨_, _, insertCase_eq_ok.mpr ⟨hnew'.1, hdriver', rfl⟩,
      insertCase_eq_ok.mpr ⟨?_, hdriver, rfl⟩, Dict.set_comm _ _ (Ne.symm hnew'.2)⟩
    rw [Dict.mem_keys_set, not_or]
    exact ⟨hnew, Ne.symm hnew'.2⟩

/-- The behaviors that are executable. -/
def executables (behaviors : List Behavior) : List Behavior :=
  behaviors.filter fun behavior => behavior.scenario.isSome

/-- The loop over the behaviors is a loop over their cases. -/
theorem collectCases_eq_ok {behaviors : List Behavior} {cases : Dict CaseKey Behavior} :
    collectCases behaviors = .ok cases ↔
      (∀ behavior ∈ executables behaviors, behavior.profile ∈ profiles) ∧
        ((executables behaviors).flatMap casesOf).foldlM insertCase Dict.empty = .ok cases := by
  unfold collectCases executables
  generalize behaviors.filter _ = executables
  generalize Dict.empty = start
  induction executables generalizing start with
  | nil => simp
  | cons behavior rest ih =>
      rw [List.foldlM_cons, List.forall_mem_cons, List.flatMap_cons, List.foldlM_append]
      have hinner : behavior.drivers.foldlM (fun (cases : Dict CaseKey Behavior) driver => do
          let key : CaseKey := ⟨behavior.id, driver, behavior.profile⟩
          raiseIf (key ∈ cases.keys ∨ driver ∉ interfaces)
            (valueError s!"invalid or duplicate case: {key.text}")
          return cases.set key behavior) start = (casesOf behavior).foldlM insertCase start := by
        rw [casesOf, List.foldlM_map]
        rfl
      rw [hinner]
      simp only [bind_eq_ok, raiseIf_eq_ok, not_not, exists_const]
      constructor
      · rintro ⟨next, ⟨hprofile, hnext⟩, hrest⟩
        obtain ⟨hall, hloop⟩ := (ih next).mp hrest
        exact ⟨⟨hprofile, hall⟩, next, hnext, hloop⟩
      · rintro ⟨⟨hprofile, hall⟩, next, hnext, hloop⟩
        exact ⟨next, ⟨hprofile, hnext⟩, (ih next).mpr ⟨hall, hloop⟩⟩

theorem collectCases_perm {behaviors behaviors' : List Behavior}
    (hperm : behaviors.Perm behaviors') {cases : Dict CaseKey Behavior}
    (h : collectCases behaviors = .ok cases) :
    ∃ cases', collectCases behaviors' = .ok cases' ∧ cases.Same cases' := by
  obtain ⟨hprofiles, hloop⟩ := collectCases_eq_ok.mp h
  have hexecutables : (executables behaviors).Perm (executables behaviors') := hperm.filter _
  obtain ⟨cases', hcases', hsame⟩ :=
    insertCase_commutes.foldlM_perm (hexecutables.flatMap_right casesOf) hloop
  refine ⟨cases', collectCases_eq_ok.mpr ⟨fun behavior hbehavior => ?_, hcases'⟩, hsame⟩
  exact hprofiles behavior (hexecutables.mem_iff.mpr hbehavior)

/-- The tables with the entries of a mapping. -/
def MappingTables.add (t : MappingTables) (mapping : CoverageMapping)
    (asserted equivalents : List String) : MappingTables where
  mapping := t.mapping.set mapping.key mapping.requirements
  surfaceAssertions := t.surfaceAssertions.set mapping.key asserted
  equivalentOptions := t.equivalentOptions.set mapping.key equivalents

section Mappings

variable {surfaces : Dict String Surface} {requirements requirements' : Dict String Requirement}
  {cases cases' : Dict CaseKey Behavior}

/-- What the constructor checks of a mapping, whatever mappings came before. -/
structure MappingRow (surfaces : Dict String Surface) (requirements : Dict String Requirement)
    (cases : Dict CaseKey Behavior) (mapping : CoverageMapping)
    (asserted equivalents : List String) : Prop where
  case : mapping.key ∈ cases.keys
  rationale : mapping.rationale ≠ ""
  nodup : mapping.requirements.Nodup
  mapped : mapping.requirements.forM (checkMapped requirements mapping.key) = .ok ()
  assertions : collectAssertions surfaces mapping = .ok asserted
  options : collectEquivalents surfaces
    (asserted ++ mapping.requirements.flatMap (surfacesOf requirements)) mapping = .ok equivalents

theorem collectMapping_eq_ok {t t' : MappingTables} {mapping : CoverageMapping} :
    collectMapping surfaces requirements cases t mapping = .ok t' ↔
      ∃ asserted equivalents, MappingRow surfaces requirements cases mapping asserted equivalents ∧
        mapping.key ∉ t.mapping.keys ∧ t' = t.add mapping asserted equivalents := by
  constructor
  · intro h
    obtain ⟨_, hkey, h⟩ := bind_eq_ok.mp h
    obtain ⟨_, hrationale, h⟩ := bind_eq_ok.mp h
    obtain ⟨_, hnodup, h⟩ := bind_eq_ok.mp h
    obtain ⟨_, hmapped, h⟩ := bind_eq_ok.mp h
    obtain ⟨asserted, hasserted, h⟩ := bind_eq_ok.mp h
    obtain ⟨equivalents, hequivalents, h⟩ := bind_eq_ok.mp h
    have hnew := raiseIf_eq_ok.mp hkey
    rw [not_or, not_not] at hnew
    refine ⟨asserted, equivalents, ⟨hnew.1, raiseIf_eq_ok.mp hrationale,
      not_not.mp (raiseIf_eq_ok.mp hnodup), hmapped, hasserted, hequivalents⟩, hnew.2, ?_⟩
    exact (Except.ok.inj h).symm
  · rintro ⟨asserted, equivalents, hrow, hnew, rfl⟩
    refine bind_eq_ok.mpr ⟨(), raiseIf_of_not ?_, bind_eq_ok.mpr ⟨(), raiseIf_of_not hrow.rationale,
      bind_eq_ok.mpr ⟨(), raiseIf_of_not (not_not.mpr hrow.nodup), bind_eq_ok.mpr
        ⟨(), hrow.mapped, bind_eq_ok.mpr ⟨asserted, hrow.assertions, bind_eq_ok.mpr
          ⟨equivalents, hrow.options, rfl⟩⟩⟩⟩⟩⟩
    rw [not_or, not_not]
    exact ⟨hrow.case, hnew⟩

theorem collectMapping_commutes :
    Commutes MappingTables.Same (collectMapping surfaces requirements cases) where
  refl _ := ⟨fun _ => rfl, fun _ => rfl, fun _ => rfl⟩
  trans h h' := ⟨h.mapping.trans h'.mapping, h.surfaceAssertions.trans h'.surfaceAssertions,
    h.equivalentOptions.trans h'.equivalentOptions⟩
  congr mapping hsame h := by
    obtain ⟨asserted, equivalents, hrow, hnew, rfl⟩ := collectMapping_eq_ok.mp h
    rw [hsame.mapping.mem_keys_iff] at hnew
    exact ⟨_, collectMapping_eq_ok.mpr ⟨asserted, equivalents, hrow, hnew, rfl⟩,
      hsame.mapping.set _ _, hsame.surfaceAssertions.set _ _, hsame.equivalentOptions.set _ _⟩
  swap mapping mapping' h h' := by
    obtain ⟨asserted, equivalents, hrow, hnew, rfl⟩ := collectMapping_eq_ok.mp h
    obtain ⟨asserted', equivalents', hrow', hnew', rfl⟩ := collectMapping_eq_ok.mp h'
    have hkeys : mapping'.key ∉ (Dict.set _ mapping.key mapping.requirements).keys := hnew'
    rw [Dict.mem_keys_set, not_or] at hkeys
    have hne : mapping.key ≠ mapping'.key := Ne.symm hkeys.2
    refine ⟨_, _, collectMapping_eq_ok.mpr ⟨asserted', equivalents', hrow', hkeys.1, rfl⟩,
      collectMapping_eq_ok.mpr ⟨asserted, equivalents, hrow, ?_, rfl⟩, Dict.set_comm _ _ hne,
      Dict.set_comm _ _ hne, Dict.set_comm _ _ hne⟩
    show mapping.key ∉ (Dict.set _ mapping'.key mapping'.requirements).keys
    rw [Dict.mem_keys_set, not_or]
    exact ⟨hnew, hne⟩

theorem MappingRow.congr {mapping : CoverageMapping} {asserted equivalents : List String}
    (h : MappingRow surfaces requirements cases mapping asserted equivalents)
    (hrequirements : requirements.Same requirements') (hcases : cases.Same cases') :
    MappingRow surfaces requirements' cases' mapping asserted equivalents where
  case := (hcases.mem_keys_iff _).mp h.case
  rationale := h.rationale
  nodup := h.nodup
  mapped := by
    have hsame : checkMapped requirements' mapping.key = checkMapped requirements mapping.key := by
      funext id
      rw [checkMapped, checkMapped, hrequirements id]
    rw [hsame]
    exact h.mapped
  assertions := h.assertions
  options := by
    have hsame : surfacesOf requirements' = surfacesOf requirements := by
      funext id
      rw [surfacesOf, surfacesOf, hrequirements id]
    rw [hsame]
    exact h.options

/-- The tables of reordered mappings, over reordered requirements and cases. -/
theorem collectMappings_perm {mappings mappings' : List CoverageMapping}
    (hperm : mappings.Perm mappings') (hrequirements : requirements.Same requirements')
    (hcases : cases.Same cases') {t : MappingTables}
    (h : collectMappings surfaces requirements cases mappings = .ok t) :
    ∃ t', collectMappings surfaces requirements' cases' mappings' = .ok t' ∧ t.Same t' := by
  obtain ⟨t', ht', hsame⟩ := collectMapping_commutes.foldlM_perm hperm h
  have hstep : ∀ {s u mapping}, collectMapping surfaces requirements cases s mapping = .ok u →
      collectMapping surfaces requirements' cases' s mapping = .ok u := by
    intro s u mapping hstep
    obtain ⟨asserted, equivalents, hrow, hnew, rfl⟩ := collectMapping_eq_ok.mp hstep
    exact collectMapping_eq_ok.mpr
      ⟨asserted, equivalents, hrow.congr hrequirements hcases, hnew, rfl⟩
  exact ⟨t', foldlM_mono hstep ht', hsame⟩

end Mappings

end Loops

/-! ## Requirements of both interfaces -/

section

variable {Bytes : Type} [UnicodeDatabase] {rt : Runtime Bytes} {tree tree' : FileTree Bytes}

theorem Layout.of_collectRequirements (layout : Layout rt tree) {surfaces : Dict String Surface}
    {result : List Requirement × List String}
    (h : collectRequirements rt tree surfaces = .ok result) :
    (∀ interface ∈ interfaces, ∀ item ∈ layout.requirements interface,
      TypeHint.requirement.Accepts item ∧
        checkRequirement surfaces interface (Requirement.ofValue item) = .ok ()) ∧
    result.1 = (interfaces.flatMap layout.requirements).map Requirement.ofValue := by
  obtain ⟨read, hread, h⟩ := bind_eq_ok.mp h
  obtain rfl := Except.ok.inj h
  refine ⟨fun interface hinterface => ?_, ?_⟩
  · obtain ⟨_, _, hok⟩ := exists_mem_of_mapM hread hinterface
    exact (layout.of_readInterface hinterface hok).1
  · have hmap : read.map Prod.fst =
        interfaces.map fun interface => (layout.requirements interface).map Requirement.ofValue :=
      mapM_map_eq_ok hread fun interface hinterface _ hok =>
        (layout.of_readInterface hinterface hok).2
    show (read.map Prod.fst).flatten = _
    rw [hmap, List.map_flatMap, List.flatMap_def]

theorem Layout.collectRequirements_isOk (layout : Layout rt tree) {surfaces : Dict String Surface}
    (hall : ∀ interface ∈ interfaces, ∀ item ∈ layout.requirements interface,
      TypeHint.requirement.Accepts item ∧
        checkRequirement surfaces interface (Requirement.ofValue item) = .ok ())
    (hdistinct : DistinctIds Value.ident (interfaces.flatMap layout.requirements)) :
    ∃ result, collectRequirements rt tree surfaces = .ok result := by
  obtain ⟨read, hread⟩ : ∃ read, interfaces.mapM (readInterface rt tree surfaces) = .ok read := by
    refine mapM_isOk fun interface hinterface => ?_
    refine layout.readInterface_isOk hinterface (hall interface hinterface) (hdistinct.sublist ?_)
    rw [List.flatMap_def]
    exact List.sublist_flatten_of_mem (List.mem_map_of_mem hinterface)
  exact ⟨_, bind_eq_ok.mpr ⟨read, hread, rfl⟩⟩

/-! ## Redistributed items -/

/-- The same items, distributed in any way. -/
structure Layout.SameItems (layout : Layout rt tree) (layout' : Layout rt tree') : Prop where
  behaviors : layout.behaviors.Perm layout'.behaviors
  mappings : layout.mappings.Perm layout'.mappings
  requirements : ∀ interface ∈ interfaces,
    (layout.requirements interface).Perm (layout'.requirements interface)

theorem Layout.SameItems.symm {layout : Layout rt tree} {layout' : Layout rt tree'}
    (h : layout.SameItems layout') : layout'.SameItems layout where
  behaviors := h.behaviors.symm
  mappings := h.mappings.symm
  requirements interface hinterface := (h.requirements interface hinterface).symm

/-- The modules of the handlers are files of the suite. -/
def Layout.HandlersExist (layout : Layout rt tree) : Prop :=
  ∀ item ∈ layout.behaviors, ∀ parsed, parseBehavior item "" = .ok parsed →
    ∀ handler, (Behavior.ofValue parsed).handler = some handler →
      handlerPath handler ∈ tree.files.keys

omit [UnicodeDatabase] in
/-- Every case is one of a behavior. -/
theorem mem_of_collectCases {behaviors : List Behavior} {cases : Dict CaseKey Behavior}
    (h : collectCases behaviors = .ok cases) :
    ∀ key behavior, cases.get? key = some behavior → behavior ∈ behaviors := by
  refine foldlM_invariant (P := fun cases : Dict CaseKey Behavior =>
    ∀ key behavior, cases.get? key = some behavior → behavior ∈ behaviors) ?_ ?_
    (collectCases_eq_ok.mp h).2
  · intro key behavior hget
    cases hget
  · intro cases entry cases' hmem hcases hstep key behavior hget
    obtain ⟨_, _, rfl⟩ := insertCase_eq_ok.mp hstep
    rw [Dict.get?_set] at hget
    split at hget
    · obtain rfl := Option.some.inj hget
      obtain ⟨behavior, hbehavior, hentry⟩ := List.mem_flatMap.mp hmem
      obtain ⟨driver, _, rfl⟩ := List.mem_map.mp hentry
      exact List.mem_of_mem_filter hbehavior
    · exact hcases key behavior hget

omit [UnicodeDatabase] in
/-- A snapshot is taken while every path it names is a file. -/
theorem snapshot_isOk {cases : Dict CaseKey Behavior}
    (h : ∀ path ∈ snapshotPaths tree cases, path ∈ tree.files.keys) (commit : String) :
    ∃ d, snapshot rt tree cases commit = .ok d := by
  obtain ⟨hashes, hhashes⟩ := mapM_isOk (l := snapshotPaths tree cases) (f := fun path => do
      let bytes ← tree.read path
      return ("/".intercalate path, rt.sha256 bytes)) fun path hpath => by
    obtain ⟨bytes, hbytes⟩ := (Dict.mem_keys_iff _ _).mp (h path hpath)
    exact ⟨_, hash_eq_ok.mpr ⟨bytes, hbytes, rfl⟩⟩
  exact ⟨_, bind_eq_ok.mpr ⟨hashes, hhashes, rfl⟩⟩

/-- The snapshot of a plain suite whose handlers exist. -/
theorem LoadsCases.snapshot_isOk {layout : Layout rt tree} {behaviors : List Behavior}
    {mappings : List CoverageMapping} (h : LoadsCases layout behaviors mappings)
    (hplain : tree.Plain) (hhandlers : layout.HandlersExist) {cases : Dict CaseKey Behavior}
    (hcases : collectCases behaviors = .ok cases) (commit : String) :
    ∃ d, snapshot rt tree cases commit = .ok d := by
  refine FlatpakBlackbox.snapshot_isOk (fun path hpath => ?_) commit
  rcases mem_snapshotPaths.mp hpath with rfl | ⟨hentry, hpath⟩ | ⟨key, case, handler, hcase,
    hhandler, rfl⟩
  · obtain ⟨_, hload, _⟩ := layout.holdsInventory
    exact mem_keys_of_loadJson hload
  · exact hplain path hentry hpath
  · obtain ⟨parsed, hparsed, _, rfl⟩ := h.parsed
    obtain ⟨value, hvalue, rfl⟩ := List.mem_map.mp (mem_of_collectCases hcases key case hcase)
    obtain ⟨item, hitem, hparse⟩ := exists_of_mem_mapM hparsed hvalue
    exact hhandlers item hitem value hparse handler hhandler

namespace Layout.SameItems

variable {layout : Layout rt tree} {layout' : Layout rt tree'} (hitems : layout.SameItems layout')

include hitems

theorem exists_requirements {surfaces : Dict String Surface}
    {read : List Requirement × List String} {requirements : Dict String Requirement}
    (hread : collectRequirements rt tree surfaces = .ok read)
    (hrequirements : indexed "requirement" Requirement.id read.1 = .ok requirements) :
    ∃ read' requirements', collectRequirements rt tree' surfaces = .ok read' ∧
      indexed "requirement" Requirement.id read'.1 = .ok requirements' ∧
      requirements.Same requirements' := by
  obtain ⟨hchecked, hlist⟩ := layout.of_collectRequirements hread
  have hperm : (interfaces.flatMap layout.requirements).Perm
      (interfaces.flatMap layout'.requirements) := List.Perm.flatMap_left _ hitems.requirements
  have hids : DistinctIds Value.ident (interfaces.flatMap layout.requirements) := by
    have hids : DistinctIds Requirement.id read.1 := indexed_isOk_iff.mp ⟨_, hrequirements⟩
    rw [hlist] at hids
    have hvalues : DistinctIds (fun item => (Requirement.ofValue item).id)
        (interfaces.flatMap layout.requirements) := distinctIds_map.mp hids
    exact hvalues
  have hchecked' : ∀ interface ∈ interfaces, ∀ item ∈ layout'.requirements interface,
      TypeHint.requirement.Accepts item ∧
        checkRequirement surfaces interface (Requirement.ofValue item) = .ok () :=
    fun interface hinterface item hitem => hchecked interface hinterface item
      ((hitems.requirements interface hinterface).mem_iff.mpr hitem)
  obtain ⟨read', hread'⟩ := layout'.collectRequirements_isOk hchecked' (hids.perm hperm)
  obtain ⟨_, hlist'⟩ := layout'.of_collectRequirements hread'
  have hlists : read.1.Perm read'.1 := by
    rw [hlist, hlist']
    exact hperm.map _
  obtain ⟨requirements', hrequirements', hsame⟩ := indexed_perm hlists hrequirements
  exact ⟨read', requirements', hread', hrequirements', hsame⟩

theorem exists_loads (hplain : tree'.Plain) {behaviors : List Behavior}
    {mappings : List CoverageMapping}
    (hbehaviors : loadBehaviors rt tree = .ok behaviors)
    (hmappings : loadMappings rt tree = .ok mappings) :
    ∃ behaviors' mappings', loadBehaviors rt tree' = .ok behaviors' ∧
      loadMappings rt tree' = .ok mappings' ∧ behaviors.Perm behaviors' ∧
      mappings.Perm mappings' := by
  obtain ⟨⟨parsed, hparsed, hdistinct, rfl⟩, haccepted, rfl⟩ :=
    layout.of_load hbehaviors hmappings
  obtain ⟨parsed', hparsed', hperm⟩ := mapM_perm hitems.behaviors hparsed
  obtain ⟨⟨behaviors', hbehaviors'⟩, ⟨mappings', hmappings'⟩⟩ := layout'.load_isOk hplain hparsed'
    (hdistinct.perm hperm) fun item hitem => haccepted item (hitems.mappings.mem_iff.mpr hitem)
  obtain ⟨⟨other, hother, _, rfl⟩, _, rfl⟩ := layout'.of_load hbehaviors' hmappings'
  obtain rfl := Except.ok.inj (hparsed'.symm.trans hother)
  exact ⟨_, _, hbehaviors', hmappings', hperm.map _, hitems.mappings.map _⟩

/-- **A redistributed suite is accepted**, with the same dictionaries. -/
theorem exists_builtFrom (hsurfaces : tree.files.get? ["coverage-data", "surfaces.json"] =
      tree'.files.get? ["coverage-data", "surfaces.json"])
    (hplain : tree'.Plain) (hhandlers : layout'.HandlersExist) {m : ModelData} {loaded : Loaded}
    (h : m.BuiltFrom rt tree loaded) :
    ∃ (m' : ModelData) (loaded' : Loaded), m'.BuiltFrom rt tree' loaded' ∧ m.SameMaps m' := by
  obtain ⟨read', requirements', hread', hrequirements', hsameRequirements⟩ :=
    hitems.exists_requirements h.read h.requirements
  obtain ⟨behaviors', mappings', hbehaviors', hmappings', hperm, hpermMappings⟩ :=
    hitems.exists_loads hplain h.behaviors h.mappings
  obtain ⟨d, hd⟩ := h.distinct
  obtain ⟨d', hd', _⟩ := indexed_perm hperm hd
  obtain ⟨cases', hcases', hsameCases⟩ := collectCases_perm hperm h.cases
  obtain ⟨t', ht', hsameTables⟩ :=
    collectMappings_perm hpermMappings hsameRequirements hsameCases h.tables
  obtain ⟨definition', hdefinition'⟩ :=
    (layout'.of_load hbehaviors' hmappings').snapshot_isOk hplain hhandlers hcases' loaded.commit
  have hcatalogue := (loadCatalogue_agree hsurfaces).eq_ok h.catalogue
  refine ⟨⟨t', m.surfaces, requirements', cases', _, definition'⟩,
    ⟨loaded.catalogue, read'.1, read'.2, behaviors', mappings'⟩,
    ⟨hcatalogue, h.surfaces, hread', hrequirements', hbehaviors', ⟨d', hd'⟩, hcases', hmappings',
      ht', hdefinition', rfl⟩, rfl, hsameRequirements, hsameCases, hsameTables⟩

end Layout.SameItems

/-- **Splitting the definition files changes nothing.** Two suites with the same catalogue of
surfaces, whose handlers exist and in which no directory has the name of a hashed file, hold the
same behaviors, mappings and requirements in any documents. The constructor accepts both or neither;
the dictionaries of the two models are equal as maps; and a report, recorded for the definition of
each, gets a summary from both or from neither, with the same metrics, evidence and lists. -/
theorem redistribution (rt : Runtime Bytes) (tree tree' : FileTree Bytes) (layout : Layout rt tree)
    (layout' : Layout rt tree') (hitems : layout.SameItems layout')
    (hsurfaces : tree.files.get? ["coverage-data", "surfaces.json"] =
      tree'.files.get? ["coverage-data", "surfaces.json"])
    (hhandlers : layout.HandlersExist) (hhandlers' : layout'.HandlersExist)
    (hplain : tree.Plain) (hplain' : tree'.Plain) :
    ((∃ m, CoverageModel.init rt tree = .ok m) ↔ ∃ m', CoverageModel.init rt tree' = .ok m') ∧
    ∀ m m', CoverageModel.init rt tree = .ok m → CoverageModel.init rt tree' = .ok m' →
      m.SameMaps m'.toModelData ∧ ∀ value,
        ((∃ s, m.summarize rt tree (some (m.carrying value)) = .ok s) ↔
          ∃ s', m'.summarize rt tree' (some (m'.carrying value)) = .ok s') ∧
        ∀ s s', m.summarize rt tree (some (m.carrying value)) = .ok s →
          m'.summarize rt tree' (some (m'.carrying value)) = .ok s' → s.Alike s' := by
  -- The items decide: where one suite is accepted, so is the other, with the same maps.
  have hforth : ∀ m, CoverageModel.init rt tree = .ok m →
      ∃ m' : CoverageModel, CoverageModel.init rt tree' = .ok m' ∧ m.SameMaps m'.toModelData := by
    intro m hm
    obtain ⟨loaded, hbuilt⟩ := CoverageModel.init_eq_ok.mp hm
    obtain ⟨m', loaded', hbuilt', hsame⟩ :=
      hitems.exists_builtFrom hsurfaces hplain' hhandlers' hbuilt
    exact ⟨⟨m', hbuilt'.valid⟩, CoverageModel.init_eq_ok.mpr ⟨loaded', hbuilt'⟩, hsame⟩
  have hback : ∀ m', CoverageModel.init rt tree' = .ok m' →
      ∃ m : CoverageModel, CoverageModel.init rt tree = .ok m := by
    intro m' hm'
    obtain ⟨loaded', hbuilt'⟩ := CoverageModel.init_eq_ok.mp hm'
    obtain ⟨m, loaded, hbuilt, _⟩ :=
      hitems.symm.exists_builtFrom hsurfaces.symm hplain hhandlers hbuilt'
    exact ⟨⟨m, hbuilt.valid⟩, CoverageModel.init_eq_ok.mpr ⟨loaded, hbuilt⟩⟩
  refine ⟨⟨fun ⟨m, hm⟩ => ?_, fun ⟨m', hm'⟩ => hback m' hm'⟩, fun m m' hm hm' => ?_⟩
  · obtain ⟨m', hm', _⟩ := hforth m hm
    exact ⟨m', hm'⟩
  · obtain ⟨other, hother, hsame⟩ := hforth m hm
    obtain rfl := Except.ok.inj (hother.symm.trans hm')
    have hfiles := CoverageModel.snapshot_of_init hm
    have hfiles' := CoverageModel.snapshot_of_init hm'
    have halike : ∀ value s, m.summarize rt tree (some (m.carrying value)) = .ok s →
        ∃ s', other.summarize rt tree' (some (other.carrying value)) = .ok s' ∧ s.Alike s' :=
      fun value s hs => hsame.summarize_carrying m.valid other.valid hfiles hfiles' hs
    refine ⟨hsame, fun value => ⟨⟨fun ⟨s, hs⟩ => ?_, fun ⟨s', hs'⟩ => ?_⟩, fun s s' hs hs' => ?_⟩⟩
    · obtain ⟨s', hs', _⟩ := halike value s hs
      exact ⟨s', hs'⟩
    · obtain ⟨s, hs, _⟩ :=
        hsame.symm.summarize_carrying other.valid m.valid hfiles' hfiles hs'
      exact ⟨s, hs⟩
    · obtain ⟨s'', hs'', halike⟩ := halike value s hs
      obtain rfl := Except.ok.inj (hs''.symm.trans hs')
      exact halike

end

/-! ## The small suite in pieces -/

/-- The requirement `cli.run`. -/
def smallRequirement : Value := .dict [("id", .str "cli.run"), ("interface", .str "cli"),
  ("profile", .str "user"), ("category", .str "run"), ("description", .str "runs"),
  ("sources", .list [.dict [("path", .str "doc"), ("anchor", .str "run")]]),
  ("surfaces", .list [.str "cli.command.run"]), ("required_capabilities", .list [.str "cli"])]

/-- The mapping of the case `run`. -/
def smallMapping : Value := .dict [("behavior_id", .str "run"),
  ("driver", .str "cli"), ("profile", .str "user"), ("requirements", .list [.str "cli.run"]),
  ("rationale", .str "runs"), ("equivalent_options", .list [
    .dict [("id", .str "cli.option.run.--verbose"), ("rationale", .str "default")]])]

/-- The small suite, where the case `run` stands in a scenario group with its mapping, and the
requirement in a shard. The group lies in a directory `deep`, or in one that has the name of a
document. -/
def splitSuite (named : Bool) : FileTree Value where
  root := ["suite"]
  files := {
    entries := [
      (["inventory.json"], .dict [("schema", .int 1), ("behaviors", .list [smallBehavior "list"])]),
      (["coverage-data", "surfaces.json"],
        ((smallSuite "cli.option.run.--verbose").files.get? ["coverage-data", "surfaces.json"]).getD
          .none),
      (["coverage-data", "cli-requirements.json"], .dict [("schema", .int 1),
        ("scope", .str "cli"), ("limitations", .list []), ("requirements", .list []),
        ("includes", .list [.str "cli/run.json"])]),
      (["coverage-data", "cli", "run.json"], .dict [("schema", .int 1), ("scope", .str "cli"),
        ("limitations", .list []), ("requirements", .list [smallRequirement])]),
      (["coverage-data", "library-requirements.json"], .dict [("schema", .int 1),
        ("scope", .str "library"), ("limitations", .list []), ("requirements", .list [])]),
      (["coverage-data", "mapping.json"], .dict [("schema", .int 1), ("cases", .list [])]),
      (["scenario-data", if named then "deep.json" else "deep", "run.json"],
        .dict [("schema", .int 1),
        ("behaviors", .list [smallBehavior "run"]), ("mappings", .list [smallMapping])])]
    nodup := by
      show List.Nodup [["inventory.json"], ["coverage-data", "surfaces.json"],
        ["coverage-data", "cli-requirements.json"], ["coverage-data", "cli", "run.json"],
        ["coverage-data", "library-requirements.json"], ["coverage-data", "mapping.json"],
        ["scenario-data", if named then "deep.json" else "deep", "run.json"]]
      cases named <;> decide }
  wellFormed := by
    show ∀ path ∈ [["inventory.json"], ["coverage-data", "surfaces.json"],
      ["coverage-data", "cli-requirements.json"], ["coverage-data", "cli", "run.json"],
      ["coverage-data", "library-requirements.json"], ["coverage-data", "mapping.json"],
      ["scenario-data", if named then "deep.json" else "deep", "run.json"]],
      path ≠ [] ∧ path.all isComponent = true
    cases named <;> decide

section

local instance : UnicodeDatabase := asciiOnly

/-- Where the small suite keeps its items. -/
def smallLayout : Layout jsonRuntime (smallSuite "cli.option.run.--verbose") where
  inventory := [smallBehavior "list", smallBehavior "run"]
  groups := []
  mapping := [smallMapping]
  index interface := if interface = "cli" then [smallRequirement] else []
  shards _ := []
  holdsInventory := ⟨_, rfl, rfl, exists_of_isOk (by decide +kernel)⟩
  holdsGroups := by
    have hgroups : groupFiles (smallSuite "cli.option.run.--verbose") = [] := rfl
    rw [hgroups]
    exact .nil
  holdsMappings := ⟨_, rfl, rfl, exists_of_isOk (by decide +kernel)⟩
  holdsIndex interface hinterface := by
    refine ⟨none, ?_, rfl, List.nodup_nil, fun _ hshard => absurd hshard List.not_mem_nil⟩
    rcases List.mem_cons.mp hinterface with rfl | hinterface
    · exact ⟨_, rfl, rfl, _, rfl, rfl, rfl⟩
    · obtain rfl := List.mem_singleton.mp hinterface
      exact ⟨_, rfl, rfl, _, rfl, rfl, rfl⟩

/-- Where the suite in pieces keeps them. -/
def splitLayout (named : Bool) : Layout jsonRuntime (splitSuite named) where
  inventory := [smallBehavior "list"]
  groups := [([smallBehavior "run"], [smallMapping])]
  mapping := []
  index _ := []
  shards interface :=
    if interface = "cli" then [(["coverage-data", "cli", "run.json"], [smallRequirement])] else []
  holdsInventory := ⟨_, rfl, rfl, exists_of_isOk (by decide +kernel)⟩
  holdsGroups := by
    have hgroups : groupFiles (splitSuite named) =
        [["scenario-data", if named then "deep.json" else "deep", "run.json"]] := by
      cases named <;> decide +kernel
    rw [hgroups]
    refine .cons ?_ .nil
    cases named <;> exact ⟨_, rfl, rfl, rfl, exists_of_isOk (by decide +kernel)⟩
  holdsMappings := ⟨_, rfl, rfl, exists_of_isOk (by decide +kernel)⟩
  holdsIndex interface hinterface := by
    rcases List.mem_cons.mp hinterface with rfl | hinterface
    · refine ⟨some ["cli/run.json"], ⟨_, rfl, rfl, _, rfl, rfl, rfl⟩,
        eq_ok_of_toOption (by cases named <;> decide +kernel), by decide, fun shard hshard => ?_⟩
      obtain rfl := List.mem_singleton.mp hshard
      exact ⟨_, rfl, rfl, _, rfl, rfl, rfl⟩
    · obtain rfl := List.mem_singleton.mp hinterface
      exact ⟨none, ⟨_, rfl, rfl, _, rfl, rfl, rfl⟩, rfl, List.nodup_nil,
        fun _ hshard => absurd hshard List.not_mem_nil⟩

/-- The behaviors of the small suite have no handlers. -/
theorem handlersExist_of_small {tree : FileTree Value} {layout : Layout jsonRuntime tree}
    (h : ∀ item ∈ layout.behaviors, item = smallBehavior "list" ∨ item = smallBehavior "run") :
    layout.HandlersExist := by
  intro item hitem parsed hparsed handler hhandler
  have hnone : (parseBehavior item "").toOption.all
      (fun parsed => (Behavior.ofValue parsed).handler = none) = true := by
    rcases h item hitem with rfl | rfl
    · decide +kernel
    · decide +kernel
  rw [hparsed] at hnone
  simp [Except.toOption, hhandler] at hnone

theorem sameItems_small (named : Bool) : smallLayout.SameItems (splitLayout named) := by
  refine ⟨List.Perm.refl _, List.Perm.refl _, fun interface hinterface => ?_⟩
  rcases List.mem_cons.mp hinterface with rfl | hinterface
  · exact List.Perm.refl _
  · obtain rfl := List.mem_singleton.mp hinterface
    exact List.Perm.refl _

theorem handlersExist_small : smallLayout.HandlersExist := handlersExist_of_small (by
  show ∀ item ∈ [smallBehavior "list", smallBehavior "run"], _
  simp)

theorem handlersExist_split (named : Bool) : (splitLayout named).HandlersExist :=
  handlersExist_of_small (by
    show ∀ item ∈ [smallBehavior "list", smallBehavior "run"], _
    simp)

/-- A suite is plain when its directories are, by name. -/
theorem plain_of_directories {tree : FileTree Value} (h : ∀ path ∈ tree.directories,
    ∀ suffix ∈ [".json", ".py", ".sh", ".c", ".h"], endsWith (FileTree.name path) suffix = false) :
    tree.Plain := by
  intro path hpath hhashed
  refine (FileTree.mem_entries.mp hpath).resolve_right fun hdirectory => ?_
  have hnone := h path hdirectory
  have hci : ∀ suffix ∈ [".py", ".sh"], suffix ∈ [".py", ".sh", ".c", ".h"] := by decide
  have hown : ∀ suffix ∈ [".py", ".c", ".h"], suffix ∈ [".py", ".sh", ".c", ".h"] := by decide
  rcases hhashed with rfl | ⟨_, _, _, _, hname⟩ | ⟨_, suffix, hsuffix, hname⟩ |
    ⟨_, suffix, hsuffix, hname, _⟩
  · exact absurd (hnone ".json" (by decide)) (by decide)
  · rw [hnone ".json" (by decide)] at hname
    cases hname
  · rw [hnone suffix (List.mem_cons_of_mem _ (hci suffix hsuffix))] at hname
    cases hname
  · rw [hnone suffix (List.mem_cons_of_mem _ (hown suffix hsuffix))] at hname
    cases hname

/-- The theorem on the small suite: in pieces it defines the same model. -/
theorem redistribution_small : ∃ m m' : CoverageModel,
    smallInit "cli.option.run.--verbose" = .ok m ∧
      @CoverageModel.init Value asciiOnly jsonRuntime (splitSuite false) = .ok m' ∧
      m.SameMaps m'.toModelData := by
  obtain ⟨m, hinit, _⟩ := small_verbose
  obtain ⟨haccepts, hsame⟩ := redistribution jsonRuntime (smallSuite "cli.option.run.--verbose")
    (splitSuite false) smallLayout (splitLayout false) (sameItems_small false) rfl
    handlersExist_small (handlersExist_split false) (plain_of_directories (by decide +kernel))
    (plain_of_directories (by decide +kernel))
  obtain ⟨m', hinit'⟩ := haccepts.mp ⟨m, hinit⟩
  exact ⟨m, m', hinit, hinit', (hsame m m' hinit hinit').1⟩

/-- In a directory that has the name of a document, the scenario group is lost with the suite: the
glob yields the directory, and it cannot be read. -/
theorem redistribution_fails_small : smallLayout.SameItems (splitLayout true) ∧
    (smallSuite "cli.option.run.--verbose").files.get? ["coverage-data", "surfaces.json"] =
      (splitSuite true).files.get? ["coverage-data", "surfaces.json"] ∧
    smallLayout.HandlersExist ∧ (splitLayout true).HandlersExist ∧
      (∃ m, smallInit "cli.option.run.--verbose" = .ok m) ∧
      ¬ ∃ m', @CoverageModel.init Value asciiOnly jsonRuntime (splitSuite true) = .ok m' := by
  obtain ⟨m, hinit, _⟩ := small_verbose
  refine ⟨sameItems_small true, rfl, handlersExist_small, handlersExist_split true, ⟨m, hinit⟩, ?_⟩
  rintro ⟨m', hinit'⟩
  -- An accepted suite is plain, and this one has a directory with a hashed name.
  have hplain : (splitSuite true).Plain := plain_of_snapshot (CoverageModel.snapshot_of_init hinit')
  have hkey := hplain ["scenario-data", "deep.json"] (by decide +kernel)
    (.inr (.inl ⟨"scenario-data", by decide, by decide, by decide, by decide⟩))
  exact absurd hkey (by decide +kernel)

end

end FlatpakBlackbox
