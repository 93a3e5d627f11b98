import FlatpakBlackbox.Coverage.Redistribution
import FlatpakBlackbox.Runner.Main

set_option autoImplicit false

/-! # The suite of a run

A suite is what `load_behaviors` and `CoverageModel` read from the same files (`Suite.load`). The
cases that `main` sets up are then the cases of the coverage model: the gate finds the definition
of every case, and the report has a result for each of them.
-/

namespace FlatpakBlackbox

namespace Runner

open PyLib PyException

section Load

variable {Bytes : Type} [UnicodeDatabase]

/-- The coverage model is built from the behaviors that `load_behaviors` returns. -/
theorem suite_of_init {rt : Runtime Bytes} {tree : FileTree Bytes} {inventory : List Behavior}
    {model : CoverageModel} (hinventory : loadBehaviors rt tree = .ok inventory)
    (hmodel : CoverageModel.init rt tree = .ok model) :
    (inventory.map Behavior.id).Nodup ∧ collectCases inventory = .ok model.cases := by
  obtain ⟨loaded, h⟩ := CoverageModel.init_eq_ok.mp hmodel
  obtain rfl := Except.ok.inj (hinventory.symm.trans h.behaviors)
  exact ⟨(indexed_isOk_iff.mp h.distinct).2, h.cases⟩

/-- The definitions `main` reads before it parses its arguments. -/
def Suite.load (rt : Runtime Bytes) (tree : FileTree Bytes) : Except PyException Suite := do
  let inventory ← withProof (loadBehaviors rt tree)
  let model ← withProof (CoverageModel.init rt tree)
  return {
    inventory := inventory.1
    model := model.1.toModelData
    distinct := (suite_of_init inventory.2 model.2).1
    cases := (suite_of_init inventory.2 model.2).2 }

theorem Suite.load_eq_ok {rt : Runtime Bytes} {tree : FileTree Bytes} {suite : Suite} :
    Suite.load rt tree = .ok suite ↔ loadBehaviors rt tree = .ok suite.inventory
      ∧ ∃ model, CoverageModel.init rt tree = .ok model ∧ suite.model = model.toModelData := by
  unfold Suite.load
  simp only [bind_eq_ok]
  constructor
  · rintro ⟨inventory, hinventory, model, hmodel, h⟩
    obtain rfl := Except.ok.inj h
    exact ⟨inventory.2, model.1, model.2, rfl⟩
  · rintro ⟨hinventory, model, hmodel, heq⟩
    refine ⟨⟨suite.inventory, hinventory⟩, withProof_eq_ok.mpr hinventory, ⟨model, hmodel⟩,
      withProof_eq_ok.mpr hmodel, congrArg Except.ok ?_⟩
    obtain ⟨inventory, data, hdistinct, hcases⟩ := suite
    obtain rfl : data = model.toModelData := heq
    rfl

end Load

/-! ## The keys of the cases -/

theorem keys_of_insertCases {entries : List (CaseKey × Behavior)}
    {start cases : Dict CaseKey Behavior}
    (h : entries.foldlM insertCase start = .ok cases) :
    cases.keys = start.keys ++ entries.map Prod.fst
      ∧ ∀ entry ∈ entries, entry.1.driver ∈ interfaces := by
  induction entries generalizing start with
  | nil =>
      obtain rfl : start = cases := Except.ok.inj h
      exact ⟨(List.append_nil _).symm, fun entry hentry => absurd hentry List.not_mem_nil⟩
  | cons entry entries ih =>
      rw [List.foldlM_cons] at h
      obtain ⟨next, hnext, hrest⟩ := bind_eq_ok.mp h
      obtain ⟨hnew, hdriver, rfl⟩ := insertCase_eq_ok.mp hnext
      obtain ⟨hkeys, hdrivers⟩ := ih hrest
      have hset : (start.set entry.1 entry.2).keys = start.keys ++ [entry.1] := by
        unfold Dict.keys Dict.set
        dsimp only
        rw [Dict.setEntries_of_not_mem entry.2 hnew, List.map_append]
        rfl
      refine ⟨?_, List.forall_mem_cons.mpr ⟨hdriver, hdrivers⟩⟩
      rw [hkeys, hset, List.append_assoc]
      rfl

theorem mem_keys_initialCases {suite : Suite} {arguments : Arguments} {key : CaseKey} :
    key ∈ (initialCases suite arguments).keys ↔
      ∃ behavior ∈ suite.inventory, isCase key.driver behavior = true
        ∧ key.driver ∈ ["cli", "library"] ∧ key = keyOf key.driver behavior := by
  have hplanned : ∀ kind, key ∈ (plannedCases suite arguments kind).map Prod.fst ↔
      ∃ behavior ∈ suite.inventory, isCase kind behavior = true ∧ keyOf kind behavior = key := by
    intro kind
    unfold plannedCases
    rw [List.map_map]
    simp only [List.mem_map, List.mem_filter, Function.comp_apply, and_assoc]
  unfold Dict.keys initialCases
  rw [List.map_append, List.mem_append, hplanned, hplanned]
  constructor
  · rintro (⟨behavior, hmem, hcase, rfl⟩ | ⟨behavior, hmem, hcase, rfl⟩)
    · exact ⟨behavior, hmem, hcase, List.mem_cons_self, rfl⟩
    · exact ⟨behavior, hmem, hcase, List.mem_cons_of_mem _ List.mem_cons_self, rfl⟩
  · rintro ⟨behavior, hmem, hcase, hdriver, hkey⟩
    rcases List.mem_cons.mp hdriver with hcli | hlibrary
    · rw [hcli] at hcase hkey
      exact Or.inl ⟨behavior, hmem, hcase, hkey.symm⟩
    · rw [List.mem_singleton.mp hlibrary] at hcase hkey
      exact Or.inr ⟨behavior, hmem, hcase, hkey.symm⟩

/-- **The cases of a run are the cases of its coverage model.** -/
theorem mem_keys_model_iff {suite : Suite} {arguments : Arguments} {key : CaseKey} :
    key ∈ suite.model.cases.keys ↔ key ∈ (initialCases suite arguments).keys := by
  obtain ⟨-, hloop⟩ := collectCases_eq_ok.mp suite.cases
  obtain ⟨hkeys, hdrivers⟩ := keys_of_insertCases hloop
  rw [hkeys, mem_keys_initialCases]
  simp only [Dict.keys_empty, List.nil_append, List.mem_map, List.mem_flatMap]
  constructor
  · rintro ⟨entry, ⟨behavior, hbehavior, hentry⟩, rfl⟩
    have hdriver := hdrivers entry (List.mem_flatMap.mpr ⟨behavior, hbehavior, hentry⟩)
    obtain ⟨hmem, hscenario⟩ := List.mem_filter.mp hbehavior
    obtain ⟨driver, hlisted, rfl⟩ := List.mem_map.mp hentry
    refine ⟨behavior, hmem, ?_, hdriver, rfl⟩
    unfold isCase
    rw [hscenario, Bool.true_and]
    exact List.contains_iff_mem.mpr hlisted
  · rintro ⟨behavior, hmem, hcase, -, hkey⟩
    obtain ⟨hscenario, hlisted⟩ := Bool.and_eq_true_iff.mp hcase
    refine ⟨(key, behavior), ⟨behavior, List.mem_filter.mpr ⟨hmem, hscenario⟩, ?_⟩, rfl⟩
    refine List.mem_map.mpr ⟨key.driver, List.contains_iff_mem.mp hlisted, ?_⟩
    exact congrArg (fun key => (key, behavior)) hkey.symm

end Runner

end FlatpakBlackbox
