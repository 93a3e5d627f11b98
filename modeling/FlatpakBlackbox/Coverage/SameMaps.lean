import FlatpakBlackbox.Basic.Reorder
import FlatpakBlackbox.Coverage.Accounting
import FlatpakBlackbox.Coverage.Reports

set_option autoImplicit false

/-! # Models that are equal as maps

Two models whose dictionaries hold the same entries, in whatever order, summarize alike. Coverage
accounting looks entries up, counts sets, and sorts what it lists: `SameMaps` is carried through
each of these, up to the summary.
-/

namespace FlatpakBlackbox

open PyLib PyException

/-- The three tables, up to the order of their entries. -/
structure MappingTables.Same (t t' : MappingTables) : Prop where
  mapping : t.mapping.Same t'.mapping
  surfaceAssertions : t.surfaceAssertions.Same t'.surfaceAssertions
  equivalentOptions : t.equivalentOptions.Same t'.equivalentOptions

/-- The dictionaries of two models are equal as maps. -/
structure ModelData.SameMaps (m m' : ModelData) : Prop where
  surfaces : m.surfaces = m'.surfaces
  requirements : m.requirements.Same m'.requirements
  cases : m.cases.Same m'.cases
  tables : m.toMappingTables.Same m'.toMappingTables

theorem keysWhere_eq_of_same {d e : Dict String Requirement} (h : d.Same e)
    (p : Requirement → Bool) : d.keysWhere p = e.keysWhere p := by
  ext id
  simp only [Dict.mem_keysWhere, h id]

/-- A sorted list without duplicates is determined by its members. -/
theorem sorted_eq_of_mem {l l' : List String} (hl : l.Nodup) (hl' : l'.Nodup)
    (h : ∀ text, text ∈ l ↔ text ∈ l') : sorted l = sorted l' :=
  sorted_eq_of_perm ((List.perm_ext_iff_of_nodup hl hl').mpr h)

namespace ModelData.SameMaps

variable {m m' : ModelData} (h : m.SameMaps m')

include h

theorem symm : m'.SameMaps m where
  surfaces := h.surfaces.symm
  requirements := h.requirements.symm
  cases := h.cases.symm
  tables := ⟨h.tables.mapping.symm, h.tables.surfaceAssertions.symm,
    h.tables.equivalentOptions.symm⟩

/-! ## What is looked up -/

theorem mapped_eq : m'.mapped = m.mapped := by
  funext key
  exact (h.tables.mapping.getD_eq key []).symm

theorem asserted_eq : m'.asserted = m.asserted := by
  funext key
  exact (h.tables.surfaceAssertions.getD_eq key []).symm

theorem equivalents_eq : m'.equivalents = m.equivalents := by
  funext key
  exact (h.tables.equivalentOptions.getD_eq key []).symm

theorem surfacesOf_eq : surfacesOf m'.requirements = surfacesOf m.requirements := by
  funext id
  rw [surfacesOf, surfacesOf, h.requirements id]

/-! ## What is credited -/

theorem creditedBy_eq : m'.creditedBy = m.creditedBy := by
  have hcredited : m'.isCredited = m.isCredited := by
    funext result id
    rw [isCredited, isCredited, surfaceKind, surfaceKind, h.surfaces]
  funext result
  rw [creditedBy, creditedBy, assertedBy, assertedBy, h.asserted_eq, h.mapped_eq, h.surfacesOf_eq,
    hcredited]

theorem creditOf_eq (report : RunReport) : m'.creditOf report = m.creditOf report := by
  have hpassed : m'.passedBy = m.passedBy := by
    funext result
    rw [passedBy, passedBy, h.mapped_eq]
  have hinvoked : m'.invokedBy report = m.invokedBy report := by
    funext result
    rw [invokedBy, invokedBy, h.equivalents_eq]
  rw [creditOf, creditOf, hpassed, hinvoked, h.creditedBy_eq]

theorem decodable_iff (result : CaseResult) : m'.Decodable result ↔ m.Decodable result := by
  rw [Decodable, Decodable, h.equivalents_eq]

theorem verifyResults_eq (report : RunReport) :
    m'.verifyResults report = m.verifyResults report := by
  have hkeys : m'.cases.keys.toFinset = m.cases.keys.toFinset := by
    ext key
    rw [List.mem_toFinset, List.mem_toFinset, h.cases.mem_keys_iff]
  unfold verifyResults
  rw [hkeys]

/-! ## What is counted -/

theorem implemented_eq : m'.implemented = m.implemented := by
  ext id
  rw [mem_implemented, mem_implemented, h.mapped_eq]

theorem equivalent_eq : m'.equivalent = m.equivalent := by
  ext id
  rw [mem_equivalent, mem_equivalent, h.equivalents_eq]

theorem reachedSurfaces_eq : m'.reachedSurfaces = m.reachedSurfaces := by
  ext surface
  rw [mem_reachedSurfaces, mem_reachedSurfaces]
  simp only [Asserts, h.mapped_eq, h.asserted_eq, h.surfacesOf_eq]

theorem mem_requirements_values (r : Requirement) :
    r ∈ m'.requirements.values ↔ r ∈ m.requirements.values := by
  rw [Dict.mem_values_iff, Dict.mem_values_iff]
  exact exists_congr fun id => by rw [h.requirements id]

theorem categories_eq (interface : String) : m'.categories interface = m.categories interface := by
  refine sorted_eq_of_mem (List.nodup_dedup _) (List.nodup_dedup _) fun category => ?_
  simp only [List.mem_dedup, List.mem_map, List.mem_filter, h.mem_requirements_values]

theorem requirementsWithout_eq (done : Finset String) :
    m'.requirementsWithout done = m.requirementsWithout done := by
  refine sorted_eq_of_mem (m'.requirements.keys_nodup.filter _)
    (m.requirements.keys_nodup.filter _) fun id => ?_
  rw [List.mem_filter, List.mem_filter, h.requirements.mem_keys_iff]

theorem requirementMetric_eq : m'.requirementMetric = m.requirementMetric := by
  funext credit p
  rw [requirementMetric, requirementMetric, keysWhere_eq_of_same h.requirements, h.implemented_eq]

theorem metrics_eq (reach : Finset String) (credit : Option Credit) :
    m'.metrics reach credit = m.metrics reach credit := by
  have hcategories : m'.categories = m.categories := funext h.categories_eq
  have hsurface : m'.surfaceMetric = m.surfaceMetric := by
    funext reach credit kind
    rw [surfaceMetric, surfaceMetric, h.surfaces]
  rw [metrics, metrics, h.requirementMetric_eq, hsurface, hcategories]

end ModelData.SameMaps

/-! ## Summaries -/

/-- The summaries agree in everything but the definition and the stated limitations. -/
structure CoverageSummary.Alike (s s' : CoverageSummary) : Prop where
  verification : s.verification = s'.verification
  metrics : s.metrics = s'.metrics
  caseStatuses : s.caseStatuses = s'.caseStatuses
  evidence : s.evidence = s'.evidence
  interfaceEvidence : s.interfaceEvidence = s'.interfaceEvidence
  cliOptionAccounting : s.cliOptionAccounting = s'.cliOptionAccounting
  requirementCapabilities : s.requirementCapabilities.Same s'.requirementCapabilities
  recordedExecution : s.recordedExecution = s'.recordedExecution
  surfacesWithoutCataloguedRequirements :
    s.surfacesWithoutCataloguedRequirements = s'.surfacesWithoutCataloguedRequirements
  unimplementedRequirements : s.unimplementedRequirements = s'.unimplementedRequirements
  unverifiedRequirements : s.unverifiedRequirements = s'.unverifiedRequirements

theorem ModelData.SameMaps.summary_alike {m m' : ModelData} (h : m.SameMaps m')
    (credit : Option Credit) (v : Verification) {report report' : Option RunReport}
    (hrecorded : report.map RunReport.recorded = report'.map RunReport.recorded) :
    (m.summary m.reachedSurfaces credit v report).Alike
      (m'.summary m'.reachedSurfaces credit v report') where
  verification := rfl
  metrics := by
    rw [h.reachedSurfaces_eq]
    exact (h.metrics_eq _ _).symm
  caseStatuses := rfl
  evidence := rfl
  interfaceEvidence := rfl
  cliOptionAccounting := by
    show m.optionAccounting _ _ = m'.optionAccounting _ _
    rw [ModelData.optionAccounting, ModelData.optionAccounting, h.reachedSurfaces_eq,
      h.equivalent_eq, h.surfaces]
  requirementCapabilities := fun id => by
    show (m.requirements.mapValues _).get? id = (m'.requirements.mapValues _).get? id
    rw [Dict.get?_mapValues, Dict.get?_mapValues, h.requirements id]
  recordedExecution := hrecorded
  surfacesWithoutCataloguedRequirements := by
    refine sorted_eq_of_mem (m.surfaces.keys_nodup.filter _) (m'.surfaces.keys_nodup.filter _)
      fun id => ?_
    simp only [List.mem_filter, List.mem_flatMap, h.mem_requirements_values, h.surfaces]
  unimplementedRequirements := by
    show m.requirementsWithout _ = m'.requirementsWithout _
    rw [h.implemented_eq, h.requirementsWithout_eq]
  unverifiedRequirements := by
    show credit.map _ = credit.map _
    refine congrArg (Option.map · credit) ?_
    funext c
    exact (h.requirementsWithout_eq _).symm

/-! ## A report for either model -/

/-- The report, recorded for the definition of the model. -/
def ModelData.carrying (m : ModelData) (value : Value) : Value :=
  value.setField "coverage_definition" m.definition.toValue

theorem ofValue_setDefinition {json item : Value} (hdict : ∃ entries, json = .dict entries) :
    RunReport.ofValue (json.setField "coverage_definition" item) =
      { RunReport.ofValue json with coverageDefinition := some item } := by
  obtain ⟨entries, rfl⟩ := hdict
  have hsame : ∀ key, "coverage_definition" ≠ key →
      ((Value.dict entries).setField "coverage_definition" item).field? key =
        (Value.dict entries).field? key := fun key hne => Value.field?_setField_ne _ _ hne
  have hset : ((Value.dict entries).setField "coverage_definition" item).field?
      "coverage_definition" = some item := (lookup_setEntries ..).trans (if_pos rfl)
  have hrecorded : recordedKeys.map (fun key =>
        (key, (((Value.dict entries).setField "coverage_definition" item).field? key).getD .none))
      = recordedKeys.map fun key => (key, ((Value.dict entries).field? key).getD .none) := by
    refine List.map_congr_left fun key hkey => ?_
    have hne : "coverage_definition" ≠ key := by
      revert key
      decide
    rw [hsame key hne]
  unfold RunReport.ofValue Value.list? Value.bool? Value.str?
  rw [hrecorded, hset]
  simp only [hsame, ne_eq, String.reduceEq, not_false_eq_true]

section Carrying

variable {m m' : ModelData} [UnicodeDatabase]

/-- A report that is accepted for one definition is accepted for any other, and reads the same. -/
theorem parseReport_carrying (other : ModelData) {value parsed : Value}
    (h : parseReport (m.carrying value) "report" = .ok parsed) :
    ∃ report : RunReport, ∃ parsed', parseReport (other.carrying value) "report" = .ok parsed' ∧
      RunReport.ofValue parsed =
        { report with coverageDefinition := some m.definition.toValue } ∧
      RunReport.ofValue parsed' =
        { report with coverageDefinition := some other.definition.toValue } := by
  obtain ⟨json, hjson, haccepted⟩ := parseReport_isOk_iff.mp ⟨parsed, h⟩
  have hdict := dict_of_accepts haccepted.accepts
  have hjson' : ∀ d : Definition, jsonValue (value.setField "coverage_definition" d.toValue)
      "report" = .ok (json.setField "coverage_definition" d.toValue) := fun d =>
    jsonValue_setField (isJson_definition _) (isJson_definition d) hjson
  have hown : json = json.setField "coverage_definition" m.definition.toValue :=
    Except.ok.inj (hjson.symm.trans (hjson' m.definition))
  have haccepted' : ReportAccepted
      (json.setField "coverage_definition" other.definition.toValue) "report" := by
    refine haccepted.setField (accepts_setField haccepted.accepts rfl (by decide)
      (accepts_definition other.definition)) ?_ (by decide)
    rw [Value.list?, Value.field?_setField_ne _ _ (by decide)]
    exact haccepted.results
  obtain ⟨parsed', hparsed'⟩ := parseReport_isOk_iff.mpr ⟨_, hjson' other.definition, haccepted'⟩
  obtain ⟨other, hother, _, hview⟩ := of_parseReport h
  obtain ⟨other', hother', _, hview'⟩ := of_parseReport hparsed'
  obtain rfl := Except.ok.inj (hjson.symm.trans hother)
  obtain rfl := Except.ok.inj ((hjson' other.definition).symm.trans hother')
  refine ⟨RunReport.ofValue json, parsed', hparsed', ?_, ?_⟩
  · rw [hview, ← ofValue_setDefinition hdict, ← hown]
  · rw [hview', ofValue_setDefinition hdict]

omit [UnicodeDatabase] in
/-- Credit is given for results alone: the recorded definition does not enter it. -/
theorem creditOf_setDefinition (report : RunReport) (item : Option Value) :
    m.creditOf { report with coverageDefinition := item } = m.creditOf report := by
  have hany : ∀ command option records,
      anyInvoked { report with coverageDefinition := item } command option records =
        anyInvoked report command option records := by
    intro command option records
    induction records with
    | nil => rfl
    | cons record records ih =>
        rw [anyInvoked, anyInvoked, ih]
        rfl
  have hinvoked : m.invokedBy { report with coverageDefinition := item } = m.invokedBy report := by
    funext result
    simp only [ModelData.invokedBy, isInvoked, hany]
  rw [ModelData.creditOf, hinvoked]
  rfl

omit [UnicodeDatabase] in
/-- The verification of a report that was recorded for the present definition. -/
theorem verification_own {Bytes : Type} {rt : Runtime Bytes} {tree : FileTree Bytes}
    (hfiles : snapshot rt tree m.cases m.definition.referenceCommit = .ok m.definition)
    (report : RunReport) :
    m.verification rt tree { report with coverageDefinition := some m.definition.toValue } =
      .ok (if report.complete ≠ some true
        then ⟨.incomplete, "Run did not complete; no verified credit assigned."⟩
        else m.verifyResults report) := by
  unfold ModelData.verification
  dsimp only
  rw [isStale_own hfiles]
  show (if report.complete ≠ some true then Except.ok _ else Except.ok _) = _
  rw [← apply_ite Except.ok]
  rfl

/-- **Models that are equal as maps summarize alike**: a report, recorded for the definition of
each, gets a summary from both or from neither, and the summaries agree. -/
theorem ModelData.SameMaps.summarize_carrying {Bytes : Type} {rt : Runtime Bytes}
    {tree tree' : FileTree Bytes} (h : m.SameMaps m') (hm : m.Valid) (hm' : m'.Valid)
    (hfiles : snapshot rt tree m.cases m.definition.referenceCommit = .ok m.definition)
    (hfiles' : snapshot rt tree' m'.cases m'.definition.referenceCommit = .ok m'.definition)
    {value : Value} {s : CoverageSummary}
    (hs : m.summarize rt tree (some (m.carrying value)) = .ok s) :
    ∃ s', m'.summarize rt tree' (some (m'.carrying value)) = .ok s' ∧ s.Alike s' := by
  obtain ⟨report?, hread, v, credit, hend, rfl⟩ := (summarize_eq_ok hm).mp hs
  obtain ⟨parsed, hparsed, hread⟩ := bind_eq_ok.mp hread
  obtain rfl := Except.ok.inj hread
  obtain ⟨report, parsed', hparsed', hview, hview'⟩ :=
    parseReport_carrying m' hparsed
  have hread' : readReport (some (m'.carrying value)) = .ok (some (RunReport.ofValue parsed')) :=
    readReport_some hparsed'
  rw [hview] at hend ⊢
  rw [hview'] at hread'
  have hv' : ∀ v, m.verification rt tree
      { report with coverageDefinition := some m.definition.toValue } = .ok v →
      m'.verification rt tree'
        { report with coverageDefinition := some m'.definition.toValue } = .ok v := by
    intro v hv
    rw [verification_own hfiles] at hv
    rw [verification_own hfiles', h.verifyResults_eq]
    exact hv
  cases hend with
  | uncredited hv hother =>
      exact ⟨_, (summarize_eq_ok hm').mpr ⟨_, hread', v, none, .uncredited (hv' v hv) hother, rfl⟩,
        h.summary_alike none v rfl⟩
  | current hv hcurrent hdecodable =>
      refine ⟨_, (summarize_eq_ok hm').mpr ⟨_, hread', v, _, .current (hv' v hv) hcurrent
        fun result hr => (h.decodable_iff result).mpr (hdecodable result hr), rfl⟩, ?_⟩
      have hcredit : m'.creditOf { report with coverageDefinition := some m'.definition.toValue } =
          m.creditOf { report with coverageDefinition := some m.definition.toValue } :=
        calc m'.creditOf { report with coverageDefinition := some m'.definition.toValue }
            = m'.creditOf report := creditOf_setDefinition report _
          _ = m.creditOf report := h.creditOf_eq report
          _ = _ := (creditOf_setDefinition report _).symm
      rw [hcredit]
      exact h.summary_alike _ v rfl

end Carrying

end FlatpakBlackbox
