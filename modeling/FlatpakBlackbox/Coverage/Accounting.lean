import FlatpakBlackbox.Coverage.Reports

set_option autoImplicit false

/-! # Coverage accounting

Two results about every summary. Credit is sound and complete: a summary counts exactly the
requirements and surfaces some passing result of a verified report is evidence of. And the
accounting is consistent: what passed was implemented, the metrics of the parts add up to those
of the whole, and equivalence checks never raise the coverage of options.
-/

namespace FlatpakBlackbox

open PyLib PyException

/-! ## The credit of a report, by membership -/

section Membership

variable {m : ModelData} {report : RunReport} {id : String}

theorem mem_passed : id ∈ (m.creditOf report).passed ↔
    ∃ result ∈ report.results, m.Passes result id := by
  simp only [ModelData.creditOf, List.mem_toFinset, List.mem_flatMap, mem_passedBy]

theorem mem_passedSurfaces (hm : m.Valid) : id ∈ (m.creditOf report).passedSurfaces ↔
    ∃ result ∈ report.results, m.Credits result id := by
  simp only [ModelData.creditOf, List.mem_toFinset, List.mem_flatMap, mem_creditedBy hm]

theorem mem_passedEquivalent : id ∈ (m.creditOf report).passedEquivalent ↔
    ∃ result ∈ report.results, m.Invokes report result id := by
  simp only [ModelData.creditOf, List.mem_toFinset, List.mem_flatMap, mem_invokedBy]

theorem mem_evidence_keys : id ∈ (m.creditOf report).evidence.keys ↔
    ∃ result ∈ report.results, m.Passes result id := by
  simp only [ModelData.creditOf, Dict.mem_keys_group, Dict.keys_empty, List.not_mem_nil,
    false_or, mem_passedBy]

theorem mem_interfaceEvidence_keys (hm : m.Valid) :
    id ∈ (m.creditOf report).interfaceEvidence.keys ↔
      ∃ result ∈ report.results, m.Credits result id := by
  simp only [ModelData.creditOf, Dict.mem_keys_group, Dict.keys_empty, List.not_mem_nil,
    false_or, mem_creditedBy hm]

theorem mem_requirementsWithout {done : Finset String} :
    id ∈ m.requirementsWithout done ↔ id ∈ m.requirements.keys ∧ id ∉ done := by
  rw [ModelData.requirementsWithout, mem_sorted, List.mem_filter, decide_eq_true_eq]

/-- A requirement with evidence is implemented. -/
theorem passed_subset_implemented : (m.creditOf report).passed ⊆ m.implemented := by
  intro id hid
  obtain ⟨result, _, hpasses⟩ := mem_passed.mp hid
  exact mem_implemented.mpr ⟨result.caseKey, hpasses.2⟩

/-- A credited surface is reached by the model. -/
theorem passedSurfaces_subset_reached (hm : m.Valid) :
    (m.creditOf report).passedSurfaces ⊆ m.reachedSurfaces := by
  intro id hid
  obtain ⟨result, _, hcredits⟩ := (mem_passedSurfaces hm).mp hid
  exact mem_reachedSurfaces.mpr ⟨result.caseKey, hcredits.2.1⟩

/-- An invoked equivalent option is declared. -/
theorem passedEquivalent_subset_equivalent :
    (m.creditOf report).passedEquivalent ⊆ m.equivalent := by
  intro id hid
  obtain ⟨result, _, hinvokes⟩ := mem_passedEquivalent.mp hid
  exact mem_equivalent.mpr ⟨result.caseKey, hinvokes.2.1⟩

end Membership

/-! ## Every metric of a summary -/

/-- The metrics of a summary, the accounting of options included. -/
def CoverageSummary.allMetrics (s : CoverageSummary) : List CoverageMetric :=
  s.metrics.behaviors.values ++ s.metrics.surfaces.values
    ++ s.metrics.profiles.values.flatMap Dict.values
    ++ s.metrics.categories.values.flatMap Dict.values
    ++ [s.cliOptionAccounting.equivalenceChecks, s.cliOptionAccounting.accounted]

/-- What a metric counts: a universe, what is implemented, and what the credit adds. -/
structure MetricSource where
  all : Finset String
  implemented : Finset String
  passed : Credit → Finset String

/-- The metric of a source. -/
def MetricSource.count (source : MetricSource) (credit : Option Credit) : CoverageMetric :=
  metric source.all source.implemented (credit.map source.passed)

/-- Contained credit: every requirement, surface and option of the one is in the other. -/
structure Credit.Within (c c' : Credit) : Prop where
  passed : c.passed ⊆ c'.passed
  passedSurfaces : c.passedSurfaces ⊆ c'.passedSurfaces
  passedEquivalent : c.passedEquivalent ⊆ c'.passedEquivalent

namespace ModelData

variable (m : ModelData)

/-- A source over the requirements that satisfy `p`. -/
def requirementSource (p : Requirement → Bool) : MetricSource :=
  ⟨m.requirements.keysWhere p, m.implemented, Credit.passed⟩

/-- A source over the surfaces of a kind. -/
def surfaceSource (kind : Kind) : MetricSource :=
  ⟨m.surfaces.keysWhere fun s => s.kind = kind, m.reachedSurfaces, Credit.passedSurfaces⟩

/-- The two sources over the options that the accounting of options adds. -/
def optionSources : List MetricSource :=
  let options := m.surfaces.keysWhere fun s => s.kind = .cliOption
  [⟨options, m.equivalent, Credit.passedEquivalent⟩,
    ⟨options, m.reachedSurfaces ∪ m.equivalent, fun c => c.passedSurfaces ∪ c.passedEquivalent⟩]

/-- The sources of all metrics of a summary. They are those of the model: a report only
determines the credit. -/
def sources : List MetricSource :=
  (interfaces.map fun interface => m.requirementSource fun r => r.interface = interface)
    ++ kinds.map m.surfaceSource
    ++ (interfaces.flatMap fun interface => profiles.map fun profile =>
      m.requirementSource fun r => r.interface = interface && r.profile = profile)
    ++ (interfaces.flatMap fun interface => (m.categories interface).map fun category =>
      m.requirementSource fun r => r.interface = interface && r.category = category)
    ++ m.optionSources

end ModelData

section Metrics

variable {m : ModelData}

theorem categories_nodup (interface : String) : (m.categories interface).Nodup :=
  (sorted_perm _).nodup_iff.mpr (List.nodup_dedup _)

/-- Every metric of a summary is the count of a source. -/
theorem allMetrics_summary {credit : Option Credit} {v : Verification}
    {report : Option RunReport} : (m.summary m.reachedSurfaces credit v report).allMetrics
      = m.sources.map fun source => source.count credit := by
  have hinterfaces : interfaces.Nodup := by decide
  have hprofiles : profiles.Nodup := by decide
  have hkinds : kinds.Nodup := by decide
  simp only [CoverageSummary.allMetrics, ModelData.summary, ModelData.metrics,
    ModelData.sources, List.map_append, Dict.values_tabulate hinterfaces,
    Dict.values_tabulate hkinds, List.map_map, List.flatMap_map, List.map_flatMap,
    Dict.values_tabulate hprofiles, Dict.values_tabulate (categories_nodup _)]
  rfl

/-- What a source counts as passed is implemented. -/
theorem source_passed_subset (hm : m.Valid) {source : MetricSource} (h : source ∈ m.sources)
    (report : RunReport) : source.passed (m.creditOf report) ⊆ source.implemented := by
  simp only [ModelData.sources, ModelData.optionSources, List.mem_append, List.mem_map,
    List.mem_flatMap, List.mem_cons, List.not_mem_nil, or_false] at h
  rcases h with (((⟨_, _, rfl⟩ | ⟨_, _, rfl⟩) | ⟨_, _, _, _, rfl⟩) | ⟨_, _, _, _, rfl⟩) | rfl | rfl
  · exact passed_subset_implemented
  · exact passedSurfaces_subset_reached hm
  · exact passed_subset_implemented
  · exact passed_subset_implemented
  · exact passedEquivalent_subset_equivalent
  · exact Finset.union_subset_union (passedSurfaces_subset_reached hm)
      passedEquivalent_subset_equivalent

/-- Less credit counts for less. -/
theorem source_passed_mono {source : MetricSource} (h : source ∈ m.sources) {c c' : Credit}
    (hwithin : c.Within c') : source.passed c ⊆ source.passed c' := by
  simp only [ModelData.sources, ModelData.optionSources, List.mem_append, List.mem_map,
    List.mem_flatMap, List.mem_cons, List.not_mem_nil, or_false] at h
  rcases h with (((⟨_, _, rfl⟩ | ⟨_, _, rfl⟩) | ⟨_, _, _, _, rfl⟩) | ⟨_, _, _, _, rfl⟩) | rfl | rfl
  · exact hwithin.passed
  · exact hwithin.passedSurfaces
  · exact hwithin.passed
  · exact hwithin.passed
  · exact hwithin.passedEquivalent
  · exact Finset.union_subset_union hwithin.passedSurfaces hwithin.passedEquivalent

end Metrics

/-- A metric counts the members of the universe with a property. -/
theorem card_keysWhere_inter {κ ν : Type} [DecidableEq κ] (d : Dict κ ν) (p : ν → Bool)
    (s : Finset κ) : (d.keysWhere p ∩ s).card
      = Set.ncard {k | (∃ v, d.get? k = some v ∧ p v = true) ∧ k ∈ s} := by
  rw [← Set.ncard_coe_finset]
  congr 1
  ext k
  simp only [Finset.coe_inter, Set.mem_inter_iff, Finset.mem_coe, Dict.mem_keysWhere,
    Set.mem_ofPred_eq]

/-! ## Credit is sound and complete -/

/-- A summary without any passing credit. -/
structure CoverageSummary.Uncredited (s : CoverageSummary) : Prop where
  metrics : ∀ mt ∈ s.allMetrics, mt.passed = none
  evidence : s.evidence.keys = []
  interface_evidence : s.interfaceEvidence.keys = []
  equivalence_evidence : s.cliOptionAccounting.equivalenceEvidence.keys = []
  unverified : s.unverifiedRequirements = none

/-- A summary whose credit is exactly the evidence of the report: by its maps of evidence, and
by the numbers in its metrics. -/
structure CoverageSummary.Credited (s : CoverageSummary) (m : ModelData) (report : RunReport) :
    Prop where
  current : s.verification.status = .current
  requirement : ∀ id, id ∈ s.evidence.keys ↔
    ∃ result ∈ report.results, result.status = "passed" ∧ id ∈ m.mapped result.caseKey
  cleanup : ∀ result ∈ report.results, result.status = "passed" →
    result.cleanupComplete = some true
      ∧ (result.cleanupError = none ∨ result.cleanupError = some "")
  surface : ∀ id, id ∈ s.interfaceEvidence.keys ↔
    ∃ result ∈ report.results, result.status = "passed"
      ∧ m.Asserts result.caseKey id ∧ m.Observes result id
  unverified : ∃ ids, s.unverifiedRequirements = some ids
    ∧ ∀ id, id ∈ ids ↔ id ∈ m.requirements.keys ∧ id ∉ s.evidence.keys
  behaviors : ∀ interface ∈ interfaces, ∃ mt, s.metrics.behaviors.get? interface = some mt
    ∧ mt.passed = some (Set.ncard {id | (∃ r, m.requirements.get? id = some r
        ∧ r.interface = interface) ∧ id ∈ s.evidence.keys})
  surfaces : ∀ kind, ∃ mt, s.metrics.surfaces.get? kind = some mt
    ∧ mt.passed = some (Set.ncard {id | kindOf m.surfaces id = some kind
        ∧ id ∈ s.interfaceEvidence.keys})

theorem isPassed_iff (result : CaseResult) : result.isPassed = true ↔ result.status = "passed" := by
  rw [CaseResult.isPassed, decide_eq_true_eq]

theorem isText_eq_false_iff {value : Option String} :
    isText value = false ↔ value = none ∨ value = some "" := by
  cases value with
  | none => simp [isText]
  | some s => simp [isText]

theorem mem_kinds (kind : Kind) : kind ∈ kinds := by
  cases kind <;> decide

theorem kindOf_eq_some_iff {surfaces : Dict String Surface} {id : String} {kind : Kind} :
    kindOf surfaces id = some kind ↔ ∃ s, surfaces.get? id = some s ∧ s.kind = kind := by
  rw [kindOf, Option.map_eq_some_iff]

section Credited

variable {m : ModelData}

theorem summary_uncredited {v : Verification} {report : Option RunReport} :
    (m.summary m.reachedSurfaces none v report).Uncredited where
  metrics := fun mt hmt => by
    rw [allMetrics_summary] at hmt
    obtain ⟨source, _, rfl⟩ := List.mem_map.mp hmt
    exact metric_passed_eq_none_iff.mpr rfl
  evidence := rfl
  interface_evidence := rfl
  equivalence_evidence := rfl
  unverified := rfl

theorem summary_credited (hm : m.Valid) {v : Verification} {report : RunReport}
    (hcurrent : v.status = .current)
    (hverified : m.Verified report) :
    (m.summary m.reachedSurfaces (some (m.creditOf report)) v (some report)).Credited m report where
  current := hcurrent
  requirement := fun id => by
    refine mem_evidence_keys.trans ?_
    simp only [ModelData.Passes, isPassed_iff]
  cleanup := fun result hr hp => by
    have hsound := hverified.sound result hr ((isPassed_iff result).mpr hp)
    exact ⟨hsound.cleanup_complete, isText_eq_false_iff.mp hsound.cleanup_error⟩
  surface := fun id => by
    refine (mem_interfaceEvidence_keys hm).trans ?_
    simp only [ModelData.Credits, isPassed_iff]
  unverified := by
    refine ⟨_, rfl, fun id => ?_⟩
    rw [mem_requirementsWithout, mem_passed]
    exact and_congr_right fun _ => not_congr mem_evidence_keys.symm
  behaviors := fun interface hi => by
    refine ⟨_, (Dict.get?_tabulate _ _ _).trans (if_pos hi), ?_⟩
    refine congrArg some ((card_keysWhere_inter _ _ _).trans ?_)
    congr 1
    ext id
    have hkeys : id ∈ (m.creditOf report).passed ↔ id ∈ (m.creditOf report).evidence.keys :=
      mem_passed.trans mem_evidence_keys.symm
    simp only [Set.mem_ofPred_eq, decide_eq_true_eq]
    exact and_congr_right fun _ => hkeys
  surfaces := fun kind => by
    refine ⟨_, (Dict.get?_tabulate _ _ _).trans (if_pos (mem_kinds kind)), ?_⟩
    refine congrArg some ((card_keysWhere_inter _ _ _).trans ?_)
    congr 1
    ext id
    have hkeys : id ∈ (m.creditOf report).passedSurfaces
        ↔ id ∈ (m.creditOf report).interfaceEvidence.keys :=
      (mem_passedSurfaces hm).trans (mem_interfaceEvidence_keys hm).symm
    simp only [Set.mem_ofPred_eq, decide_eq_true_eq, ← kindOf_eq_some_iff]
    exact and_congr_right fun _ => hkeys

end Credited

section Credit

variable {Bytes : Type} {m : ModelData} {rt : Runtime Bytes} {tree : FileTree Bytes}

/-- An id is decoded when something is left of a dot behind its prefix. -/
theorem decodeOption_isOk_iff {id : String} : (∃ decoded, decodeOption id = .ok decoded) ↔
    '.' ∈ (removePrefix id "cli.option.").toList := by
  rw [← splitOnce_eq_some_iff, decodeOption]
  cases splitOnce (removePrefix id "cli.option.") '.' <;> simp

theorem decodeOption_generated {scope : String} (hscope : '.' ∉ scope.toList) (flag : String) :
    decodeOption ("cli.option." ++ scope ++ "." ++ flag) = .ok (scope, flag) := by
  have hassoc : "cli.option." ++ scope ++ "." ++ flag = "cli.option." ++
    (scope ++ "." ++ flag) := by
    rw [String.append_assoc, String.append_assoc, String.append_assoc]
  have hsplit : splitOnce (scope ++ "." ++ flag) '.' = some (scope, flag) :=
    splitOnce_append hscope flag
  rw [hassoc, decodeOption, removePrefix_append, hsplit]

variable [UnicodeDatabase] {value parsed : Value}

theorem readReport_some (h : parseReport value "report" = .ok parsed) :
    readReport (some value) = .ok (some (RunReport.ofValue parsed)) :=
  bind_eq_ok.mpr ⟨parsed, h, rfl⟩

/-- `summarize` returns on a report that it verifies as something other than current, and on one
whose ids it can decode. -/
theorem summarize_isOk (hm : m.Valid)
    (hfiles : ∃ d, snapshot rt tree m.cases m.definition.referenceCommit = .ok d)
    (hparsed : parseReport value "report" = .ok parsed)
    (hdecodable : ∀ result ∈ (RunReport.ofValue parsed).results, m.Decodable result) :
    ∃ s, m.summarize rt tree (some value) = .ok s := by
  obtain ⟨v, hv⟩ : ∃ v, m.verification rt tree (RunReport.ofValue parsed) = .ok v :=
    verification_isOk hfiles
  have hread := readReport_some hparsed
  by_cases hcurrent : v.status = .current
  · exact ⟨_, (summarize_eq_ok hm).mpr ⟨_, hread, _, _, .current hv hcurrent hdecodable, rfl⟩⟩
  · exact ⟨_, (summarize_eq_ok hm).mpr ⟨_, hread, _, _, .uncredited hv hcurrent, rfl⟩⟩

end Credit

/-- **Credit is sound and complete.** Where the ids of options have the generated form,
`summarize` returns, and its summary has either no credit at all or exactly the credit that the
passing results of a current report are evidence of. -/
theorem summarize_credit_exact {Bytes : Type} [UnicodeDatabase] (m : CoverageModel)
    (rt : Runtime Bytes) (tree : FileTree Bytes) (value parsed : Value)
    (hparsed : parseReport value "report" = .ok parsed)
    (hids : ∀ id, kindOf m.surfaces id = some .cliOption →
      ∃ scope flag, id = "cli.option." ++ scope ++ "." ++ flag) :
    ((∃ d, snapshot rt tree m.cases m.definition.referenceCommit = .ok d) →
      ∃ s, m.summarize rt tree (some value) = .ok s)
    ∧ ∀ s, m.summarize rt tree (some value) = .ok s →
        s.Uncredited ∨ s.Credited m.toModelData (RunReport.ofValue parsed) := by
  have hread := readReport_some hparsed
  constructor
  · intro hfiles
    refine summarize_isOk m.valid hfiles hparsed fun result _ _ id hid => ?_
    obtain ⟨_, hkind, _⟩ := (m.valid.tables.equivalent result.caseKey).2 id hid
    obtain ⟨scope, flag, rfl⟩ := hids id hkind
    rw [decodeOption_isOk_iff, String.append_assoc, String.append_assoc, removePrefix_append]
    simp [String.toList_append]
  · intro s hs
    obtain ⟨report?, hreport, v, credit, hend, rfl⟩ := (summarize_eq_ok m.valid).mp hs
    rw [hread] at hreport
    cases hreport
    cases hend with
    | uncredited _ _ => exact Or.inl summary_uncredited
    | current hv hcurrent _ =>
        have hverified := ((verification_current_iff hv).mp hcurrent).2.2
        exact Or.inr (summary_credited m.valid hcurrent hverified)

/-- The theorem on a report of the small suite whose case `run` passes. -/
theorem summarize_credit_exact_small : ∃ m, smallInit "cli.option.run.--verbose" = .ok m
    ∧ ∃ s, smallSummary "cli.option.run.--verbose" m.toModelData
        (caseReport m.toModelData runCase ["flatpak", "run"]) = .ok s
      ∧ (s.Uncredited ∨ s.Credited m.toModelData
          (caseRun m.toModelData runCase ["flatpak", "run"])) := by
  obtain ⟨m, hinit, hshape⟩ := small_verbose
  have hexact := @summarize_credit_exact Value asciiOnly m jsonRuntime
    (smallSuite "cli.option.run.--verbose") _ _
    (@parseReport_caseReport m.toModelData runCase ["flatpak", "run"] asciiOnly)
    (fun id hkind => ⟨"run", "--verbose", hshape.options id hkind⟩)
  obtain ⟨s, hs⟩ := hexact.1 ⟨_, @CoverageModel.snapshot_of_init Value asciiOnly _ _ _ hinit⟩
  exact ⟨m, hinit, s, hs, hexact.2 s hs⟩

/-! ## The accounting is consistent -/

/-- A metric whose numbers are the sums of those of its parts. -/
structure CoverageMetric.SumOf (whole : CoverageMetric) (parts : List CoverageMetric) : Prop where
  total : whole.total = (parts.map CoverageMetric.total).sum
  implemented : whole.implemented = (parts.map CoverageMetric.implemented).sum
  passed : ∀ n, whole.passed = some n →
    n = (parts.map fun part => part.passed.getD 0).sum

/-- The results that earn credit: those of a report that is current. -/
def CoverageSummary.creditedResults (s : CoverageSummary) (report : Option RunReport) :
    List CaseResult :=
  if s.verification.status = .current then (report.map RunReport.results).getD [] else []

/-- The parts of a summary agree with each other, with the model and with the results that earn
credit. -/
structure CoverageSummary.Consistent (s : CoverageSummary) (m : ModelData)
    (results : List CaseResult) : Prop where
  bounds : ∀ mt ∈ s.allMetrics, ∀ n, mt.passed = some n → n ≤ mt.implemented
    ∧ mt.implemented ≤ mt.total
  passed_none : ∀ a ∈ s.allMetrics, ∀ b ∈ s.allMetrics, a.passed = none ↔ b.passed = none
  profiles : ∀ interface ∈ interfaces, ∃ whole parts,
    s.metrics.behaviors.get? interface = some whole
      ∧ s.metrics.profiles.get? interface = some parts ∧ whole.SumOf parts.values
  categories : ∀ interface ∈ interfaces, ∃ whole parts,
    s.metrics.behaviors.get? interface = some whole
      ∧ s.metrics.categories.get? interface = some parts ∧ whole.SumOf parts.values
  unimplemented : ∀ id, id ∈ s.unimplementedRequirements ↔
    id ∈ m.requirements.keys ∧ ∀ key, id ∉ m.mapped key
  unverified : ∀ ids, s.unverifiedRequirements = some ids → ∀ id, id ∈ ids ↔
    id ∈ m.requirements.keys ∧ ¬ ∃ result ∈ results, m.Passes result id
  evidence : ∀ id, id ∈ s.evidence.keys ↔ ∃ result ∈ results, m.Passes result id
  interface_evidence : ∀ id, id ∈ s.interfaceEvidence.keys ↔
    ∃ result ∈ results, m.Credits result id
  /-- Accounted options lie between the larger of the two kinds of coverage and their sum. -/
  accounted : ∃ options, s.metrics.surfaces.get? .cliOption = some options
    ∧ options.implemented ≤ s.cliOptionAccounting.accounted.implemented
    ∧ s.cliOptionAccounting.equivalenceChecks.implemented
        ≤ s.cliOptionAccounting.accounted.implemented
    ∧ s.cliOptionAccounting.accounted.implemented
        ≤ options.implemented + s.cliOptionAccounting.equivalenceChecks.implemented
    ∧ ∀ behavioral equivalent both, options.passed = some behavioral →
        s.cliOptionAccounting.equivalenceChecks.passed = some equivalent →
        s.cliOptionAccounting.accounted.passed = some both →
        behavioral ≤ both ∧ equivalent ≤ both ∧ both ≤ behavioral + equivalent
  /-- The metric of options counts the asserted and credited ones and no others: an option with
  only an equivalence check is not among them. -/
  options : ∃ options, s.metrics.surfaces.get? .cliOption = some options
    ∧ options.implemented = Set.ncard {id | kindOf m.surfaces id = some .cliOption
        ∧ ∃ key, m.Asserts key id}
    ∧ ∀ n, options.passed = some n → n = Set.ncard {id | kindOf m.surfaces id = some .cliOption
        ∧ ∃ result ∈ results, m.Credits result id}

section Sums

variable {m : ModelData} {credit : Option Credit}

/-- Splitting the requirements with `p` by `f` splits their metric. -/
theorem requirementMetric_sumOf {β : Type} [DecidableEq β] (p : Requirement → Bool)
    (f : Requirement → β) {bs : List β} (hbs : bs.Nodup)
    (hcover : ∀ id r, m.requirements.get? id = some r → p r = true → f r ∈ bs) :
    (m.requirementMetric credit p).SumOf
      (bs.map fun b => m.requirementMetric credit fun r => p r && f r = b) := by
  have hsum := fun s => m.requirements.sum_card_fibers p f hbs hcover s
  refine ⟨?_, ?_, ?_⟩
  · have hall := hsum (m.requirements.keysWhere p)
    rw [Finset.inter_self] at hall
    have hfiber : ∀ b, m.requirements.keysWhere (fun r => p r && f r = b)
        ∩ m.requirements.keysWhere p = m.requirements.keysWhere fun r => p r && f r = b := by
      intro b
      refine Finset.inter_eq_left.mpr fun id hid => ?_
      obtain ⟨r, hr, hpr⟩ := Dict.mem_keysWhere.mp hid
      exact Dict.mem_keysWhere.mpr ⟨r, hr, (Bool.and_eq_true_iff.mp hpr).1⟩
    simp only [hfiber] at hall
    rw [List.map_map]
    exact hall.symm
  · rw [List.map_map]
    exact (hsum m.implemented).symm
  · intro n hn
    cases credit with
    | none => cases hn
    | some c =>
        cases hn
        rw [List.map_map]
        exact (hsum c.passed).symm

end Sums

section Consistent

variable {m : ModelData} {credit : Option Credit} {results : List CaseResult}

/-- The credit of a summary is that of the results that earn credit. -/
def CreditOfResults (m : ModelData) (credit : Option Credit) (results : List CaseResult) : Prop :=
  (credit = none ∧ results = [])
    ∨ ∃ report : RunReport, credit = some (m.creditOf report) ∧ results = report.results

theorem creditOfResults_of_outcome {Bytes : Type} {rt : Runtime Bytes} {tree : FileTree Bytes}
    {report : Option RunReport} {v : Verification} {reach : Finset String}
    (h : m.Outcome rt tree report v credit) :
    CreditOfResults m credit ((m.summary reach credit v report).creditedResults report) := by
  cases h with
  | noReport => exact Or.inl ⟨rfl, rfl⟩
  | uncredited _ hother => exact Or.inl ⟨rfl, if_neg hother⟩
  | current _ hcurrent _ => exact Or.inr ⟨_, rfl, if_pos hcurrent⟩

variable (hm : m.Valid) (hcredit : CreditOfResults m credit results)

include hcredit

theorem creditOf_of_results : ∀ c ∈ credit, ∃ report, c = m.creditOf report := by
  rcases hcredit with ⟨rfl, rfl⟩ | ⟨report, rfl, rfl⟩
  · intro c hc
    cases hc
  · intro c hc
    cases hc
    exact ⟨report, rfl⟩

theorem mem_evidence_of_results (id : String) :
    id ∈ ((credit.map Credit.evidence).getD Dict.empty).keys
      ↔ ∃ result ∈ results, m.Passes result id := by
  rcases hcredit with ⟨rfl, rfl⟩ | ⟨report, rfl, rfl⟩
  · simp
  · exact mem_evidence_keys

include hm in
theorem mem_interfaceEvidence_of_results (id : String) :
    id ∈ ((credit.map Credit.interfaceEvidence).getD Dict.empty).keys
      ↔ ∃ result ∈ results, m.Credits result id := by
  rcases hcredit with ⟨rfl, rfl⟩ | ⟨report, rfl, rfl⟩
  · simp
  · exact mem_interfaceEvidence_keys hm

theorem mem_unverified_of_results {ids : List String}
    (h : (credit.map fun c => m.requirementsWithout c.passed) = some ids) (id : String) :
    id ∈ ids ↔ id ∈ m.requirements.keys ∧ ¬ ∃ result ∈ results, m.Passes result id := by
  rcases hcredit with ⟨rfl, rfl⟩ | ⟨report, rfl, rfl⟩
  · cases h
  · cases h
    rw [mem_requirementsWithout, mem_passed]

omit hcredit in
theorem optionMetric_implemented : (m.surfaceMetric m.reachedSurfaces credit .cliOption).implemented
    = Set.ncard {id | kindOf m.surfaces id = some .cliOption ∧ ∃ key, m.Asserts key id} := by
  show ((m.surfaces.keysWhere fun s => s.kind = .cliOption) ∩ m.reachedSurfaces).card = _
  rw [card_keysWhere_inter]
  congr 1
  ext id
  simp only [Set.mem_ofPred_eq, decide_eq_true_eq, ← kindOf_eq_some_iff, mem_reachedSurfaces]

include hm in
theorem optionMetric_passed {n : Nat}
    (h : (m.surfaceMetric m.reachedSurfaces credit .cliOption).passed = some n) :
    n = Set.ncard {id | kindOf m.surfaces id = some .cliOption
      ∧ ∃ result ∈ results, m.Credits result id} := by
  rcases hcredit with ⟨rfl, rfl⟩ | ⟨report, rfl, rfl⟩
  · cases h
  · cases h
    refine (card_keysWhere_inter _ _ _).trans ?_
    congr 1
    ext id
    simp only [Set.mem_ofPred_eq, decide_eq_true_eq, ← kindOf_eq_some_iff, mem_passedSurfaces hm]

include hm in
theorem summary_consistent {v : Verification} {report : Option RunReport} :
    (m.summary m.reachedSurfaces credit v report).Consistent m results where
  bounds := fun mt hmt n hn => by
    rw [allMetrics_summary] at hmt
    obtain ⟨source, hsource, rfl⟩ := List.mem_map.mp hmt
    refine ⟨metric_passed_le_implemented (fun s hs => ?_) hn, metric_implemented_le_total⟩
    obtain ⟨c, hc, rfl⟩ := Option.map_eq_some_iff.mp hs
    obtain ⟨report, rfl⟩ := creditOf_of_results hcredit c hc
    exact source_passed_subset hm hsource report
  passed_none := fun a ha b hb => by
    rw [allMetrics_summary] at ha hb
    obtain ⟨_, _, rfl⟩ := List.mem_map.mp ha
    obtain ⟨_, _, rfl⟩ := List.mem_map.mp hb
    rw [MetricSource.count, MetricSource.count, metric_passed_eq_none_iff,
      metric_passed_eq_none_iff, Option.map_eq_none_iff, Option.map_eq_none_iff]
  profiles := fun interface hi => by
    refine ⟨_, _, (Dict.get?_tabulate _ _ _).trans (if_pos hi),
      (Dict.get?_tabulate _ _ _).trans (if_pos hi), ?_⟩
    rw [Dict.values_tabulate (by decide)]
    exact requirementMetric_sumOf _ Requirement.profile (by decide) fun id r hr _ =>
      (hm.requirement id r hr).profile
  categories := fun interface hi => by
    refine ⟨_, _, (Dict.get?_tabulate _ _ _).trans (if_pos hi),
      (Dict.get?_tabulate _ _ _).trans (if_pos hi), ?_⟩
    have hnodup := categories_nodup (m := m) interface
    rw [Dict.values_tabulate hnodup]
    refine requirementMetric_sumOf _ Requirement.category hnodup fun id r hr hp => ?_
    rw [ModelData.categories, mem_sorted, List.mem_dedup]
    exact List.mem_map_of_mem (List.mem_filter.mpr ⟨Dict.mem_values_iff.mpr ⟨id, hr⟩, hp⟩)
  unimplemented := fun id => by
    refine mem_requirementsWithout.trans ?_
    rw [mem_implemented, not_exists]
  unverified := fun ids hids id => mem_unverified_of_results hcredit hids id
  evidence := mem_evidence_of_results hcredit
  interface_evidence := mem_interfaceEvidence_of_results hm hcredit
  accounted := by
    -- The three numbers are those of two sets, their union and their intersection.
    have himplemented := @card_inter_union_bounds
      (m.surfaces.keysWhere fun s => s.kind = .cliOption) m.reachedSurfaces m.equivalent
    refine ⟨_, (Dict.get?_tabulate _ _ _).trans (if_pos (mem_kinds .cliOption)), himplemented.1,
      himplemented.2.1, himplemented.2.2, ?_⟩
    intro behavioral equivalent both hbehavioral hequivalent hboth
    cases credit with
    | none => cases hboth
    | some c =>
        cases hbehavioral
        cases hequivalent
        cases hboth
        exact card_inter_union_bounds c.passedSurfaces c.passedEquivalent
  options := ⟨_, (Dict.get?_tabulate _ _ _).trans (if_pos (mem_kinds .cliOption)),
    optionMetric_implemented, fun n hn => optionMetric_passed hm hcredit hn⟩

end Consistent

/-- **The accounting is consistent**, for every accepted report and without one. -/
theorem summarize_consistent {Bytes : Type} [UnicodeDatabase] (m : CoverageModel)
    (rt : Runtime Bytes) (tree : FileTree Bytes) (value : Option Value)
    (report : Option RunReport) (hreport : readReport value = .ok report) (s : CoverageSummary)
    (hs : m.summarize rt tree value = .ok s) :
    s.Consistent m.toModelData (s.creditedResults report) := by
  obtain ⟨report', hreport', v, credit, hend, rfl⟩ := (summarize_eq_ok m.valid).mp hs
  rw [hreport] at hreport'
  cases hreport'
  exact summary_consistent m.valid (creditOfResults_of_outcome hend)

/-- Every report of the small suite gets a summary. -/
theorem smallSummary_isOk {m : CoverageModel}
    (hinit : smallInit "cli.option.run.--verbose" = .ok m)
    (hshape : SmallShape "cli.option.run.--verbose" m.toModelData) {value parsed : Value}
    (hparsed : @parseReport asciiOnly value "report" = .ok parsed) :
    ∃ s, smallSummary "cli.option.run.--verbose" m.toModelData value = .ok s := by
  refine @summarize_isOk Value m.toModelData _ _ asciiOnly _ _ m.valid
    ⟨_, @CoverageModel.snapshot_of_init Value asciiOnly _ _ _ hinit⟩ hparsed ?_
  intro result _ _ id hid
  have hkind := ((m.valid.tables.equivalent result.caseKey).2 id hid).2.1
  rw [hshape.options id hkind]
  exact decodeOption_isOk_iff.mpr (by decide +kernel)

/-- The theorem on a report of the small suite whose case `run` passes. -/
theorem summarize_consistent_small : ∃ m : CoverageModel,
    smallInit "cli.option.run.--verbose" = .ok m
    ∧ ∃ s, smallSummary "cli.option.run.--verbose" m.toModelData
        (caseReport m.toModelData runCase ["flatpak", "run"]) = .ok s
      ∧ s.Consistent m.toModelData (s.creditedResults
          (some (caseRun m.toModelData runCase ["flatpak", "run"]))) := by
  obtain ⟨m, hinit, hshape⟩ := small_verbose
  have hparsed := @parseReport_caseReport m.toModelData runCase ["flatpak", "run"] asciiOnly
  obtain ⟨s, hs⟩ := smallSummary_isOk hinit hshape hparsed
  exact ⟨m, hinit, s, hs, @summarize_consistent Value asciiOnly m _ _ _ _
    (@readReport_some asciiOnly _ _ hparsed) s hs⟩

end FlatpakBlackbox
