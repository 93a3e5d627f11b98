import FlatpakBlackbox.Coverage.Options

set_option autoImplicit false

/-! # Demotion

What a summary loses when some passing results of a report have another status instead. As long
as the report was current it stays so, every result is evidence of what it was evidence of or of
nothing, and the denominators do not move. The middle of this is `ModelData.Weakens`: one result
is evidence of nothing the other is not evidence of. The order of a report is treated in the same
terms in `Coverage/Order.lean`.
-/

namespace FlatpakBlackbox

open PyLib PyException

/-! ## The relation between the reports -/

/-- The result as it is, or with another valid status instead of `passed`. -/
inductive CaseResult.Demotes (result : CaseResult) : CaseResult → Prop where
  | same : Demotes result result
  | demoted (status : String) (hpassed : result.status = "passed") (hvalid : status ∈ statuses)
      (hother : status ≠ "passed") : Demotes result { result with status := status }

/-- The report, with some of its passing results demoted. -/
structure RunReport.Demotes (report report' : RunReport) : Prop where
  results : List.Forall₂ CaseResult.Demotes report.results report'.results
  rest : report' = { report with results := report'.results }

/-! ## Results that are evidence of less -/

/-- The result `b` belongs to the same case as `a`, and it is evidence of nothing `a` is not
evidence of. -/
structure ModelData.Weakens (m : ModelData) (report report' : RunReport) (a b : CaseResult) :
    Prop where
  key : b.caseKey = a.caseKey
  passes : ∀ id, m.Passes b id → m.Passes a id
  credits : ∀ id, m.Credits b id → m.Credits a id
  invokes : ∀ id, m.Invokes report' b id → m.Invokes report a id

/-- Every list of evidence is part of the other one. -/
structure Credit.EvidenceWithin (c c' : Credit) : Prop where
  evidence : ∀ id, (c.evidence.getD id []).Sublist (c'.evidence.getD id [])
  interface_evidence : ∀ id,
    (c.interfaceEvidence.getD id []).Sublist (c'.interfaceEvidence.getD id [])
  equivalent_evidence : ∀ id,
    (c.equivalentEvidence.getD id []).Sublist (c'.equivalentEvidence.getD id [])

theorem map_eq_of_forall₂ {α β γ : Type} {f : α → γ} {g : β → γ} {l : List α} {l' : List β}
    (h : List.Forall₂ (fun a b => f a = g b) l l') : l.map f = l'.map g := by
  have hmap : List.Forall₂ Eq (l.map f) (l'.map g) := by
    rwa [List.forall₂_map_left_iff, List.forall₂_map_right_iff]
  rwa [List.forall₂_eq_eq_eq] at hmap

section Weakens

variable {m : ModelData} {report report' : RunReport}

/-- Whatever some weaker result is evidence of, some result was evidence of. -/
theorem exists_of_weakens
    (h : List.Forall₂ (m.Weakens report report') report.results report'.results)
    {P P' : CaseResult → Prop} (hP : ∀ a b, m.Weakens report report' a b → P' b → P a) :
    (∃ b ∈ report'.results, P' b) → ∃ a ∈ report.results, P a := by
  rintro ⟨b, hb, hPb⟩
  obtain ⟨a, ha, hab⟩ := exists_of_forall₂ h.flip hb
  exact ⟨a, ha, hP a b hab hPb⟩

variable (hm : m.Valid)
  (h : List.Forall₂ (m.Weakens report report') report.results report'.results)

include hm h

theorem creditOf_within : (m.creditOf report').Within (m.creditOf report) where
  passed := fun id hid => by
    rw [mem_passed] at hid ⊢
    exact exists_of_weakens h (fun a b hab => hab.passes id) hid
  passedSurfaces := fun id hid => by
    rw [mem_passedSurfaces hm] at hid ⊢
    exact exists_of_weakens h (fun a b hab => hab.credits id) hid
  passedEquivalent := fun id hid => by
    rw [mem_passedEquivalent] at hid ⊢
    exact exists_of_weakens h (fun a b hab => hab.invokes id) hid

theorem creditOf_evidenceWithin :
    (m.creditOf report').EvidenceWithin (m.creditOf report) where
  evidence := fun id => by
    refine Dict.getD_group_sublist (fun a _ => passedBy_nodup hm a) (fun b _ => passedBy_nodup hm b)
      (h.imp fun a b hab => ⟨hab.key, fun id hid => ?_⟩) id
    exact mem_passedBy.mpr (hab.passes id (mem_passedBy.mp hid))
  interface_evidence := fun id => by
    refine Dict.getD_group_sublist (fun a _ => creditedBy_nodup m a)
      (fun b _ => creditedBy_nodup m b) (h.imp fun a b hab => ⟨hab.key, fun id hid => ?_⟩) id
    exact (mem_creditedBy hm).mpr (hab.credits id ((mem_creditedBy hm).mp hid))
  equivalent_evidence := fun id => by
    refine Dict.getD_group_sublist (fun a _ => invokedBy_nodup hm report a)
      (fun b _ => invokedBy_nodup hm report' b) (h.imp fun a b hab => ⟨hab.key, fun id hid => ?_⟩)
        id
    exact mem_invokedBy.mpr (hab.invokes id (mem_invokedBy.mp hid))

end Weakens

/-! ## A demoted report -/

/-- A result with a status other than `passed` is not a passing one. -/
theorem isPassed_of_demoted {result : CaseResult} {status : String} (h : status ≠ "passed") :
    ¬ ({ result with status := status } : CaseResult).isPassed = true := by
  rw [isPassed_iff]
  exact h

theorem caseKey_of_demotes {a b : CaseResult} (h : a.Demotes b) : b.caseKey = a.caseKey := by
  cases h with
  | same => rfl
  | demoted status _ _ _ => rfl

/-- What passes in a demoted report passed before, as it is. -/
theorem eq_of_demotes {a b : CaseResult} (h : a.Demotes b) (hb : b.isPassed = true) : b = a := by
  cases h with
  | same => rfl
  | demoted status _ _ hother => exact absurd hb (isPassed_of_demoted hother)

theorem attributionProblem_results {report : RunReport} {results : List CaseResult}
    {library : Bool} : attributionProblem { report with results := results } library
      = attributionProblem report library := rfl

section Demotes

variable {m : ModelData} {report report' : RunReport}

theorem weakens_of_demotes (h : report.Demotes report') :
    List.Forall₂ (m.Weakens report report') report.results report'.results := by
  refine h.results.imp fun a b hab => ⟨caseKey_of_demotes hab, fun id hp => ?_, fun id hp => ?_,
    fun id hp => ?_⟩
  · exact eq_of_demotes hab hp.1 ▸ hp
  · exact eq_of_demotes hab hp.1 ▸ hp
  · have heq := eq_of_demotes hab hp.1
    subst heq
    rw [h.rest] at hp
    exact hp

/-- **Demotion keeps a report verified**: each check is about all results or about the passing
ones. -/
theorem verified_of_demotes (h : report.Demotes report') (hv : m.Verified report) :
    m.Verified report' := by
  have hkeys : report'.results.map CaseResult.caseKey = report.results.map CaseResult.caseKey :=
    (map_eq_of_forall₂ (h.results.imp fun a b hab => (caseKey_of_demotes hab).symm)).symm
  have hpassing : ∀ b ∈ report'.results, b.isPassed = true → b ∈ report.results := by
    intro b hb hp
    obtain ⟨a, ha, hab⟩ := exists_of_forall₂ h.results.flip hb
    exact eq_of_demotes hab hp ▸ ha
  refine ⟨hkeys ▸ hv.nodup, fun key => hkeys ▸ hv.keys key, fun b hb => ?_, fun b hb hp => ?_,
    fun b hb hp => hv.sound b (hpassing b hb hp) hp⟩
  · obtain ⟨a, ha, hab⟩ := exists_of_forall₂ h.results.flip hb
    cases hab with
    | same => exact hv.finished _ ha
    | demoted status _ hvalid _ => exact hvalid
  · rw [h.rest, attributionProblem_results]
    exact hv.attributed b (hpassing b hb hp) hp

/-- A current report stays current. -/
theorem current_of_demotes {Bytes : Type} {rt : Runtime Bytes} {tree : FileTree Bytes}
    {v : Verification} (h : report.Demotes report')
    (hv : m.verification rt tree report = .ok v) (hcurrent : v.status = .current) :
    ∃ v', m.verification rt tree report' = .ok v' ∧ v'.status = .current := by
  obtain ⟨hfresh, hcomplete, hverified⟩ := (verification_current_iff hv).mp hcurrent
  refine exists_current_iff.mpr ⟨?_, ?_, verified_of_demotes h hverified⟩
  · rw [h.rest]
    exact hfresh
  · rw [h.rest]
    exact hcomplete

end Demotes

/-! ## The summaries -/

/-- The metrics of two summaries are related one by one. -/
structure CoverageSummary.MetricsRel (R : CoverageMetric → CoverageMetric → Prop)
    (s s' : CoverageSummary) : Prop where
  behaviors : s.metrics.behaviors.Rel R s'.metrics.behaviors
  surfaces : s.metrics.surfaces.Rel R s'.metrics.surfaces
  profiles : s.metrics.profiles.Rel (Dict.Rel R) s'.metrics.profiles
  categories : s.metrics.categories.Rel (Dict.Rel R) s'.metrics.categories
  equivalence_checks :
    R s.cliOptionAccounting.equivalenceChecks s'.cliOptionAccounting.equivalenceChecks
  accounted : R s.cliOptionAccounting.accounted s'.cliOptionAccounting.accounted

/-- Metrics of the same sources are related when their counts are. -/
theorem metricsRel_summary {m : ModelData} {R : CoverageMetric → CoverageMetric → Prop}
    {c c' : Option Credit} {v v' : Verification} {report report' : Option RunReport}
    (h : ∀ source ∈ m.sources, R (source.count c) (source.count c')) :
    (m.summary m.reachedSurfaces c v report).MetricsRel R
      (m.summary m.reachedSurfaces c' v' report') := by
  simp only [ModelData.sources, List.mem_append, or_imp, forall_and, List.mem_map,
    List.mem_flatMap, forall_exists_index, and_imp, forall_apply_eq_imp_iff₂] at h
  obtain ⟨⟨⟨⟨hbehaviors, hsurfaces⟩, hprofiles⟩, hcategories⟩, hoptions⟩ := h
  refine ⟨Dict.rel_tabulate hbehaviors, Dict.rel_tabulate hsurfaces,
    Dict.rel_tabulate fun interface hi => Dict.rel_tabulate fun profile hp => ?_,
    Dict.rel_tabulate fun interface hi => Dict.rel_tabulate fun category hc => ?_,
    hoptions _ (List.mem_cons_self ..), hoptions _ (List.mem_cons_of_mem _ (List.mem_cons_self ..))⟩
  · exact hprofiles _ interface hi profile hp rfl
  · exact hcategories _ interface hi category hc rfl

/-- Everything that passes in the one summary passes in the other, with at least its evidence. -/
structure CoverageSummary.Within (s s' : CoverageSummary) : Prop where
  metrics : s.MetricsRel (fun a b => ∃ n n', a.passed = some n ∧ b.passed = some n' ∧ n ≤ n') s'
  passed : s.evidence.keys ⊆ s'.evidence.keys
  evidence : ∀ id, (s.evidence.getD id []).Sublist (s'.evidence.getD id [])
  interface_evidence : ∀ id,
    (s.interfaceEvidence.getD id []).Sublist (s'.interfaceEvidence.getD id [])
  equivalence_evidence : ∀ id,
    (s.cliOptionAccounting.equivalenceEvidence.getD id []).Sublist
      (s'.cliOptionAccounting.equivalenceEvidence.getD id [])

/-- The two summaries count against the same numbers. -/
structure CoverageSummary.SameDenominators (s s' : CoverageSummary) : Prop where
  metrics : s.MetricsRel
    (fun a b => a.total = b.total ∧ a.implemented = b.implemented) s'
  unimplemented : s.unimplementedRequirements = s'.unimplementedRequirements

theorem summary_within {m : ModelData} (hm : m.Valid) {report report' : RunReport}
    {v v' : Verification}
    (h : List.Forall₂ (m.Weakens report report') report.results report'.results) :
    (m.summary m.reachedSurfaces (some (m.creditOf report')) v' (some report')).Within
      (m.summary m.reachedSurfaces (some (m.creditOf report)) v (some report)) := by
  have hwithin := creditOf_within hm h
  have hevidence := creditOf_evidenceWithin hm h
  refine ⟨metricsRel_summary fun source hsource => ?_, fun id hid => ?_, hevidence.evidence,
    hevidence.interface_evidence, hevidence.equivalent_evidence⟩
  · exact ⟨_, _, rfl, rfl, metric_passed_mono (source_passed_mono hsource hwithin)⟩
  · refine mem_evidence_keys.mpr ?_
    exact exists_of_weakens h (fun a b hab => hab.passes id) (mem_evidence_keys.mp hid)

/-- **Demotion is monotone.** Demoting passing results of a current report leaves it current and
takes credit away only; and whatever the verification says, it moves no denominator. -/
theorem summarize_demoted {Bytes : Type} [UnicodeDatabase] (m : CoverageModel)
    (rt : Runtime Bytes) (tree : FileTree Bytes) (value value' : Value)
    (report report' : RunReport) (hread : readReport (some value) = .ok (some report))
    (hread' : readReport (some value') = .ok (some report')) (hdemotes : report.Demotes report') :
    (∀ s, m.summarize rt tree (some value) = .ok s → s.verification.status = .current →
      ∃ s', m.summarize rt tree (some value') = .ok s'
        ∧ s'.verification.status = .current ∧ s'.Within s)
    ∧ ∀ s s', m.summarize rt tree (some value) = .ok s →
        m.summarize rt tree (some value') = .ok s' → s.SameDenominators s' := by
  constructor
  · intro s hs hcurrent
    obtain ⟨_, hreport, v, credit, hend, rfl⟩ := (summarize_eq_ok m.valid).mp hs
    rw [hread] at hreport
    cases hreport
    cases hend with
    | uncredited _ hother => exact absurd hcurrent hother
    | current hv _ hdecodable =>
        obtain ⟨v', hv', hcurrent'⟩ := current_of_demotes hdemotes hv hcurrent
        have hdecodable' : ∀ result ∈ report'.results, m.Decodable result := by
          intro b hb hp
          obtain ⟨a, ha, hab⟩ := exists_of_forall₂ hdemotes.results.flip hb
          have heq := eq_of_demotes hab hp
          subst heq
          exact hdecodable b ha hp
        exact ⟨_, (summarize_eq_ok m.valid).mpr
          ⟨_, hread', _, _, .current hv' hcurrent' hdecodable', rfl⟩, hcurrent',
          summary_within m.valid (weakens_of_demotes hdemotes)⟩
  · intro s s' hs hs'
    obtain ⟨_, _, v, credit, _, rfl⟩ := (summarize_eq_ok m.valid).mp hs
    obtain ⟨_, _, v', credit', _, rfl⟩ := (summarize_eq_ok m.valid).mp hs'
    exact ⟨metricsRel_summary fun source _ => ⟨rfl, rfl⟩, rfl⟩

/-! ## The small suite -/

/-- The case `run` passes, the case `list` ends with `status` and records `argv`. -/
def bothCases (status : String) (argv : List String) (key : CaseKey) :
    Option (String × List String) :=
  if key = listCase then some (status, argv)
  else if key = runCase then some ("passed", ["flatpak", "run"]) else none

/-- The report of the small suite with these results. -/
def smallReport (m : ModelData) (status : String) (argv : List String) : Value :=
  runValue m.definition "flatpak" (m.cases.keys.map (resultValue (bothCases status argv)))

/-- Its view. -/
def smallRun (m : ModelData) (status : String) (argv : List String) : RunReport :=
  runReport m "flatpak" (bothCases status argv)

section Small

variable {m : ModelData} {argv : List String}

theorem parseReport_smallReport (status : String) :
    @parseReport asciiOnly (smallReport m status argv) "report" = .ok (smallReport m status argv) :=
  @parseReport_runValue _ _ asciiOnly _ _

theorem readReport_smallReport {status : String} :
    @readReport asciiOnly (some (smallReport m status argv)) =
    .ok (some (smallRun m status argv)) :=
  @readReport_some asciiOnly _ _ (parseReport_smallReport status)

theorem demotes_smallRun : (smallRun m "passed" argv).Demotes (smallRun m "failed" argv) := by
  refine ⟨?_, rfl⟩
  show List.Forall₂ _ (runReport m "flatpak" _).results (runReport m "flatpak" _).results
  rw [results_runReport, results_runReport, List.forall₂_map_left_iff, List.forall₂_map_right_iff,
    List.forall₂_same]
  intro key _
  unfold resultOf bothCases
  by_cases hkey : key = listCase
  · simp only [if_pos hkey]
    exact .demoted "failed" rfl (by decide) (by decide)
  · simp only [if_neg hkey]
    exact .same

/-- A small report is current when its case `list` failed or recorded a command. -/
theorem verified_smallRun {option status : String}
    (hfiles : snapshot jsonRuntime (smallSuite option) m.cases m.definition.referenceCommit
      = .ok m.definition) (hstatus : status ∈ statuses)
    (hargv : status = "passed" → isText argv.head? = true) :
    ∃ v, m.verification jsonRuntime (smallSuite option) (smallRun m status argv) = .ok v
      ∧ v.status = .current := by
  refine verified_runValue hfiles (by decide) (fun key status' argv' hk => ?_) fun key argv' hk =>
    ?_
  · unfold bothCases at hk
    split at hk
    · cases hk
      exact hstatus
    · split at hk
      · cases hk
        decide
      · cases hk
  · unfold bothCases at hk
    split at hk
    · next hkey =>
        cases hk
        exact ⟨hkey ▸ rfl, hargv rfl⟩
    · split at hk
      · next hkey =>
          cases hk
          exact ⟨hkey ▸ rfl, by decide⟩
      · cases hk

end Small

/-- What the summary of a small report shows: the verification of its view, and evidence only when
that is current. -/
theorem smallSummary_shows {option : String} {m : CoverageModel} {status : String}
    {argv : List String} {s : CoverageSummary}
    (hs : smallSummary option m.toModelData (smallReport m.toModelData status argv) = .ok s) :
    m.verification jsonRuntime (smallSuite option) (smallRun m.toModelData status argv)
        = .ok s.verification
      ∧ (s.verification.status ≠ .current → s.evidence.keys = [])
      ∧ (s.verification.status = .current → ∀ id, id ∈ s.evidence.keys ↔
          ∃ result ∈ (smallRun m.toModelData status argv).results, m.Passes result id) := by
  obtain ⟨_, hread, v, _, hend, rfl⟩ := (@summarize_eq_ok _ m.valid _ _ _ asciiOnly _ _).mp hs
  rw [readReport_smallReport] at hread
  cases hread
  cases hend with
  | uncredited hv hother => exact ⟨hv, fun _ => rfl, fun hcurrent => absurd hcurrent hother⟩
  | current hv hcurrent _ =>
      exact ⟨hv, fun hother => absurd hcurrent hother, fun _ id => mem_evidence_keys⟩

/-- The theorem on the small suite: the case `list` is demoted, the case `run` still passes. -/
theorem summarize_demoted_small : ∃ m : CoverageModel,
    smallInit "cli.option.run.--verbose" = .ok m
    ∧ ∃ s s', smallSummary "cli.option.run.--verbose" m.toModelData
        (smallReport m.toModelData "passed" ["flatpak", "list"]) = .ok s
      ∧ smallSummary "cli.option.run.--verbose" m.toModelData
        (smallReport m.toModelData "failed" ["flatpak", "list"]) = .ok s'
      ∧ s'.verification.status = .current ∧ s'.Within s ∧ s.SameDenominators s' := by
  obtain ⟨m, hinit, hshape⟩ := small_verbose
  have hfiles := @CoverageModel.snapshot_of_init Value asciiOnly _ _ _ hinit
  obtain ⟨s, hs⟩ := smallSummary_isOk hinit hshape (parseReport_smallReport "passed")
  obtain ⟨v, hv, hcurrent⟩ : ∃ v, m.verification jsonRuntime
      (smallSuite "cli.option.run.--verbose")
      (smallRun m.toModelData "passed" ["flatpak", "list"]) = .ok v ∧ v.status = .current :=
    verified_smallRun hfiles (by decide) (fun _ => by decide)
  have hv' := (smallSummary_shows hs).1
  rw [hv] at hv'
  cases hv'
  obtain ⟨hmonotone, hsame⟩ := @summarize_demoted Value asciiOnly m jsonRuntime
    (smallSuite "cli.option.run.--verbose") _ _ _ _ readReport_smallReport readReport_smallReport
    demotes_smallRun
  obtain ⟨s', hs', hcurrent', hwithin⟩ := hmonotone s hs hcurrent
  exact ⟨m, hinit, s, s', hs, hs', hcurrent', hwithin, hsame s s' hs hs'⟩

/-- Demoting the one passing result that lacks evidence makes a report current: the second
summary has evidence that the first does not have. -/
theorem summarize_demoted_gains_small : ∃ m : CoverageModel,
    smallInit "cli.option.run.--verbose" = .ok m
    ∧ (smallRun m.toModelData "passed" []).Demotes (smallRun m.toModelData "failed" [])
    ∧ ∃ s s', smallSummary "cli.option.run.--verbose" m.toModelData
        (smallReport m.toModelData "passed" []) = .ok s
      ∧ smallSummary "cli.option.run.--verbose" m.toModelData
        (smallReport m.toModelData "failed" []) = .ok s'
      ∧ ¬ s'.evidence.keys ⊆ s.evidence.keys := by
  obtain ⟨m, hinit, hshape⟩ := small_verbose
  have hfiles := @CoverageModel.snapshot_of_init Value asciiOnly _ _ _ hinit
  obtain ⟨s, hs⟩ := smallSummary_isOk hinit hshape (parseReport_smallReport "passed")
  obtain ⟨s', hs'⟩ := smallSummary_isOk hinit hshape (parseReport_smallReport "failed")
  refine ⟨m, hinit, demotes_smallRun, s, s', hs, hs', fun hsub => ?_⟩
  obtain ⟨hverification, hnone, _⟩ := smallSummary_shows hs
  obtain ⟨hverification', _, hevidence⟩ := smallSummary_shows hs'
  have hrun : runCase ∈ m.cases.keys := by
    rw [hshape.cases]
    decide
  have hlist : listCase ∈ m.cases.keys := by
    rw [hshape.cases]
    decide
  -- the first report is invalid: its passing case `list` recorded no arguments
  have hinvalid : s.verification.status ≠ .current := by
    intro hcurrent
    have hverified := ((verification_current_iff hverification).mp hcurrent).2.2
    have hresult : resultOf (bothCases "passed" []) listCase
        ∈ (smallRun m.toModelData "passed" []).results := by
      show _ ∈ (runReport m.toModelData "flatpak" _).results
      rw [results_runReport]
      exact List.mem_map_of_mem hlist
    have hsound := (hverified.sound _ hresult (isPassed_resultOf.mpr ⟨[], rfl⟩)).evidence
    have hproblem : caseProblem (resultOf (bothCases "passed" []) listCase)
        = some "Command evidence lacks arguments." := by decide +kernel
    rw [hproblem] at hsound
    cases hsound
  obtain ⟨v, hv, hcurrent⟩ : ∃ v, m.verification jsonRuntime
      (smallSuite "cli.option.run.--verbose") (smallRun m.toModelData "failed" []) = .ok v
      ∧ v.status = .current :=
    verified_smallRun hfiles (by decide) (fun h => absurd h (by decide))
  rw [hv] at hverification'
  cases hverification'
  have hpasses : "cli.run" ∈ s'.evidence.keys := by
    refine (hevidence hcurrent "cli.run").mpr ⟨resultOf (bothCases "failed" []) runCase, ?_, ?_, ?_⟩
    · show _ ∈ (runReport m.toModelData "flatpak" _).results
      rw [results_runReport]
      exact List.mem_map_of_mem hrun
    · exact isPassed_resultOf.mpr ⟨["flatpak", "run"], rfl⟩
    · rw [caseKey_resultOf]
      exact hshape.mapped_run
  have hgained := hsub hpasses
  rw [hnone hinvalid] at hgained
  cases hgained

end FlatpakBlackbox
