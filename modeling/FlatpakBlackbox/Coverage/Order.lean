import FlatpakBlackbox.Coverage.Demotion

set_option autoImplicit false

/-! # The order of a report

A summary does not depend on the order in which the cases ran, nor on the order of the evidence
inside a result. The relation is stated on JSON values (`ReportReordered`) and carried to the
views that coverage accounting reads (`RunReport.Reordered`), where it is symmetric, so that each
fact about it is proved in one direction only.
-/

namespace FlatpakBlackbox

open PyLib PyException

/-! ## The relation on values -/

/-- The result, with its evidence records in another order. -/
inductive ResultReordered (result : Value) : Value → Prop where
  | same : ResultReordered result result
  | evidence {records records' : List Value} (h : result.list? "evidence" = some records)
      (hperm : records.Perm records') :
      ResultReordered result (result.setField "evidence" (.list records'))

/-- The report, with its results in another order, and the evidence records inside them. -/
inductive ReportReordered (report : Value) : Value → Prop where
  | same : ReportReordered report report
  | results {results middle results' : List Value} (h : report.list? "results" = some results)
      (hperm : results.Perm middle) (hresults : List.Forall₂ ResultReordered middle results') :
      ReportReordered report (report.setField "results" (.list results'))

theorem Value.list?_setField_eq {v old : Value} {key : String} {items : List Value}
    (h : v.field? key = some old) : (v.setField key (.list items)).list? key = some items := by
  rw [Value.list?, Value.field?_setField_eq h]
  rfl

theorem Value.list?_eq_some {v : Value} {key : String} {items : List Value}
    (h : v.list? key = some items) : v.field? key = some (.list items) := by
  obtain ⟨item, hitem, hlist⟩ := Option.bind_eq_some_iff.mp h
  cases item with
  | list other =>
      cases hlist
      exact hitem
  | _ => cases hlist

/-! ## A reordered report is accepted -/

theorem checkResult_reordered {result result' : Value} {path : String}
    (h : ResultReordered result result') (hcheck : checkResult result path = .ok ()) :
    checkResult result' path = .ok () := by
  cases h with
  | same => exact hcheck
  | @evidence records records' hrecords hperm =>
      have hold := Value.list?_eq_some hrecords
      obtain ⟨_, hseconds, hcheck⟩ := bind_eq_ok.mp hcheck
      obtain ⟨_, htimings, hevidence⟩ := bind_eq_ok.mp hcheck
      refine bind_eq_ok.mpr ⟨(), ?_, bind_eq_ok.mpr ⟨(), ?_, checkObservations_eq_ok.mpr ?_⟩⟩
      · rw [checkPresent, Value.field?_setField_ne _ _ (by decide)]
        exact hseconds
      · rw [Value.field?_setField_ne _ _ (by decide)]
        exact htimings
      · rw [Value.list?_setField_eq hold]
        rw [hrecords, checkObservations_eq_ok] at hevidence
        exact fun record hrecord => hevidence record (hperm.mem_iff.mpr hrecord)

theorem accepts_resultReordered {result result' : Value} (h : ResultReordered result result')
    (haccepts : TypeHint.caseResult.Accepts result) : TypeHint.caseResult.Accepts result' := by
  cases h with
  | same => exact haccepts
  | @evidence records records' hrecords hperm =>
      have hrecord := of_accepts_list (accepts_field "evidence" haccepts rfl
        (Value.list?_eq_some hrecords))
      exact accepts_setField haccepts rfl (by decide)
        (accepts_list fun record hmem => hrecord record (hperm.mem_iff.mpr hmem))

/-- The results of a reordered report are those of the report, their evidence reordered. -/
theorem exists_reordered {results middle results' : List Value} (hperm : results.Perm middle)
    (hresults : List.Forall₂ ResultReordered middle results') :
    ∀ result' ∈ results', ∃ result ∈ results, ResultReordered result result' := by
  intro result' hmem
  obtain ⟨result, hresult, h⟩ := exists_of_forall₂ hresults.flip hmem
  exact ⟨result, hperm.mem_iff.mpr hresult, h⟩

theorem accepts_reportReordered {json json' : Value} (h : ReportReordered json json')
    (haccepts : TypeHint.runReport.Accepts json) : TypeHint.runReport.Accepts json' := by
  cases h with
  | same => exact haccepts
  | @results results middle results' hlist hperm hresults =>
      have hresult := of_accepts_list (accepts_field "results" haccepts rfl
        (Value.list?_eq_some hlist))
      refine accepts_setField haccepts rfl (by decide) (accepts_list fun result' hmem => ?_)
      obtain ⟨result, hmem, h⟩ := exists_reordered hperm hresults result' hmem
      exact accepts_resultReordered h (hresult result hmem)

/-- **A reordered report is accepted**: its results are checked one by one, and nothing else of
it changed. -/
theorem parseReport_reordered [UnicodeDatabase] {value value' parsed json json' : Value}
    {path : String} (haccepted : parseReport value path = .ok parsed)
    (hjson : jsonValue value path = .ok json) (hjson' : jsonValue value' path = .ok json')
    (h : ReportReordered json json') : ∃ parsed', parseReport value' path = .ok parsed' := by
  obtain ⟨other, hother, haccepted⟩ := parseReport_isOk_iff.mp ⟨parsed, haccepted⟩
  obtain rfl := Except.ok.inj (hjson.symm.trans hother)
  refine parseReport_isOk_iff.mpr ⟨json', hjson', ?_⟩
  cases h with
  | same => exact haccepted
  | @results results middle results' hlist hperm hresults =>
      refine haccepted.setField (accepts_reportReordered (.results hlist hperm hresults)
        haccepted.accepts) ?_ (by decide)
      have hold := haccepted.results
      rw [hlist] at hold
      rw [Value.list?_setField_eq (Value.list?_eq_some hlist)]
      intro result' hmem
      obtain ⟨result, hmem, h⟩ := exists_reordered hperm hresults result' hmem
      exact checkResult_reordered h (hold result hmem)

/-! ## The relation on views -/

/-- The result, with its evidence records in another order. -/
structure CaseResult.Reordered (a b : CaseResult) : Prop where
  evidence : (a.evidence.getD []).Perm (b.evidence.getD [])
  rest : b = { a with evidence := b.evidence }

/-- The report, with its results and their evidence in another order. -/
structure RunReport.Reordered (report report' : RunReport) : Prop where
  results : Relation.Comp List.Perm (List.Forall₂ CaseResult.Reordered) report.results
    report'.results
  rest : report' = { report with results := report'.results }

theorem CaseResult.Reordered.refl (a : CaseResult) : a.Reordered a := ⟨List.Perm.refl _, rfl⟩

theorem CaseResult.Reordered.symm {a b : CaseResult} (h : a.Reordered b) : b.Reordered a := by
  refine ⟨h.evidence.symm, ?_⟩
  rw [h.rest]

theorem RunReport.Reordered.symm {report report' : RunReport} (h : report.Reordered report') :
    report'.Reordered report := by
  refine ⟨?_, ?_⟩
  · obtain ⟨middle, hperm, hresults⟩ := h.results
    have hflip : List.Forall₂ CaseResult.Reordered report'.results middle :=
      hresults.flip.imp fun a b hab => CaseResult.Reordered.symm hab
    rw [← List.forall₂_comp_perm_eq_perm_comp_forall₂]
    exact ⟨middle, hflip, hperm.symm⟩
  · rw [h.rest]

theorem ofValue_resultReordered {result result' : Value} (h : ResultReordered result result') :
    (CaseResult.ofValue result).Reordered (CaseResult.ofValue result') := by
  cases h with
  | same => exact CaseResult.Reordered.refl _
  | @evidence records records' hrecords hperm =>
      have hold := Value.list?_eq_some hrecords
      have hsame : ∀ key, "evidence" ≠ key →
          (result.setField "evidence" (.list records')).field? key = result.field? key :=
        fun key hne => Value.field?_setField_ne _ _ hne
      have hview : CaseResult.ofValue (result.setField "evidence" (.list records'))
          = { CaseResult.ofValue result with
              evidence := some (records'.map EvidenceRecord.ofValue) } := by
        unfold CaseResult.ofValue Value.seconds? Value.strs? Value.strMap? Value.str? Value.bool?
          Value.list?
        simp only [hsame, ne_eq, String.reduceEq, not_false_eq_true, Value.field?_setField_eq hold]
        rfl
      have hevidence : (CaseResult.ofValue result).evidence
          = some (records.map EvidenceRecord.ofValue) := congrArg (Option.map _) hrecords
      rw [hview]
      exact ⟨by rw [hevidence]; exact hperm.map _, rfl⟩

theorem ofValue_reportReordered {json json' : Value} (h : ReportReordered json json') :
    (RunReport.ofValue json).Reordered (RunReport.ofValue json') := by
  cases h with
  | same =>
      refine ⟨⟨_, List.Perm.refl _, ?_⟩, rfl⟩
      exact List.forall₂_same.mpr fun a _ => CaseResult.Reordered.refl a
  | @results results middle results' hlist hperm hresults =>
      have hold := Value.list?_eq_some hlist
      have hsame : ∀ key, "results" ≠ key →
          (json.setField "results" (.list results')).field? key = json.field? key :=
        fun key hne => Value.field?_setField_ne _ _ hne
      have hrecorded : recordedKeys.map (fun key =>
            (key, ((json.setField "results" (.list results')).field? key).getD .none))
          = recordedKeys.map fun key => (key, (json.field? key).getD .none) := by
        refine List.map_congr_left fun key hkey => ?_
        have hne : "results" ≠ key := by
          revert key
          decide
        rw [hsame key hne]
      have hview : RunReport.ofValue (json.setField "results" (.list results'))
          = { RunReport.ofValue json with results := results'.map CaseResult.ofValue } := by
        unfold RunReport.ofValue Value.list? Value.bool? Value.str?
        rw [hrecorded]
        simp only [hsame, ne_eq, String.reduceEq, not_false_eq_true, Value.field?_setField_eq hold]
        rfl
      have holdResults : (RunReport.ofValue json).results = results.map CaseResult.ofValue :=
        congrArg (fun items => (Option.getD items []).map CaseResult.ofValue) hlist
      rw [hview]
      refine ⟨⟨middle.map CaseResult.ofValue, by rw [holdResults]; exact hperm.map _, ?_⟩, rfl⟩
      rw [List.forall₂_map_left_iff, List.forall₂_map_right_iff]
      exact hresults.imp fun a b hab => ofValue_resultReordered hab

/-! ## What does not depend on the order -/

section Reordered

variable {a b : CaseResult}

theorem isPassed_reordered (h : a.Reordered b) : b.isPassed = a.isPassed := by
  rw [h.rest]
  rfl

theorem caseKey_reordered (h : a.Reordered b) : b.caseKey = a.caseKey := by
  rw [h.rest]
  rfl

theorem status_reordered (h : a.Reordered b) : b.status = a.status := by
  rw [h.rest]

theorem mem_evidence_reordered (h : a.Reordered b) {record : EvidenceRecord} :
    record ∈ b.evidence.getD [] ↔ record ∈ a.evidence.getD [] :=
  h.evidence.mem_iff.symm

/-- A passing result has evidence without a problem, some of it at its interface. -/
theorem caseProblem_eq_none_iff {result : CaseResult} : caseProblem result = none ↔
    (∃ record, record ∈ result.evidence.getD [])
      ∧ (∀ record ∈ result.evidence.getD [], recordProblem record = none)
      ∧ ∃ record ∈ result.evidence.getD [], record.interface = some result.driver := by
  unfold caseProblem
  dsimp only
  rw [← List.findSome?_eq_none_iff]
  cases hevidence : result.evidence.getD [] with
  | nil => simp
  | cons first rest =>
      simp only [List.isEmpty_cons, Bool.false_eq_true, if_false]
      cases hproblem : (first :: rest).findSome? recordProblem with
      | some problem => simp
      | none =>
          simp only [ite_eq_right_iff, reduceCtorEq, imp_false, Bool.not_eq_false, true_and,
            List.any_eq_true, decide_eq_true_eq]
          exact ⟨fun h => ⟨⟨first, List.mem_cons_self ..⟩, h⟩, fun h => h.2⟩

theorem caseProblem_reordered (h : a.Reordered b) (ha : caseProblem a = none) :
    caseProblem b = none := by
  have hdriver : b.driver = a.driver := by rw [h.rest]
  rw [caseProblem_eq_none_iff] at ha ⊢
  simpa only [mem_evidence_reordered h, hdriver] using ha

theorem sound_reordered (h : a.Reordered b) (ha : a.Sound) : b.Sound where
  cleanup_complete := by
    rw [h.rest]
    exact ha.cleanup_complete
  cleanup_error := by
    rw [h.rest]
    exact ha.cleanup_error
  evidence := caseProblem_reordered h ha.evidence

variable {m : ModelData} {report report' : RunReport}

theorem observes_reordered (h : a.Reordered b) (id : String) :
    m.Observes b id ↔ m.Observes a id := by
  unfold ModelData.Observes CaseResult.Calls CaseResult.Emits
  simp only [mem_evidence_reordered h]

/-- **A reordered report is verified like the report.** -/
theorem verified_reordered (h : report.Reordered report') (hv : m.Verified report) :
    m.Verified report' := by
  obtain ⟨middle, hperm, hresults⟩ := h.results
  have hkeys : (report.results.map CaseResult.caseKey).Perm
      (report'.results.map CaseResult.caseKey) := by
    refine (hperm.map CaseResult.caseKey).trans (List.Perm.of_eq ?_)
    exact map_eq_of_forall₂ (hresults.imp fun a b hab => (caseKey_reordered hab).symm)
  have hfrom : ∀ b ∈ report'.results, ∃ a ∈ report.results, a.Reordered b := by
    intro b hb
    obtain ⟨a, ha, hab⟩ := exists_of_forall₂ hresults.flip hb
    exact ⟨a, hperm.mem_iff.mpr ha, hab⟩
  refine ⟨hkeys.nodup_iff.mp hv.nodup, fun key => ?_, fun b hb => ?_, fun b hb hp => ?_,
    fun b hb hp => ?_⟩
  · rw [← hkeys.mem_iff]
    exact hv.keys key
  · obtain ⟨a, ha, hab⟩ := hfrom b hb
    rw [status_reordered hab]
    exact hv.finished a ha
  · obtain ⟨a, ha, hab⟩ := hfrom b hb
    have hdriver : b.driver = a.driver := by rw [hab.rest]
    rw [isPassed_reordered hab] at hp
    rw [h.rest, attributionProblem_results, hdriver]
    exact hv.attributed a ha hp
  · obtain ⟨a, ha, hab⟩ := hfrom b hb
    rw [isPassed_reordered hab] at hp
    exact sound_reordered hab (hv.sound a ha hp)

/-- The results of a complete report are verified as current or as invalid. -/
theorem verifyResults_status : (m.verifyResults report).status = .current
    ∨ (m.verifyResults report).status = .invalid := by
  unfold ModelData.verifyResults
  dsimp only
  split
  · exact Or.inr rfl
  · split
    · exact Or.inr rfl
    · split
      · exact Or.inr rfl
      · exact Or.inl rfl

theorem verifyResults_reordered (h : report.Reordered report') :
    (m.verifyResults report').status = (m.verifyResults report).status := by
  have hiff : (m.verifyResults report').status = .current
      ↔ (m.verifyResults report).status = .current := by
    rw [verifyResults_current_iff, verifyResults_current_iff]
    exact ⟨verified_reordered h.symm, verified_reordered h⟩
  rcases @verifyResults_status m report with hs | hs
  · rw [hs, hiff.mpr hs]
  · rcases @verifyResults_status m report' with hs' | hs'
    · rw [hiff.mp hs'] at hs
      cases hs
    · rw [hs, hs']

/-- The status of the verification is the same; its reason may name another result. -/
theorem verification_reordered {Bytes : Type} {rt : Runtime Bytes} {tree : FileTree Bytes}
    {v : Verification} (h : report.Reordered report')
    (hv : m.verification rt tree report = .ok v) :
    ∃ v', m.verification rt tree report' = .ok v' ∧ v'.status = v.status := by
  have hdefinition : report'.coverageDefinition = report.coverageDefinition := by rw [h.rest]
  have hcomplete : report'.complete = report.complete := by rw [h.rest]
  unfold ModelData.verification at hv ⊢
  rw [hdefinition, hcomplete]
  cases hrecorded : report.coverageDefinition with
  | none =>
      rw [hrecorded] at hv
      exact ⟨v, hv, rfl⟩
  | some recorded =>
      rw [hrecorded] at hv
      obtain ⟨stale, hstale, hv⟩ := bind_eq_ok.mp hv
      by_cases hother : stale = true ∨ report.complete ≠ some true
      · refine ⟨v, bind_eq_ok.mpr ⟨stale, hstale, ?_⟩, rfl⟩
        rcases hother with hother | hother
        · rw [if_pos hother] at hv ⊢
          exact hv
        · rw [if_pos hother] at hv ⊢
          exact hv
      · rw [not_or] at hother
        rw [if_neg hother.1, if_neg hother.2] at hv
        cases hv
        refine ⟨m.verifyResults report', bind_eq_ok.mpr ⟨stale, hstale, ?_⟩,
          verifyResults_reordered h⟩
        rw [if_neg hother.1, if_neg hother.2]
        rfl

end Reordered

/-! ## The credit of a reordered report -/

section Credit

variable {m : ModelData} {report report' : RunReport}

/-- Whatever a result is evidence of, its reordered counterpart is evidence of. -/
theorem exists_reordered_iff (h : report.Reordered report') {P P' : CaseResult → Prop}
    (hP : ∀ a b, a.Reordered b → (P a ↔ P' b)) :
    (∃ a ∈ report.results, P a) ↔ ∃ b ∈ report'.results, P' b := by
  obtain ⟨middle, hperm, hresults⟩ := h.results
  constructor
  · rintro ⟨a, ha, hPa⟩
    obtain ⟨b, hb, hab⟩ := exists_of_forall₂ hresults (hperm.mem_iff.mp ha)
    exact ⟨b, hb, (hP a b hab).mp hPa⟩
  · rintro ⟨b, hb, hPb⟩
    obtain ⟨a, ha, hab⟩ := exists_of_forall₂ hresults.flip hb
    exact ⟨a, hperm.mem_iff.mpr ha, (hP a b hab).mpr hPb⟩

/-- Grouping results by what they contribute: another order of the results, with the same
contributions, permutes the lists. -/
theorem group_reordered {f f' : CaseResult → List String} (hf : ∀ a, (f a).Nodup)
    (hf' : ∀ b, (f' b).Nodup) (h : report.Reordered report')
    (hsame : ∀ a b, a.Reordered b → ∀ id, id ∈ f a ↔ id ∈ f' b) :
    (Dict.group f CaseResult.caseKey report.results Dict.empty).SamePerm
      (Dict.group f' CaseResult.caseKey report'.results Dict.empty) := by
  constructor
  · intro id
    rw [Dict.mem_keys_group, Dict.mem_keys_group]
    exact or_congr_right (exists_reordered_iff h fun a b hab => hsame a b hab id)
  · intro id
    obtain ⟨middle, hperm, hresults⟩ := h.results
    have hforth := Dict.getD_group_sublist (fun a _ => hf a) (fun b _ => hf' b)
      (hresults.imp fun a b hab =>
        ⟨caseKey_reordered hab, fun id hid => (hsame a b hab id).mpr hid⟩) id
    have hback := Dict.getD_group_sublist (fun b _ => hf' b) (fun a _ => hf a)
      (hresults.flip.imp fun b a hab =>
        ⟨(caseKey_reordered hab).symm, fun id hid => (hsame a b hab id).mp hid⟩) id
    have hmiddle := Dict.getD_group_perm CaseResult.caseKey hf hperm id
    exact hmiddle.trans (List.Perm.of_eq (hback.antisymm hforth))

/-- The statuses are counted alike. -/
theorem statuses_reordered (h : report.Reordered report') :
    (m.creditOf report).statuses.Same (m.creditOf report').statuses := by
  obtain ⟨middle, hperm, hresults⟩ := h.results
  have hmiddle : (middle.foldl (fun d result => d.increment result.status) Dict.empty)
      = report'.results.foldl (fun d result => d.increment result.status) Dict.empty := by
    have hmap : middle.map CaseResult.status = report'.results.map CaseResult.status :=
      map_eq_of_forall₂ (hresults.imp fun a b hab => (status_reordered hab).symm)
    calc middle.foldl (fun d result => d.increment result.status) Dict.empty
        = (middle.map CaseResult.status).foldl (fun d status => d.increment status) Dict.empty :=
          (List.foldl_map ..).symm
      _ = (report'.results.map CaseResult.status).foldl (fun d status => d.increment status)
            Dict.empty := by rw [hmap]
      _ = report'.results.foldl (fun d result => d.increment result.status) Dict.empty :=
          List.foldl_map ..
  have hsame := Dict.same_foldl_increment CaseResult.status hperm
  rw [hmiddle] at hsame
  exact hsame

theorem passes_reordered {a b : CaseResult} (h : a.Reordered b) (id : String) :
    m.Passes a id ↔ m.Passes b id := by
  rw [ModelData.Passes, ModelData.Passes, isPassed_reordered h, caseKey_reordered h]

theorem credits_reordered {a b : CaseResult} (h : a.Reordered b) (id : String) :
    m.Credits a id ↔ m.Credits b id := by
  rw [ModelData.Credits, ModelData.Credits, isPassed_reordered h, caseKey_reordered h,
    observes_reordered h]

theorem invokes_reordered (hreport : report.Reordered report') {a b : CaseResult}
    (h : a.Reordered b) (id : String) : m.Invokes report a id ↔ m.Invokes report' b id := by
  have hcli : report'.cliPath = report.cliPath := by
    rw [hreport.rest]
    rfl
  simp only [ModelData.Invokes, isPassed_reordered h, caseKey_reordered h, hcli,
    mem_evidence_reordered h]

/-- The credit of two reports is the same up to the order of the evidence. -/
structure Credit.SameUpToOrder (c c' : Credit) : Prop where
  statuses : c.statuses.Same c'.statuses
  passed : c.passed = c'.passed
  passedSurfaces : c.passedSurfaces = c'.passedSurfaces
  passedEquivalent : c.passedEquivalent = c'.passedEquivalent
  evidence : c.evidence.SamePerm c'.evidence
  interface_evidence : c.interfaceEvidence.SamePerm c'.interfaceEvidence
  equivalent_evidence : c.equivalentEvidence.SamePerm c'.equivalentEvidence

theorem creditOf_reordered (hm : m.Valid) (h : report.Reordered report') :
    (m.creditOf report).SameUpToOrder (m.creditOf report') where
  statuses := statuses_reordered h
  passed := by
    ext id
    rw [mem_passed, mem_passed]
    exact exists_reordered_iff h fun a b hab => passes_reordered hab id
  passedSurfaces := by
    ext id
    rw [mem_passedSurfaces hm, mem_passedSurfaces hm]
    exact exists_reordered_iff h fun a b hab => credits_reordered hab id
  passedEquivalent := by
    ext id
    rw [mem_passedEquivalent, mem_passedEquivalent]
    exact exists_reordered_iff h fun a b hab => invokes_reordered h hab id
  evidence := group_reordered (passedBy_nodup hm) (passedBy_nodup hm) h fun a b hab id => by
    rw [mem_passedBy, mem_passedBy, passes_reordered hab]
  interface_evidence := group_reordered (creditedBy_nodup m) (creditedBy_nodup m) h
    fun a b hab id => by rw [mem_creditedBy hm, mem_creditedBy hm, credits_reordered hab]
  equivalent_evidence := group_reordered (invokedBy_nodup hm report) (invokedBy_nodup hm report') h
    fun a b hab id => by rw [mem_invokedBy, mem_invokedBy, invokes_reordered h hab]

end Credit

/-! ## The summaries -/

/-- The two summaries differ at most in the order of evidence and in the reason for a
verification. -/
structure CoverageSummary.SameUpToOrder (s s' : CoverageSummary) : Prop where
  status : s.verification.status = s'.verification.status
  metrics : s.metrics = s'.metrics
  equivalence_checks :
    s.cliOptionAccounting.equivalenceChecks = s'.cliOptionAccounting.equivalenceChecks
  accounted : s.cliOptionAccounting.accounted = s'.cliOptionAccounting.accounted
  case_statuses : s.caseStatuses.Same s'.caseStatuses
  unimplemented : s.unimplementedRequirements = s'.unimplementedRequirements
  unverified : s.unverifiedRequirements = s'.unverifiedRequirements
  evidence : s.evidence.SamePerm s'.evidence
  interface_evidence : s.interfaceEvidence.SamePerm s'.interfaceEvidence
  equivalence_evidence :
    s.cliOptionAccounting.equivalenceEvidence.SamePerm s'.cliOptionAccounting.equivalenceEvidence

section Summaries

variable {m : ModelData} {reach : Finset String} {v v' : Verification}
  {report report' : Option RunReport}

theorem summary_sameUpToOrder {c c' : Credit} (hstatus : v.status = v'.status)
    (h : c.SameUpToOrder c') :
    (m.summary reach (some c) v report).SameUpToOrder (m.summary reach (some c') v' report') where
  status := hstatus
  metrics := by
    have hrequirement : m.requirementMetric (some c) = m.requirementMetric (some c') := by
      funext p
      rw [ModelData.requirementMetric, ModelData.requirementMetric, Option.map_some,
        Option.map_some, h.passed]
    have hsurface : m.surfaceMetric reach (some c) = m.surfaceMetric reach (some c') := by
      funext kind
      rw [ModelData.surfaceMetric, ModelData.surfaceMetric, Option.map_some, Option.map_some,
        h.passedSurfaces]
    show m.metrics reach (some c) = m.metrics reach (some c')
    rw [ModelData.metrics, ModelData.metrics, hrequirement, hsurface]
  equivalence_checks := by
    simp only [ModelData.summary, ModelData.optionAccounting, Option.map_some, h.passedEquivalent]
  accounted := by
    simp only [ModelData.summary, ModelData.optionAccounting, Option.map_some, h.passedSurfaces,
      h.passedEquivalent]
  case_statuses := h.statuses
  unimplemented := rfl
  unverified := by
    simp only [ModelData.summary, Option.map_some, h.passed]
  evidence := h.evidence
  interface_evidence := h.interface_evidence
  equivalence_evidence := h.equivalent_evidence

theorem summary_uncredited_sameUpToOrder (hstatus : v.status = v'.status) :
    (m.summary reach none v report).SameUpToOrder (m.summary reach none v' report') :=
  ⟨hstatus, rfl, rfl, rfl, fun _ => rfl, rfl, rfl, Dict.SamePerm.refl _, Dict.SamePerm.refl _,
    Dict.SamePerm.refl _⟩

/-- The outcome of a reordered report is the outcome of the report, up to order. -/
theorem summarize_view_reordered {Bytes : Type} [UnicodeDatabase] {rt : Runtime Bytes}
    {tree : FileTree Bytes} {value value' : Value} {report report' : RunReport}
    {s : CoverageSummary}
    (hm : m.Valid) (hread : readReport (some value) = .ok (some report))
    (hread' : readReport (some value') = .ok (some report')) (h : report.Reordered report')
    (hs : m.summarize rt tree (some value) = .ok s) :
    ∃ s', m.summarize rt tree (some value') = .ok s' ∧ s.SameUpToOrder s' := by
  obtain ⟨_, hreport, v, credit, hend, rfl⟩ := (summarize_eq_ok hm).mp hs
  rw [hread] at hreport
  cases hreport
  cases hend with
  | uncredited hv hother =>
      obtain ⟨v', hv', hstatus⟩ := verification_reordered h hv
      refine ⟨_, (summarize_eq_ok hm).mpr ⟨_, hread', v', none, .uncredited hv' ?_, rfl⟩,
        summary_uncredited_sameUpToOrder hstatus.symm⟩
      rwa [hstatus]
  | current hv hcurrent hdecodable =>
      obtain ⟨v', hv', hstatus⟩ := verification_reordered h hv
      have hdecodable' : ∀ result ∈ report'.results, m.Decodable result := by
        intro b hb
        obtain ⟨middle, hperm, hresults⟩ := h.results
        obtain ⟨a, ha, hab⟩ := exists_of_forall₂ hresults.flip hb
        have hdecoded := hdecodable a (hperm.mem_iff.mpr ha)
        rwa [ModelData.Decodable, isPassed_reordered hab, caseKey_reordered hab]
      refine ⟨_, (summarize_eq_ok hm).mpr ⟨_, hread', v', _, .current hv' ?_ hdecodable', rfl⟩,
        summary_sameUpToOrder hstatus.symm (creditOf_reordered hm h)⟩
      rwa [hstatus]

end Summaries

/-- **The summary does not depend on execution order.** A report with its results, and the
evidence records in them, in another order is accepted like the report; `summarize` returns on
both or on neither, and the summaries are the same up to the order of evidence. -/
theorem summarize_reordered {Bytes : Type} [UnicodeDatabase] (m : CoverageModel)
    (rt : Runtime Bytes) (tree : FileTree Bytes) (value value' parsed json json' : Value)
    (haccepted : parseReport value "report" = .ok parsed)
    (hjson : jsonValue value "report" = .ok json) (hjson' : jsonValue value' "report" = .ok json')
    (h : ReportReordered json json') :
    (∃ parsed', parseReport value' "report" = .ok parsed')
    ∧ ((∃ s, m.summarize rt tree (some value) = .ok s)
        ↔ ∃ s', m.summarize rt tree (some value') = .ok s')
    ∧ ∀ s s', m.summarize rt tree (some value) = .ok s →
        m.summarize rt tree (some value') = .ok s' → s.SameUpToOrder s' := by
  obtain ⟨parsed', haccepted'⟩ := parseReport_reordered haccepted hjson hjson' h
  have hviews : (RunReport.ofValue parsed).Reordered (RunReport.ofValue parsed') := by
    obtain ⟨_, hother, _, hview⟩ := of_parseReport haccepted
    obtain ⟨_, hother', _, hview'⟩ := of_parseReport haccepted'
    rw [hjson] at hother
    rw [hjson'] at hother'
    cases hother
    cases hother'
    rw [hview, hview']
    exact ofValue_reportReordered h
  have hread := readReport_some haccepted
  have hread' := readReport_some haccepted'
  refine ⟨⟨parsed', haccepted'⟩, ⟨?_, ?_⟩, ?_⟩
  · rintro ⟨s, hs⟩
    obtain ⟨s', hs', _⟩ := summarize_view_reordered m.valid hread hread' hviews hs
    exact ⟨s', hs'⟩
  · rintro ⟨s', hs'⟩
    obtain ⟨s, hs, _⟩ := summarize_view_reordered m.valid hread' hread hviews.symm hs'
    exact ⟨s, hs⟩
  · intro s s' hs hs'
    obtain ⟨other, hother, hsame⟩ := summarize_view_reordered m.valid hread hread' hviews hs
    rw [hs'] at hother
    cases hother
    exact hsame

/-- The theorem on the small suite, whose two cases ran in the other order. -/
theorem summarize_reordered_small : ∃ m : CoverageModel,
    smallInit "cli.option.run.--verbose" = .ok m
    ∧ ∃ s s', smallSummary "cli.option.run.--verbose" m.toModelData
        (runValue m.definition "flatpak"
          (m.cases.keys.map (resultValue (onlyCase runCase ["flatpak", "run"])))) = .ok s
      ∧ smallSummary "cli.option.run.--verbose" m.toModelData
        (runValue m.definition "flatpak"
          (m.cases.keys.reverse.map (resultValue (onlyCase runCase ["flatpak", "run"])))) = .ok s'
      ∧ s.SameUpToOrder s' := by
  obtain ⟨m, hinit, hshape⟩ := small_verbose
  have hjson : ∀ keys : List CaseKey, (runValue m.definition "flatpak"
      (keys.map (resultValue (onlyCase runCase ["flatpak", "run"])))).IsJson := by
    intro keys
    refine isJson_runValue fun result hresult => ?_
    obtain ⟨key, _, rfl⟩ := List.mem_map.mp hresult
    exact isJson_resultValue _ key
  have hreordered : ReportReordered
      (runValue m.definition "flatpak"
        (m.cases.keys.map (resultValue (onlyCase runCase ["flatpak", "run"]))))
      ((runValue m.definition "flatpak"
        (m.cases.keys.map (resultValue (onlyCase runCase ["flatpak", "run"])))).setField "results"
        (.list (m.cases.keys.reverse.map (resultValue (onlyCase runCase ["flatpak", "run"]))))) :=
    .results rfl ((List.reverse_perm m.cases.keys).symm.map _)
      (List.forall₂_same.mpr fun _ _ => .same)
  obtain ⟨_, hreturns, hsame⟩ := @summarize_reordered Value asciiOnly m jsonRuntime
    (smallSuite "cli.option.run.--verbose") _ _ _ _ _ (@parseReport_runValue _ _ asciiOnly _ _)
    (hjson m.cases.keys "report") (hjson m.cases.keys.reverse "report") hreordered
  obtain ⟨s, hs⟩ := smallSummary_isOk hinit hshape
    (@parseReport_runValue m.definition "flatpak" asciiOnly m.cases.keys
      (onlyCase runCase ["flatpak", "run"]))
  obtain ⟨s', hs'⟩ := hreturns.mp ⟨s, hs⟩
  exact ⟨m, hinit, s, s', hs, hs', hsame s s' hs hs'⟩

end FlatpakBlackbox
