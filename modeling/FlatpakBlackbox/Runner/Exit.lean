import FlatpakBlackbox.Runner.Invariant

set_option autoImplicit false

/-! # What a run returns

The invariant of a run taken to the end of `main`: the exit status says exactly whether the run is
clean or its failures are the expected ones, every selected case has a final status, and the times
of the cases fit into the time of the run.
-/

namespace FlatpakBlackbox

namespace Runner

open PyLib PyException

variable {w : World} {s : RunState}

/-! ## The report -/

/-- A run with nothing to complain about. -/
structure RunState.Clean (w : World) (s : RunState) : Prop where
  selected : ∃ key, w.selected key = true
  passed : ∀ key result, s.cases.get? key = some result → w.selected key = true →
    result.status = "passed"
  setupError : s.setupError = none
  verified : s.isVerified = true
  current : s.coverage = some .current

/-- A run whose only failures are assertions of scenarios that are not security sensitive. -/
structure RunState.ExpectedFailures (s : RunState) : Prop where
  complete : s.complete = some true
  setupError : s.setupError = none
  verified : s.isVerified = true
  current : s.coverage = some .current
  statuses : ∀ result ∈ s.cases.values, result.status ∈ ["passed", "failed", "not-selected"]
  failed : ∃ result ∈ s.cases.values, result.status = "failed"
  insensitive : ∀ result ∈ s.cases.values, result.status = "failed" →
    securitySensitive result.behaviorId = false

/-- The job summary is delivered where it is asked for. -/
def World.Delivered (w : World) : Prop := w.stepSummary = true → w.writeSummary = .ok ()

/-- A report that `main` has written and not yet summarised. -/
structure RunState.Written (w : World) (s : RunState) : Prop extends s.Sound w where
  settled : ∀ key, ¬ s.Pending key
  complete : s.complete = some true
  seconds_le : ∃ d, s.durationSeconds = some d ∧ (s.cases.values.map secondsOf).sum ≤ d
  status : s.status = 0 ∨ s.status = 1
  clean : s.status = 0 ↔ s.Clean w
  summarized : s.Summarized w

theorem anyPending_of_settled (h : ∀ key, ¬ s.Pending key) : s.anyPending = false := by
  cases hany : s.anyPending with
  | false => rfl
  | true =>
      obtain ⟨key, hkey⟩ := pending_of_anyPending hany
      exact absurd hkey (h key)

/-- The selected cases of a settled run passed unless some case failed. -/
theorem passed_iff (h : s.Sound w) (hsettled : ∀ key, ¬ s.Pending key) :
    (∀ key result, s.cases.get? key = some result → w.selected key = true →
        result.status = "passed")
      ↔ ∀ key result, s.cases.get? key = some result → result.status ∉ failureStatuses := by
  constructor
  · intro hpassed key result hget
    cases hselected : w.selected key with
    | true =>
        rw [hpassed key result hget hselected]
        decide
    | false =>
        rw [(h.cases key result hget).unselected hselected]
        decide
  · intro hall key result hget hselected
    rcases (h.cases key result hget).selected hselected with hpending | hpassed | hfailed
    · exact absurd ⟨result, hget, hpending⟩ (hsettled key)
    · exact hpassed
    · exact absurd hfailed (hall key result hget)

/-- The report after the outer `finally`. -/
theorem RunState.Completes.written (hclock : Monotone w.clock) {s' : RunState} (h : s.Sound w)
    (hsettled : ∀ key, ¬ s.Pending key)
    (hstatus : (s.setupError = none ∧ (∃ key, w.selected key = true) ∧ s.Flagged)
      ∨ (s.setupError ≠ none ∧ s.status = 1))
    (hcompletes : s.Completes w (w.clock 0) s') : s'.Written w := by
  -- The `finally` changes no case.
  have hsettled' : ∀ key, ¬ s'.Pending key := by
    intro key hkey
    refine hsettled key ?_
    unfold RunState.Pending at hkey ⊢
    rwa [hcompletes.cases] at hkey
  have hsound : s'.Sound w := by
    refine h.congr hcompletes.cases hcompletes.events (hclock ?_)
    rw [hcompletes.reads]
    exact Nat.le_succ _
  have hverified : s'.isVerified = decide (w.checkArtifacts.status = some "verified") := by
    unfold RunState.isVerified
    rw [hcompletes.verified]
    rfl
  refine ⟨hsound, hsettled', ?_, ⟨_, hcompletes.duration, ?_⟩, ?_, ?_, hcompletes.summarized⟩
  · rw [hcompletes.complete, anyPending_of_settled hsettled]
    rfl
  · rw [hcompletes.cases]
    exact h.seconds
  · rw [hcompletes.status]
    split_ifs
    · rcases hstatus with ⟨-, -, hflagged⟩ | ⟨-, hone⟩
      · exact hflagged.status
      · exact Or.inr hone
    · exact Or.inr rfl
  · rw [hcompletes.status]
    constructor
    · intro hzero
      split_ifs at hzero with hreport
      rcases hstatus with ⟨herror, hselected, hflagged⟩ | ⟨-, hone⟩
      · refine ⟨hselected, ?_, hcompletes.setupError.trans herror, ?_, hreport.2⟩
        · rw [hcompletes.cases]
          exact (passed_iff h hsettled).mpr (hflagged.failures.mp hzero)
        · rw [hverified]
          exact decide_eq_true hreport.1
      · rw [hone] at hzero
        cases hzero
    · intro hclean
      have hintegrity := hclean.verified
      rw [hverified] at hintegrity
      rw [if_pos ⟨of_decide_eq_true hintegrity, hclean.current⟩]
      rcases hstatus with ⟨-, -, hflagged⟩ | ⟨herror, -⟩
      · have hpassed := hclean.passed
        rw [hcompletes.cases] at hpassed
        exact hflagged.failures.mpr ((passed_iff h hsettled).mp hpassed)
      · exact absurd (hcompletes.setupError.symm.trans hclean.setupError) herror

/-! ## The exit status -/

/-- `main` up to its summary. -/
theorem written_of_main (hclock : Monotone w.clock) {started : ℚ} (hstarted : started = w.clock 0)
    (h : s.Fair w) :
    Py.wp (Py.tryFinally
        (Py.tryExcept (runCases w) (fun error => error.isInstance runClasses) (setupFailed w))
        (completeRun w started))
      (fun _ => RunState.Written w) (fun _ => RunState.Sound w) s := by
  subst hstarted
  -- Where the `finally` raises, the run is still sound.
  have hraises : ∀ s, RunState.Sound w s →
      Py.wp (completeRun w (w.clock 0)) (fun _ => RunState.Sound w) (fun _ =>
        RunState.Sound w) s := by
    intro s h
    have hsame : ∀ s' : RunState, s'.cases = s.cases → s'.events = s.events →
        (s'.reads = s.reads ∨ s'.reads = s.reads + 1) → s'.Sound w := by
      intro s' hcases hevents hreads
      refine h.congr hcases hevents (hclock ?_)
      rcases hreads with hreads | hreads
      · exact hreads.ge
      · rw [hreads]
        exact Nat.le_succ _
    refine Py.wp_mono (completeRun_spec (w.clock 0)) (fun _ s' hs' => ?_) fun _ s' hs' => ?_
    · exact hsame s' hs'.cases hs'.events (Or.inr hs'.reads)
    · exact hsame s' hs'.1 hs'.2.1 hs'.2.2
  -- Where it returns, it has written the report.
  have hreturns : ∀ s, RunState.Sound w s → (∀ key, ¬ s.Pending key) →
      ((s.setupError = none ∧ (∃ key, w.selected key = true) ∧ s.Flagged)
        ∨ (s.setupError ≠ none ∧ s.status = 1)) →
      Py.wp (completeRun w (w.clock 0)) (fun _ => RunState.Written w) (fun _ =>
        RunState.Sound w) s := by
    intro s h hsettled hstatus
    refine Py.wp_mono (Py.wp_and (completeRun_spec (w.clock 0)) (hraises s h)) (fun _ s' hs' => ?_)
      fun _ _ h => h.2
    exact hs'.1.written hclock h hsettled hstatus
  refine Py.wp_tryFinally.mpr (Py.wp_tryExcept.mpr (Py.wp_mono (runCases_spec hclock h)
    (fun _ s hs => ?_) fun error s hs => ⟨fun _ => ?_, fun _ => ?_⟩))
  · exact hreturns s hs.toSound hs.settled (Or.inl ⟨hs.setupError, hs.selected, hs.toFlagged⟩)
  · refine Py.wp_mono (setupFailed_spec hs) (fun _ s hs => ?_) fun _ s hs => ?_
    · exact hreturns s hs.toSound hs.settled (Or.inr ⟨hs.setupError, hs.status⟩)
    · exact Py.wp_mono (hraises s hs) (fun _ _ h => h) fun _ _ h => h
  · exact Py.wp_mono (hraises s hs) (fun _ _ h => h) fun _ _ h => h

/-- The job summary: a failed delivery raises the flag. -/
theorem deliverSummary_spec {P : RunState → Prop} (h : P s) (hstatus : P { s with status := 1 }) :
    Py.wp (deliverSummary w)
      (fun delivered s' => (delivered = true ↔ w.Delivered) ∧ P s'
        ∧ s' = if delivered = true then s else { s with status := 1 })
      (fun _ => P) s := by
  refine Py.wp_ite.mpr ⟨fun hunset => ⟨⟨fun _ hset => ?_, fun _ => rfl⟩, h, rfl⟩, fun hset => ?_⟩
  · rw [hunset] at hset
    cases hset
  have hset' : w.stepSummary = true := (Bool.not_eq_false _).mp hset
  refine Py.wp_tryExcept.mpr (Py.wp_bind.mpr (Py.wp_ofExcept.mpr ⟨fun _ hwrite => ?_,
    fun error hwrite => ⟨fun _ => ?_, fun _ => h⟩⟩))
  · exact ⟨⟨fun _ _ => hwrite, fun _ => rfl⟩, h, rfl⟩
  · refine Py.wp_bind.mpr (Py.wp_ofExcept.mpr ⟨fun _ _ => ?_, fun _ _ => h⟩)
    refine Py.wp_bind.mpr (Py.wp_modify.mpr ⟨⟨fun hfalse => ?_, fun hdelivered => ?_⟩,
      hstatus, rfl⟩)
    · cases hfalse
    · rw [hdelivered hset'] at hwrite
      cases hwrite

theorem expectedScenarioFailuresOnly_iff {delivered : Bool} :
    expectedScenarioFailuresOnly s delivered = true
      ↔ s.status = 1 ∧ delivered = true ∧ s.ExpectedFailures := by
  unfold expectedScenarioFailuresOnly
  simp only [Bool.and_eq_true, decide_eq_true_eq, Option.isNone_iff_eq_none, Bool.not_eq_true',
    List.any_eq_true, List.all_eq_true, List.any_eq_false]
  constructor
  · rintro ⟨⟨⟨⟨⟨⟨⟨⟨hstatus, hdelivered⟩, hcomplete⟩, herror⟩, hfailed⟩, hsensitive⟩, hstatuses⟩,
      hverified⟩, hcurrent⟩
    refine ⟨hstatus, hdelivered, hcomplete, herror, hverified, hcurrent, hstatuses, hfailed, ?_⟩
    intro result hresult hfails
    have hnot := hsensitive result hresult
    simpa [hfails] using hnot
  · rintro ⟨hstatus, hdelivered, h⟩
    refine ⟨⟨⟨⟨⟨⟨⟨⟨hstatus, hdelivered⟩, h.complete⟩, h.setupError⟩, h.failed⟩, ?_⟩, h.statuses⟩,
      h.verified⟩, h.current⟩
    rintro result hresult ⟨hfails, hsensitive⟩
    rw [h.insensitive result hresult hfails] at hsensitive
    cases hsensitive

/-- A run with a failed case is flagged. -/
theorem RunState.Written.status_of_failed (h : s.Written w) (hexpected : s.ExpectedFailures) :
    s.status = 1 := by
  refine h.status.resolve_left fun hzero => ?_
  obtain ⟨result, hresult, hfails⟩ := hexpected.failed
  obtain ⟨key, hget⟩ := Dict.mem_values_iff.mp hresult
  have hall := (passed_iff h.toSound h.settled).mp (h.clean.mp hzero).passed key result hget
  rw [hfails] at hall
  exact hall (by decide)

/-- What `main` establishes where it returns. -/
structure RunState.Returned (w : World) (n : ℕ) (s : RunState) : Prop extends s.Sound w where
  settled : ∀ key, ¬ s.Pending key
  complete : s.complete = some true
  seconds_le : ∃ d, s.durationSeconds = some d ∧ (s.cases.values.map secondsOf).sum ≤ d
  exit : n = 0 ∨ n = 1
  exit_zero : n = 0 ↔ w.Delivered ∧ (s.Clean w
    ∨ (w.arguments.allowExpectedFailures = true ∧ s.ExpectedFailures))
  summarized : s.Summarized w

/-- **`main`.** -/
theorem main_spec (hclock : Monotone w.clock) :
    Py.wp (main w) (fun n s => s.Returned w n) (fun _ => RunState.Sound w) w.initial := by
  -- The first reading of the clock changes nothing else.
  have hinitial : RunState.Fair w { w.initial with reads := w.initial.reads + 1 } := by
    have h := RunState.Fair.initial (w := w)
    have hsound : RunState.Sound w { w.initial with reads := w.initial.reads + 1 } :=
      h.toSound.congr rfl rfl (hclock (Nat.le_succ _))
    exact ⟨hsound, ⟨h.setupError, h.status, h.failures⟩, h.untouched, h.tolerated⟩
  refine Py.wp_bind.mpr (wp_runNow.mpr ?_)
  refine Py.wp_bind.mpr (Py.wp_ofExcept.mpr ⟨fun _ _ => ?_, fun _ _ => hinitial.toSound⟩)
  refine Py.wp_bind.mpr (Py.wp_mono (written_of_main hclock rfl hinitial) (fun _ s hs => ?_)
    fun _ _ h => h)
  refine Py.wp_bind.mpr (Py.wp_ofExcept.mpr ⟨fun _ _ => ?_, fun _ _ => hs.toSound⟩)
  have hflag : RunState.Sound w { s with status := 1 } := hs.toSound.congr rfl rfl le_rfl
  refine Py.wp_bind.mpr (Py.wp_mono (deliverSummary_spec hs.toSound hflag)
    (fun delivered s' h => ?_)
    fun _ _ h => h)
  obtain ⟨hdelivered, hsound, heq⟩ := h
  refine Py.wp_bind.mpr (Py.wp_read.mpr ?_)
  cases delivered with
  | true =>
      obtain rfl : s' = s := heq
      -- The summary is delivered, so only now a run with expected failures may return zero.
      have hyes : w.Delivered := hdelivered.mp rfl
      refine Py.wp_ite.mpr ⟨fun hallowed => ?_, fun hnot => ?_⟩
      · obtain ⟨hallows, hexpected⟩ := Bool.and_eq_true_iff.mp hallowed
        obtain ⟨-, -, hfailures⟩ := expectedScenarioFailuresOnly_iff.mp hexpected
        exact ⟨hsound, hs.settled, hs.complete, hs.seconds_le, Or.inl rfl,
          ⟨fun _ => ⟨hyes, Or.inr ⟨hallows, hfailures⟩⟩, fun _ => rfl⟩, hs.summarized⟩
      · refine ⟨hsound, hs.settled, hs.complete, hs.seconds_le, hs.status,
          ⟨fun hzero => ⟨hyes, Or.inl (hs.clean.mp hzero)⟩, fun hreport => ?_⟩, hs.summarized⟩
        rcases hreport.2 with hclean | ⟨hallows, hfailures⟩
        · exact hs.clean.mpr hclean
        · have hexpected := expectedScenarioFailuresOnly_iff.mpr
            ⟨hs.status_of_failed hfailures, hdelivered.mpr hyes, hfailures⟩
          exact absurd (Bool.and_eq_true_iff.mpr ⟨hallows, hexpected⟩) hnot
  | false =>
      obtain rfl : s' = { s with status := 1 } := heq
      have hno : ¬ w.Delivered := fun h => Bool.false_ne_true (hdelivered.mpr h)
      refine Py.wp_ite.mpr ⟨fun hallowed => ?_, fun _ => ?_⟩
      · obtain ⟨-, hexpected⟩ := Bool.and_eq_true_iff.mp hallowed
        exact absurd (expectedScenarioFailuresOnly_iff.mp hexpected).2.1 Bool.false_ne_true
      · exact ⟨hsound, hs.settled, hs.complete, hs.seconds_le, Or.inr rfl,
          ⟨fun hone => absurd hone one_ne_zero, fun hreport => absurd hreport.1 hno⟩, hs.summarized⟩

end Runner

end FlatpakBlackbox
