import FlatpakBlackbox.Runner.Block
import FlatpakBlackbox.Runner.Main

set_option autoImplicit false

/-! # The invariant of a run

`RunState.Sound` holds from the first case to the end of `main`, however the parts of the run
end: the cases are those of the start, each with a status that fits its selection, the times of
the cases fit into the time of the run, and the contexts of the cases are released.
`RunState.Fair` holds until the setup fails. One lemma for each statement that touches a case
(`failCase`, the block, the probes, the outer `except`) says that the statement keeps it.
-/

namespace FlatpakBlackbox

namespace Runner

open PyLib PyException

/-! ## The invariant -/

/-- Whether the arguments select a case. -/
def World.selected (w : World) (key : CaseKey) : Bool :=
  ((initialCases w.suite w.arguments).get? key).any fun result => result.status = "pending"

/-- The phases of a result, where it has any, partition its duration. -/
def Phased (result : CaseResult) : Prop :=
  (result.durationSeconds = none ∧ result.timings = none)
    ∨ ∃ d t, result.durationSeconds = some d ∧ result.timings = some t
      ∧ 0 ≤ t.setupSeconds ∧ 0 ≤ t.executionSeconds ∧ 0 ≤ t.cleanupSeconds
      ∧ t.setupSeconds + t.executionSeconds + t.cleanupSeconds = d

/-- No cleanup raises what its `except` clause does not name. -/
def World.CleansUp (w : World) : Prop := ∀ key, (w.case key).CleansUp

/-- What holds of the result of a case at any time. -/
structure CaseSound (w : World) (key : CaseKey) (result : CaseResult) : Prop where
  caseKey : result.caseKey = key
  selected : w.selected key = true →
    result.status = "pending" ∨ result.status = "passed" ∨ result.status ∈ failureStatuses
  unselected : w.selected key = false → result.status = "not-selected"
  pending : result.status = "pending" → result.cleanupError = none
  cleanup : result.cleanupError ≠ none → result.status = "setup-error"
  confirmed : w.CleansUp → result.status = "passed" →
    result.cleanupError = none ∧ result.cleanupComplete = some true
  phased : Phased result

/-- The seconds of a result, none counting zero. They are exact. -/
def secondsOf (result : CaseResult) : ℚ := result.durationSeconds.getD 0

/-- The events of a case. -/
def RunState.eventsOf (s : RunState) (key : CaseKey) : List CaseEvent :=
  (s.events.filter fun event => event.1 = key).map Prod.snd

/-- What holds of a run at any time. -/
structure RunState.Sound (w : World) (s : RunState) : Prop where
  keys : s.cases.keys = (initialCases w.suite w.arguments).keys
  cases : ∀ key result, s.cases.get? key = some result → CaseSound w key result
  seconds : (s.cases.values.map secondsOf).sum ≤ w.clock s.reads - w.clock 0
  execution : ∀ key result t, s.cases.get? key = some result → result.timings = some t →
    (∃ name, (key, CaseEvent.entered name) ∉ s.events) → t.executionSeconds = 0
  released : ∀ key, Released (s.eventsOf key)

variable {w : World} {s : RunState}

theorem status_initial {key : CaseKey} {result : CaseResult}
    (h : (initialCases w.suite w.arguments).get? key = some result) :
    result.caseKey = key ∧ (result.status = "pending" ∨ result.status = "not-selected")
      ∧ result.durationSeconds = none ∧ result.timings = none ∧ result.cleanupError = none := by
  have hmem := Dict.mem_entries_of_get? h
  obtain ⟨kind, hkind⟩ : ∃ kind, (key, result) ∈ plannedCases w.suite w.arguments kind := by
    rcases List.mem_append.mp hmem with hmem | hmem
    · exact ⟨_, hmem⟩
    · exact ⟨_, hmem⟩
  obtain ⟨behavior, _, hbehavior⟩ := List.mem_map.mp hkind
  obtain ⟨rfl, rfl⟩ := Prod.mk.inj hbehavior
  refine ⟨rfl, ?_, rfl, rfl, rfl⟩
  show (if _ then _ else _) = _ ∨ (if _ then _ else _) = _
  split_ifs
  · exact Or.inl rfl
  · exact Or.inr rfl

theorem released_nil : Released [] := ⟨[], [], [], by decide, Or.inl rfl, Or.inl rfl, rfl⟩

theorem sound_initial : w.initial.Sound w where
  keys := rfl
  cases key result hget := by
    obtain ⟨hkey, hstatus, hduration, htimings, hcleanup⟩ := status_initial hget
    have hselected : w.selected key = decide (result.status = "pending") := by
      unfold World.selected
      rw [show (initialCases w.suite w.arguments).get? key = some result from hget, Option.any_some]
    refine ⟨hkey, fun h => Or.inl ?_, fun h => ?_, fun _ => hcleanup, fun h => absurd hcleanup h,
      fun _ hpassed => ?_, Or.inl ⟨hduration, htimings⟩⟩
    · rw [hselected] at h
      exact of_decide_eq_true h
    · rw [hselected] at h
      exact hstatus.resolve_left (of_decide_eq_false h)
    · rcases hstatus with hstatus | hstatus
      · rw [hstatus] at hpassed
        exact absurd hpassed (by decide)
      · rw [hstatus] at hpassed
        exact absurd hpassed (by decide)
  seconds := by
    have hzero : (w.initial.cases.values.map secondsOf).sum = 0 := by
      refine List.sum_eq_zero fun x hx => ?_
      obtain ⟨result, hresult, rfl⟩ := List.mem_map.mp hx
      obtain ⟨key, hget⟩ := Dict.mem_values_iff.mp hresult
      unfold secondsOf
      rw [(status_initial hget).2.2.1, Option.getD_none]
    rw [hzero, show w.initial.reads = 0 from rfl, sub_self]
  execution key result t hget htimings _ := by
    rw [(status_initial hget).2.2.2.1] at htimings
    cases htimings
  released _ := released_nil

/-- The invariant looks at the cases, the events and the clock only. -/
theorem RunState.Sound.congr {s' : RunState} (h : s.Sound w) (hcases : s'.cases = s.cases)
    (hevents : s'.events = s.events) (hclock : w.clock s.reads ≤ w.clock s'.reads) :
    s'.Sound w where
  keys := by rw [hcases]; exact h.keys
  cases := by rw [hcases]; exact h.cases
  seconds := by
    rw [hcases]
    have hseconds := h.seconds
    linarith
  execution := by rw [hcases, hevents]; exact h.execution
  released key := by
    unfold RunState.eventsOf
    rw [hevents]
    exact h.released key

/-! ## Changing one case -/

/-- The flag of a run whose setup has not failed: it is raised by the failing cases. -/
structure RunState.Flagged (s : RunState) : Prop where
  setupError : s.setupError = none
  status : s.status = 0 ∨ s.status = 1
  failures : s.status = 0 ↔ ∀ key result, s.cases.get? key = some result →
    result.status ∉ failureStatuses

/-- A pending case. -/
def RunState.Pending (s : RunState) (key : CaseKey) : Prop :=
  ∃ result, s.cases.get? key = some result ∧ result.status = "pending"

/-- The events of the cases after one case has added some. -/
theorem eventsOf_of_append {s' : RunState} {key : CaseKey} {added : List CaseEvent}
    (h : s'.events = s.events ++ added.map fun event => (key, event)) (key' : CaseKey) :
    s'.eventsOf key' = if key = key' then s.eventsOf key' ++ added else s.eventsOf key' := by
  unfold RunState.eventsOf
  rw [h, List.filter_append, List.map_append, List.filter_map, List.map_map]
  by_cases hkey : key = key'
  · subst hkey
    have hall : added.filter ((fun event : CaseKey × CaseEvent => decide (event.1 = key)) ∘
        fun event => (key, event)) = added := List.filter_eq_self.mpr fun _ _ => decide_eq_true rfl
    rw [if_pos rfl, hall]
    exact congrArg _ (List.map_id _)
  · have hnone : added.filter ((fun event : CaseKey × CaseEvent => decide (event.1 = key')) ∘
        fun event => (key, event)) = [] :=
      List.filter_eq_nil_iff.mpr fun _ _ => by simpa using hkey
    rw [if_neg hkey, hnone, List.map_nil, List.append_nil]

section Change

variable {s' : RunState} {key : CaseKey} {result : CaseResult} {f : CaseResult → CaseResult}

/-- A change of one case, which may take some time. -/
theorem RunState.Sound.change (h : s.Sound w) (hget : s.cases.get? key = some result)
    (hcases : s'.cases = s.cases.update key f) (hcase : CaseSound w key (f result))
    (hseconds : secondsOf (f result) - secondsOf result ≤ w.clock s'.reads - w.clock s.reads)
    {added : List CaseEvent} (hevents : s'.events = s.events ++ added.map fun event => (key, event))
    (hreleased : Released (s.eventsOf key ++ added))
    (hexecution : ∀ t, (f result).timings = some t →
      (∃ name, (key, CaseEvent.entered name) ∉ s'.events) → t.executionSeconds = 0) :
    s'.Sound w where
  keys := by rw [hcases, Dict.keys_update]; exact h.keys
  cases key' result' hget' := by
    rw [hcases] at hget'
    rcases Dict.eq_or_of_get?_update hget hget' with ⟨rfl, rfl⟩ | ⟨_, hget'⟩
    · exact hcase
    · exact h.cases key' result' hget'
  seconds := by
    have hsum := Dict.sum_values_update f secondsOf hget
    rw [hcases, hsum]
    linarith [h.seconds]
  execution key' result' t hget' htimings hmissing := by
    rw [hcases] at hget'
    rcases Dict.eq_or_of_get?_update hget hget' with ⟨rfl, rfl⟩ | ⟨_, hget'⟩
    · exact hexecution t htimings hmissing
    · refine h.execution key' result' t hget' htimings ?_
      obtain ⟨name, hname⟩ := hmissing
      refine ⟨name, fun hmem => hname ?_⟩
      rw [hevents]
      exact List.mem_append_left _ hmem
  released key' := by
    rw [eventsOf_of_append hevents key']
    by_cases hkey : key = key'
    · subst hkey
      rw [if_pos rfl]
      exact hreleased
    · rw [if_neg hkey]
      exact h.released key'

/-- The flag after a change of one case that is not a failure yet. -/
theorem RunState.Flagged.change (h : s.Flagged) (hget : s.cases.get? key = some result)
    (hresult : result.status ∉ failureStatuses) (hcases : s'.cases = s.cases.update key f)
    (herror : s'.setupError = s.setupError)
    (hstatus : (s'.status = s.status ∧ (f result).status ∉ failureStatuses)
      ∨ (s'.status = 1 ∧ (f result).status ∈ failureStatuses)) : s'.Flagged where
  setupError := herror.trans h.setupError
  status := by
    rcases hstatus with ⟨hstatus, -⟩ | ⟨hstatus, -⟩
    · rw [hstatus]
      exact h.status
    · exact Or.inr hstatus
  failures := by
    rw [hcases]
    rcases hstatus with ⟨hstatus, hkeeps⟩ | ⟨hstatus, hfails⟩
    · rw [hstatus, h.failures]
      constructor
      · intro hall key' result' hget'
        rcases Dict.eq_or_of_get?_update hget hget' with ⟨rfl, rfl⟩ | ⟨_, hget'⟩
        · exact hkeeps
        · exact hall key' result' hget'
      · intro hall key' result' hget'
        by_cases hkey : key = key'
        · subst hkey
          rw [hget] at hget'
          obtain rfl := Option.some.inj hget'
          exact hresult
        · exact hall key' result' ((Dict.get?_update_ne _ f hkey).trans hget')
    · rw [hstatus]
      refine ⟨fun h => absurd h one_ne_zero, fun hall => ?_⟩
      exact absurd hfails (hall key _ (Dict.get?_update_self f hget))

/-- A change that settles one case keeps the others as they are. -/
theorem pending_of_change (hget : s.cases.get? key = some result)
    (hcases : s'.cases = s.cases.update key f) (hsettled : (f result).status ≠ "pending")
    {key' : CaseKey} (h : s'.Pending key') : s.Pending key' ∧ key' ≠ key := by
  obtain ⟨result', hget', hpending⟩ := h
  rw [hcases] at hget'
  rcases Dict.eq_or_of_get?_update hget hget' with ⟨rfl, rfl⟩ | ⟨hne, hget'⟩
  · exact absurd hpending hsettled
  · exact ⟨⟨result', hget', hpending⟩, hne⟩

end Change

theorem pending_not_failure : "pending" ∉ failureStatuses := by decide

theorem ne_pending_of_failure {status : String} (h : status ∈ failureStatuses) :
    status ≠ "pending" := by
  rintro rfl
  exact pending_not_failure h

/-- Two results that agree in what a run records of a case beside its status. -/
structure SameRecord (result result' : CaseResult) : Prop where
  caseKey : result'.caseKey = result.caseKey
  duration : result'.durationSeconds = result.durationSeconds
  timings : result'.timings = result.timings
  cleanupError : result'.cleanupError = result.cleanupError

/-- A pending case that fails without having run. -/
theorem CaseSound.fail {key : CaseKey} {result failed : CaseResult} (h : CaseSound w key result)
    (hpending : result.status = "pending") (hstatus : failed.status ∈ failureStatuses)
    (hkept : SameRecord result failed) : CaseSound w key failed := by
  have hcleanup := hkept.cleanupError.trans (h.pending hpending)
  refine ⟨hkept.caseKey.trans h.caseKey, fun _ => Or.inr (Or.inr hstatus), fun hunselected => ?_,
    fun h => absurd h (ne_pending_of_failure hstatus), fun h => absurd hcleanup h,
    fun _ hpassed => ?_, ?_⟩
  · have hnot := h.unselected hunselected
    rw [hpending] at hnot
    exact absurd hnot (by decide)
  · rw [hpassed] at hstatus
    exact absurd hstatus (by decide)
  · unfold Phased
    rw [hkept.duration, hkept.timings]
    exact h.phased

/-- A change of one case that records nothing. -/
theorem RunState.Sound.restate (h : s.Sound w) {s' : RunState} {key : CaseKey} {result : CaseResult}
    {f : CaseResult → CaseResult} (hget : s.cases.get? key = some result)
    (hcases : s'.cases = s.cases.update key f) (hcase : CaseSound w key (f result))
    (hkept : SameRecord result (f result)) (hevents : s'.events = s.events)
    (hreads : s'.reads = s.reads) : s'.Sound w := by
  have happend : s'.events = s.events ++ ([] : List CaseEvent).map fun event => (key, event) := by
    rw [List.map_nil, List.append_nil, hevents]
  refine h.change hget hcases hcase ?_ happend ?_ fun t ht => ?_
  · unfold secondsOf
    rw [hkept.duration, hreads, sub_self, sub_self]
  · rw [List.append_nil]
    exact h.released key
  · rw [hevents]
    exact h.execution key result t hget (hkept.timings.symm.trans ht)

/-! ## Statements of the `try` -/

theorem wp_caseResult {key : CaseKey} {Q : CaseResult → RunState → Prop}
    {R : PyException → RunState → Prop} : Py.wp (caseResult key) Q R s ↔
      (∀ result, s.cases.get? key = some result → Q result s)
        ∧ (s.cases.get? key = none → R (keyError key.text) s) := by
  unfold Py.wp caseResult
  cases hget : s.cases.get? key with
  | none => simp
  | some result => simp

theorem wp_runNow {Q : ℚ → RunState → Prop} {R : PyException → RunState → Prop} :
    Py.wp (runNow w) Q R s ↔ Q (w.clock s.reads) { s with reads := s.reads + 1 } :=
  Py.wp_of_ok rfl

/-- The console changes its own part of the state only. -/
theorem caseFinished_keeps {P : RunState → Prop} {key : CaseKey}
    (hP : ∀ s completed reported, P s → P { s with completed := completed, reported := reported })
    (h : P s) : Py.wp (caseFinished w key) (fun _ => P) (fun _ => P) s := by
  refine Py.wp_bind.mpr (wp_caseResult.mpr ⟨fun result _ => ?_, fun _ => h⟩)
  have hreported := hP s (s.completed + 1) (s.reported ++ [(key, result.status)]) h
  refine Py.wp_bind.mpr (Py.wp_modify.mpr ?_)
  refine Py.wp_bind.mpr (Py.wp_ofExcept.mpr ⟨fun _ _ => ?_, fun _ _ => hreported⟩)
  exact Py.wp_ofExcept.mpr ⟨fun _ _ => hreported, fun _ _ => hreported⟩

/-- What holds of a run until its setup fails. -/
structure RunState.Fair (w : World) (s : RunState) : Prop extends s.Sound w, s.Flagged where
  untouched : ∀ key result, s.cases.get? key = some result → result.status = "pending" →
    result.durationSeconds = none ∧ result.timings = none ∧ s.eventsOf key = []
  tolerated : ∀ key, .called ∈ s.eventsOf key → (w.case key).Tolerated

theorem RunState.Sound.report (h : s.Sound w) (completed : ℕ) (reported : List (CaseKey × String)) :
    RunState.Sound w { s with completed := completed, reported := reported } :=
  ⟨h.keys, h.cases, h.seconds, h.execution, h.released⟩

theorem RunState.Fair.report (h : s.Fair w) (completed : ℕ) (reported : List (CaseKey × String)) :
    RunState.Fair w { s with completed := completed, reported := reported } :=
  ⟨h.toSound.report completed reported, ⟨h.setupError, h.status, h.failures⟩,
    h.untouched, h.tolerated⟩

theorem RunState.Fair.initial : w.initial.Fair w where
  toSound := sound_initial
  toFlagged := by
    refine ⟨rfl, Or.inl rfl, fun _ key result hget => ?_, fun _ => rfl⟩
    rcases (status_initial hget).2.1 with hstatus | hstatus
    · rw [hstatus]
      decide
    · rw [hstatus]
      decide
  untouched key result hget _ :=
    ⟨(status_initial hget).2.2.1, (status_initial hget).2.2.2.1, rfl⟩
  tolerated key hcalled := absurd hcalled List.not_mem_nil

/-- The pending cases are untouched by a change that settles a case. -/
theorem RunState.Fair.untouched_change (h : s.Fair w) {s' : RunState} {key : CaseKey}
    {result : CaseResult} {f : CaseResult → CaseResult} (hget : s.cases.get? key = some result)
    (hcases : s'.cases = s.cases.update key f) {added : List CaseEvent}
    (hevents : s'.events = s.events ++ added.map fun event => (key, event))
    (hsettled : (f result).status ≠ "pending") (key' : CaseKey) (result' : CaseResult)
    (hget' : s'.cases.get? key' = some result') (hpending : result'.status = "pending") :
    result'.durationSeconds = none ∧ result'.timings = none ∧ s'.eventsOf key' = [] := by
  rw [hcases] at hget'
  rcases Dict.eq_or_of_get?_update hget hget' with ⟨rfl, rfl⟩ | ⟨hne, hget'⟩
  · exact absurd hpending hsettled
  · rw [eventsOf_of_append hevents key', if_neg (Ne.symm hne)]
    exact h.untouched key' result' hget' hpending

/-- The run after it settled a case: no case has become pending, nor is this one. -/
structure RunState.Settles (w : World) (s : RunState) (key : CaseKey) (s' : RunState) : Prop
    extends s'.Fair w where
  pending : ∀ key', s'.Pending key' → s.Pending key' ∧ key' ≠ key

theorem caseFinished_settles {key : CaseKey} {s' : RunState} (h : s.Settles w key s') :
    Py.wp (caseFinished w key) (fun _ => s.Settles w key) (fun _ => s.Settles w key) s' :=
  caseFinished_keeps (fun _ completed reported h =>
    ⟨h.toFair.report completed reported, h.pending⟩) h

section Pending

variable {key : CaseKey} {result : CaseResult}

/-- `result.update(...)` of a pending case with a failure, and `status = 1`. -/
theorem failCase_settles (h : s.Fair w) (hget : s.cases.get? key = some result)
    (hpending : result.status = "pending") {f : CaseResult → CaseResult}
    (hstatus : (f result).status ∈ failureStatuses)
    (hkept : SameRecord result (f result)) :
    s.Settles w key { s with cases := s.cases.update key f, status := 1 } := by
  have hcase := (h.cases key result hget).fail hpending hstatus hkept
  have hsettled := ne_pending_of_failure hstatus
  have hsound : RunState.Sound w { s with cases := s.cases.update key f, status := 1 } :=
    h.toSound.restate hget rfl hcase hkept rfl rfl
  have happend : s.events = s.events ++ ([] : List CaseEvent).map fun event => (key, event) := by
    rw [List.map_nil, List.append_nil]
  refine ⟨⟨hsound, h.toFlagged.change hget ?_ rfl rfl (Or.inr ⟨rfl, hstatus⟩),
    h.untouched_change hget rfl happend hsettled, h.tolerated⟩,
    fun key' => pending_of_change hget rfl hsettled⟩
  rw [hpending]
  exact pending_not_failure

theorem failClient_settles (h : s.Fair w) (hget : s.cases.get? key = some result)
    (hpending : result.status = "pending") (error : PyException) :
    Py.wp (failClient w key error) (fun _ => s.Settles w key) (fun _ => s.Settles w key) s :=
  Py.wp_bind.mpr (Py.wp_modify.mpr (caseFinished_settles
    (failCase_settles h hget hpending (failureStatus_mem error) ⟨rfl, rfl, rfl, rfl⟩)))

theorem failApis_settles (h : s.Fair w) (hget : s.cases.get? key = some result)
    (hpending : result.status = "pending") (unavailable : List String) :
    Py.wp (failApis w key unavailable) (fun _ => s.Settles w key) (fun _ => s.Settles w key) s :=
  Py.wp_bind.mpr (Py.wp_modify.mpr (caseFinished_settles
    (failCase_settles h hget hpending (by simp [failureStatuses]) ⟨rfl, rfl, rfl, rfl⟩)))

end Pending

/-! ## The block in a run -/

section Block

variable {key : CaseKey} {result : CaseResult} {frame : CaseFrame}

theorem CaseSound.selected_of_pending (h : CaseSound w key result)
    (hpending : result.status = "pending") : w.selected key = true := by
  cases hselected : w.selected key with
  | true => rfl
  | false =>
      have hnot := h.unselected hselected
      rw [hpending] at hnot
      exact absurd hnot (by decide)

/-- The result of a block. -/
theorem caseSound_of_finished (hselected : w.selected key = true) {n : ℕ}
    (h : frame.Finished w.clock n (Verdict.Judged (w.case key) key)) :
    CaseSound w key frame.result := by
  obtain ⟨d, t, hd, ht, hsetup, hexecution, hcleanup, hsum, -, -⟩ := h.phases
  have hphased : Phased frame.result :=
    Or.inr ⟨d, t, hd, ht, hsetup, hexecution, hcleanup, hsum⟩
  have hunselected : w.selected key = false → frame.result.status = "not-selected" := by
    intro hfalse
    rw [hselected] at hfalse
    cases hfalse
  -- The three verdicts that pass or are open settle everything but the failed ones alike.
  have hpassed : frame.verdict.Passed key →
      (w.CleansUp → frame.verdict.cleanupComplete = some true) → CaseSound w key frame.result := by
    intro h hcomplete
    have hstatus : frame.result.status = "passed" := h.status
    refine ⟨h.key, fun _ => Or.inr (Or.inl h.status), hunselected, fun hpending => ?_,
      fun herror => absurd h.cleanupError herror,
      fun hclean _ => ⟨h.cleanupError, hcomplete hclean⟩, hphased⟩
    rw [hstatus] at hpending
    exact absurd hpending (by decide)
  rcases h.decided with (⟨hpass, hcomplete⟩ | ⟨-, hkey, hstatus, hcleanup⟩) | hopen | ⟨hpass, hnot⟩
  · exact hpassed hpass fun _ => hcomplete
  · refine ⟨hkey, fun _ => Or.inr (Or.inr hstatus), hunselected,
      fun hpending => absurd hpending (ne_pending_of_failure hstatus), hcleanup,
        fun _ hpassed => ?_,
      hphased⟩
    have hmem : frame.result.status ∈ failureStatuses := hstatus
    rw [hpassed] at hmem
    exact absurd hmem (by decide)
  · have hstatus : frame.result.status = "pending" := hopen.status
    refine ⟨hopen.key, fun _ => Or.inl hstatus, hunselected, fun _ => hopen.cleanupError,
      fun herror => absurd hopen.cleanupError herror, fun _ hpassed => ?_, hphased⟩
    rw [hstatus] at hpassed
    exact absurd hpassed (by decide)
  · exact hpassed hpass fun hclean => absurd (hclean key) hnot

/-- The run after the block of a case. -/
theorem absorb_sound (h : s.Fair w) (hget : s.cases.get? key = some result)
    (hpending : result.status = "pending")
    (hframe : frame.Finished w.clock s.reads (Verdict.Judged (w.case key) key)) :
    (RunState.absorb { s with reads := s.reads + 1 } key frame).Sound w := by
  have hselected := (h.cases key result hget).selected_of_pending hpending
  obtain ⟨hduration, -, hevents⟩ := h.untouched key result hget hpending
  obtain ⟨d, t, hd, ht, -, -, -, -, hreads, hentered⟩ := hframe.phases
  refine h.toSound.change (f := fun _ => frame.result) hget rfl
    (caseSound_of_finished hselected hframe) ?_ rfl ?_ fun t' ht' hmissing => ?_
  · unfold secondsOf
    rw [hduration, hd, Option.getD_some, Option.getD_none, sub_zero]
    exact hreads
  · rw [hevents, List.nil_append]
    exact hframe.released
  · obtain rfl : t = t' := Option.some.inj (ht.symm.trans ht')
    refine hentered ?_
    obtain ⟨name, hname⟩ := hmissing
    refine ⟨name, fun hmem => hname (List.mem_append_right _ ?_)⟩
    exact List.mem_map.mpr ⟨_, hmem, rfl⟩

theorem absorb_settles (h : s.Fair w) (hget : s.cases.get? key = some result)
    (hpending : result.status = "pending")
    (hframe : frame.Finished w.clock s.reads fun v =>
      v.Decided key ∧ (v.called = true → (w.case key).Tolerated)) :
    s.Settles w key (RunState.absorb { s with reads := s.reads + 1 } key frame) := by
  have hsound := absorb_sound h hget hpending
    ⟨Or.inl hframe.decided.1, hframe.reads, hframe.phases, hframe.released⟩
  have hresult : result.status ∉ failureStatuses := by
    rw [hpending]
    exact pending_not_failure
  have hsettled : frame.result.status ≠ "pending" := by
    rcases hframe.decided.1 with ⟨hpassed, -⟩ | ⟨-, -, hfailed, -⟩
    · rw [show frame.result.status = "passed" from hpassed.status]
      decide
    · exact ne_pending_of_failure hfailed
  refine ⟨⟨hsound, h.toFlagged.change (f := fun _ => frame.result) hget hresult rfl rfl ?_,
      h.untouched_change (f := fun _ => frame.result) hget rfl rfl hsettled,
        fun key' hcalled => ?_⟩,
    fun key' => pending_of_change (f := fun _ => frame.result) hget rfl hsettled⟩
  · rcases hframe.decided.1 with ⟨hpassed, -⟩ | ⟨hfailed, -, hstatus, -⟩
    · refine Or.inl ⟨?_, ?_⟩
      · show (if frame.failed = true then 1 else s.status) = s.status
        rw [show frame.failed = false from hpassed.failed, if_neg Bool.false_ne_true]
      · rw [show frame.result.status = "passed" from hpassed.status]
        decide
    · refine Or.inr ⟨?_, hstatus⟩
      show (if frame.failed = true then 1 else s.status) = 1
      rw [show frame.failed = true from hfailed, if_pos rfl]
  · rw [eventsOf_of_append (s := s) rfl key'] at hcalled
    by_cases hkey : key = key'
    · subst hkey
      rw [if_pos rfl, (h.untouched key result hget hpending).2.2, List.nil_append] at hcalled
      exact hframe.decided.2 (List.contains_iff_mem.mpr hcalled)
    · rw [if_neg hkey] at hcalled
      exact h.tolerated key' hcalled

theorem preparing_fresh {clock : ℕ → ℚ} (n : ℕ) (hkey : result.caseKey = key)
    (hpending : result.status = "pending") (hcleanup : result.cleanupError = none) :
    CaseFrame.Preparing clock n key { reads := n + 1, result, caseStarted := clock n } where
  begun := rfl
  reads := Nat.lt_succ_self n
  execution t ht := by cases ht
  cleanup t ht := by cases ht
  events := rfl
  stack := List.mem_cons_self
  called := Or.inl rfl
  failed := rfl
  key := hkey
  status := hpending
  cleanupError := hcleanup

/-- **A case that runs.** -/
theorem runCase_settles (hclock : Monotone w.clock) (library : LibraryDirs) (h : s.Fair w)
    (hget : s.cases.get? key = some result) (hpending : result.status = "pending") :
    Py.wp (runCase w library key) (fun _ => s.Settles w key) (fun _ => RunState.Sound w) s := by
  refine Py.wp_bind.mpr (wp_caseResult.mpr ⟨fun result' hget' => ?_, fun _ => h.toSound⟩)
  obtain rfl := Option.some.inj (hget.symm.trans hget')
  have hcase := h.cases key result hget
  have hfresh : CaseFrame.Preparing w.clock s.reads key
      { reads := s.reads + 1, result, caseStarted := w.clock s.reads } :=
    preparing_fresh s.reads hcase.caseKey hpending (hcase.pending hpending)
  refine Py.wp_bind.mpr (wp_runNow.mpr (Py.wp_bind.mpr (Py.wp_zoom.mpr
    (Py.wp_mono (caseBlock_spec hclock hfresh rfl rfl) (fun _ frame hframe => ?_)
      fun _ frame hframe => absorb_sound h hget hpending hframe))))
  exact Py.wp_mono (caseFinished_settles (absorb_settles h hget hpending hframe))
    (fun _ _ h => h) fun _ _ h => h.toSound

end Block

/-! ## The loops -/

/-- The case of a key of the run. -/
theorem exists_of_mem_initial {key : CaseKey} {result : CaseResult}
    (h : (initialCases w.suite w.arguments).get? key = some result) :
    ∃ behavior ∈ w.suite.inventory, isCase key.driver behavior = true
      ∧ key = keyOf key.driver behavior
      ∧ result = initialResult w.suite w.arguments key.driver behavior := by
  obtain ⟨kind, hkind⟩ : ∃ kind, (key, result) ∈ plannedCases w.suite w.arguments kind := by
    rcases List.mem_append.mp (Dict.mem_entries_of_get? h) with hmem | hmem
    · exact ⟨_, hmem⟩
    · exact ⟨_, hmem⟩
  obtain ⟨behavior, hmem, hbehavior⟩ := List.mem_map.mp hkind
  obtain ⟨hinventory, hcase⟩ := List.mem_filter.mp hmem
  obtain ⟨rfl, rfl⟩ := Prod.mk.inj hbehavior
  exact ⟨behavior, hinventory, hcase, rfl, rfl⟩

theorem driver_of_selected {key : CaseKey} (h : w.selected key = true) :
    key.driver ∈ w.arguments.driver.kinds := by
  unfold World.selected at h
  cases hget : (initialCases w.suite w.arguments).get? key with
  | none => rw [hget] at h; cases h
  | some result =>
      rw [hget] at h
      obtain ⟨behavior, _, _, _, rfl⟩ := exists_of_mem_initial hget
      have hpending : (initialResult w.suite w.arguments key.driver behavior).status =
        "pending" := by
        simpa using h
      unfold initialResult at hpending
      by_cases hselects : w.arguments.selects key.driver behavior = true
      · exact List.contains_iff_mem.mp (Bool.and_eq_true_iff.mp hselects).1
      · rw [if_neg hselects] at hpending
        have hne : "not-selected" ≠ "pending" := by decide
        exact absurd hpending hne

theorem RunState.Pending.initial {key : CaseKey} (h : s.Pending key) (hs : s.Sound w) :
    ∃ behavior ∈ w.suite.inventory, isCase key.driver behavior = true
      ∧ key = keyOf key.driver behavior := by
  obtain ⟨result, hget, -⟩ := h
  have hmem : key ∈ (initialCases w.suite w.arguments).keys := by
    rw [← hs.keys]
    exact (Dict.mem_keys_iff _ _).mpr ⟨result, hget⟩
  obtain ⟨result', hinitial⟩ := (Dict.mem_keys_iff _ _).mp hmem
  obtain ⟨behavior, hbehavior, hcase, hkey, -⟩ := exists_of_mem_initial hinitial
  exact ⟨behavior, hbehavior, hcase, hkey⟩

section Loops

variable {library : LibraryDirs} {kind : String} {client : Except PyException (Dict String Bool)}

theorem pendingCase_settles (hclock : Monotone w.clock) {key : CaseKey} {result : CaseResult}
    (h : s.Fair w) (hget : s.cases.get? key = some result) (hpending : result.status = "pending") :
    Py.wp (pendingCase w library client key) (fun _ => s.Settles w key)
      (fun _ => RunState.Sound w) s := by
  cases client with
  | error error =>
      exact Py.wp_mono (failClient_settles h hget hpending error) (fun _ _ h => h)
        fun _ _ h => h.toSound
  | ok available =>
      refine Py.wp_ite.mpr ⟨fun _ => ?_, fun _ => runCase_settles hclock library h hget hpending⟩
      exact Py.wp_mono (failApis_settles h hget hpending _) (fun _ _ h => h) fun _ _ h => h.toSound

/-- One turn settles the case of its behavior. -/
theorem turn_spec (hclock : Monotone w.clock) {behavior : Behavior} (h : s.Fair w) :
    Py.wp (turn w library kind client behavior)
      (fun _ s' => s'.Fair w ∧ ∀ key, s'.Pending key →
        s.Pending key ∧ (isCase kind behavior = true → key ≠ keyOf kind behavior))
      (fun _ => RunState.Sound w) s := by
  refine Py.wp_ite.mpr ⟨fun hnot => ⟨h, fun key hkey => ⟨hkey, fun hcase => ?_⟩⟩, fun _ => ?_⟩
  · rw [hnot] at hcase
    cases hcase
  refine Py.wp_bind.mpr (wp_caseResult.mpr ⟨fun result hget => ?_, fun _ => h.toSound⟩)
  refine Py.wp_ite.mpr ⟨fun hsettled => ⟨h, fun key hkey => ⟨hkey, fun _ => ?_⟩⟩,
    fun hpending => ?_⟩
  · rintro rfl
    obtain ⟨result', hget', hpending⟩ := hkey
    obtain rfl := Option.some.inj (hget.symm.trans hget')
    exact hsettled hpending
  · refine Py.wp_mono (pendingCase_settles hclock h hget (not_not.mp hpending)) (fun _ s' h => ?_)
      fun _ _ h => h
    exact ⟨h.toFair, fun key hkey => ⟨(h.pending key hkey).1, fun _ => (h.pending key hkey).2⟩⟩

theorem prepareClient_keeps {P : RunState → Prop} (h : P s) :
    Py.wp (prepareClient w kind) (fun _ => P) (fun _ => P) s := by
  refine Py.wp_ite.mpr ⟨fun _ => ?_, fun _ => h⟩
  exact Py.wp_tryExcept.mpr (Py.wp_bind.mpr
    (Py.wp_ofExcept.mpr ⟨fun _ _ => h, fun _ _ => ⟨fun _ => h, fun _ => h⟩⟩))

/-- A run whose pending cases are all of these interfaces. -/
structure RunState.Left (w : World) (kinds : List String) (s : RunState) : Prop
    extends s.Fair w where
  drivers : ∀ key, s.Pending key → key.driver ∈ kinds

/-- The cases of one interface: the loop leaves none of them pending. -/
theorem runKind_spec (hclock : Monotone w.clock) {kinds : List String}
    (h : s.Left w (kind :: kinds)) :
    Py.wp (runKind w library kind) (fun _ => RunState.Left w kinds)
      (fun _ => RunState.Sound w) s := by
  refine Py.wp_bind.mpr (Py.wp_read.mpr (Py.wp_ite.mpr ⟨fun hnone => ⟨h.toFair, fun key hkey => ?_⟩,
    fun _ => ?_⟩))
  · rcases List.mem_cons.mp (h.drivers key hkey) with hkind | hkinds
    · obtain ⟨result, hget, hpending⟩ := hkey
      have hfalse := List.any_eq_false.mp hnone _ (Dict.mem_entries_of_get? hget)
      simp [hkind, hpending] at hfalse
    · exact hkinds
  -- The pending cases of this interface are those of the behaviors that are left.
  let I (rest : List Behavior) (s : RunState) : Prop := s.Fair w ∧ ∀ key, s.Pending key →
    key.driver ∈ kinds ∨ ∃ behavior ∈ rest, isCase kind behavior = true ∧ key = keyOf kind behavior
  have hstart : I w.suite.inventory s := by
    refine ⟨h.toFair, fun key hkey => ?_⟩
    rcases List.mem_cons.mp (h.drivers key hkey) with hkind | hkinds
    · obtain ⟨behavior, hbehavior, hcase, hkey⟩ := hkey.initial h.toSound
      rw [hkind] at hcase hkey
      exact Or.inr ⟨behavior, hbehavior, hcase, hkey⟩
    · exact Or.inl hkinds
  refine Py.wp_bind.mpr (Py.wp_mono (prepareClient_keeps hstart) (fun client s hstart => ?_)
    fun _ _ h => h.1.toSound)
  refine Py.wp_mono (Py.wp_forEach I ?_ hstart) (fun _ s hend => ⟨hend.1, fun key hkey => ?_⟩)
    fun _ _ h => h
  · intro behavior rest s hs
    refine Py.wp_mono (turn_spec hclock hs.1) (fun _ s' hs' => ⟨hs'.1, fun key hkey => ?_⟩)
      fun _ _ h => h
    obtain ⟨hbefore, hne⟩ := hs'.2 key hkey
    rcases hs.2 key hbefore with hkinds | ⟨behavior', hmem, hcase, heq⟩
    · exact Or.inl hkinds
    · rcases List.mem_cons.mp hmem with rfl | hmem
      · exact absurd heq (hne hcase)
      · exact Or.inr ⟨behavior', hmem, hcase, heq⟩
  · rcases hend.2 key hkey with hkinds | ⟨behavior, hmem, -⟩
    · exact hkinds
    · cases hmem

end Loops

/-! ## The outer `try` -/

theorem gateCapabilities_fair {unsupported : Dict String String} {key : CaseKey} (h : s.Fair w) :
    Py.wp (gateCapabilities unsupported key) (fun _ => RunState.Fair w)
      (fun _ => RunState.Fair w) s := by
  refine Py.wp_bind.mpr (wp_caseResult.mpr ⟨fun result hget => ?_, fun _ => h⟩)
  refine Py.wp_ite.mpr ⟨fun hmissing => ?_, fun _ => h⟩
  exact (failCase_settles h hget hmissing.1 (by simp [failureStatuses]) ⟨rfl, rfl, rfl, rfl⟩).toFair

theorem gateProfile_fair {key : CaseKey} (h : s.Fair w) :
    Py.wp (gateProfile w key) (fun _ => RunState.Fair w) (fun _ => RunState.Fair w) s := by
  refine Py.wp_bind.mpr (Py.wp_ofExcept.mpr ⟨fun definition _ => ?_, fun _ _ => h⟩)
  refine Py.wp_bind.mpr (wp_caseResult.mpr ⟨fun result hget => ?_, fun _ => h⟩)
  refine Py.wp_ite.mpr ⟨fun hneeds => ?_, fun _ => h⟩
  exact (failCase_settles h hget hneeds.1 (by simp [failureStatuses]) ⟨rfl, rfl, rfl, rfl⟩).toFair

theorem gateReport_fair {key : CaseKey} (h : s.Fair w) :
    Py.wp (gateReport w key) (fun _ => RunState.Fair w) (fun _ => RunState.Fair w) s := by
  refine Py.wp_bind.mpr (wp_caseResult.mpr ⟨fun result _ => ?_, fun _ => h⟩)
  refine Py.wp_ite.mpr ⟨fun _ => ?_, fun _ => h⟩
  exact caseFinished_keeps (fun _ completed reported h => h.report completed reported) h

theorem gateCase_fair {unsupported : Dict String String} {key : CaseKey} (h : s.Fair w) :
    Py.wp (gateCase w unsupported key) (fun _ => RunState.Fair w) (fun _ => RunState.Fair w) s :=
  Py.wp_seq _ (gateCapabilities_fair h) fun _ _ h =>
    Py.wp_seq _ (gateProfile_fair h) fun _ _ h => gateReport_fair h

theorem openTarget_fair (h : s.Fair w) :
    Py.wp (openTarget w) (fun _ => RunState.Fair w) (fun _ => RunState.Fair w) s := by
  refine Py.wp_bind.mpr (Py.wp_ofExcept.mpr ⟨fun target _ => ?_, fun _ _ => h⟩)
  refine Py.wp_bind.mpr (Py.wp_ofExcept.mpr ⟨fun _ _ => ?_, fun _ _ => h⟩)
  refine Py.wp_bind.mpr (Py.wp_modify.mpr (Py.wp_bind.mpr (Py.wp_read.mpr ?_)))
  have hnamed : RunState.Fair w { s with target := some target.name } :=
    ⟨⟨h.keys, h.cases, h.seconds, h.execution, h.released⟩, ⟨h.setupError, h.status, h.failures⟩,
      h.untouched, h.tolerated⟩
  refine Py.wp_bind.mpr (Py.wp_ofExcept.mpr ⟨fun _ _ => ?_, fun _ _ => hnamed⟩)
  refine Py.wp_bind.mpr (Py.wp_modify.mpr (Py.wp_seq (fun _ => RunState.Fair w) ?_ fun _ _ h => h))
  refine Py.wp_forEach_mem (fun key _ s h => gateCase_fair h) ?_
  exact ⟨⟨h.keys, h.cases, h.seconds, h.execution, h.released⟩,
    ⟨h.setupError, h.status, h.failures⟩,
      h.untouched, h.tolerated⟩

/-- Every result gets the version of the target. -/
theorem fair_setVersion (h : s.Fair w) (text : String) : RunState.Fair w { s with
    targetVersion := some text
    cases := s.cases.mapValues fun result => { result with targetVersion := some text } } := by
  have hmap : ∀ key result', (s.cases.mapValues fun result =>
      { result with targetVersion := some text }).get? key = some result' →
      ∃ result, s.cases.get? key = some result ∧
        result' = { result with targetVersion := some text } := by
    intro key result' hget
    rw [Dict.get?_mapValues] at hget
    obtain ⟨result, hresult, heq⟩ := Option.map_eq_some_iff.mp hget
    exact ⟨result, hresult, heq.symm⟩
  refine ⟨⟨?_, fun key result hget => ?_, ?_, fun key result t hget ht => ?_, h.released⟩,
    ⟨h.setupError, h.status, ?_⟩, fun key result hget hpending => ?_, h.tolerated⟩
  · rw [← h.keys]
    unfold Dict.keys Dict.mapValues
    rw [List.map_map]
    rfl
  · obtain ⟨result, hresult, rfl⟩ := hmap key result hget
    obtain ⟨hkey, hselected, hunselected, hpending, hcleanup, hconfirmed, hphased⟩ :=
      h.cases key result hresult
    exact ⟨hkey, hselected, hunselected, hpending, hcleanup, hconfirmed, hphased⟩
  · refine le_of_eq_of_le ?_ h.seconds
    unfold Dict.values Dict.mapValues
    rw [List.map_map, List.map_map, List.map_map]
    rfl
  · obtain ⟨result, hresult, rfl⟩ := hmap key result hget
    exact h.execution key result t hresult ht
  · refine h.failures.trans ⟨fun hall key result hget => ?_, fun hall key result hget => ?_⟩
    · obtain ⟨result, hresult, rfl⟩ := hmap key result hget
      exact hall key result hresult
    · refine hall key { result with targetVersion := some text } ?_
      rw [Dict.get?_mapValues, hget]
      rfl
  · obtain ⟨result, hresult, rfl⟩ := hmap key result hget
    exact h.untouched key result hresult hpending

theorem probeTarget_fair (h : s.Fair w) :
    Py.wp (probeTarget w) (fun _ => RunState.Fair w) (fun _ => RunState.Fair w) s := by
  refine Py.wp_bind.mpr (Py.wp_ofExcept.mpr ⟨fun arch _ => ?_, fun _ _ => h⟩)
  refine Py.wp_bind.mpr (Py.wp_ofExcept.mpr ⟨fun _ _ => ?_, fun _ _ => h⟩)
  refine Py.wp_bind.mpr (Py.wp_ofExcept.mpr ⟨fun version _ => ?_, fun _ _ => h⟩)
  refine Py.wp_bind.mpr (Py.wp_ofExcept.mpr ⟨fun _ _ => ?_, fun _ _ => h⟩)
  have hversion := fair_setVersion h (String.ofList (strip version.stdout.toList))
  refine Py.wp_bind.mpr (Py.wp_modify.mpr ?_)
  refine Py.wp_bind.mpr (Py.wp_ofExcept.mpr ⟨fun answer _ => ?_, fun _ _ => hversion⟩)
  refine Py.wp_bind.mpr (Py.wp_ofExcept.mpr ⟨fun _ _ => ?_, fun _ _ => hversion⟩)
  exact Py.wp_ofExcept.mpr ⟨fun _ _ => hversion, fun _ _ => hversion⟩

theorem pending_of_anyPending (h : s.anyPending = true) : ∃ key, s.Pending key := by
  obtain ⟨result, hresult, hpending⟩ := List.any_eq_true.mp h
  obtain ⟨key, hget⟩ := Dict.mem_values_iff.mp hresult
  exact ⟨key, result, hget, of_decide_eq_true hpending⟩

theorem RunState.Pending.selected {key : CaseKey} (h : s.Pending key) (hs : s.Sound w) :
    w.selected key = true := by
  obtain ⟨result, hget, hpending⟩ := h
  exact (hs.cases key result hget).selected_of_pending hpending

/-- What the outer `try` establishes where it returns. -/
structure RunState.Ran (w : World) (s : RunState) : Prop extends s.Fair w where
  selected : ∃ key, w.selected key = true
  settled : ∀ key, ¬ s.Pending key

/-- **The outer `try`.** -/
theorem runCases_spec (hclock : Monotone w.clock) (h : s.Fair w) :
    Py.wp (runCases w) (fun _ => RunState.Ran w) (fun _ => RunState.Sound w) s := by
  refine Py.wp_bind.mpr (Py.wp_mono (openTarget_fair h) (fun target s h => ?_) fun _ _ h =>
    h.toSound)
  refine Py.wp_bind.mpr (Py.wp_read.mpr
    (Py.wp_bind.mpr (Py.wp_ofExcept.mpr ⟨fun _ hsome => ?_, fun _ _ => h.toSound⟩)))
  have hany : s.anyPending = true := by
    have hnot := raiseIf_eq_ok.mp hsome
    rwa [Bool.not_eq_false] at hnot
  obtain ⟨key, hkey⟩ := pending_of_anyPending hany
  have hselected := hkey.selected h.toSound
  refine Py.wp_bind.mpr (Py.wp_mono (probeTarget_fair h) (fun _ s h => ?_) fun _ _ h => h.toSound)
  have hleft : s.Left w w.arguments.driver.kinds :=
    ⟨h, fun key hkey => driver_of_selected (hkey.selected h.toSound)⟩
  refine Py.wp_mono (Py.wp_forEach (RunState.Left w) (fun kind kinds s h =>
    runKind_spec hclock h) hleft)
    (fun _ s h => ⟨h.toFair, ⟨key, hselected⟩, fun key hkey => ?_⟩) fun _ _ h => h
  exact absurd (h.drivers key hkey) List.not_mem_nil

/-! ## The outer `except` and `finally` -/

/-- One turn of the outer `except`. -/
theorem failPending_spec {key : CaseKey} {error : PyException} (h : s.Sound w) :
    Py.wp (failPending w error key)
      (fun _ s' => s'.Sound w ∧ s'.setupError = s.setupError
        ∧ ∀ key', s'.Pending key' → s.Pending key' ∧ key' ≠ key)
      (fun _ => RunState.Sound w) s := by
  refine Py.wp_bind.mpr (wp_caseResult.mpr ⟨fun result hget => ?_, fun _ => h⟩)
  refine Py.wp_ite.mpr ⟨fun hpending => ?_, fun hsettled => ⟨h, rfl, fun key' hkey' => ⟨hkey', ?_⟩⟩⟩
  · have hcase : CaseSound w key (failedWith error result) :=
      (h.cases key result hget).fail hpending (failureStatus_mem error) ⟨rfl, rfl, rfl, rfl⟩
    have hsound : RunState.Sound w { s with cases := s.cases.update key (failedWith error) } :=
      h.restate hget rfl hcase ⟨rfl, rfl, rfl, rfl⟩ rfl rfl
    refine Py.wp_bind.mpr (Py.wp_modify.mpr (Py.wp_mono
      (caseFinished_keeps (P := fun s' => s'.Sound w ∧ s'.setupError = s.setupError
        ∧ ∀ key', s'.Pending key' → s.Pending key' ∧ key' ≠ key) ?_ ⟨hsound, rfl, ?_⟩)
      (fun _ _ h => h) fun _ _ h => h.1))
    · intro s' completed reported h
      exact ⟨h.1.report completed reported, h.2⟩
    · intro key' hkey'
      exact pending_of_change (f := failedWith error) hget rfl
        (ne_pending_of_failure (failureStatus_mem error)) hkey'
  · rintro rfl
    obtain ⟨result', hget', hpending⟩ := hkey'
    obtain rfl := Option.some.inj (hget.symm.trans hget')
    exact hsettled hpending

/-- What the outer `except` establishes where it returns. -/
structure RunState.Failed (w : World) (s : RunState) : Prop extends s.Sound w where
  setupError : s.setupError ≠ none
  status : s.status = 1
  settled : ∀ key, ¬ s.Pending key

theorem RunState.Pending.mem_keys {key : CaseKey} (h : s.Pending key) : key ∈ s.cases.keys := by
  obtain ⟨result, hget, -⟩ := h
  exact (Dict.mem_keys_iff _ _).mpr ⟨result, hget⟩

/-- **The outer `except`.** Its loop leaves no case pending. -/
theorem setupFailed_spec {error : PyException} (h : s.Sound w) :
    Py.wp (setupFailed w error) (fun _ => RunState.Failed w) (fun _ => RunState.Sound w) s := by
  -- The invariant of the loop: the pending cases are among those that are left.
  let I (rest : List CaseKey) (s : RunState) : Prop :=
    s.Sound w ∧ s.setupError ≠ none ∧ ∀ key, s.Pending key → key ∈ rest
  have hstart : I s.cases.keys { s with
      setupError := some error.message, setupStatus := some (failureStatus error) } :=
    ⟨⟨h.keys, h.cases, h.seconds, h.execution, h.released⟩, Option.some_ne_none _,
      fun key hkey => RunState.Pending.mem_keys (s := s) hkey⟩
  have hstep : ∀ key rest s, I (key :: rest) s →
      Py.wp (failPending w error key) (fun _ => I rest) (fun _ => RunState.Sound w) s := by
    intro key rest s hs
    obtain ⟨hsound, herror, hrest⟩ := hs
    refine Py.wp_mono (failPending_spec hsound) (fun _ s' hs' => ?_) fun _ _ h => h
    obtain ⟨hsound', herror', hpending⟩ := hs'
    refine ⟨hsound', herror' ▸ herror, fun key' hkey' => ?_⟩
    obtain ⟨hbefore, hne⟩ := hpending key' hkey'
    exact (List.mem_cons.mp (hrest key' hbefore)).resolve_left hne
  refine Py.wp_bind.mpr (Py.wp_modify.mpr (Py.wp_bind.mpr (Py.wp_read.mpr ?_)))
  refine Py.wp_seq _ (Py.wp_forEach I hstep hstart) fun _ s hs => ?_
  obtain ⟨hsound, herror, hnone⟩ := hs
  have hfailed : RunState.Failed w { s with status := 1 } :=
    ⟨hsound.congr rfl rfl le_rfl, herror, rfl,
      fun key hkey => List.not_mem_nil (hnone key hkey)⟩
  refine Py.wp_bind.mpr (Py.wp_modify.mpr ?_)
  exact Py.wp_ofExcept.mpr ⟨fun _ _ => hfailed, fun _ _ => hfailed.toSound⟩

/-- The coverage of the report is that of its other fields. -/
def RunState.Summarized (w : World) (s : RunState) : Prop :=
  ∃ summarized coverage, w.summarize summarized = .ok coverage ∧ s.coverage = some coverage
    ∧ ∀ rest, summarized.report rest = s.report rest

/-- What the outer `finally` does where it returns. -/
structure RunState.Completes (w : World) (started : ℚ) (s s' : RunState) : Prop where
  cases : s'.cases = s.cases
  reported : s'.reported = s.reported
  completed : s'.completed = s.completed
  events : s'.events = s.events
  setupError : s'.setupError = s.setupError
  complete : s'.complete = some (!s.anyPending)
  verified : s'.artifactIntegrity = some w.checkArtifacts
  status : s'.status = if w.checkArtifacts.status = some "verified" ∧ s'.coverage = some .current
    then s.status else 1
  reads : s'.reads = s.reads + 1
  duration : s'.durationSeconds = some (w.clock s.reads - started)
  summarized : s'.Summarized w

/-- **The outer `finally`.** -/
theorem completeRun_spec (started : ℚ) :
    Py.wp (completeRun w started) (fun _ => s.Completes w started)
      (fun _ s' => s'.cases = s.cases ∧ s'.events = s.events
        ∧ (s'.reads = s.reads ∨ s'.reads = s.reads + 1)) s := by
  refine Py.wp_bind.mpr (Py.wp_modify.mpr (Py.wp_bind.mpr (Py.wp_modify.mpr
    (Py.wp_bind.mpr (Py.wp_modify.mpr (Py.wp_bind.mpr (Py.wp_read.mpr ?_)))))))
  refine Py.wp_bind.mpr (Py.wp_ofExcept.mpr ⟨fun coverage hsummarize => ?_,
    fun _ _ => ⟨rfl, rfl, Or.inl rfl⟩⟩)
  refine Py.wp_bind.mpr (Py.wp_modify.mpr (Py.wp_bind.mpr (Py.wp_modify.mpr
    (Py.wp_bind.mpr (wp_runNow.mpr (Py.wp_bind.mpr (Py.wp_modify.mpr ?_)))))))
  refine Py.wp_bind.mpr (Py.wp_ofExcept.mpr ⟨fun _ _ => ?_, fun _ _ => ⟨rfl, rfl, Or.inr rfl⟩⟩)
  refine Py.wp_ofExcept.mpr ⟨fun _ _ => ?_, fun _ _ => ⟨rfl, rfl, Or.inr rfl⟩⟩
  refine ⟨rfl, rfl, rfl, rfl, rfl, rfl, rfl, ?_, rfl, rfl, _, _, hsummarize, rfl, fun _ => rfl⟩
  show (if coverage = .current then
    (if decide (w.checkArtifacts.status = some "verified") = true then s.status else 1) else 1) =
      if w.checkArtifacts.status = some "verified" ∧
        some coverage = some .current then s.status else 1
  by_cases hcoverage : coverage = .current
  · simp only [hcoverage, if_true, and_true, decide_eq_true_eq]
  · simp only [hcoverage, if_false, Option.some.injEq, and_false]

end Runner

end FlatpakBlackbox
