import FlatpakBlackbox.Runner.Case

set_option autoImplicit false

/-! # What the block of a case establishes

However the block of a case ends: the phases partition the time of the case, every context that was
entered is left again, and the status was set exactly when the block counts the case as failed or
the case passed. `CaseFrame.Timed` is the invariant of the clock, `CaseFrame.Held` that of the
contexts; what is decided about the case is its `Verdict`, and the `finally` is proved for any
property of verdicts that survives a cleanup.
-/

namespace FlatpakBlackbox

namespace Runner

open PyLib PyException

/-- The statuses `failure_status` returns. -/
def failureStatuses : List String := ["setup-error", "unmet-prerequisite", "unsupported", "failed"]

theorem failureStatus_mem (error : PyException) : failureStatus error ∈ failureStatuses := by
  unfold failureStatus failureStatuses
  split_ifs <;> simp

variable {clock : ℕ → ℚ}

/-! ## The rollback -/

/-- `begin_cleanup()` on a frame. -/
def CaseFrame.stamped (clock : ℕ → ℚ) (frame : CaseFrame) : CaseFrame :=
  match frame.cleanupStarted with
  | none => { frame with reads := frame.reads + 1, cleanupStarted := some (clock frame.reads) }
  | some _ => frame

theorem beginCleanup_apply (frame : CaseFrame) :
    beginCleanup clock frame = (.ok (), frame.stamped clock) := by
  obtain ⟨reads, result, failed, caseStarted, executionStarted, cleanupStarted, _⟩ := frame
  cases cleanupStarted <;> rfl

theorem wp_beginCleanup {Q : Unit → CaseFrame → Prop} {R : PyException → CaseFrame → Prop}
    {frame : CaseFrame} :
    Py.wp (beginCleanup clock) Q R frame ↔ Q () (frame.stamped clock) :=
  Py.wp_of_ok (beginCleanup_apply frame)

theorem now_apply (frame : CaseFrame) :
    now clock frame = (.ok (clock frame.reads), { frame with reads := frame.reads + 1 }) := rfl

theorem wp_now {Q : ℚ → CaseFrame → Prop} {R : PyException → CaseFrame → Prop}
    {frame : CaseFrame} :
    Py.wp (now clock) Q R frame
      ↔ Q (clock frame.reads) { frame with reads := frame.reads + 1 } :=
  Py.wp_of_ok (now_apply frame)

section Stamped

variable (clock) (frame : CaseFrame)

/-- The start of the cleanup changes the clock only. -/
structure SameButTimes (frame frame' : CaseFrame) : Prop where
  result : frame'.result = frame.result
  failed : frame'.failed = frame.failed
  events : frame'.events = frame.events
  contexts : frame'.contexts = frame.contexts
  root : frame'.root = frame.root
  repository : frame'.repository = frame.repository
  caseStarted : frame'.caseStarted = frame.caseStarted
  executionStarted : frame'.executionStarted = frame.executionStarted

theorem sameButTimes_stamped : SameButTimes frame (frame.stamped clock) := by
  unfold CaseFrame.stamped
  split <;> exact ⟨rfl, rfl, rfl, rfl, rfl, rfl, rfl, rfl⟩

theorem cleanupStarted_stamped : ∃ t, (frame.stamped clock).cleanupStarted = some t := by
  unfold CaseFrame.stamped
  split
  · exact ⟨_, rfl⟩
  · next t h => exact ⟨t, h⟩

theorem stamped_of_started {t : ℚ} (h : frame.cleanupStarted = some t) :
    frame.stamped clock = frame := by
  unfold CaseFrame.stamped
  rw [h]

end Stamped

/-! ## The clock -/

/-- The local times of a case that started with the reading `n`, in the order of the clock. -/
structure CaseFrame.Timed (clock : ℕ → ℚ) (n : ℕ) (frame : CaseFrame) : Prop where
  begun : frame.caseStarted = clock n
  reads : n < frame.reads
  execution : ∀ t, frame.executionStarted = some t → clock n ≤ t ∧ t ≤ clock frame.reads
    ∧ ∀ name, .entered name ∈ frame.events
  cleanup : ∀ t, frame.cleanupStarted = some t → clock n ≤ t ∧ t ≤ clock frame.reads
    ∧ ∀ started, frame.executionStarted = some started → started ≤ t

namespace CaseFrame.Timed

variable {n : ℕ} {frame : CaseFrame}

theorem addEvent (h : frame.Timed clock n) (event : CaseEvent) :
    CaseFrame.Timed clock n { frame with events := frame.events ++ [event] } where
  begun := h.begun
  reads := h.reads
  execution t ht := by
    obtain ⟨hle, hreads, hentered⟩ := h.execution t ht
    exact ⟨hle, hreads, fun name => List.mem_append_left _ (hentered name)⟩
  cleanup := h.cleanup

theorem read (hclock : Monotone clock) (h : frame.Timed clock n) :
    CaseFrame.Timed clock n { frame with reads := frame.reads + 1 } where
  begun := h.begun
  reads := Nat.lt_succ_of_lt h.reads
  execution t ht := by
    obtain ⟨hle, hreads, hentered⟩ := h.execution t ht
    exact ⟨hle, hreads.trans (hclock (Nat.le_succ _)), hentered⟩
  cleanup t ht := by
    obtain ⟨hle, hreads, hexecution⟩ := h.cleanup t ht
    exact ⟨hle, hreads.trans (hclock (Nat.le_succ _)), hexecution⟩

theorem stamped (hclock : Monotone clock) (h : frame.Timed clock n) :
    (frame.stamped clock).Timed clock n := by
  cases hcleanup : frame.cleanupStarted with
  | some t => rwa [stamped_of_started clock frame hcleanup]
  | none =>
      have hread := h.read hclock
      unfold CaseFrame.stamped
      rw [hcleanup]
      refine ⟨hread.begun, hread.reads, hread.execution, fun t ht => ?_⟩
      obtain rfl := Option.some.inj ht
      refine ⟨hclock h.reads.le, hclock (Nat.le_succ _), fun started hstarted => ?_⟩
      exact (h.execution started hstarted).2.1

end CaseFrame.Timed

/-! ## The contexts -/

/-- The stacks a case builds up, from none of its contexts on. -/
def contextStacks : List (List ContextName) := [[], [.sessionBus], [.repositoryServer, .sessionBus]]

/-- The events before the cleanup: the contexts on the stack were entered, and the handler was
called with all of them. -/
structure CaseFrame.Held (frame : CaseFrame) (called : List CaseEvent) : Prop where
  events : frame.events = frame.contexts.reverse.map .entered ++ called
  stack : frame.contexts ∈ contextStacks
  called : called = [] ∨ (called = [.called] ∧ frame.contexts = [.repositoryServer, .sessionBus])

/-- The events of a case: what was entered is left again, the last context first, and only then
is the directory removed. -/
def Released (events : List CaseEvent) : Prop :=
  ∃ names called removed, names ∈ contextStacks
    ∧ (called = [] ∨ (called = [.called] ∧ names = [.repositoryServer, .sessionBus]))
    ∧ (removed = [] ∨ ∃ root, removed = [.removed root])
    ∧ events = names.reverse.map .entered ++ called ++ names.map .left ++ removed

/-! ## Verdicts -/

/-- What is decided about a case. -/
structure Verdict where
  failed : Bool
  key : CaseKey
  status : String
  cleanupError : Option String
  cleanupComplete : Option Bool
  /-- Whether the handler was called. -/
  called : Bool

/-- The verdict of a frame. -/
def CaseFrame.verdict (frame : CaseFrame) : Verdict where
  failed := frame.failed
  key := frame.result.caseKey
  status := frame.result.status
  cleanupError := frame.result.cleanupError
  cleanupComplete := frame.result.cleanupComplete
  called := frame.events.contains .called

theorem verdict_addEvent (frame : CaseFrame) {event : CaseEvent} (h : event ≠ .called) :
    CaseFrame.verdict { frame with events := frame.events ++ [event] } = frame.verdict := by
  have hcalled : (frame.events ++ [event]).contains .called = frame.events.contains .called := by
    rw [List.contains_append]
    simp [Ne.symm h]
  show Verdict.mk _ _ _ _ _ ((frame.events ++ [event]).contains .called) = Verdict.mk _ _ _ _ _ _
  rw [hcalled]

theorem verdict_stamped (frame : CaseFrame) : (frame.stamped clock).verdict = frame.verdict := by
  have h := sameButTimes_stamped clock frame
  unfold CaseFrame.verdict
  rw [h.failed, h.result, h.events]

/-- A case about which nothing is decided: it may still pass. -/
structure Verdict.Open (key : CaseKey) (v : Verdict) : Prop where
  failed : v.failed = false
  key : v.key = key
  status : v.status = "pending"
  cleanupError : v.cleanupError = none

/-- A case that has passed, unless its cleanup fails. -/
structure Verdict.Passed (key : CaseKey) (v : Verdict) : Prop where
  failed : v.failed = false
  key : v.key = key
  status : v.status = "passed"
  cleanupError : v.cleanupError = none

/-! ## The `try` -/

section Try

variable {n : ℕ} {frame : CaseFrame} {key : CaseKey}

/-- The frame in the `try` of a case, before the handler is called. -/
structure CaseFrame.Preparing (clock : ℕ → ℚ) (n : ℕ) (key : CaseKey) (frame : CaseFrame) : Prop
    extends frame.Timed clock n, frame.Held [], frame.verdict.Open key

theorem CaseFrame.Preparing.stamped (hclock : Monotone clock) (h : frame.Preparing clock n key) :
    (frame.stamped clock).Preparing clock n key where
  toTimed := h.toTimed.stamped hclock
  toHeld := by
    have hsame := sameButTimes_stamped clock frame
    refine ⟨?_, ?_, Or.inl rfl⟩
    · rw [hsame.events, hsame.contexts]
      exact h.events
    · rw [hsame.contexts]
      exact h.stack
  toOpen := by
    rw [verdict_stamped]
    exact h.toOpen

theorem CaseFrame.Preparing.evidence (h : frame.Preparing clock n key)
    (records : List EvidenceRecord) : CaseFrame.Preparing clock n key
      { frame with result := { frame.result with
          evidence := some (frame.result.evidence.getD [] ++ records) } } :=
  ⟨⟨h.begun, h.reads, h.execution, h.cleanup⟩, ⟨h.events, h.stack, h.called⟩,
    ⟨h.failed, h.key, h.status, h.cleanupError⟩⟩

/-- Entering a context: an exception leaves the case open, and the cleanup starts early only with
an exception. -/
theorem CaseFrame.Preparing.enterContext (hclock : Monotone clock) {c : CaseRun}
    {name : ContextName} (h : frame.Preparing clock n key) (hcleanup : frame.cleanupStarted = none)
    (hstack : name :: frame.contexts ∈ contextStacks) :
    Py.wp (enterContext clock c name)
      (fun _ frame' => frame'.Preparing clock n key ∧ frame'.cleanupStarted = none
        ∧ frame'.contexts = name :: frame.contexts)
      (fun _ => CaseFrame.Preparing clock n key) frame := by
  have hadd := h.toTimed.addEvent (.entered name)
  have hrollback := h.stamped hclock
  refine Py.wp_bind.mpr (Py.wp_ofExcept.mpr ⟨fun _ _ => ?_, fun _ _ => h⟩)
  refine Py.wp_bind.mpr (Py.wp_onRaise.mpr (Py.wp_ofExcept.mpr ⟨fun _ _ => ?_, fun _ _ =>
    Py.wp_bind.mpr (wp_beginCleanup.mpr
      (Py.wp_ofExcept.mpr ⟨fun _ _ => hrollback, fun _ _ => hrollback⟩))⟩))
  refine Py.wp_bind.mpr (Py.wp_modify.mpr (Py.wp_modify.mpr ⟨⟨?_, ⟨?_, hstack, Or.inl rfl⟩, ?_⟩,
    hcleanup, rfl⟩))
  · exact ⟨hadd.begun, hadd.reads, hadd.execution, hadd.cleanup⟩
  · show frame.events ++ [.entered name] = (name :: frame.contexts).reverse.map .entered ++ []
    rw [h.events, List.reverse_cons, List.map_append, List.append_nil, List.append_nil]
    rfl
  · exact ⟨h.failed, h.key, h.status, h.cleanupError⟩

/-- The frame where the `try` of a case raises. -/
structure CaseFrame.Raised (clock : ℕ → ℚ) (n : ℕ) (key : CaseKey) (frame : CaseFrame) : Prop
    extends frame.Timed clock n, frame.verdict.Open key where
  held : ∃ called, frame.Held called

theorem CaseFrame.Preparing.raised (h : frame.Preparing clock n key) : frame.Raised clock n key :=
  ⟨h.toTimed, h.toOpen, [], h.toHeld⟩

/-- The frame where the `try` of a case returns. -/
structure CaseFrame.Succeeded (clock : ℕ → ℚ) (n : ℕ) (key : CaseKey) (frame : CaseFrame) : Prop
    extends frame.Timed clock n, frame.verdict.Passed key where
  held : ∃ called, frame.Held called

/-- **The `try` of a case.** It decides the status exactly where it returns, and once the handler
was called it ends as the handler does. -/
theorem attempt_spec (hclock : Monotone clock) {kind : String} {library : LibraryDirs} {c : CaseRun}
    (h : frame.Preparing clock n key) (hcleanup : frame.cleanupStarted = none)
    (hfresh : frame.contexts = []) :
    Py.wp (attempt clock kind library c)
      (fun _ frame' => frame'.Succeeded clock n key ∧ c.handler = .ok ())
      (fun error frame' => frame'.Raised clock n key
        ∧ (frame'.verdict.called = true → c.handler = .error error)) frame := by
  -- Before the handler is called, an exception says nothing of the handler.
  have hquiet : ∀ {frame : CaseFrame} (error : PyException), frame.Preparing clock n key →
      frame.Raised clock n key ∧ (frame.verdict.called = true → c.handler = .error error) := by
    intro frame error h
    refine ⟨h.raised, fun hcalled => ?_⟩
    have hevents := h.events
    have hmem : CaseEvent.called ∈ frame.events := List.contains_iff_mem.mp hcalled
    rw [hevents, List.append_nil] at hmem
    obtain ⟨name, _, hname⟩ := List.mem_map.mp hmem
    cases hname
  refine Py.wp_bind.mpr (Py.wp_ofExcept.mpr ⟨fun root _ => ?_, fun error _ => hquiet error h⟩)
  refine Py.wp_bind.mpr (Py.wp_bind.mpr (Py.wp_bind.mpr ?_))
  have hroot : CaseFrame.Preparing clock n key { frame with
      root := some root, repository := true,
      result := { frame.result with stateDirectory := some root } } :=
    ⟨⟨h.begun, h.reads, h.execution, h.cleanup⟩, ⟨h.events, h.stack, h.called⟩,
      ⟨h.failed, h.key, h.status, h.cleanupError⟩⟩
  refine Py.wp_bind.mpr (Py.wp_ofExcept.mpr ⟨fun _ _ => ?_, fun error _ => hquiet error hroot⟩)
  refine Py.wp_bind.mpr (Py.wp_modify.mpr ?_)
  have hadapter := hroot.evidence c.adapterEvidence
  refine Py.wp_bind.mpr (Py.wp_ofExcept.mpr ⟨fun adapter _ => ?_,
    fun error _ => hquiet error hadapter⟩)
  refine Py.wp_bind.mpr (Py.wp_ofExcept.mpr ⟨fun _ _ => ?_, fun error _ => hquiet error hadapter⟩)
  -- The contexts are entered one after the other, each on the stack of those before it.
  have hstack : ContextName.sessionBus :: frame.contexts ∈ contextStacks := by
    rw [hfresh]
    decide
  refine Py.wp_bind.mpr (Py.wp_mono (hadapter.enterContext hclock hcleanup hstack)
    (fun _ bus hbus => ?_) fun error _ h => hquiet error h)
  obtain ⟨hbus, hcleanup, hcontexts⟩ := hbus
  have hcontexts' : bus.contexts = [.sessionBus] := by
    rw [hcontexts]
    exact congrArg (List.cons _) hfresh
  have hstack' : ContextName.repositoryServer :: bus.contexts ∈ contextStacks := by
    rw [hcontexts']
    decide
  refine Py.wp_bind.mpr (Py.wp_mono (hbus.enterContext hclock hcleanup hstack')
    (fun _ server hserver => ?_) fun error _ h => hquiet error h)
  obtain ⟨hserver, hcleanup, hboth⟩ := hserver
  rw [hcontexts'] at hboth
  refine Py.wp_bind.mpr (wp_now.mpr (Py.wp_bind.mpr (Py.wp_modify.mpr
    (Py.wp_bind.mpr (Py.wp_modify.mpr (Py.wp_bind.mpr (Py.wp_modify.mpr ?_)))))))
  have hread := hserver.toTimed.read hclock
  have hentered : ∀ name, CaseEvent.entered name ∈ server.events := by
    intro name
    rw [hserver.events, hboth]
    cases name <;> decide
  -- Both contexts are entered when the handler is called.
  have hheld : (server.events ++ [CaseEvent.called]) =
      server.contexts.reverse.map .entered ++ [.called] := by
    rw [hserver.events, List.append_nil]
  have htimed : CaseFrame.Timed clock n { server with
      reads := server.reads + 1, executionStarted := some (clock server.reads),
      events := server.events ++ [.called],
      result := { server.result with
        evidence := some (server.result.evidence.getD [] ++ c.handlerEvidence) } } := by
    refine ⟨hserver.begun, hread.reads, fun t ht => ?_, fun t ht => ?_⟩
    · obtain rfl := Option.some.inj ht
      exact ⟨hclock hserver.reads.le, hclock (Nat.le_succ _),
        fun name => List.mem_append_left _ (hentered name)⟩
    · have hnone : server.cleanupStarted = some t := ht
      rw [hcleanup] at hnone
      cases hnone
  refine Py.wp_bind.mpr (Py.wp_ofExcept.mpr ⟨fun _ hok => ?_, fun error herror => ⟨⟨htimed, ?_, ?_⟩,
    fun _ => herror⟩⟩)
  · refine Py.wp_modify.mpr
      ⟨⟨⟨htimed.begun, htimed.reads, htimed.execution, htimed.cleanup⟩, ?_, ?_⟩, hok⟩
    · exact ⟨hserver.failed, hserver.key, rfl, hserver.cleanupError⟩
    · exact ⟨[.called], hheld, hserver.stack, Or.inr ⟨rfl, hboth⟩⟩
  · exact ⟨hserver.failed, hserver.key, hserver.status, hserver.cleanupError⟩
  · exact ⟨[.called], hheld, hserver.stack, Or.inr ⟨rfl, hboth⟩⟩

end Try

/-! ## The `finally` -/

/-- What a block records: its verdict satisfies `V`, its phases partition its time, and its
contexts are released. -/
structure CaseFrame.Finished (clock : ℕ → ℚ) (n : ℕ) (V : Verdict → Prop) (frame : CaseFrame) :
    Prop where
  decided : V frame.verdict
  reads : n < frame.reads
  phases : ∃ d t, frame.result.durationSeconds = some d ∧ frame.result.timings = some t
    ∧ 0 ≤ t.setupSeconds ∧ 0 ≤ t.executionSeconds ∧ 0 ≤ t.cleanupSeconds
    ∧ t.setupSeconds + t.executionSeconds + t.cleanupSeconds = d
    ∧ d ≤ clock frame.reads - clock n
    ∧ ((∃ name, .entered name ∉ frame.events) → t.executionSeconds = 0)
  released : Released frame.events

/-- A case whose cleanup has started at `started`, with events that satisfy `L` so far. -/
structure CaseFrame.Cleaning (clock : ℕ → ℚ) (n : ℕ) (started : ℚ) (V : Verdict → Prop)
    (L : List CaseEvent → Prop) (frame : CaseFrame) : Prop extends frame.Timed clock n where
  cleanupStarted : frame.cleanupStarted = some started
  decided : V frame.verdict
  log : L frame.events

/-- An exception of the calls in a cleanup that the `except` clause of the cleanup does not name
comes from none of them. -/
structure CaseRun.CleansUp (c : CaseRun) : Prop where
  stop : ∀ name error, (c.context name).stop true = .error error →
    error.isInstance cleanupClasses = true
  copyLog : ∀ error, c.copyLog = .error error → error.isInstance cleanupClasses = true
  rmtree : ∀ error, c.rmtree = .error error → error.isInstance cleanupClasses = true

section Finish

variable {n : ℕ} {V U W : Verdict → Prop} {L K : List CaseEvent → Prop} {frame : CaseFrame}
  {started : ℚ} {c : CaseRun}

/-- The reading of the clock that ends the case. -/
theorem recordTimings_spec (hclock : Monotone clock) (h : frame.Cleaning clock n started V Released)
    {R : PyException → CaseFrame → Prop} :
    Py.wp (recordTimings clock started) (fun _ => CaseFrame.Finished clock n V) R frame := by
  obtain ⟨hle, hreads, hexecution⟩ := h.cleanup started h.cleanupStarted
  have hnext := hclock (Nat.le_succ frame.reads)
  have hbegun := h.begun
  refine Py.wp_bind.mpr (wp_now.mpr (Py.wp_modify.mpr ⟨h.decided, Nat.lt_succ_of_lt h.reads,
    ⟨_, _, rfl, rfl, ?_⟩, h.log⟩))
  cases hrunning : frame.executionStarted with
  | none =>
      simp only [CaseFrame.timings, Option.getD_none, Option.elim_none, hbegun]
      exact ⟨by linarith, le_rfl, by linarith, by ring, by linarith, fun _ => trivial⟩
  | some t =>
      obtain ⟨hbegin, -, hentered⟩ := h.execution t hrunning
      have hend := hexecution t hrunning
      simp only [CaseFrame.timings, Option.getD_some, Option.elim_some, hbegun]
      refine ⟨by linarith, by linarith, by linarith, by ring, by linarith, ?_⟩
      rintro ⟨name, hname⟩
      exact absurd (hentered name) hname

theorem CaseFrame.Cleaning.event (h : frame.Cleaning clock n started V L) {event : CaseEvent}
    (hevent : event ≠ .called) (hlog : K (frame.events ++ [event])) :
    CaseFrame.Cleaning clock n started V K
      { frame with events := frame.events ++ [event] } where
  toTimed := h.toTimed.addEvent event
  cleanupStarted := h.cleanupStarted
  decided := by
    rw [verdict_addEvent frame hevent]
    exact h.decided
  log := hlog

theorem CaseFrame.Cleaning.mono (h : frame.Cleaning clock n started V L)
    (hL : ∀ events, L events → K events) : frame.Cleaning clock n started V K :=
  ⟨h.toTimed, h.cleanupStarted, h.decided, hL _ h.log⟩

/-- Every context is left, whatever the others raise. -/
theorem closeContexts_spec {total : List CaseEvent} {names : List ContextName}
    (h : frame.Cleaning clock n started V fun events => events ++ names.map .left = total) :
    Py.wp (closeContexts clock c names)
      (fun _ => CaseFrame.Cleaning clock n started V fun events => events = total)
      (fun error frame' => frame'.Cleaning clock n started V (fun events => events = total)
        ∧ (c.CleansUp → error.isInstance cleanupClasses = true)) frame := by
  induction names generalizing frame with
  | nil => exact h.mono fun events hevents => by rwa [List.map_nil, List.append_nil] at hevents
  | cons name names ih =>
      have hleft := h.event (K := fun events => events ++ names.map .left = total)
        (CaseEvent.noConfusion : CaseEvent.left name ≠ .called) (by
          rw [List.append_assoc]
          exact h.log)
      have hstamped := stamped_of_started clock
        { frame with events := frame.events ++ [.left name] } h.cleanupStarted
      refine Py.wp_tryFinally.mpr (Py.wp_bind.mpr (Py.wp_bind.mpr (wp_beginCleanup.mpr ?_)))
      rw [hstamped]
      refine Py.wp_ofExcept.mpr ⟨fun _ _ => ih hleft, fun error herror => ?_⟩
      exact Py.wp_mono (ih hleft) (fun _ frame h =>
        ⟨h, fun hclean => hclean.stop name error herror⟩)
        fun _ _ h => h

/-- The directory is removed behind `total`, or not at all. -/
def RemovedAfter (total events : List CaseEvent) : Prop :=
  ∃ removed, (removed = [] ∨ ∃ root, removed = [.removed root]) ∧ events = total ++ removed

/-- The removal of the directory. -/
theorem removeRoot_spec {total : List CaseEvent}
    (h : frame.Cleaning clock n started V fun events => events = total) :
    Py.wp (removeRoot c) (fun _ => CaseFrame.Cleaning clock n started V (RemovedAfter total))
      (fun error frame' => frame'.Cleaning clock n started V (RemovedAfter total)
        ∧ (c.CleansUp → error.isInstance cleanupClasses = true)) frame := by
  have hdirectory : ∀ frame,
    CaseFrame.Cleaning clock n started V (fun events => events = total) frame →
      Py.wp (removeDirectory c)
        (fun _ => CaseFrame.Cleaning clock n started V (RemovedAfter total))
        (fun error frame' => frame'.Cleaning clock n started V (RemovedAfter total)
          ∧ (c.CleansUp → error.isInstance cleanupClasses = true)) frame := by
    intro frame h
    have hkept := h.mono (K := RemovedAfter total)
      fun events hevents => ⟨[], Or.inl rfl, by rw [List.append_nil, hevents]⟩
    refine Py.wp_bind.mpr (Py.wp_read.mpr ?_)
    cases frame.root with
    | none => exact hkept
    | some root =>
        refine Py.wp_bind.mpr (Py.wp_ofExcept.mpr ⟨fun _ _ => ?_,
          fun error herror => ⟨hkept, fun hclean => hclean.copyLog error herror⟩⟩)
        refine Py.wp_bind.mpr (Py.wp_ofExcept.mpr ⟨fun _ _ => ?_,
          fun error herror => ⟨hkept, fun hclean => hclean.rmtree error herror⟩⟩)
        refine h.event CaseEvent.noConfusion ⟨[.removed root], Or.inr ⟨root, rfl⟩, ?_⟩
        rw [h.log]
  refine Py.wp_bind.mpr (Py.wp_read.mpr ?_)
  dsimp only
  refine Py.wp_ite.mpr ⟨fun _ => Py.wp_bind.mpr (Py.wp_modify.mpr (hdirectory _ ?_)),
    fun _ => hdirectory _ h⟩
  exact ⟨⟨h.begun, h.reads, h.execution, h.cleanup⟩, h.cleanupStarted, h.decided, h.log⟩

/-- Leaving the contexts and removing the directory. -/
theorem leaveAll_spec {called : List CaseEvent} (hheld : frame.Held called)
    (h : frame.Cleaning clock n started V fun _ => True)
    (hcomplete : ∀ v, V v → U { v with cleanupComplete := some true }) :
    Py.wp (leaveAll clock c) (fun _ => CaseFrame.Cleaning clock n started U Released)
      (fun error frame' => frame'.Cleaning clock n started V Released
        ∧ (c.CleansUp → error.isInstance cleanupClasses = true)) frame := by
  let total := frame.contexts.reverse.map CaseEvent.entered ++ called ++ frame.contexts.map .left
  have hreleased : ∀ events, RemovedAfter total events → Released events := by
    rintro events ⟨removed, hremoved, rfl⟩
    exact ⟨frame.contexts, called, removed, hheld.stack, hheld.called, hremoved, rfl⟩
  have hstart : frame.Cleaning clock n started V fun events =>
      events ++ frame.contexts.map .left = total :=
    ⟨h.toTimed, h.cleanupStarted, h.decided, by rw [hheld.events]⟩
  refine Py.wp_bind.mpr (Py.wp_read.mpr (Py.wp_bind.mpr (Py.wp_tryFinally.mpr
    (Py.wp_mono (closeContexts_spec hstart) (fun _ frame h => ?_) fun error frame h => ?_))))
  · refine Py.wp_mono (removeRoot_spec h) (fun _ frame h => ?_)
      fun _ frame h => ⟨h.1.mono hreleased, h.2⟩
    have hkept := h.mono hreleased
    exact ⟨⟨h.begun, h.reads, h.execution, h.cleanup⟩, h.cleanupStarted,
      hcomplete _ h.decided, hkept.log⟩
  · exact Py.wp_mono (removeRoot_spec h.1) (fun _ frame h' => ⟨h'.mono hreleased, h.2⟩)
      fun _ frame h' => ⟨h'.1.mono hreleased, h'.2⟩

/-- **The `finally` of a case.** The phases are recorded and the contexts released whatever the
cleanup and the write of the report raise. -/
theorem finishCase_spec (hclock : Monotone clock)
    (hcomplete : ∀ v, V v → U { v with cleanupComplete := some true })
    (hfailed : ∀ v message, V v →
      U { v with failed := true, status := "setup-error", cleanupError := some message })
    (hweaken : ∀ v, U v → W v) (hraised : ¬ c.CleansUp → ∀ v, V v → W v)
    (h : frame.Timed clock n) {called : List CaseEvent} (hheld : frame.Held called)
    (hdecided : V frame.verdict) :
    Py.wp (finishCase clock c) (fun _ => CaseFrame.Finished clock n U)
      (fun _ => CaseFrame.Finished clock n W) frame := by
  have hsame := sameButTimes_stamped clock frame
  obtain ⟨started, hstarted⟩ := cleanupStarted_stamped clock frame
  -- The start of the cleanup moves the clock only.
  have hcleaning : (frame.stamped clock).Cleaning clock n started V fun _ => True := by
    refine ⟨h.stamped hclock, hstarted, ?_, trivial⟩
    rwa [verdict_stamped]
  have hheld' : (frame.stamped clock).Held called := by
    refine ⟨?_, ?_, ?_⟩
    · rw [hsame.events, hsame.contexts]
      exact hheld.events
    · rw [hsame.contexts]
      exact hheld.stack
    · rw [hsame.contexts]
      exact hheld.called
  refine Py.wp_bind.mpr (wp_beginCleanup.mpr (Py.wp_bind.mpr (Py.wp_read.mpr ?_)))
  rw [hstarted]
  refine Py.wp_bind.mpr (Py.wp_ofExcept.mpr ⟨fun t ht => ?_, fun _ hraise => by cases hraise⟩)
  obtain rfl : started = t := Except.ok.inj ht
  -- The report is written whatever was decided; that may raise.
  have hwrite : ∀ frame, CaseFrame.Finished clock n U frame →
      Py.wp (Py.ofExcept c.writeReport) (fun _ => CaseFrame.Finished clock n U)
        (fun _ => CaseFrame.Finished clock n W) frame :=
    fun frame h => Py.wp_ofExcept.mpr
      ⟨fun _ _ => h, fun _ _ => ⟨hweaken _ h.decided, h.reads, h.phases, h.released⟩⟩
  refine Py.wp_bind.mpr (Py.wp_tryFinally.mpr (Py.wp_tryExcept.mpr
    (Py.wp_mono (leaveAll_spec hheld' hcleaning hcomplete)
      (fun _ frame h => ?_) fun error frame h => ⟨fun _ => ?_, fun hcaught => ?_⟩)))
  · exact Py.wp_mono (recordTimings_spec hclock h) (fun _ frame h => hwrite frame h) fun _ _ h => h
  · refine Py.wp_bind.mpr (Py.wp_modify.mpr (Py.wp_modify.mpr (Py.wp_mono
      (recordTimings_spec hclock (V := U) ?_) (fun _ frame h => hwrite frame h) fun _ _ h => h)))
    exact ⟨⟨h.1.begun, h.1.reads, h.1.execution, h.1.cleanup⟩, h.1.cleanupStarted,
      hfailed _ error.message h.1.decided, h.1.log⟩
  · have hnot : ¬ c.CleansUp := fun hclean => by
      rw [h.2 hclean] at hcaught
      cases hcaught
    refine recordTimings_spec hclock (V := W) ⟨h.1.toTimed, h.1.cleanupStarted, ?_, h.1.log⟩
    exact hraised hnot _ h.1.decided

end Finish

/-! ## The block -/

/-- The case passed with a confirmed cleanup, or the block counts it as failed; a failed cleanup
is a setup error. -/
def Verdict.Decided (key : CaseKey) (v : Verdict) : Prop :=
  (v.Passed key ∧ v.cleanupComplete = some true)
    ∨ (v.failed = true ∧ v.key = key ∧ v.status ∈ failureStatuses
      ∧ (v.cleanupError ≠ none → v.status = "setup-error"))

/-- The verdict where a block raises: it is decided, or an exception of the case goes on, or one
of its cleanup. -/
def Verdict.Judged (c : CaseRun) (key : CaseKey) (v : Verdict) : Prop :=
  v.Decided key ∨ v.Open key ∨ (v.Passed key ∧ ¬ c.CleansUp)

/-- A handler that returns, or raises what the `except` clause of a case names. -/
def CaseRun.Tolerated (c : CaseRun) : Prop :=
  ∀ error, c.handler = .error error → error.isInstance caseClasses = true

/-- **The block of a case.** Where it returns, the status is decided and the handler was
tolerated, if it was called. -/
theorem caseBlock_spec (hclock : Monotone clock) {kind : String} {library : LibraryDirs}
    {c : CaseRun} {n : ℕ} {key : CaseKey} {frame : CaseFrame} (h : frame.Preparing clock n key)
    (hcleanup : frame.cleanupStarted = none) (hfresh : frame.contexts = []) :
    Py.wp (caseBlock clock kind library c)
      (fun _ => CaseFrame.Finished clock n fun v =>
        v.Decided key ∧ (v.called = true → c.Tolerated))
      (fun _ => CaseFrame.Finished clock n (Verdict.Judged c key)) frame := by
  -- A verdict of the `try` or of its `except`, before the cleanup.
  let V : Verdict → Prop := fun v => (v.Passed key ∨ (v.failed = true ∧ v.key = key
    ∧ v.status ∈ failureStatuses ∧ v.cleanupError = none)) ∧ (v.called = true → c.Tolerated)
  have hcomplete : ∀ v, V v → Verdict.Decided key { v with cleanupComplete := some true }
      ∧ (v.called = true → c.Tolerated) := by
    rintro v ⟨hpassed | ⟨hfailed, hkey, hstatus, hnone⟩, htolerated⟩
    · exact ⟨Or.inl ⟨⟨hpassed.failed, hpassed.key, hpassed.status, hpassed.cleanupError⟩, rfl⟩,
        htolerated⟩
    · exact ⟨Or.inr ⟨hfailed, hkey, hstatus, fun herror => absurd hnone herror⟩, htolerated⟩
  have hkey : ∀ v, V v → v.key = key := by
    rintro v ⟨hpassed | hfailed, _⟩
    · exact hpassed.key
    · exact hfailed.2.1
  have hdecided : ∀ {called : List CaseEvent} {frame}, CaseFrame.Timed clock n frame →
      frame.Held called → V frame.verdict →
      Py.wp (finishCase clock c) (fun _ => CaseFrame.Finished clock n fun v =>
          v.Decided key ∧ (v.called = true → c.Tolerated))
        (fun _ => CaseFrame.Finished clock n (Verdict.Judged c key)) frame := by
    intro called frame h hheld hv
    refine finishCase_spec hclock hcomplete (fun v message hv =>
      ⟨Or.inr ⟨rfl, hkey v hv, ?_, fun _ => rfl⟩, hv.2⟩)
      (fun v hv => Or.inl hv.1) (fun hnot v hv => ?_) h hheld hv
    · exact List.mem_cons_self
    · rcases hv.1 with hpassed | ⟨hfailed, hkey, hstatus, hnone⟩
      · exact Or.inr (Or.inr ⟨hpassed, hnot⟩)
      · exact Or.inl (Or.inr ⟨hfailed, hkey, hstatus, fun herror => absurd hnone herror⟩)
  refine Py.wp_tryFinally.mpr
    (Py.wp_tryExcept.mpr (Py.wp_mono (attempt_spec hclock h hcleanup hfresh)
    (fun _ frame h => ?_) fun error frame h => ⟨fun hcaught => ?_, fun _ => ?_⟩))
  · obtain ⟨h, hok⟩ := h
    obtain ⟨called, hheld⟩ := h.held
    refine hdecided h.toTimed hheld ⟨Or.inl h.toPassed, fun _ error herror => ?_⟩
    rw [hok] at herror
    cases herror
  · obtain ⟨h, hhandler⟩ := h
    obtain ⟨called, hheld⟩ := h.held
    refine Py.wp_bind.mpr (Py.wp_modify.mpr (Py.wp_modify.mpr (@hdecided called _
      ⟨h.begun, h.reads, h.execution, h.cleanup⟩ ⟨hheld.events, hheld.stack, hheld.called⟩
      ⟨Or.inr ⟨rfl, h.key, failureStatus_mem error, h.cleanupError⟩,
        fun hcalled error' herror => ?_⟩)))
    have hsame := (hhandler hcalled).symm.trans herror
    rwa [← Except.error.inj hsame]
  · obtain ⟨h, hhandler⟩ := h
    obtain ⟨called, hheld⟩ := h.held
    refine Py.wp_mono (finishCase_spec hclock (V := Verdict.Open key)
      (U := fun v => v.Open key ∨ v.Decided key) (W := Verdict.Judged c key) ?_ ?_ ?_ ?_
        h.toTimed hheld
      h.toOpen) (fun _ _ h => ?_) fun _ _ h => h
    · exact fun v hv => Or.inl ⟨hv.failed, hv.key, hv.status, hv.cleanupError⟩
    · exact fun v message hv => Or.inr (Or.inr ⟨rfl, hv.key, List.mem_cons_self, fun _ => rfl⟩)
    · rintro v (hopen | hdecided)
      · exact Or.inr (Or.inl hopen)
      · exact Or.inl hdecided
    · exact fun _ v hv => Or.inr (Or.inl hv)
    · refine ⟨?_, h.reads, h.phases, h.released⟩
      rcases h.decided with hopen | hdecided
      · exact Or.inr (Or.inl hopen)
      · exact Or.inl hdecided

end Runner

end FlatpakBlackbox
