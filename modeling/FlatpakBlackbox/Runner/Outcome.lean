import FlatpakBlackbox.Runner.Block

set_option autoImplicit false

/-! # The outcome of a case

What is decided about a case, as a function of what the world answers its calls: no clock, no
stack, no report and no other case. `caseBlock_outcome` says that the block of `main` computes
this function wherever it returns, and that it returns exactly where the answers are contained: what
they raise is what the `except` clauses name.
-/

namespace FlatpakBlackbox

namespace Runner

open PyLib PyException

/-- What is decided about a case. -/
structure Outcome where
  status : String
  error : Option String := none
  cleanupError : Option String := none
  deriving DecidableEq, Repr

def outcomeOf (result : CaseResult) : Outcome :=
  ⟨result.status, result.error, result.cleanupError⟩

/-- The outcome of a case that an exception fails. -/
def Outcome.ofError (error : PyException) : Outcome :=
  ⟨failureStatus error, some error.message, none⟩

/-- The outcome after a cleanup. A failed cleanup is a setup error, whatever the case was before. -/
def Outcome.cleaned (outcome : Outcome) : Except PyException Unit → Outcome
  | .ok _ => outcome
  | .error error => { outcome with status := "setup-error", cleanupError := some error.message }

namespace CaseRun

variable (c : CaseRun) (kind : String) (library : LibraryDirs)

/-! ## The calls of a case, without a state -/

/-- Everything before the contexts. -/
def prepares : Except PyException Unit := do
  let _ ← c.mkdtemp
  c.environment
  let adapter ← c.adapter
  c.checkSetup kind library adapter

/-- `contexts.enter_context(...)`: a context that does not start is stopped first. -/
def enters (name : ContextName) : Except PyException Unit := do
  (c.context name).before
  match (c.context name).start with
  | .ok _ => .ok ()
  | .error error => (c.context name).stop false >>= fun _ => .error error

/-- The calls in the `try` of a case. -/
def attempts : Except PyException Unit := do
  c.prepares kind library
  c.enters .sessionBus
  c.enters .repositoryServer
  c.handler

/-- The contexts that the `try` of a case has entered. -/
def holds : List ContextName :=
  match c.prepares kind library >>= fun _ => c.enters .sessionBus, c.enters .repositoryServer with
  | .error _, _ => []
  | .ok _, .error _ => [.sessionBus]
  | .ok _, .ok _ => [.repositoryServer, .sessionBus]

/-- `contexts.close()`: the exception of the first context entered is the last one raised. -/
def closes : List ContextName → Except PyException Unit
  | [] => .ok ()
  | name :: names => finallyDo ((c.context name).stop true) (closes names)

/-- The removal of the directory, where there is one. -/
def clears : Except PyException Unit :=
  match c.mkdtemp with
  | .error _ => .ok ()
  | .ok _ => c.copyLog >>= fun _ => c.rmtree

/-- The cleanup of a case. -/
def cleans : Except PyException Unit := finallyDo (c.closes (c.holds kind library)) c.clears

/-- The outcome of the `try` and the `except` of a case. -/
def attempted : Outcome :=
  match c.attempts kind library with
  | .ok _ => ⟨"passed", none, none⟩
  | .error error => .ofError error

/-- **The outcome of a case.** -/
def outcome : Outcome := (c.attempted kind library).cleaned (c.cleans kind library)

/-- What the cleanup of a case raises is what its `except` clause names, and the report can be
written. -/
structure Tidy : Prop where
  cleans : ∀ error, c.cleans kind library = .error error → error.isInstance cleanupClasses = true
  writeReport : c.writeReport = .ok ()

/-- A tidy case whose `try` raises what its `except` clause names. -/
structure Contained : Prop extends c.Tidy kind library where
  attempts : ∀ error, c.attempts kind library = .error error → error.isInstance caseClasses = true

end CaseRun

/-- The statuses of a case that was settled. -/
theorem status_outcome (c : CaseRun) (kind : String) (library : LibraryDirs) :
    (c.outcome kind library).status ∈ "passed" :: failureStatuses := by
  unfold CaseRun.outcome Outcome.cleaned CaseRun.attempted
  cases c.cleans kind library with
  | error error => exact List.mem_cons_of_mem _ List.mem_cons_self
  | ok _ =>
      cases c.attempts kind library with
      | ok _ => exact List.mem_cons_self
      | error error => exact List.mem_cons_of_mem _ (failureStatus_mem error)

/-! ## The `try` -/

variable {clock : ℕ → ℚ} {c : CaseRun} {kind : String} {library : LibraryDirs} {frame : CaseFrame}

/-- The frame where the `try` of a case ends: what was decided, what the stack owns, and whether
there is a directory. -/
structure CaseFrame.Ended (c : CaseRun) (kind : String) (library : LibraryDirs) (outcome : Outcome)
    (frame : CaseFrame) : Prop where
  outcome : outcomeOf frame.result = outcome
  contexts : frame.contexts = c.holds kind library
  root : frame.root.isSome = c.mkdtemp.isOk

/-- The frame around an `enter_context`. -/
structure SameCase (frame frame' : CaseFrame) : Prop where
  outcome : outcomeOf frame'.result = outcomeOf frame.result
  root : frame'.root = frame.root

theorem SameCase.trans {first second third : CaseFrame} (h : SameCase first second)
    (h' : SameCase second third) : SameCase first third :=
  ⟨h'.outcome.trans h.outcome, h'.root.trans h.root⟩

theorem sameCase_stamped (clock : ℕ → ℚ) (frame : CaseFrame) :
    SameCase frame (frame.stamped clock) := by
  have hsame := sameButTimes_stamped clock frame
  exact ⟨congrArg outcomeOf hsame.result, hsame.root⟩

theorem enterContext_outcome (name : ContextName) :
    Py.wp (enterContext clock c name)
      (fun _ frame' => c.enters name = .ok () ∧ SameCase frame frame'
        ∧ frame'.contexts = name :: frame.contexts)
      (fun error frame' => c.enters name = .error error ∧ SameCase frame frame'
        ∧ frame'.contexts = frame.contexts) frame := by
  unfold CaseRun.enters
  refine Py.wp_bind.mpr (Py.wp_ofExcept.mpr ⟨fun _ hbefore => ?_, fun error hbefore => ?_⟩)
  · rw [hbefore]
    refine Py.wp_bind.mpr (Py.wp_onRaise.mpr (Py.wp_ofExcept.mpr ⟨fun _ hstart => ?_,
      fun error hstart => ?_⟩))
    · rw [hstart]
      exact Py.wp_bind.mpr (Py.wp_modify.mpr (Py.wp_modify.mpr ⟨rfl, ⟨rfl, rfl⟩, rfl⟩))
    · rw [hstart]
      have hcontexts := (sameButTimes_stamped clock frame).contexts
      refine Py.wp_bind.mpr (wp_beginCleanup.mpr (Py.wp_ofExcept.mpr ⟨fun _ hstop => ?_,
        fun error' hstop => ?_⟩))
      · exact ⟨by rw [hstop]; rfl, sameCase_stamped clock frame, hcontexts⟩
      · exact ⟨by rw [hstop]; rfl, sameCase_stamped clock frame, hcontexts⟩
  · rw [hbefore]
    exact ⟨rfl, ⟨rfl, rfl⟩, rfl⟩

section Try

variable {error : PyException}

theorem attempts_of_prepares (h : c.prepares kind library = .error error) :
    c.attempts kind library = .error error ∧ c.holds kind library = [] := by
  unfold CaseRun.attempts CaseRun.holds
  rw [h]
  exact ⟨rfl, rfl⟩

theorem attempts_of_sessionBus (h : c.prepares kind library = .ok ())
    (hbus : c.enters .sessionBus = .error error) :
    c.attempts kind library = .error error ∧ c.holds kind library = [] := by
  unfold CaseRun.attempts CaseRun.holds
  rw [h, hbus]
  exact ⟨rfl, rfl⟩

theorem attempts_of_repositoryServer (h : c.prepares kind library = .ok ())
    (hbus : c.enters .sessionBus = .ok ()) (hserver : c.enters .repositoryServer = .error error) :
    c.attempts kind library = .error error ∧ c.holds kind library = [.sessionBus] := by
  unfold CaseRun.attempts CaseRun.holds
  rw [h, hbus, hserver]
  exact ⟨rfl, rfl⟩

theorem attempts_of_handler (h : c.prepares kind library = .ok ())
    (hbus : c.enters .sessionBus = .ok ()) (hserver : c.enters .repositoryServer = .ok ()) :
    c.attempts kind library = c.handler
      ∧ c.holds kind library = [.repositoryServer, .sessionBus] := by
  unfold CaseRun.attempts CaseRun.holds
  rw [h, hbus, hserver]
  exact ⟨rfl, rfl⟩

/-- The outcome of a case that is not decided. -/
def pendingOutcome : Outcome := ⟨"pending", none, none⟩

/-- The `try` of a case ends as its calls do. -/
theorem attempt_outcome (hcontexts : frame.contexts = []) (hroot : frame.root = none)
    (hpending : outcomeOf frame.result = pendingOutcome) :
    Py.wp (attempt clock kind library c)
      (fun _ frame' => c.attempts kind library = .ok ()
        ∧ frame'.Ended c kind library ⟨"passed", none, none⟩)
      (fun error frame' => c.attempts kind library = .error error
        ∧ frame'.Ended c kind library pendingOutcome) frame := by
  -- An exception before the contexts, with or without a directory.
  have hunprepared : ∀ {error : PyException} {frame : CaseFrame},
      c.prepares kind library = .error error → outcomeOf frame.result = pendingOutcome →
      frame.contexts = [] → frame.root.isSome = c.mkdtemp.isOk →
      c.attempts kind library = .error error ∧ frame.Ended c kind library pendingOutcome := by
    intro error frame herror houtcome hcontexts hroot
    obtain ⟨hattempts, hholds⟩ := attempts_of_prepares herror
    exact ⟨hattempts, houtcome, hcontexts.trans hholds.symm, hroot⟩
  have hnone : frame.root.isSome = false := by rw [hroot]; rfl
  refine Py.wp_bind.mpr (Py.wp_ofExcept.mpr ⟨fun root hmkdtemp => ?_, fun error herror =>
    hunprepared (by rw [CaseRun.prepares, herror]; rfl) hpending hcontexts (by
      rw [hnone, herror]; rfl)⟩)
  have hmade : (some root).isSome = c.mkdtemp.isOk := by rw [hmkdtemp]; rfl
  refine Py.wp_bind.mpr (Py.wp_bind.mpr (Py.wp_bind.mpr ?_))
  refine Py.wp_bind.mpr (Py.wp_ofExcept.mpr ⟨fun _ henvironment => ?_, fun error herror =>
    hunprepared (by rw [CaseRun.prepares, hmkdtemp, herror]; rfl) hpending hcontexts hmade⟩)
  refine Py.wp_bind.mpr (Py.wp_modify.mpr ?_)
  refine Py.wp_bind.mpr (Py.wp_ofExcept.mpr ⟨fun adapter hadapter => ?_, fun error herror =>
    hunprepared (by rw [CaseRun.prepares, hmkdtemp, henvironment, herror]; rfl) hpending
      hcontexts hmade⟩)
  have hprepares : c.prepares kind library = c.checkSetup kind library adapter := by
    rw [CaseRun.prepares, hmkdtemp, henvironment, hadapter]
    rfl
  refine Py.wp_bind.mpr (Py.wp_ofExcept.mpr ⟨fun _ hsetup => ?_, fun error herror =>
    hunprepared (hprepares.trans herror) hpending hcontexts hmade⟩)
  have hready : c.prepares kind library = .ok () := hprepares.trans hsetup
  refine Py.wp_bind.mpr (Py.wp_mono (enterContext_outcome .sessionBus) (fun _ bus hbus => ?_)
    fun error bus hbus => ?_)
  · obtain ⟨hok, hsame, hbusContexts⟩ := hbus
    refine Py.wp_bind.mpr (Py.wp_mono (enterContext_outcome .repositoryServer)
      (fun _ server hserver => ?_) fun error server hserver => ?_)
    · obtain ⟨hok', hsame', hserverContexts⟩ := hserver
      obtain ⟨hattempts, hholds⟩ := attempts_of_handler hready hok hok'
      have hboth : server.contexts = c.holds kind library := by
        rw [hholds, hserverContexts, hbusContexts]
        exact congrArg (fun names => ContextName.repositoryServer :: .sessionBus :: names) hcontexts
      have hroot' : server.root.isSome = c.mkdtemp.isOk := by
        rw [hsame'.root, hsame.root]
        exact hmade
      have hopen : outcomeOf server.result = pendingOutcome :=
        hsame'.outcome.trans (hsame.outcome.trans hpending)
      obtain ⟨-, hnoError, hnoCleanup⟩ := Outcome.mk.inj hopen
      refine Py.wp_bind.mpr (wp_now.mpr (Py.wp_bind.mpr (Py.wp_modify.mpr
        (Py.wp_bind.mpr (Py.wp_modify.mpr (Py.wp_bind.mpr (Py.wp_modify.mpr ?_)))))))
      refine Py.wp_bind.mpr (Py.wp_ofExcept.mpr ⟨fun _ hhandler => ?_, fun error herror =>
        ⟨hattempts.trans herror, hopen, hboth, hroot'⟩⟩)
      refine Py.wp_modify.mpr ⟨hattempts.trans hhandler, ?_, hboth, hroot'⟩
      show Outcome.mk "passed" server.result.error server.result.cleanupError = _
      rw [hnoError, hnoCleanup]
    · obtain ⟨herror, hsame', hserverContexts⟩ := hserver
      obtain ⟨hattempts, hholds⟩ := attempts_of_repositoryServer hready hok herror
      refine ⟨hattempts, hsame'.outcome.trans (hsame.outcome.trans hpending), ?_, ?_⟩
      · rw [hholds, hserverContexts, hbusContexts]
        exact congrArg (List.cons ContextName.sessionBus) hcontexts
      · rw [hsame'.root, hsame.root]
        exact hmade
  · obtain ⟨herror, hsame, hbusContexts⟩ := hbus
    obtain ⟨hattempts, hholds⟩ := attempts_of_sessionBus hready herror
    refine ⟨hattempts, hsame.outcome.trans hpending, ?_, ?_⟩
    · rw [hholds, hbusContexts]
      exact hcontexts
    · rw [hsame.root]
      exact hmade

end Try

/-! ## The `finally` -/

theorem closeContexts_outcome (names : List ContextName) :
    Py.wp (closeContexts clock c names)
      (fun _ frame' => c.closes names = .ok () ∧ SameCase frame frame')
      (fun error frame' => c.closes names = .error error ∧ SameCase frame frame') frame := by
  induction names generalizing frame with
  | nil => exact ⟨rfl, rfl, rfl⟩
  | cons name names ih =>
      have hadded : SameCase frame { frame with events := frame.events ++ [CaseEvent.left name] } :=
        ⟨rfl, rfl⟩
      have hleft := hadded.trans (sameCase_stamped clock _)
      -- The contexts that are left are closed however this one was left.
      unfold CaseRun.closes finallyDo
      refine Py.wp_tryFinally.mpr (Py.wp_bind.mpr (Py.wp_bind.mpr (wp_beginCleanup.mpr
        (Py.wp_ofExcept.mpr ⟨fun _ hstop => ?_, fun error hstop => ?_⟩))))
      · refine Py.wp_mono ih (fun _ frame' h => ⟨?_, hleft.trans h.2⟩) fun error frame' h =>
          ⟨?_, hleft.trans h.2⟩
        · rw [h.1, hstop]
          rfl
        · rw [h.1]
          rfl
      · refine Py.wp_mono ih (fun _ frame' h => ⟨?_, hleft.trans h.2⟩) fun error frame' h =>
          ⟨?_, hleft.trans h.2⟩
        · rw [h.1, hstop]
          rfl
        · rw [h.1]
          rfl

theorem removeRoot_outcome (hroot : frame.root.isSome = c.mkdtemp.isOk) :
    Py.wp (removeRoot c)
      (fun _ frame' => c.clears = .ok () ∧ outcomeOf frame'.result = outcomeOf frame.result)
      (fun error frame' => c.clears = .error error
        ∧ outcomeOf frame'.result = outcomeOf frame.result) frame := by
  -- The directory is there if it was made; only then it is copied and removed.
  have hdirectory : ∀ frame' : CaseFrame, outcomeOf frame'.result = outcomeOf frame.result →
      frame'.root = frame.root → Py.wp (removeDirectory c)
        (fun _ frame' => c.clears = .ok () ∧ outcomeOf frame'.result = outcomeOf frame.result)
        (fun error frame' => c.clears = .error error
          ∧ outcomeOf frame'.result = outcomeOf frame.result) frame' := by
    intro frame' houtcome hsame
    unfold CaseRun.clears
    refine Py.wp_bind.mpr (Py.wp_read.mpr ?_)
    rw [hsame]
    cases hmkdtemp : c.mkdtemp with
    | error error =>
        rw [hmkdtemp] at hroot
        rw [Option.isSome_eq_false_iff.mp hroot |> Option.isNone_iff_eq_none.mp]
        exact ⟨rfl, houtcome⟩
    | ok made =>
        rw [hmkdtemp] at hroot
        obtain ⟨root, hroot⟩ := Option.isSome_iff_exists.mp hroot
        rw [hroot]
        refine Py.wp_bind.mpr (Py.wp_ofExcept.mpr ⟨fun _ hcopy => ?_, fun error hcopy => ?_⟩)
        · rw [hcopy]
          refine Py.wp_bind.mpr (Py.wp_ofExcept.mpr ⟨fun _ hremove => ?_, fun error hremove => ?_⟩)
          · exact ⟨hremove, houtcome⟩
          · exact ⟨hremove, houtcome⟩
        · rw [hcopy]
          exact ⟨rfl, houtcome⟩
  refine Py.wp_bind.mpr (Py.wp_read.mpr ?_)
  dsimp only
  exact Py.wp_ite.mpr ⟨fun _ => Py.wp_bind.mpr (Py.wp_modify.mpr (hdirectory _ rfl rfl)),
    fun _ => hdirectory _ rfl rfl⟩

/-- The cleanup of a case ends as its calls do. -/
theorem leaveAll_outcome {outcome : Outcome} (h : frame.Ended c kind library outcome) :
    Py.wp (leaveAll clock c)
      (fun _ frame' => c.cleans kind library = .ok () ∧ outcomeOf frame'.result = outcome)
      (fun error frame' => c.cleans kind library = .error error
        ∧ outcomeOf frame'.result = outcome) frame := by
  unfold CaseRun.cleans finallyDo
  have hroot : ∀ {frame'}, SameCase frame frame' → frame'.root.isSome = c.mkdtemp.isOk := by
    intro frame' hsame
    rw [hsame.root]
    exact h.root
  refine Py.wp_bind.mpr (Py.wp_read.mpr (Py.wp_bind.mpr (Py.wp_tryFinally.mpr
    (Py.wp_mono (closeContexts_outcome frame.contexts) (fun _ frame' hclosed => ?_)
      fun error frame' hclosed => ?_))))
  · refine Py.wp_mono (removeRoot_outcome (hroot hclosed.2)) (fun _ frame'' hcleared => ?_)
      fun error frame'' hcleared => ?_
    · refine Py.wp_modify.mpr ⟨?_, hcleared.2.trans (hclosed.2.outcome.trans h.outcome)⟩
      rw [hcleared.1, ← h.contexts, hclosed.1]
      rfl
    · refine ⟨?_, hcleared.2.trans (hclosed.2.outcome.trans h.outcome)⟩
      rw [hcleared.1]
      rfl
  · refine Py.wp_mono (removeRoot_outcome (hroot hclosed.2)) (fun _ frame'' hcleared => ?_)
      fun error frame'' hcleared => ?_
    · refine ⟨?_, hcleared.2.trans (hclosed.2.outcome.trans h.outcome)⟩
      rw [hcleared.1, ← h.contexts, hclosed.1]
      rfl
    · refine ⟨?_, hcleared.2.trans (hclosed.2.outcome.trans h.outcome)⟩
      rw [hcleared.1]
      rfl

/-- The `finally` of a case returns exactly for a tidy case. -/
theorem finishCase_outcome {outcome : Outcome} (h : frame.Ended c kind library outcome) :
    Py.wp (finishCase clock c)
      (fun _ frame' => outcomeOf frame'.result = outcome.cleaned (c.cleans kind library)
        ∧ c.Tidy kind library)
      (fun _ _ => ¬ c.Tidy kind library) frame := by
  have hsame := sameButTimes_stamped clock frame
  obtain ⟨started, hstarted⟩ := cleanupStarted_stamped clock frame
  have hended : (frame.stamped clock).Ended c kind library outcome :=
    ⟨(sameCase_stamped clock frame).outcome.trans h.outcome, hsame.contexts.trans h.contexts,
      (congrArg Option.isSome hsame.root).trans h.root⟩
  refine Py.wp_bind.mpr (wp_beginCleanup.mpr (Py.wp_bind.mpr (Py.wp_read.mpr ?_)))
  rw [hstarted]
  refine Py.wp_bind.mpr (Py.wp_ofExcept.mpr ⟨fun t _ => ?_, fun _ hraise => by cases hraise⟩)
  -- The times of the case do not touch its outcome.
  have hwrite : ∀ {frame : CaseFrame},
      outcomeOf frame.result = outcome.cleaned (c.cleans kind library) →
      (∀ error, c.cleans kind library = .error error → error.isInstance cleanupClasses = true) →
      Py.wp (recordTimings clock t)
        (fun _ => Py.wp (Py.ofExcept c.writeReport)
          (fun _ frame' => outcomeOf frame'.result = outcome.cleaned (c.cleans kind library)
            ∧ c.Tidy kind library)
          (fun _ _ => ¬ c.Tidy kind library))
        (fun _ _ => ¬ c.Tidy kind library) frame := by
    intro frame houtcome hcleans
    refine Py.wp_bind.mpr (wp_now.mpr (Py.wp_modify.mpr (Py.wp_ofExcept.mpr
      ⟨fun _ hwritten => ⟨houtcome, hcleans, hwritten⟩, fun error herror htidy => ?_⟩)))
    rw [htidy.writeReport] at herror
    cases herror
  refine Py.wp_bind.mpr (Py.wp_tryFinally.mpr (Py.wp_tryExcept.mpr
    (Py.wp_mono (leaveAll_outcome hended) (fun _ frame' hleft => ?_)
      fun error frame' hleft => ⟨fun hcaught => ?_, fun huncaught => ?_⟩)))
  · refine hwrite ?_ fun error herror => ?_
    · rw [hleft.1]
      exact hleft.2
    · rw [hleft.1] at herror
      cases herror
  · refine Py.wp_bind.mpr (Py.wp_modify.mpr (Py.wp_modify.mpr (hwrite ?_ fun error' herror' => ?_)))
    · rw [hleft.1, ← hleft.2]
      rfl
    · obtain rfl := Except.error.inj (hleft.1.symm.trans herror')
      exact hcaught
  · refine Py.wp_bind.mpr (wp_now.mpr (Py.wp_modify.mpr fun htidy => ?_))
    rw [htidy.cleans error hleft.1] at huncaught
    cases huncaught

/-! ## The block -/

/-- **The block of a case computes the outcome of the case.** It returns exactly for contained
answers, and a tidy case raises what its `except` clause does not name. -/
theorem caseBlock_outcome (hcontexts : frame.contexts = []) (hroot : frame.root = none)
    (hpending : outcomeOf frame.result = pendingOutcome) :
    Py.wp (caseBlock clock kind library c)
      (fun _ frame' => outcomeOf frame'.result = c.outcome kind library ∧ c.Contained kind library)
      (fun error _ => ¬ c.Contained kind library
        ∧ (c.Tidy kind library → error.isInstance caseClasses = false)) frame := by
  -- Of a case that is not tidy nothing is claimed.
  have huntidy : ∀ {error : PyException}, ¬ c.Tidy kind library →
      ¬ c.Contained kind library ∧ (c.Tidy kind library → error.isInstance caseClasses = false) :=
    fun huntidy => ⟨fun hcontained => huntidy hcontained.toTidy, fun htidy => absurd htidy huntidy⟩
  refine Py.wp_tryFinally.mpr (Py.wp_tryExcept.mpr (Py.wp_mono
    (attempt_outcome hcontexts hroot hpending) (fun _ frame' h => ?_)
    fun error frame' h => ⟨fun hcaught => ?_, fun huncaught => ?_⟩))
  · obtain ⟨hattempts, hended⟩ := h
    unfold CaseRun.outcome CaseRun.attempted
    rw [hattempts]
    refine Py.wp_mono (finishCase_outcome hended) (fun _ _ h => ⟨h.1, h.2, fun error herror => ?_⟩)
      fun _ _ => huntidy
    rw [hattempts] at herror
    cases herror
  · obtain ⟨hattempts, hended⟩ := h
    have hfailed : outcomeOf (failedWith error frame'.result) = .ofError error := by
      show Outcome.mk _ _ frame'.result.cleanupError = _
      rw [(Outcome.mk.inj hended.outcome).2.2]
      rfl
    unfold CaseRun.outcome CaseRun.attempted
    rw [hattempts]
    refine Py.wp_bind.mpr (Py.wp_modify.mpr (Py.wp_modify.mpr (Py.wp_mono
      (finishCase_outcome ⟨hfailed, hended.contexts, hended.root⟩)
      (fun _ _ h => ⟨h.1, h.2, fun error' herror' => ?_⟩) fun _ _ => huntidy)))
    obtain rfl := Except.error.inj (hattempts.symm.trans herror')
    exact hcaught
  · refine Py.wp_mono (finishCase_outcome h.2) (fun _ _ _ =>
      ⟨fun hcontained => ?_, fun _ => huncaught⟩)
      fun _ _ => huntidy
    rw [hcontained.attempts error h.1] at huncaught
    cases huncaught

end Runner

end FlatpakBlackbox
