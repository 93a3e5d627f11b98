import FlatpakBlackbox.SystemHelper.Rollback

set_option autoImplicit false

/-! # Stopping again

After a completed `start` everything is recorded, and cleaning up can begin at any time. A case that
is interrupted while it resets the installation, and a first `stop` that is interrupted once the
installation is gone, leave the marker of an installation that does not exist, on which the next
`stop` fails. Part-way through removing the state directory it depends on which entries are gone.
-/

namespace FlatpakBlackbox.SystemHelper

open PyLib PyException

/-- The state directory lists everything that a completed `start` created. -/
structure Marked (setup : Setup) (before : Machine) (d : StateDir) : Prop where
  createdFiles : d.createdFiles = some (filesText [.config, .busPolicy, .polkitPolicy, .rules])
  createdUsers : d.createdUsers = some (usersText [.writer, .reader])
  installationCreated : d.installationCreated = true
  originalPolicy : d.originalPolicy = before.files .polkitPolicy
  pid : d.pid = some (String.ofList (decimal setup.pid))
  /-- The helper got a process id of its own. -/
  fresh : before.processes setup.pid = none

/-- Nothing runs but the helper and what ran before. -/
def OnlyHelper (setup : Setup) (before m : Machine) : Prop :=
  (∀ n, n ≠ setup.pid → m.processes n ≠ none → before.processes n ≠ none) ∧
    ∀ executable, m.processes setup.pid = some executable → executable = setup.helper

/-- Cleaning up can begin. -/
structure Ready (setup : Setup) (before : Machine) (d : StateDir) (m : Machine) : Prop where
  marked : Marked setup before d
  state : m.state = some d
  processes : OnlyHelper setup before m
  installation : m.installation ≠ none

section

variable {setup : Setup} {before m : Machine} {d : StateDir}

theorem mem_allFiles (file : Provisioned) :
    file ∈ [Provisioned.config, .busPolicy, .polkitPolicy, .rules] := by
  cases file <;> decide

theorem mem_allUsers (user : TestUser) : user ∈ [TestUser.writer, .reader] := by
  cases user <;> decide

/-- With every file and user in the lists, only the installation and the processes matter. -/
theorem Marked.recorded_iff (h : Marked setup before d) (hprocesses : OnlyHelper setup before m) :
    Recorded setup before m d ↔ m.installation ≠ none := by
  constructor
  · exact fun hrecorded => hrecorded.installation.mp h.installationCreated
  · intro hinstallation
    have hint := int_decimal setup.pid_pos
    exact {
      pid := by
        intro text htext
        obtain rfl := Option.some.inj (h.pid.symm.trans htext)
        exact ⟨setup.pid, hint, hprocesses.2⟩
      processes := by
        intro n hn
        by_cases heq : n = setup.pid
        · subst heq
          exact .inr ⟨_, h.pid, hint⟩
        · exact .inl (hprocesses.1 n heq hn)
      createdFiles := ⟨_, _, h.createdFiles, readFiles _, fun file _ _ => mem_allFiles file, by
        rw [if_pos (mem_allFiles .polkitPolicy), Option.or_none, h.originalPolicy]⟩
      installation := ⟨fun _ => hinstallation, fun _ => h.installationCreated⟩
      createdUsers := ⟨_, _, h.createdUsers, readUsers _, fun user _ => mem_allUsers user⟩ }

theorem Ready.rolledBack (h : Ready setup before d m) : RolledBack setup before m :=
  (rolledBack_iff h.state).mpr ((h.marked.recorded_iff h.processes).mpr h.installation)

/-- The marker of an installation that is gone. -/
theorem Marked.not_rolledBack (h : Marked setup before d) (hstate : m.state = some d)
    (hnone : m.installation = none) : ¬ RolledBack setup before m := fun hrolled =>
  ((rolledBack_iff hstate).mp hrolled).installation.mp h.installationCreated hnone

/-- A completed `start` is ready to be cleaned up. -/
theorem Started.ready (h : Started setup before m) : ∃ d, Ready setup before d m := by
  obtain ⟨created, h⟩ := h
  refine ⟨startedState setup before created, ⟨rfl, rfl, rfl, rfl, rfl, h.fresh⟩, h.state,
    ⟨fun n hn hexists => by rwa [← h.processes n hn], h.helper⟩,
    h.underway.installation.mp rfl⟩

/-! ## `run_case` -/

/-- The points of `run_case` from which `stop` cleans up. -/
def CasePoint.Retryable : CasePoint → Prop
  | .reset => False
  | .cleaned => False
  | _ => True

def JudgedCase (setup : Setup) (before : Machine) (point : CasePoint) (m : Machine) : Prop :=
  RolledBack setup before m ↔ point.Retryable

theorem Ready.judgedCase (h : Ready setup before d m) {point : CasePoint}
    (hpoint : point.Retryable) :
    JudgedCase setup before point m :=
  ⟨fun _ => hpoint, fun _ => h.rolledBack⟩

theorem Ready.setInstallation (h : Ready setup before d m) (entries : List String) :
    Ready setup before d (m.setInstallation (some entries)) :=
  ⟨h.marked, h.state, h.processes, Option.some_ne_none entries⟩

/-- `shutil.rmtree(INSTALLATION)` where a case runs it. -/
theorem rmtreeInstallation_judged (h : Ready setup before d m) {removing : List String → CasePoint}
    {removed : CasePoint} (hremoving : ∀ rest, (removing rest).Retryable)
    (hremoved : ¬ removed.Retryable) :
    Steps.wp (rmtreeInstallation removing removed) (JudgedCase setup before)
      (fun r m' => r = .ok () ∧ m' = m.setInstallation none) m := by
  obtain ⟨entries, hentries⟩ := Option.ne_none_iff_exists'.mp h.installation
  refine Steps.wp_bind (Steps.wp_read ?_)
  dsimp only
  rw [hentries]
  refine Steps.wp_bind (Steps.wp_gradually
    (fun done _ => (h.setInstallation _).judgedCase (hremoving _)) ?_)
  have hgone : ¬ RolledBack setup before (m.setInstallation none) :=
    h.marked.not_rolledBack h.state rfl
  exact Steps.wp_step (iff_of_false hgone hremoved) ⟨rfl, rfl⟩

/-- Creating the installation again. -/
theorem Ready.remade (h : Ready setup before d m) :
    Ready setup before d ((m.setInstallation none).setInstallation (some [])) :=
  h.setInstallation []

theorem caseBody_judged (h : Ready setup before d m) (case : Case) :
    Steps.wp (caseBody case) (JudgedCase setup before) (fun _ m' => Ready setup before d m') m := by
  refine Steps.wp_bind (Steps.wp_forEach (fun _ m' => Ready setup before d m')
    (fun entries _ m' hm' => ?_) (fun m' hm' => ?_) h)
  · have hnext := hm'.setInstallation entries
    exact Steps.wp_step (hnext.judgedCase trivial) hnext
  · exact Steps.wp_ofExcept hm'

/-- The lock file of a case. -/
theorem Ready.locked (h : Ready setup before d m) :
    Ready setup before { d with caseLock := true }
      (m.setState fun d => { d with caseLock := true }) :=
  ⟨⟨h.marked.createdFiles, h.marked.createdUsers, h.marked.installationCreated,
      h.marked.originalPolicy, h.marked.pid, h.marked.fresh⟩,
    by rw [Machine.setState, h.state]; rfl, h.processes, h.installation⟩

theorem runCase_judged (h : Ready setup before d m) (case : Case) :
    Steps.wp (runCase setup case) (JudgedCase setup before)
      (fun _ m' => ∃ d', Ready setup before d' m') m := by
  refine Steps.wp_bind (Steps.wp_step (h.judgedCase trivial) (Steps.wp_bind (Steps.wp_read ?_)))
  have hpid : m.state.bind StateDir.pid = some (String.ofList (decimal setup.pid)) := by
    rw [h.state, Option.bind_some, h.marked.pid]
  dsimp only [id]
  rw [hpid]
  refine Steps.wp_bind (Steps.wp_ofExcept ?_)
  rw [int_decimal setup.pid_pos]
  refine Steps.wp_bind (Steps.wp_read (Steps.wp_bind (Steps.wp_ofExcept ?_)))
  by_cases hrunning : m.processes setup.pid = some setup.helper
  swap
  · rw [raiseIf, if_pos hrunning]
    exact ⟨d, h⟩
  rw [raiseIf_of_not (not_not.mpr hrunning)]
  refine Steps.wp_bind (Steps.wp_ofExcept ?_)
  by_cases howner : case.busOwner = some setup.pid
  swap
  · rw [raiseIf, if_pos howner]
    exact ⟨d, h⟩
  rw [raiseIf_of_not (not_not.mpr howner)]
  have hlocked := h.locked
  refine Steps.wp_bind (Steps.wp_step (hlocked.judgedCase trivial) (Steps.wp_bind
    (Steps.wp_ofExcept ?_)))
  cases case.preparation with
  | error e => exact ⟨_, hlocked⟩
  | ok _ =>
      refine Steps.wp_bind (Steps.wp_mono (rmtreeInstallation_judged hlocked (fun _ => trivial) id)
        (fun _ _ hx => hx) ?_)
      rintro _ _ ⟨rfl, rfl⟩
      have hremade := hlocked.remade
      refine Steps.wp_bind (Steps.wp_step (hremade.judgedCase trivial) (Steps.wp_tryFinally
        (Steps.wp_mono (caseBody_judged hremade case) (fun _ _ hx => hx) fun r m' hm' => ?_)))
      refine Steps.wp_bind (Steps.wp_mono (rmtreeInstallation_judged hm' (fun _ => trivial) id)
        (fun _ _ hx => hx) ?_)
      rintro _ _ ⟨rfl, rfl⟩
      exact Steps.wp_step (hm'.remade.judgedCase trivial) ⟨_, hm'.remade⟩

/-! ## A first `stop` -/

/-- The points of a first `stop` from which a second one cleans up. -/
def StopPoint.Retryable (before : Machine) : StopPoint → Prop
  | .installationRemoved => False
  | .userRemoved _ => False
  | .helperUserRemoved => False
  | .removingState removed =>
      .createdFiles ∉ removed ∧ .createdUsers ∉ removed ∧ .installationCreated ∈ removed ∧
        (.originalPolicy ∈ removed → before.files .polkitPolicy = none)
  | _ => True

def JudgedStop (setup : Setup) (before : Machine) (point : StopPoint) (m : Machine) : Prop :=
  RolledBack setup before m ↔ point.Retryable before

theorem Ready.judgedStop (h : Ready setup before d m) {point : StopPoint}
    (hpoint : point.Retryable before) : JudgedStop setup before point m :=
  ⟨fun _ => hpoint, fun _ => h.rolledBack⟩

theorem Ready.withFiles (h : Ready setup before d m) (files : Provisioned → Option String) :
    Ready setup before d { m with files := files } :=
  ⟨h.marked, h.state, h.processes, h.installation⟩

/-- Once the helper is gone, nothing runs that did not run before. -/
def Quiet (before m : Machine) : Prop := ∀ n, m.processes n ≠ none → before.processes n ≠ none

theorem stopHelper_judged (h : Ready setup before d m) :
    Steps.wp (stopHelper setup d) (JudgedStop setup before)
      (Steps.Returning fun m' => Ready setup before d m' ∧ Quiet before m') m := by
  have hint := int_decimal setup.pid_pos
  have hquiet : Ready setup before d (m.setProcess setup.pid none) ∧
      Quiet before (m.setProcess setup.pid none) := by
    have hother : ∀ n, (m.setProcess setup.pid none).processes n ≠ none →
        before.processes n ≠ none := by
      intro n hn
      by_cases heq : n = setup.pid
      · rw [heq, m.setProcess_self] at hn
        exact absurd rfl hn
      · rw [m.setProcess_ne _ heq] at hn
        exact h.processes.1 n heq hn
    refine ⟨⟨h.marked, h.state, ⟨fun n _ => hother n, fun executable hexecutable => ?_⟩,
      h.installation⟩, hother⟩
    rw [m.setProcess_self] at hexecutable
    cases hexecutable
  unfold stopHelper
  rw [h.marked.pid]
  refine Steps.wp_bind (Steps.wp_ofExcept ?_)
  rw [hint]
  refine Steps.wp_bind (Steps.wp_read ?_)
  cases hprocess : m.processes setup.pid with
  | none =>
      rw [setProcess_none hprocess] at hquiet
      exact Steps.wp_pure fun _ => hquiet
  | some executable =>
      refine Steps.wp_bind (Steps.wp_ofExcept ?_)
      rw [raiseIf_of_not (not_not.mpr (h.processes.2 executable hprocess))]
      exact Steps.wp_step (hquiet.1.judgedStop trivial) fun _ => hquiet

theorem removeFiles_judged (h : Ready setup before d m) :
    Steps.wp (removeFiles d) (JudgedStop setup before)
      (Steps.Returning (· = { m with files := fun _ => none })) m := by
  have hend : Steps.Ends (removeFiles d) m (.ok ()) { m with files := fun _ => none } := by
    have hall := removeFiles_ends (m := m) h.marked.createdFiles (readFiles _)
    simpa only [if_pos (mem_allFiles _)] using hall
  refine Steps.wp_ends (Steps.wp_bind (Steps.wp_ofExcept ?_)) hend
  rw [h.marked.createdFiles]
  refine Steps.wp_forEach (fun _ m' => Ready setup before d m') (fun line _ m' hm' => ?_)
    (fun _ _ => trivial) h
  refine Steps.wp_bind (Steps.wp_ofExcept ?_)
  cases provisionedFile line with
  | error e => exact trivial
  | ok file =>
      have hnext := hm'.withFiles (Function.update m'.files file none)
      exact Steps.wp_step (hnext.judgedStop trivial) hnext

theorem restorePolicy_judged (h : Ready setup before d m) (hnone : m.files .polkitPolicy = none) :
    Steps.wp (restorePolicy d) (JudgedStop setup before)
      (Steps.Returning (· = m.setFile .polkitPolicy (before.files .polkitPolicy))) m := by
  unfold restorePolicy
  rw [h.marked.originalPolicy]
  cases before.files .polkitPolicy with
  | none =>
      have hsame : Function.update m.files .polkitPolicy none = m.files := by
        rw [← hnone]
        exact Function.update_eq_self ..
      exact Steps.wp_pure fun _ => by rw [Machine.setFile, hsame]
  | some original =>
      refine Steps.wp_gradually (fun written _ => ?_) fun _ => by rw [String.ofList_toList]
      exact (h.withFiles _).judgedStop trivial

theorem removeInstallation_judged (h : Ready setup before d m) :
    Steps.wp (removeInstallation d) (JudgedStop setup before)
      (Steps.Returning (· = m.setInstallation none)) m := by
  obtain ⟨entries, hentries⟩ := Option.ne_none_iff_exists'.mp h.installation
  unfold removeInstallation
  rw [if_pos h.marked.installationCreated]
  refine Steps.wp_bind (Steps.wp_read ?_)
  dsimp only
  rw [hentries]
  refine Steps.wp_bind (Steps.wp_gradually
    (fun done _ => (h.setInstallation _).judgedStop trivial) ?_)
  have hgone : ¬ RolledBack setup before (m.setInstallation none) :=
    h.marked.not_rolledBack h.state rfl
  exact Steps.wp_step (iff_of_false hgone id) fun _ => rfl

/-- Nothing is recovered while the marker names an installation that is gone. -/
theorem removeUsers_judged (h : Marked setup before d) (hstate : m.state = some d)
    (hnone : m.installation = none) :
    Steps.wp (removeUsers d) (JudgedStop setup before)
      (Steps.Returning (· = { m with users := fun _ => false })) m := by
  have hend : Steps.Ends (removeUsers d) m (.ok ()) { m with users := fun _ => false } := by
    have hall := removeUsers_ends (m := m) h.createdUsers (readUsers _)
    simpa only [if_pos (mem_allUsers _)] using hall
  refine Steps.wp_ends (Steps.wp_bind (Steps.wp_ofExcept ?_)) hend
  rw [h.createdUsers]
  refine Steps.wp_forEach (fun _ m' => m'.state = some d ∧ m'.installation = none)
    (fun line _ m' hm' => ?_) (fun _ _ => trivial) ⟨hstate, hnone⟩
  refine Steps.wp_bind (Steps.wp_ofExcept ?_)
  cases testUser line with
  | error e => exact trivial
  | ok user =>
      have hgone : ¬ RolledBack setup before (m'.setUser user false) :=
        h.not_rolledBack hm'.1 hm'.2
      exact Steps.wp_step (iff_of_false hgone id) hm'

theorem removeHelperUser_judged (h : Marked setup before d) (hstate : m.state = some d)
    (hnone : m.installation = none) :
    Steps.wp (removeHelperUser d) (JudgedStop setup before)
      (Steps.Returning fun m' => ∃ present, m' = { m with helperUser := present }) m := by
  unfold removeHelperUser
  cases d.helperUserCreated with
  | false => exact Steps.wp_pure fun _ => ⟨m.helperUser, rfl⟩
  | true =>
      have hgone : ¬ RolledBack setup before { m with helperUser := false } :=
        h.not_rolledBack hstate hnone
      exact Steps.wp_step (iff_of_false hgone id) fun _ => ⟨false, rfl⟩

theorem foldl_remove (removed : List StateEntry) (d : StateDir) :
    removed.foldl StateDir.remove d =
      { createdFiles := if .createdFiles ∈ removed then none else d.createdFiles
        createdUsers := if .createdUsers ∈ removed then none else d.createdUsers
        helperUserCreated := if .helperUserCreated ∈ removed then false else d.helperUserCreated
        installationCreated :=
          if .installationCreated ∈ removed then false else d.installationCreated
        originalPolicy := if .originalPolicy ∈ removed then none else d.originalPolicy
        pid := if .pid ∈ removed then none else d.pid
        caseLock := if .caseLock ∈ removed then false else d.caseLock } := by
  induction removed generalizing d with
  | nil => simp
  | cons entry removed ih =>
      rw [List.foldl_cons, ih]
      cases entry <;> simp [StateDir.remove]

/-- The machine when only the state directory is left. -/
structure Emptied (before : Machine) (d : StateDir) (m : Machine) : Prop where
  state : m.state = some d
  quiet : Quiet before m
  files : ∀ file, file ≠ .polkitPolicy → m.files file = none
  policy : m.files .polkitPolicy = before.files .polkitPolicy
  users : ∀ user, m.users user = false
  installation : m.installation = none

/-- Part of the state directory is gone: the marker of the installation must be, the two lists and
the policy to restore must not. -/
theorem Emptied.judgedRemoving (h : Emptied before d m) (hmarked : Marked setup before d)
    (removed : List StateEntry) :
    JudgedStop setup before (.removingState removed)
      (m.setState fun d => removed.foldl .remove d) := by
  have hstate : (m.setState fun d => removed.foldl .remove d).state =
      some (removed.foldl .remove d) := by
    rw [Machine.setState, h.state]
    rfl
  rw [JudgedStop, rolledBack_iff hstate, foldl_remove]
  constructor
  · intro hrecorded
    obtain ⟨text, listed, htext, hlisted, _, hpolicy⟩ := hrecorded.createdFiles
    obtain ⟨_, _, husers, _⟩ := hrecorded.createdUsers
    dsimp only at htext hpolicy husers
    -- Without the list of files nothing is recorded.
    have hfiles : StateEntry.createdFiles ∉ removed := by
      intro hmem
      rw [if_pos hmem] at htext
      cases htext
    refine ⟨hfiles, ?_, ?_, ?_⟩
    · intro hmem
      rw [if_pos hmem] at husers
      cases husers
    · by_contra hmem
      -- A marker that is left tells of an installation that is gone.
      refine hrecorded.installation.mp ?_ h.installation
      dsimp only
      rw [if_neg hmem, hmarked.installationCreated]
    · intro hmem
      rw [if_neg hfiles, hmarked.createdFiles] at htext
      obtain rfl := Option.some.inj htext
      obtain rfl := Except.ok.inj (hlisted.symm.trans (readFiles _))
      rw [if_pos hmem, if_pos (mem_allFiles _)] at hpolicy
      exact hpolicy.symm
  · rintro ⟨hfiles, husers, hinstallation, hpolicy⟩
    refine ⟨?_, fun n hn => .inl (h.quiet n hn),
      ⟨_, _, ?_, readFiles _, fun file _ _ => mem_allFiles file,
      ?_⟩, ?_, ⟨_, _, ?_, readUsers _, fun user _ => mem_allUsers user⟩⟩
    · intro text htext
      dsimp only at htext
      by_cases hmem : StateEntry.pid ∈ removed
      · rw [if_pos hmem] at htext
        cases htext
      · rw [if_neg hmem, hmarked.pid] at htext
        obtain rfl := Option.some.inj htext
        refine ⟨setup.pid, int_decimal setup.pid_pos, fun executable hexecutable => ?_⟩
        -- The process id is one that no other program had.
        have hrunning : m.processes setup.pid ≠ none := by
          rw [show m.processes setup.pid = some executable from hexecutable]
          exact Option.some_ne_none executable
        exact absurd hmarked.fresh (h.quiet setup.pid hrunning)
    · dsimp only
      rw [if_neg hfiles, hmarked.createdFiles]
    · dsimp only
      rw [if_pos (mem_allFiles _), Option.or_none, hmarked.originalPolicy]
      by_cases hmem : StateEntry.originalPolicy ∈ removed
      · rw [if_pos hmem, hpolicy hmem]
      · rw [if_neg hmem]
    · dsimp only
      rw [if_pos hinstallation]
      exact ⟨fun h => absurd h Bool.false_ne_true, fun hexists => absurd h.installation hexists⟩
    · dsimp only
      rw [if_neg husers, hmarked.createdUsers]

theorem removeState_judged (h : Emptied before d m) (hmarked : Marked setup before d) :
    Steps.wp (removeState setup) (JudgedStop setup before) (Steps.Returning fun _ => True) m := by
  refine Steps.wp_seq (R := fun m' => { m' with state := none } = { m with state := none })
    (Steps.wp_gradually (fun removed _ => h.judgedRemoving hmarked removed) fun _ => rfl)
    fun m' hm' => ?_
  refine Steps.wp_step ⟨fun _ => trivial, fun _ => ?_⟩ fun _ => trivial
  rw [hm']
  obtain ⟨hresult, hfinal⟩ := stop_none setup { m with state := none } rfl
  rw [RolledBack, hresult, hfinal]
  exact ⟨rfl, h.quiet, h.files, h.policy, h.users, h.installation, rfl⟩

theorem stop_judged (h : Ready setup before d m) :
    Steps.wp (stop setup) (JudgedStop setup before) (Steps.Returning fun _ => True) m := by
  refine Steps.wp_seq (R := (· = m)) (Steps.wp_step (h.judgedStop trivial) fun _ => rfl) ?_
  rintro m rfl
  refine Steps.wp_bind (Steps.wp_read ?_)
  dsimp only
  rw [h.state]
  refine Steps.wp_seq (stopHelper_judged h) ?_
  rintro m ⟨h, hquiet⟩
  refine Steps.wp_seq (removeFiles_judged h) ?_
  rintro _ rfl
  have h := h.withFiles fun _ => none
  refine Steps.wp_seq (restorePolicy_judged h rfl) ?_
  rintro _ rfl
  have h := h.withFiles (Function.update (fun _ => none) .polkitPolicy (before.files .polkitPolicy))
  refine Steps.wp_seq (R := fun m' => m' = { m with
      files := Function.update (fun _ => none) .polkitPolicy (before.files .polkitPolicy) })
    (Steps.wp_step (h.judgedStop trivial) fun _ => rfl) ?_
  rintro _ rfl
  refine Steps.wp_seq (removeInstallation_judged h) ?_
  rintro _ rfl
  refine Steps.wp_seq (removeUsers_judged h.marked h.state rfl) ?_
  rintro _ rfl
  refine Steps.wp_seq (removeHelperUser_judged h.marked h.state rfl) ?_
  rintro _ ⟨present, rfl⟩
  have hgone (file : Provisioned) (hfile : file ≠ .polkitPolicy) :
      Function.update (fun _ => none) .polkitPolicy (before.files .polkitPolicy) file = none :=
    Function.update_of_ne hfile ..
  have hpolicy : Function.update (fun _ => none) .polkitPolicy (before.files .polkitPolicy)
      Provisioned.polkitPolicy = before.files .polkitPolicy := Function.update_self ..
  exact removeState_judged ⟨h.state, hquiet, hgone, hpolicy, fun _ => rfl, rfl⟩ h.marked

/-! ## The theorem -/

/-- The machine after a number of cases, each run to its end. -/
def afterCases (setup : Setup) (cases : List Case) (m : Machine) : Machine :=
  cases.foldl (fun m case => (runCase setup case).final m) m

theorem afterCases_ready (h : ∃ d, Ready setup before d m) (cases : List Case) :
    ∃ d, Ready setup before d (afterCases setup cases m) := by
  induction cases generalizing m with
  | nil => exact h
  | cons case cases ih =>
      obtain ⟨d, h⟩ := h
      exact ih (runCase_judged h case).2

/-- What is interrupted. -/
inductive Interrupted where
  | runCase (executed : Case) (point : CasePoint)
  | stop (point : StopPoint)

/-- The machine that an interruption leaves behind. -/
def Interrupted.Leaves (setup : Setup) (m m' : Machine) : Interrupted → Prop
  | .runCase executed point => (point, m') ∈ (SystemHelper.runCase setup executed).trace m
  | .stop point => (point, m') ∈ (SystemHelper.stop setup).trace m

def Interrupted.Retryable (before : Machine) : Interrupted → Prop
  | .runCase _ point => point.Retryable
  | .stop point => point.Retryable before

/-- **When cleanup can be retried.** -/
theorem stop_again_iff (setup : Setup) (before : Machine) (cases : List Case)
    (interrupted : Interrupted) (m : Machine)
    (hstart : (start setup .owned).outcome before = .ok ())
    (hleaves : interrupted.Leaves setup
      (afterCases setup cases ((start setup .owned).final before)) m) :
    RolledBack setup before m ↔ interrupted.Retryable before := by
  have hstarted : Started setup before ((start setup .owned).final before) :=
    (start_judged .owned).2 hstart
  obtain ⟨d, h⟩ := afterCases_ready hstarted.ready cases
  cases interrupted with
  | runCase executed point => exact (runCase_judged h executed).1 (point, m) hleaves
  | stop point => exact (stop_judged h).1 (point, m) hleaves

end

theorem started_small : (start plainSetup .owned).outcome (plainMachine none) = .ok () := by
  have hdone : ((start plainSetup .owned).outcome (plainMachine none)).isOk = true := by
    decide +kernel
  cases hresult : (start plainSetup .owned).outcome (plainMachine none) with
  | ok _ => rfl
  | error e =>
      rw [hresult] at hdone
      cases hdone

/-- A first `stop` reloads the bus and removes the installation. -/
theorem stop_passes_small : ∀ point ∈ [StopPoint.reloaded, .installationRemoved],
    ∃ m, (point, m) ∈ (stop plainSetup).trace
      ((start plainSetup .owned).final (plainMachine none)) := by
  -- Both points are looked up in one run.
  have hpoints : ∀ point ∈ [StopPoint.reloaded, .installationRemoved],
      point ∈ ((stop plainSetup).trace
        ((start plainSetup .owned).final (plainMachine none))).map Prod.fst := by decide +kernel
  intro point hpoint
  obtain ⟨⟨_, m⟩, hm, rfl⟩ := List.mem_map.mp (hpoints point hpoint)
  exact ⟨m, hm⟩

theorem stop_again_small :
    ∃ m, (Interrupted.stop .reloaded).Leaves plainSetup
        (afterCases plainSetup [] ((start plainSetup .owned).final (plainMachine none))) m ∧
      (RolledBack plainSetup (plainMachine none) m ↔
        (Interrupted.stop .reloaded).Retryable (plainMachine none)) := by
  obtain ⟨m, hm⟩ : ∃ m, (.reloaded, m) ∈ (stop plainSetup).trace
      ((start plainSetup .owned).final (plainMachine none)) := stop_passes_small _ (by decide)
  exact ⟨m, hm, stop_again_iff plainSetup (plainMachine none) [] (.stop .reloaded) m
    started_small hm⟩

/-- Interrupted once the installation is gone, a first `stop` is not completed by a second one. -/
theorem stop_again_fails_small :
    ∃ m, (.installationRemoved, m) ∈ (stop plainSetup).trace
        ((start plainSetup .owned).final (plainMachine none)) ∧
      ¬ RolledBack plainSetup (plainMachine none) m := by
  obtain ⟨m, hm⟩ : ∃ m, (.installationRemoved, m) ∈ (stop plainSetup).trace
      ((start plainSetup .owned).final (plainMachine none)) := stop_passes_small _ (by decide)
  obtain ⟨d, h⟩ := Started.ready ((start_judged .owned).2 started_small)
  exact ⟨m, hm, fun hrolled => ((stop_judged h).1 _ hm).mp hrolled⟩

end FlatpakBlackbox.SystemHelper
