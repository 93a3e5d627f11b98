import FlatpakBlackbox.SystemHelper.Machine

set_option autoImplicit false

/-! # What `stop` can undo

`stop` returns the machine to the state before provisioning exactly where everything that exists
is recorded in the state directory and everything recorded is intact (`Recorded`). This is said
once, for an arbitrary machine (`rolledBack_iff`); the points at which `start`, `run_case` and
`stop` itself can be stopped are then checked against `Recorded`.
-/

namespace FlatpakBlackbox.SystemHelper

open PyLib PyException

/-- Provisioning is undone: the machine after `stop`, with its outcome, against the one before. -/
structure Clean (before : Machine) (result : Except PyException Unit) (m : Machine) : Prop where
  completes : result = .ok ()
  /-- No process is left that was not there before. -/
  processes : ∀ pid, m.processes pid ≠ none → before.processes pid ≠ none
  files : ∀ file, file ≠ .polkitPolicy → m.files file = none
  policy : m.files .polkitPolicy = before.files .polkitPolicy
  users : ∀ user, m.users user = false
  installation : m.installation = none
  state : m.state = none

/-- Running `stop` cleans up after what was done since `before`. -/
def RolledBack (setup : Setup) (before m : Machine) : Prop :=
  Clean before ((stop setup).outcome m) ((stop setup).final m)

/-- Everything that exists is recorded, and everything recorded is intact. -/
structure Recorded (setup : Setup) (before m : Machine) (d : StateDir) : Prop where
  /-- The recorded process id is a number and names no other program. -/
  pid : ∀ text, d.pid = some text →
    ∃ n, int text = .ok n ∧ ∀ executable, m.processes n = some executable →
      executable = setup.helper
  processes : ∀ n, m.processes n ≠ none → before.processes n ≠ none ∨
    ∃ text, d.pid = some text ∧ int text = .ok n
  createdFiles : ∃ text files, d.createdFiles = some text ∧
    (splitLines text).mapM provisionedFile = .ok files ∧
    (∀ file, file ≠ .polkitPolicy → m.files file ≠ none → file ∈ files) ∧
    (d.originalPolicy.or (if .polkitPolicy ∈ files then none else m.files .polkitPolicy)) =
      before.files .polkitPolicy
  installation : d.installationCreated = true ↔ m.installation ≠ none
  createdUsers : ∃ text users, d.createdUsers = some text ∧
    (splitLines text).mapM testUser = .ok users ∧ ∀ user, m.users user = true → user ∈ users

/-! ## The pieces of `stop` -/

section

variable {setup : Setup} {m : Machine} {d : StateDir}

/-- The processes without the one that was recorded. -/
def remaining (d : StateDir) (processes : Nat → Option String) : Nat → Option String :=
  match d.pid with
  | none => processes
  | some text =>
      match int text with
      | .ok n => Function.update processes n none
      | .error _ => processes

theorem setProcess_none {n : Nat} (h : m.processes n = none) : m.setProcess n none = m := by
  have hupdate : Function.update m.processes n none = m.processes := by
    rw [← h]
    exact Function.update_eq_self n m.processes
  rw [Machine.setProcess, hupdate]

theorem stopHelper_ends (h : ∀ text, d.pid = some text → ∃ n, int text = .ok n ∧
    ∀ executable, m.processes n = some executable → executable = setup.helper) :
    Steps.Ends (stopHelper setup d) m (.ok ()) { m with processes := remaining d m.processes } := by
  obtain ⟨files, users, helperUser, installationCreated, original, pid, lock⟩ := d
  cases pid with
  | none => exact Steps.Ends.pure ()
  | some text =>
      obtain ⟨n, hn, hexecutable⟩ := h text rfl
      have hremaining : remaining ⟨files, users, helperUser, installationCreated, original,
          some text, lock⟩ m.processes = Function.update m.processes n none := by
        simp only [remaining, hn]
      rw [hremaining]
      show Steps.Ends _ m _ (m.setProcess n none)
      refine Steps.Ends.bind (Steps.Ends.ofExcept hn) (Steps.Ends.bind (Steps.Ends.read _) ?_)
      cases hprocess : m.processes n with
      | none =>
          rw [setProcess_none hprocess]
          exact Steps.Ends.pure ()
      | some executable =>
          have hpass : raiseIf (executable ≠ setup.helper) (runtimeError
              "refusing to stop an unrelated process after PID reuse") = .ok () :=
            raiseIf_of_not (not_not.mpr (hexecutable executable hprocess))
          exact Steps.Ends.bind (Steps.Ends.ofExcept hpass) (Steps.Ends.step _ _)

theorem pid_of_stopHelper (h : (stopHelper setup d).outcome m = .ok ()) :
    ∀ text, d.pid = some text → ∃ n, int text = .ok n ∧
      ∀ executable, m.processes n = some executable → executable = setup.helper := by
  obtain ⟨files, users, helperUser, installationCreated, original, pid, lock⟩ := d
  intro text htext
  obtain rfl : pid = some text := htext
  obtain ⟨n, hn, h⟩ := Steps.outcome_bind_eq_ok.mp h
  refine ⟨n, hn, fun executable hexecutable => ?_⟩
  obtain ⟨process, hprocess, h⟩ := Steps.outcome_bind_eq_ok.mp h
  obtain rfl : some executable = process :=
    hexecutable.symm.trans (Except.ok.inj hprocess)
  obtain ⟨_, hpass, _⟩ := Steps.outcome_bind_eq_ok.mp h
  exact not_not.mp (raiseIf_eq_ok.mp hpass)

theorem foldl_setFile (files : List Provisioned) (m : Machine) :
    files.foldl (fun m file => m.setFile file none) m =
      { m with files := fun file => if file ∈ files then none else m.files file } := by
  induction files generalizing m with
  | nil => simp
  | cons file files ih =>
      rw [List.foldl_cons, ih]
      simp only [Machine.setFile]
      congr 1
      funext other
      by_cases hother : other = file
      · simp [hother]
      · simp [hother, Function.update_of_ne]

theorem foldl_setUser (users : List TestUser) (m : Machine) :
    users.foldl (fun m user => m.setUser user false) m =
      { m with users := fun user => if user ∈ users then false else m.users user } := by
  induction users generalizing m with
  | nil => simp
  | cons user users ih =>
      rw [List.foldl_cons, ih]
      simp only [Machine.setUser]
      congr 1
      funext other
      by_cases hother : other = user
      · simp [hother]
      · simp [hother, Function.update_of_ne]

theorem removeFiles_ends {text : String} {files : List Provisioned}
    (htext : d.createdFiles = some text)
    (hfiles : (splitLines text).mapM provisionedFile = .ok files) :
    Steps.Ends (removeFiles d) m (.ok ())
      { m with files := fun file => if file ∈ files then none else m.files file } := by
  have hread : readEntry "created-files" d.createdFiles = .ok text := by rw [htext]; rfl
  rw [← foldl_setFile]
  exact Steps.Ends.bind (Steps.Ends.ofExcept hread) (Steps.forEach_checked hfiles m)

theorem removeUsers_ends {text : String} {users : List TestUser}
    (htext : d.createdUsers = some text)
    (husers : (splitLines text).mapM testUser = .ok users) :
    Steps.Ends (removeUsers d) m (.ok ())
      { m with users := fun user => if user ∈ users then false else m.users user } := by
  have hread : readEntry "created-users" d.createdUsers = .ok text := by rw [htext]; rfl
  rw [← foldl_setUser]
  exact Steps.Ends.bind (Steps.Ends.ofExcept hread) (Steps.forEach_checked husers m)

theorem readEntry_eq_ok {name text : String} {content : Option String}
    (h : readEntry name content = .ok text) : content = some text := by
  cases content with
  | none => cases h
  | some text' => rw [← Except.ok.inj h]

theorem lines_of_removeFiles (h : (removeFiles d).outcome m = .ok ()) :
    ∃ text files, d.createdFiles = some text ∧
      (splitLines text).mapM provisionedFile = .ok files := by
  obtain ⟨text, htext, h⟩ := Steps.outcome_bind_eq_ok.mp h
  obtain ⟨files, hfiles⟩ := Steps.mapM_of_forEach_checked h
  exact ⟨text, files, readEntry_eq_ok htext, hfiles⟩

theorem lines_of_removeUsers (h : (removeUsers d).outcome m = .ok ()) :
    ∃ text users, d.createdUsers = some text ∧ (splitLines text).mapM testUser = .ok users := by
  obtain ⟨text, htext, h⟩ := Steps.outcome_bind_eq_ok.mp h
  obtain ⟨users, husers⟩ := Steps.mapM_of_forEach_checked h
  exact ⟨text, users, readEntry_eq_ok htext, husers⟩

theorem restorePolicy_ends : Steps.Ends (restorePolicy d) m (.ok ())
    (match d.originalPolicy with
      | none => m
      | some original => m.setFile .polkitPolicy (some original)) := by
  unfold restorePolicy
  cases d.originalPolicy with
  | none => exact Steps.Ends.pure ()
  | some original => exact ⟨rfl, by
      show m.setFile .polkitPolicy (some (String.ofList original.toList)) = _
      rw [String.ofList_toList]⟩

theorem removeInstallation_ends (h : d.installationCreated = true → m.installation ≠ none) :
    Steps.Ends (removeInstallation d) m (.ok ())
      { m with installation := if d.installationCreated then none else m.installation } := by
  unfold removeInstallation
  cases hcreated : d.installationCreated with
  | false => exact Steps.Ends.pure ()
  | true =>
      obtain ⟨entries, hentries⟩ := Option.ne_none_iff_exists'.mp (h hcreated)
      refine Steps.Ends.bind (Steps.Ends.read _) ?_
      rw [hentries]
      exact Steps.Ends.bind ⟨rfl, rfl⟩ (Steps.Ends.step _ _)

theorem installation_of_removeInstallation (h : (removeInstallation d).outcome m = .ok ()) :
    d.installationCreated = true → m.installation ≠ none := by
  intro hcreated hnone
  unfold removeInstallation at h
  rw [if_pos hcreated] at h
  obtain ⟨entries, hentries, h⟩ := Steps.outcome_bind_eq_ok.mp h
  obtain rfl : none = entries := hnone.symm.trans (Except.ok.inj hentries)
  cases h

theorem removeHelperUser_ends : Steps.Ends (removeHelperUser d) m (.ok ())
    { m with helperUser := if d.helperUserCreated then false else m.helperUser } := by
  unfold removeHelperUser
  cases d.helperUserCreated with
  | false => exact Steps.Ends.pure ()
  | true => exact Steps.Ends.step _ _

theorem removeState_ends : Steps.Ends (removeState setup) m (.ok ()) { m with state := none } :=
  Steps.Ends.bind ⟨rfl, rfl⟩ ⟨rfl, rfl⟩

/-! ## The whole of `stop` -/

/-- The machine after `stop`, with what it read in the state directory. -/
def cleaned (d : StateDir) (files : List Provisioned) (users : List TestUser) (m : Machine) :
    Machine where
  state := none
  files := fun file =>
    if file = .polkitPolicy then
      d.originalPolicy.or (if .polkitPolicy ∈ files then none else m.files .polkitPolicy)
    else if file ∈ files then none else m.files file
  installation := if d.installationCreated then none else m.installation
  users := fun user => if user ∈ users then false else m.users user
  helperUser := if d.helperUserCreated then false else m.helperUser
  processes := remaining d m.processes
  busOwned := m.busOwned

variable (setup m) in
theorem stop_none (h : m.state = none) : Steps.Ends (stop setup) m (.ok ()) m := by
  refine Steps.Ends.bind (Steps.Ends.step _ _) (Steps.Ends.bind (Steps.Ends.read _) ?_)
  rw [id, h]
  exact Steps.Ends.pure ()

/-- What `stop` reads of an existing state directory, piece by piece. -/
def stopWith (setup : Setup) (state : StateDir) : Steps PyException StopPoint Machine Unit := do
  stopHelper setup state
  removeFiles state
  restorePolicy state
  Steps.step .reloaded id
  removeInstallation state
  removeUsers state
  removeHelperUser state
  removeState setup

theorem stop_some (h : m.state = some d) :
    (stop setup).outcome m = (stopWith setup d).outcome m ∧
      (stop setup).final m = (stopWith setup d).final m := by
  have hend : Steps.Ends (stop setup) m ((stopWith setup d).outcome m)
      ((stopWith setup d).final m) := by
    refine Steps.Ends.bind (Steps.Ends.step _ _) (Steps.Ends.bind (Steps.Ends.read _) ?_)
    rw [id, h]
    exact ⟨rfl, rfl⟩
  exact hend

theorem stopWith_ends {filesText usersText : String} {files : List Provisioned}
    {users : List TestUser}
    (hpid : ∀ text, d.pid = some text → ∃ n, int text = .ok n ∧
      ∀ executable, m.processes n = some executable → executable = setup.helper)
    (hfilesText : d.createdFiles = some filesText)
    (hfiles : (splitLines filesText).mapM provisionedFile = .ok files)
    (hinstallation : d.installationCreated = true → m.installation ≠ none)
    (husersText : d.createdUsers = some usersText)
    (husers : (splitLines usersText).mapM testUser = .ok users) :
    Steps.Ends (stopWith setup d) m (.ok ()) (cleaned d files users m) := by
  refine Steps.Ends.bind (stopHelper_ends hpid)
    (Steps.Ends.bind (removeFiles_ends hfilesText hfiles)
    (Steps.Ends.bind restorePolicy_ends (Steps.Ends.bind (Steps.Ends.step _ _) (Steps.Ends.bind
      (removeInstallation_ends ?_) (Steps.Ends.bind (removeUsers_ends husersText husers)
        (Steps.Ends.bind removeHelperUser_ends ?_))))))
  · cases d.originalPolicy <;> exact hinstallation
  · refine ⟨removeState_ends.1, removeState_ends.2.trans ?_⟩
    unfold cleaned
    cases horiginal : d.originalPolicy with
    | none =>
        congr 1
        funext file
        by_cases hfile : file = .polkitPolicy
        · simp [hfile]
        · simp [hfile]
    | some original =>
        congr 1
        funext file
        by_cases hfile : file = .polkitPolicy
        · simp [hfile, Machine.setFile]
        · simp [hfile, Machine.setFile, Function.update_of_ne]

/-- Whatever `stop` returns from, it could read. -/
theorem readable_of_stopWith (h : (stopWith setup d).outcome m = .ok ()) :
    (∀ text, d.pid = some text → ∃ n, int text = .ok n ∧
      ∀ executable, m.processes n = some executable → executable = setup.helper) ∧
    (∃ text files, d.createdFiles = some text ∧
      (splitLines text).mapM provisionedFile = .ok files) ∧
    (d.installationCreated = true → m.installation ≠ none) ∧
    ∃ text users, d.createdUsers = some text ∧ (splitLines text).mapM testUser = .ok users := by
  obtain ⟨_, hhelper, h⟩ := Steps.outcome_bind_eq_ok.mp h
  obtain ⟨_, hfiles, h⟩ := Steps.outcome_bind_eq_ok.mp h
  obtain ⟨_, _, h⟩ := Steps.outcome_bind_eq_ok.mp h
  obtain ⟨_, _, h⟩ := Steps.outcome_bind_eq_ok.mp h
  obtain ⟨_, hinstallation, h⟩ := Steps.outcome_bind_eq_ok.mp h
  obtain ⟨_, husers, _⟩ := Steps.outcome_bind_eq_ok.mp h
  have hpid := pid_of_stopHelper hhelper
  obtain ⟨filesText, files, hfilesText, hlines⟩ := lines_of_removeFiles hfiles
  refine ⟨hpid, ⟨filesText, files, hfilesText, hlines⟩, ?_, lines_of_removeUsers husers⟩
  have hkept := installation_of_removeInstallation hinstallation
  rw [(stopHelper_ends hpid).2, (removeFiles_ends hfilesText hlines).2,
    restorePolicy_ends.2] at hkept
  cases horiginal : d.originalPolicy with
  | none =>
      rw [horiginal] at hkept
      exact hkept
  | some original =>
      rw [horiginal] at hkept
      exact hkept

theorem remaining_ne_none_iff {processes : Nat → Option String} {n : Nat} :
    remaining d processes n ≠ none ↔
      processes n ≠ none ∧ ¬ ∃ text, d.pid = some text ∧ int text = .ok n := by
  unfold remaining
  cases hpid : d.pid with
  | none => simp
  | some text =>
      cases hint : int text with
      | error e => simp [hint]
      | ok k =>
          by_cases hk : n = k
          · simp [hk, hint]
          · simp [Function.update_of_ne hk, hint, Ne.symm hk]

/-- **What `stop` can undo.** -/
theorem rolledBack_iff {before : Machine} (h : m.state = some d) :
    RolledBack setup before m ↔ Recorded setup before m d := by
  unfold RolledBack
  rw [(stop_some h).1, (stop_some h).2]
  constructor
  · intro hclean
    obtain ⟨hpid, ⟨filesText, files, hfilesText, hfiles⟩, hinstallation, usersText,
      users, husersText,
      husers⟩ := readable_of_stopWith hclean.completes
    have hends := stopWith_ends hpid hfilesText hfiles hinstallation husersText husers
    rw [hends.2] at hclean
    refine ⟨hpid, fun n hn => ?_,
      ⟨filesText, files, hfilesText, hfiles, fun file hfile hexists => ?_, ?_⟩,
      ⟨hinstallation, fun hexists => ?_⟩,
        ⟨usersText, users, husersText, husers, fun user huser => ?_⟩⟩
    · by_cases hread : ∃ text, d.pid = some text ∧ int text = .ok n
      · exact .inr hread
      · exact .inl (hclean.processes n (remaining_ne_none_iff.mpr ⟨hn, hread⟩))
    · have hgone := hclean.files file hfile
      by_contra hunlisted
      simp only [cleaned, if_neg hfile, if_neg hunlisted] at hgone
      exact hexists hgone
    · exact hclean.policy
    · have hgone := hclean.installation
      by_contra hunmarked
      simp only [cleaned, if_neg hunmarked] at hgone
      exact hexists hgone
    · have hgone := hclean.users user
      by_contra hunlisted
      simp only [cleaned, if_neg hunlisted, huser] at hgone
      cases hgone
  · intro hrecorded
    obtain ⟨filesText, files, hfilesText, hfiles, hexist, hpolicy⟩ := hrecorded.createdFiles
    obtain ⟨usersText, users, husersText, husers, hpresent⟩ := hrecorded.createdUsers
    have hends := stopWith_ends hrecorded.pid hfilesText hfiles hrecorded.installation.mp
      husersText husers
    rw [hends.1, hends.2]
    refine ⟨rfl, fun n hn => ?_, fun file hfile => ?_, hpolicy, fun user => ?_, ?_, rfl⟩
    · obtain ⟨hn, hread⟩ := remaining_ne_none_iff.mp hn
      exact (hrecorded.processes n hn).resolve_right hread
    · simp only [cleaned, if_neg hfile]
      by_cases hlisted : file ∈ files
      · rw [if_pos hlisted]
      · rw [if_neg hlisted]
        by_contra hexists
        exact hlisted (hexist file hfile hexists)
    · simp only [cleaned]
      by_cases hlisted : user ∈ users
      · rw [if_pos hlisted]
      · rw [if_neg hlisted]
        by_contra hexists
        exact hlisted (hpresent user (by simpa using hexists))
    · simp only [cleaned]
      by_cases hmarked : d.installationCreated = true
      · rw [if_pos hmarked]
      · rw [if_neg hmarked]
        by_contra hexists
        exact hmarked (hrecorded.installation.mpr hexists)

end

end FlatpakBlackbox.SystemHelper
