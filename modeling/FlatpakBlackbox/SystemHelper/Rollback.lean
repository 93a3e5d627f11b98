import FlatpakBlackbox.SystemHelper.Texts

set_option autoImplicit false

/-! # Stopping `start`

From which points of `start` the machine can be cleaned up. `Underway` says what holds between two
of its statements that belong together: the lists are whole, everything that exists is in them, and
the policy that was there is either untouched or saved. Each group of statements is checked on its
own: what its stopping points leave behind, and that it ends in `Underway` again.
-/

namespace FlatpakBlackbox.SystemHelper

open PyLib PyException

/-- The points of `start` from which `stop` does not clean up, for the machine before. -/
def Exposed (setup : Setup) (before : Machine) : StartPoint → Prop
  | .stateMade => True
  | .filesMarked => True
  | .recordingUser user written =>
      written ≠ [] ∧ written ≠ user.name.toList ∧ written ≠ (user.name ++ "\n").toList
  | .installationMade => True
  | .creating file _ => file = .polkitPolicy → before.files .polkitPolicy = none
  | .recordingFile file written =>
      written ≠ file.path.toList ∧ written ≠ (file.path ++ "\n").toList ∧
        (written = [] → file = .polkitPolicy → before.files .polkitPolicy = none)
  | .savingPolicy written => before.files .polkitPolicy ≠ some (String.ofList written)
  | .helperSpawned => True
  | .writingPid written => written ≠ decimal setup.pid
  | _ => False

/-- What the theorem says of one stopping point. -/
def Judged (setup : Setup) (before : Machine) (point : StartPoint) (m : Machine) : Prop :=
  RolledBack setup before m ↔ ¬ Exposed setup before point

/-- Between two groups of statements of `start`. -/
structure Underway (before : Machine) (users : List TestUser) (files : List Provisioned)
    (d : StateDir) (m : Machine) : Prop where
  state : m.state = some d
  createdFiles : d.createdFiles = some (filesText files)
  createdUsers : d.createdUsers = some (usersText users)
  recorded : ∀ file, file ≠ .polkitPolicy → m.files file ≠ none → file ∈ files
  present : ∀ user, m.users user = true → user ∈ users
  installation : d.installationCreated = true ↔ m.installation ≠ none
  policy : d.originalPolicy.or (if .polkitPolicy ∈ files then none else m.files .polkitPolicy) =
    before.files .polkitPolicy
  processes : m.processes = before.processes
  pid : d.pid = none

section

variable {setup : Setup} {before m : Machine} {d : StateDir} {users : List TestUser}
  {files : List Provisioned}

variable (setup) in
theorem Underway.recordedAll (h : Underway before users files d m) : Recorded setup before m d where
  pid text htext := by
    rw [h.pid] at htext
    cases htext
  processes n hn := .inl (by rwa [← h.processes])
  createdFiles := ⟨filesText files, files, h.createdFiles, readFiles files, h.recorded, h.policy⟩
  installation := h.installation
  createdUsers := ⟨usersText users, users, h.createdUsers, readUsers users, h.present⟩

theorem Underway.rolledBack (h : Underway before users files d m) : RolledBack setup before m :=
  (rolledBack_iff h.state).mpr (h.recordedAll setup)

/-- At a point that is not exposed, and where the invariant holds, nothing is left to show. -/
theorem Underway.judged (h : Underway before users files d m) {point : StartPoint}
    (hpoint : ¬ Exposed setup before point) : Judged setup before point m :=
  ⟨fun _ => hpoint, fun _ => h.rolledBack⟩

/-! ## Test users -/

/-- While a user is being recorded, only the list of users is in question. -/
theorem Underway.recordingUser (h : Underway before users files d m) (user : TestUser)
    {written : List Char} (hwritten : written <+: (user.name ++ "\n").toList) :
    Judged setup before (.recordingUser user written)
      (m.setState fun d => { d with createdUsers := appendTo d.createdUsers written }) := by
  have hstate : (m.setState fun d =>
      { d with createdUsers := appendTo d.createdUsers written }).state
      = some { d with createdUsers := some (usersText users ++ String.ofList written) } := by
    rw [Machine.setState, h.state, Option.map_some, h.createdUsers]
    rfl
  refine (rolledBack_iff hstate).trans ⟨fun hrecorded hexposed => ?_, fun hexposed => ?_⟩
  · obtain ⟨text, read, htext, hread, _⟩ := hrecorded.createdUsers
    obtain rfl := Option.some.inj htext
    rcases (readUsers_appending hwritten).mp hread with ⟨hempty, _⟩ | ⟨hwhole | hwhole, _⟩
    · exact hexposed.1 hempty
    · exact hexposed.2.1 hwhole
    · exact hexposed.2.2 hwhole
  · have hread : ∃ read, (splitLines (usersText users ++ String.ofList written)).mapM testUser =
        .ok read ∧ ∀ u, u ∈ users → u ∈ read := by
      by_cases hempty : written = []
      · exact ⟨users, (readUsers_appending hwritten).mpr (.inl ⟨hempty, rfl⟩), fun _ hu => hu⟩
      · have hwhole : written = user.name.toList ∨ written = (user.name ++ "\n").toList := by
          by_contra hnot
          rw [not_or] at hnot
          exact hexposed ⟨hempty, hnot.1, hnot.2⟩
        exact ⟨users ++ [user], (readUsers_appending hwritten).mpr (.inr ⟨hwhole, rfl⟩),
          fun _ hu => List.mem_append_left _ hu⟩
    obtain ⟨read, hread, hmem⟩ := hread
    have hall := h.recordedAll setup
    exact { pid := hall.pid, processes := hall.processes, createdFiles := hall.createdFiles,
            installation := hall.installation,
            createdUsers := ⟨_, read, rfl, hread, fun u hu => hmem u (h.present u hu)⟩ }

theorem Underway.userRecorded (h : Underway before users files d m) (user : TestUser) :
    Underway before (users ++ [user]) files
      { d with createdUsers := some (usersText (users ++ [user])) }
      (m.setState fun d => { d with
        createdUsers := appendTo d.createdUsers (user.name ++ "\n").toList }) where
  state := by
    rw [Machine.setState, h.state, Option.map_some, h.createdUsers, appendTo, Option.map_some,
      String.ofList_toList, usersText_concat]
  createdFiles := h.createdFiles
  createdUsers := rfl
  recorded := h.recorded
  present := fun u hu => List.mem_append_left _ (h.present u hu)
  installation := h.installation
  policy := h.policy
  processes := h.processes
  pid := h.pid

theorem Underway.userAdded (h : Underway before users files d m) {user : TestUser}
    (huser : user ∈ users) : Underway before users files d (m.setUser user true) where
  state := h.state
  createdFiles := h.createdFiles
  createdUsers := h.createdUsers
  recorded := h.recorded
  present := by
    intro u hu
    by_cases heq : u = user
    · exact heq ▸ huser
    · rw [m.setUser_ne _ heq] at hu
      exact h.present u hu
  installation := h.installation
  policy := h.policy
  processes := h.processes
  pid := h.pid

theorem addUser_judged (h : Underway before users files d m) (user : TestUser) :
    Steps.wp (addUser user) (Judged setup before)
      (Steps.Returning (Underway before (users ++ [user]) files
        { d with createdUsers := some (usersText (users ++ [user])) })) m := by
  refine Steps.wp_seq (Steps.wp_gradually (fun written hwritten => h.recordingUser user hwritten)
    fun _ => h.userRecorded user) fun m' hm' => ?_
  have hadded := hm'.userAdded (List.mem_append_right users (List.mem_singleton_self user))
  exact Steps.wp_step (hadded.judged id) fun _ => hadded

/-! ## The installation -/

theorem addHelperUser_judged (h : Underway before users files d m) :
    Steps.wp addHelperUser (Judged setup before)
      (Steps.Returning fun m' => ∃ created,
        Underway before users files { d with helperUserCreated := created } m') m := by
  refine Steps.wp_bind (Steps.wp_read ?_)
  cases m.helperUser with
  | true => exact Steps.wp_pure fun _ => ⟨d.helperUserCreated, h⟩
  | false =>
      have hadded : Underway before users files d { m with helperUser := true } :=
        ⟨h.state, h.createdFiles, h.createdUsers, h.recorded, h.present, h.installation, h.policy,
          h.processes, h.pid⟩
      refine Steps.wp_seq (Steps.wp_step (hadded.judged id) fun _ => hadded) fun m' hm' => ?_
      have hmarked : Underway before users files { d with helperUserCreated := true }
          (m'.setState fun d => { d with helperUserCreated := true }) :=
        ⟨by rw [Machine.setState, hm'.state]; rfl, hm'.createdFiles, hm'.createdUsers, hm'.recorded,
          hm'.present, hm'.installation, hm'.policy, hm'.processes, hm'.pid⟩
      exact Steps.wp_step (hmarked.judged id) fun _ => ⟨true, hmarked⟩

theorem makeInstallation_judged (h : Underway before users files d m)
    (hnone : d.installationCreated = false) :
    Steps.wp makeInstallation (Judged setup before)
      (Steps.Returning (Underway before users files { d with installationCreated := true })) m := by
  refine Steps.wp_seq (R := fun m' => m' = m.setInstallation (some []))
    (Steps.wp_step ?_ fun _ => rfl)
    fun m' hm' => ?_
  · -- The installation exists and nothing says so.
    have hstate : (m.setInstallation (some [])).state = some d := h.state
    refine (rolledBack_iff hstate).trans ⟨fun hrecorded _ => ?_, fun hnot => absurd trivial hnot⟩
    have hmarked := hrecorded.installation.mpr (Option.some_ne_none _)
    rw [hnone] at hmarked
    cases hmarked
  · subst hm'
    have hmarked : Underway before users files { d with installationCreated := true }
        ((m.setInstallation (some [])).setState fun d => { d with installationCreated := true }) :=
      ⟨by
        show Option.map _ m.state = _
        rw [h.state]
        rfl, h.createdFiles, h.createdUsers, h.recorded, h.present,
        ⟨fun _ => Option.some_ne_none _, fun _ => rfl⟩, h.policy, h.processes, h.pid⟩
    exact Steps.wp_step (hmarked.judged id) fun _ => hmarked

/-! ## Files -/

/-- What `Recorded` asks of the files when `listed` are the recorded ones. -/
def FilesRecorded (before m : Machine) (d : StateDir) (listed : List Provisioned) : Prop :=
  (∀ file, file ≠ .polkitPolicy → m.files file ≠ none → file ∈ listed) ∧
    d.originalPolicy.or (if .polkitPolicy ∈ listed then none else m.files .polkitPolicy) =
      before.files .polkitPolicy

/-- Only the list of files is in question while files are created and recorded. -/
theorem Underway.recorded_iff (h : Underway before users files d m) (m' : Machine) {text : String}
    (husers : m'.users = m.users) (hinstallation : m'.installation = m.installation)
    (hprocesses : m'.processes = m.processes) :
    Recorded setup before m' { d with createdFiles := some text } ↔
      ∃ listed, (splitLines text).mapM provisionedFile = .ok listed ∧
        FilesRecorded before m' d listed := by
  constructor
  · rintro ⟨_, _, ⟨text', listed, htext, hlisted, hfiles⟩, _, _⟩
    obtain rfl := Option.some.inj htext
    exact ⟨listed, hlisted, hfiles⟩
  · rintro ⟨listed, hlisted, hfiles⟩
    have hall := h.recordedAll setup
    exact {
      pid := by rw [hprocesses]; exact hall.pid
      processes := by rw [hprocesses]; exact hall.processes
      createdFiles := ⟨text, listed, rfl, hlisted, hfiles⟩
      installation := by rw [hinstallation]; exact hall.installation
      createdUsers := by rw [husers]; exact hall.createdUsers }

/-- A new file that is not recorded: only the policy is put back, if there was one. -/
theorem Underway.filesRecorded_unlisted (h : Underway before users files d m) {file : Provisioned}
    (hnone : m.files file = none) (hnew : file ∉ files) (content : String) :
    FilesRecorded before (m.setFile file (some content)) d files ↔
      ¬ (file = .polkitPolicy → before.files .polkitPolicy = none) := by
  by_cases hfile : file = .polkitPolicy
  · subst hfile
    have hsaved : d.originalPolicy = before.files .polkitPolicy := by
      have hpolicy := h.policy
      rwa [if_neg hnew, hnone, Option.or_none] at hpolicy
    rw [FilesRecorded, if_neg hnew, m.setFile_self, hsaved]
    constructor
    · rintro ⟨_, hpolicy⟩ hnot
      rw [hnot rfl] at hpolicy
      cases hpolicy
    · intro hnot
      refine ⟨fun other hother hexists => h.recorded other hother ?_, ?_⟩
      · rwa [m.setFile_ne _ hother] at hexists
      · cases hbefore : before.files .polkitPolicy with
        | none => exact absurd (fun _ => hbefore) hnot
        | some original => rfl
  · refine iff_of_false (fun hrecorded => hnew (hrecorded.1 file hfile ?_))
      (not_not.mpr fun heq => absurd heq hfile)
    rw [m.setFile_self]
    exact Option.some_ne_none content

/-- A new file that is recorded. -/
theorem Underway.filesRecorded_listed (h : Underway before users files d m) {file : Provisioned}
    (hnone : m.files file = none) (hnew : file ∉ files) (content : String) :
    FilesRecorded before (m.setFile file (some content)) d (files ++ [file]) := by
  constructor
  · intro other hother hexists
    by_cases heq : other = file
    · exact List.mem_append_right _ (List.mem_singleton.mpr heq)
    · rw [m.setFile_ne _ heq] at hexists
      exact List.mem_append_left _ (h.recorded other hother hexists)
  · have hpolicy := h.policy
    by_cases hfile : file = .polkitPolicy
    · subst hfile
      rw [if_neg hnew, hnone] at hpolicy
      rwa [if_pos (List.mem_append_right _ (List.mem_singleton_self _))]
    · have hmem : Provisioned.polkitPolicy ∈ files ++ [file] ↔ .polkitPolicy ∈ files := by
        simp [Ne.symm hfile]
      rw [m.setFile_ne _ (Ne.symm hfile)]
      simpa only [hmem] using hpolicy

/-- `path.open("x")` and the writing of the content. -/
theorem createFile_judged (h : Underway before users files d m) {file : Provisioned}
    (hnew : file ∉ files) (content : String) :
    Steps.wp (createFile file content) (Judged setup before)
      (Steps.Returning fun m' => m.files file = none ∧ m' = m.setFile file (some content)) m := by
  refine Steps.wp_bind (Steps.wp_read ?_)
  by_cases hnone : m.files file = none
  · refine Steps.wp_bind (Steps.wp_ofExcept ?_)
    rw [raiseIf_of_not (not_not.mpr hnone)]
    refine Steps.wp_gradually (fun written _ => ?_) fun _ => ⟨hnone, by rw [String.ofList_toList]⟩
    have hstate : (m.setFile file (some (String.ofList written))).state =
        some { d with createdFiles := some (filesText files) } := by
      rw [← h.createdFiles]
      exact h.state
    rw [Judged, rolledBack_iff hstate]
    refine Iff.trans (h.recorded_iff _ (by rfl) (by rfl) (by rfl)) ?_
    refine Iff.trans ⟨?_, fun hrecorded => ⟨files, readFiles files, hrecorded⟩⟩
      (h.filesRecorded_unlisted hnone hnew (String.ofList written))
    rintro ⟨listed, hlisted, hrecorded⟩
    rwa [← Except.ok.inj (hlisted.symm.trans (readFiles files))]
  · refine Steps.wp_bind (Steps.wp_ofExcept ?_)
    rw [raiseIf, if_pos hnone]
    exact Steps.Returning.error

/-- While the path is being appended to the list. -/
theorem Underway.recordingFile (h : Underway before users files d m) {file : Provisioned}
    (hnone : m.files file = none) (hnew : file ∉ files) (content : String) {written : List Char}
    (hwritten : written <+: (file.path ++ "\n").toList) :
    Judged setup before (.recordingFile file written)
      ((m.setFile file (some content)).setState fun d =>
        { d with createdFiles := appendTo d.createdFiles written }) := by
  have hstate : ((m.setFile file (some content)).setState fun d =>
      { d with createdFiles := appendTo d.createdFiles written }).state =
      some { d with createdFiles := some (filesText files ++ String.ofList written) } := by
    show Option.map _ m.state = _
    rw [h.state, Option.map_some, h.createdFiles]
    rfl
  rw [Judged, rolledBack_iff hstate]
  refine Iff.trans (h.recorded_iff _ (by rfl) (by rfl) (by rfl)) ?_
  have hunlisted := h.filesRecorded_unlisted hnone hnew content
  have hlisted := h.filesRecorded_listed hnone hnew content
  constructor
  · rintro ⟨listed, hread, hrecorded⟩ ⟨hpath, hline, hempty⟩
    rcases (readFiles_appending hwritten).mp hread with ⟨hnil, rfl⟩ | ⟨hwhole | hwhole, _⟩
    · exact hunlisted.mp hrecorded (hempty hnil)
    · exact hpath hwhole
    · exact hline hwhole
  · intro hexposed
    by_cases hwhole : written = file.path.toList ∨ written = (file.path ++ "\n").toList
    · exact ⟨files ++ [file], (readFiles_appending hwritten).mpr (.inr ⟨hwhole, rfl⟩), hlisted⟩
    · rw [not_or] at hwhole
      have hnot : ¬ (written = [] → file = .polkitPolicy → before.files .polkitPolicy = none) :=
        fun hempty => hexposed ⟨hwhole.1, hwhole.2, hempty⟩
      rw [Classical.not_imp] at hnot
      exact ⟨files, (readFiles_appending hwritten).mpr (.inl ⟨hnot.1, rfl⟩), hunlisted.mpr hnot.2⟩

theorem Underway.fileRecorded (h : Underway before users files d m) {file : Provisioned}
    (hnone : m.files file = none) (hnew : file ∉ files) (content : String) :
    Underway before users (files ++ [file])
      { d with createdFiles := some (filesText (files ++ [file])) }
      ((m.setFile file (some content)).setState fun d =>
        { d with createdFiles := appendTo d.createdFiles (file.path ++ "\n").toList }) where
  state := by
    show Option.map _ m.state = _
    rw [h.state, Option.map_some, h.createdFiles, appendTo, Option.map_some, String.ofList_toList,
      filesText_concat]
  createdFiles := rfl
  createdUsers := h.createdUsers
  recorded := (h.filesRecorded_listed hnone hnew content).1
  present := h.present
  installation := h.installation
  policy := (h.filesRecorded_listed hnone hnew content).2
  processes := h.processes
  pid := h.pid

theorem install_judged (h : Underway before users files d m) {file : Provisioned}
    (hnew : file ∉ files) (content : String) :
    Steps.wp (install file content) (Judged setup before)
      (Steps.Returning (Underway before users (files ++ [file])
        { d with createdFiles := some (filesText (files ++ [file])) })) m := by
  refine Steps.wp_seq (createFile_judged h hnew content) ?_
  rintro m' ⟨hnone, rfl⟩
  exact Steps.wp_gradually (fun written hwritten => h.recordingFile hnone hnew content hwritten)
    fun _ => h.fileRecorded hnone hnew content

/-! ## The policy of another flatpak -/

theorem savePolicy_judged (h : Underway before users files d m)
    (hnew : .polkitPolicy ∉ files) (hunsaved : d.originalPolicy = none) :
    Steps.wp savePolicy (Judged setup before)
      (Steps.Returning (Underway before users files
        { d with originalPolicy := before.files .polkitPolicy })) m := by
  have hsame : m.files .polkitPolicy = before.files .polkitPolicy := by
    have hpolicy := h.policy
    rwa [hunsaved, if_neg hnew, Option.none_or] at hpolicy
  refine Steps.wp_bind (Steps.wp_read ?_)
  cases hpolicy : m.files .polkitPolicy with
  | none =>
      refine Steps.wp_pure fun _ => ?_
      rw [← hsame, hpolicy, ← hunsaved]
      exact h
  | some original =>
      have hbefore : before.files .polkitPolicy = some original := hsame.symm.trans hpolicy
      have hsaved : ∀ written : List Char,
          (m.setState fun d => { d with originalPolicy := some (String.ofList written) }).state =
            some { d with originalPolicy := some (String.ofList written) } := by
        intro written
        rw [Machine.setState, h.state]
        rfl
      have hwhole : Underway before users files
          { d with originalPolicy := before.files .polkitPolicy }
          (m.setState fun d => { d with
            originalPolicy := some (String.ofList original.toList) }) := by
        refine ⟨?_, h.createdFiles, h.createdUsers, h.recorded, h.present, h.installation, ?_,
          h.processes, h.pid⟩
        · rw [hsaved, String.ofList_toList, hbefore]
        · rw [hbefore]
          rfl
      refine Steps.wp_seq (Steps.wp_gradually (fun written _ => ?_) fun _ => hwhole) fun m' hm' =>
        ?_
      · -- A partial copy would be taken for the policy itself.
        refine (rolledBack_iff (hsaved written)).trans
          ⟨fun hrecorded hexposed => hexposed ?_, fun hexposed => ?_⟩
        · obtain ⟨_, _, _, _, _, hrestored⟩ := hrecorded.createdFiles
          exact hrestored.symm
        · have hall := h.recordedAll setup
          have hcopied := not_not.mp hexposed
          exact { pid := hall.pid, processes := hall.processes, installation := hall.installation,
                  createdUsers := hall.createdUsers,
                  createdFiles := ⟨_, files, h.createdFiles, readFiles files, h.recorded,
                    hcopied.symm⟩ }
      · have hunlinked : Underway before users files
            { d with originalPolicy := before.files .polkitPolicy }
            (m'.setFile .polkitPolicy none) :=
          { state := hm'.state
            createdFiles := hm'.createdFiles
            createdUsers := hm'.createdUsers
            recorded := fun file hfile hexists => hm'.recorded file hfile (by
              rwa [m'.setFile_ne _ hfile] at hexists)
            present := hm'.present
            installation := hm'.installation
            policy := by
              rw [hbefore]
              rfl
            processes := hm'.processes
            pid := hm'.pid }
        exact Steps.wp_step (hunlinked.judged id) fun _ => hunlinked

/-! ## The helper -/

/-- The helper may run, its process id is recorded, and nothing else has changed. -/
structure Spawned (setup : Setup) (before : Machine) (users : List TestUser)
    (files : List Provisioned) (d : StateDir) (m : Machine) : Prop where
  fresh : before.processes setup.pid = none
  /-- What the machine would be without the helper. -/
  underway : Underway before users files { d with pid := none }
    { m with state := some { d with pid := none }, processes := before.processes }
  state : m.state = some d
  pid : d.pid = some (String.ofList (decimal setup.pid))
  processes : ∀ n, n ≠ setup.pid → m.processes n = before.processes n
  helper : ∀ executable, m.processes setup.pid = some executable → executable = setup.helper

theorem Spawned.recordedAll (h : Spawned setup before users files d m) :
    Recorded setup before m d := by
  have hall := h.underway.recordedAll setup
  have hint := int_decimal setup.pid_pos
  exact {
    pid := by
      intro text htext
      obtain rfl := Option.some.inj (h.pid.symm.trans htext)
      exact ⟨setup.pid, hint, h.helper⟩
    processes := by
      intro n hn
      by_cases heq : n = setup.pid
      · subst heq
        exact .inr ⟨_, h.pid, hint⟩
      · exact .inl (by rwa [← h.processes n heq])
    createdFiles := hall.createdFiles
    installation := hall.installation
    createdUsers := hall.createdUsers }

theorem Spawned.judged (h : Spawned setup before users files d m) {point : StartPoint}
    (hpoint : ¬ Exposed setup before point) : Judged setup before point m :=
  ⟨fun _ => hpoint, fun _ => (rolledBack_iff h.state).mpr h.recordedAll⟩

theorem spawnHelper_judged (h : Underway before users files d m) :
    Steps.wp (spawnHelper setup) (Judged setup before)
      (Steps.Returning (Spawned setup before users files
        { d with pid := some (String.ofList (decimal setup.pid)) })) m := by
  refine Steps.wp_bind (Steps.wp_read ?_)
  by_cases hfree : m.processes setup.pid = none
  · have hfresh : before.processes setup.pid = none := by rwa [← h.processes]
    refine Steps.wp_bind (Steps.wp_ofExcept ?_)
    rw [raiseIf_of_not (not_not.mpr hfree)]
    refine Steps.wp_seq (R := fun m' => m' = m.setProcess setup.pid (some setup.helper))
      (Steps.wp_step ?_ fun _ => rfl) ?_
    · -- The process runs and nothing says which one it is.
      have hstate : (m.setProcess setup.pid (some setup.helper)).state = some d := h.state
      rw [Judged, rolledBack_iff hstate]
      refine ⟨fun hrecorded _ => ?_, fun hnot => absurd trivial hnot⟩
      rcases hrecorded.processes setup.pid (by simp) with hbefore | ⟨text, htext, _⟩
      · exact hbefore hfresh
      · rw [h.pid] at htext
        cases htext
    · rintro m' rfl
      have hstate : ∀ written : List Char, ((m.setProcess setup.pid (some setup.helper)).setState
          fun d => { d with pid := some (String.ofList written) }).state =
          some { d with pid := some (String.ofList written) } := by
        intro written
        show Option.map _ m.state = _
        rw [h.state]
        rfl
      have hspawned : Spawned setup before users files
          { d with pid := some (String.ofList (decimal setup.pid)) }
          ((m.setProcess setup.pid (some setup.helper)).setState
            fun d => { d with pid := some (String.ofList (decimal setup.pid)) }) :=
        { fresh := hfresh
          underway := ⟨by rw [← h.pid], h.createdFiles, h.createdUsers, h.recorded, h.present,
            h.installation, h.policy, rfl, rfl⟩
          state := hstate _
          pid := rfl
          processes := fun n hn => (m.setProcess_ne _ hn).trans (congrFun h.processes n)
          helper := fun executable hexecutable =>
            (Option.some.inj ((m.setProcess_self _ _).symm.trans hexecutable)).symm }
      refine Steps.wp_gradually (fun written hwritten => ?_) fun _ => hspawned
      rw [Judged, rolledBack_iff (hstate written)]
      constructor
      · intro hrecorded hexposed
        rcases hrecorded.processes setup.pid (by simp [Machine.setState])
          with hbefore | ⟨text, htext, hint⟩
        · exact hbefore hfresh
        · obtain rfl := Option.some.inj htext
          exact hexposed (int_writtenPart setup.pid_pos hwritten hint rfl)
      · intro hexposed
        obtain rfl := not_not.mp hexposed
        exact hspawned.recordedAll
  · refine Steps.wp_bind (Steps.wp_ofExcept ?_)
    rw [raiseIf, if_pos hfree]
    exact Steps.Returning.error

theorem awaitHelper_judged (h : Spawned setup before users files d m) (activation : Activation) :
    Steps.wp (awaitHelper setup activation) (Judged setup before)
      (Steps.Returning (Spawned setup before users files d)) m := by
  cases activation with
  | owned => exact Steps.wp_step (h.judged id) fun _ => h
  | failed message =>
      exact Steps.wp_seq (R := fun _ => True) (Steps.wp_step (h.judged id) fun _ => trivial)
        fun _ _ => Steps.wp_raise Steps.Returning.error
  | exited =>
      have hexited : Spawned setup before users files d (m.setProcess setup.pid none) :=
        { fresh := h.fresh
          underway := h.underway
          state := h.state
          pid := h.pid
          processes := fun n hn => (m.setProcess_ne _ hn).trans (h.processes n hn)
          helper := fun executable hexecutable => by
            rw [m.setProcess_self] at hexecutable
            cases hexecutable }
      exact Steps.wp_seq (R := fun _ => True) (Steps.wp_step (hexited.judged id) fun _ => trivial)
        fun _ _ => Steps.wp_raise Steps.Returning.error

/-! ## The whole of `start` -/

/-- What the refusals of `start` leave. -/
structure Fresh (m : Machine) : Prop where
  state : m.state = none
  installation : m.installation = none
  files : ∀ file, file ≠ .polkitPolicy → m.files file = none
  users : ∀ user, m.users user = false

theorem fresh_of_freshProblem (h : freshProblem setup m = none) : Fresh m := by
  unfold freshProblem at h
  dsimp only at h
  split at h
  · cases h
  · cases h
  · next hstale husers =>
      simp only [List.find?_eq_none, List.mem_cons, List.not_mem_nil, or_false, forall_eq_or_imp,
        forall_eq, Bool.not_eq_true, Option.isSome_eq_false_iff, Option.isNone_iff_eq_none]
          at hstale husers
      obtain ⟨hstate, hinstallation, hconfig, hbus, hrules⟩ := hstale
      refine ⟨hstate, hinstallation, fun file hfile => ?_, fun user => ?_⟩
      · cases file with
        | config => exact hconfig
        | busPolicy => exact hbus
        | polkitPolicy => exact absurd rfl hfile
        | rules => exact hrules
      · cases user with
        | writer => exact husers.1
        | reader => exact husers.2

theorem Fresh.rolledBack (h : Fresh m) : RolledBack setup m m := by
  obtain ⟨hresult, hfinal⟩ := stop_none setup m h.state
  rw [RolledBack, hresult, hfinal]
  exact ⟨rfl, fun _ hn => hn, h.files, rfl, h.users, h.installation, h.state⟩

/-- The two empty lists are there. -/
theorem Fresh.underway (h : Fresh before) :
    Underway before [] [] { createdFiles := some "", createdUsers := some "" }
      { before with state := some { createdFiles := some "", createdUsers := some "" } } where
  state := rfl
  createdFiles := rfl
  createdUsers := rfl
  recorded file hfile hexists := absurd (h.files file hfile) hexists
  present user huser := by
    rw [h.users user] at huser
    cases huser
  installation := ⟨fun h => absurd h Bool.false_ne_true,
    fun hexists => absurd h.installation hexists⟩
  policy := rfl
  processes := rfl
  pid := rfl

/-- The state directory after `start`. -/
def startedState (setup : Setup) (before : Machine) (created : Bool) : StateDir where
  createdFiles := some (filesText [.config, .busPolicy, .polkitPolicy, .rules])
  createdUsers := some (usersText [.writer, .reader])
  helperUserCreated := created
  installationCreated := true
  originalPolicy := before.files .polkitPolicy
  pid := some (String.ofList (decimal setup.pid))

/-- After a completed `start`. -/
def Started (setup : Setup) (before m : Machine) : Prop :=
  ∃ created, Spawned setup before [.writer, .reader] [.config, .busPolicy, .polkitPolicy, .rules]
    (startedState setup before created) m

theorem start_judged (activation : Activation) :
    Steps.wp (start setup activation) (Judged setup before)
      (Steps.Returning (Started setup before)) before := by
  refine Steps.wp_bind (Steps.wp_read (Steps.wp_bind (Steps.wp_ofExcept ?_)))
  by_cases hproblem : freshProblem setup before = none
  swap
  · rw [raiseIf, if_pos hproblem]
    exact Steps.Returning.error
  rw [raiseIf_of_not (not_not.mpr hproblem)]
  have hfresh := fresh_of_freshProblem hproblem
  -- Until both lists exist, `stop` cannot even begin.
  have hunmarked : ∀ point d (m : Machine), m.state = some d →
      (d.createdFiles = none ∨ d.createdUsers = none) → Exposed setup before point →
      Judged setup before point m := by
    intro point d m hstate hmissing hexposed
    rw [Judged, rolledBack_iff hstate]
    refine ⟨fun hrecorded _ => ?_, fun hnot => absurd hexposed hnot⟩
    obtain ⟨_, _, hfiles, _⟩ := hrecorded.createdFiles
    obtain ⟨_, _, husers, _⟩ := hrecorded.createdUsers
    rcases hmissing with hmissing | hmissing
    · rw [hmissing] at hfiles
      cases hfiles
    · rw [hmissing] at husers
      cases husers
  refine Steps.wp_seq (R := fun m => m = before)
    (Steps.wp_step ⟨fun _ => id, fun _ => hfresh.rolledBack⟩ fun _ => rfl) ?_
  rintro _ rfl
  refine Steps.wp_seq (Steps.wp_step (hunmarked _ _ _ rfl (.inl rfl) trivial) fun _ => rfl) ?_
  rintro _ rfl
  refine Steps.wp_seq (Steps.wp_step (hunmarked _ _ _ rfl (.inr rfl) trivial) fun _ => rfl) ?_
  rintro _ rfl
  have hmarked := hfresh.underway
  refine Steps.wp_seq (Steps.wp_step (hmarked.judged id) fun _ => hmarked) fun m hm => ?_
  refine Steps.wp_seq (addUser_judged hm .writer) fun m hm => ?_
  refine Steps.wp_seq (addUser_judged hm .reader) fun m hm => ?_
  refine Steps.wp_seq (addHelperUser_judged hm) ?_
  rintro m ⟨created, hm⟩
  refine Steps.wp_seq (makeInstallation_judged hm rfl) fun m hm => ?_
  refine Steps.wp_seq (install_judged hm (by decide) _) fun m hm => ?_
  refine Steps.wp_seq (install_judged hm (by decide) _) fun m hm => ?_
  refine Steps.wp_seq (savePolicy_judged hm (by decide) rfl) fun m hm => ?_
  refine Steps.wp_seq (install_judged hm (by decide) _) fun m hm => ?_
  refine Steps.wp_seq (install_judged hm (by decide) _) fun m hm => ?_
  refine Steps.wp_seq (Steps.wp_step (hm.judged id) fun _ => hm) fun m hm => ?_
  refine Steps.wp_seq (spawnHelper_judged hm) fun m hm => ?_
  exact Steps.wp_mono (awaitHelper_judged hm activation) (fun _ _ h => h)
    fun r m' hr hok => ⟨created, hr hok⟩

/-- **From which points of `start` the machine can be cleaned up.** -/
theorem start_rolledBack_iff (setup : Setup) (activation : Activation) (before m : Machine)
    (point : StartPoint) (h : (point, m) ∈ (start setup activation).trace before) :
    RolledBack setup before m ↔ ¬ Exposed setup before point :=
  (start_judged activation).1 (point, m) h

end

/-! ## A machine -/

/-- A machine without flatpak, and one with the policy of another flatpak. -/
def plainMachine (policy : Option String) : Machine where
  state := none
  files file := if file = .polkitPolicy then policy else none
  installation := none
  users _ := false
  helperUser := false
  processes _ := none
  busOwned := false

def plainSetup : Setup where
  statePath := "/work/system-helper-state"
  helper := "/work/build/system-helper/flatpak-system-helper"
  busPolicyText := "<busconfig/>"
  polkitPolicyText := "<policyconfig/>"
  pid := 4321
  pid_pos := by decide
  order := [.createdFiles, .createdUsers, .helperUserCreated, .installationCreated, .originalPolicy,
    .pid, .caseLock]

/-- A point that is passed is passed with some state. -/
theorem exists_of_find {P σ : Type} [DecidableEq P] {trace : List (P × σ)} {point : P}
    (h : (trace.find? fun x => x.1 = point).isSome = true) : ∃ m, (point, m) ∈ trace := by
  obtain ⟨x, hx⟩ := Option.isSome_iff_exists.mp h
  have hpoint : x.1 = point := by simpa using List.find?_some hx
  exact ⟨x.2, by rw [← hpoint]; exact List.mem_of_find?_eq_some hx⟩

theorem start_rolledBack_small :
    ∃ m, (.installationMarked, m) ∈ (start plainSetup .owned).trace (plainMachine none) ∧
      (RolledBack plainSetup (plainMachine none) m ↔
        ¬ Exposed plainSetup (plainMachine none) .installationMarked) := by
  obtain ⟨m, hm⟩ : ∃ m, (.installationMarked, m) ∈
      (start plainSetup .owned).trace (plainMachine none) := exists_of_find (by decide +kernel)
  exact ⟨m, hm, start_rolledBack_iff plainSetup .owned (plainMachine none) m .installationMarked hm⟩

/-- Stopped between creating the installation and marking it, the installation stays. -/
theorem start_exposed_small :
    ∃ m, (.installationMade, m) ∈ (start plainSetup .owned).trace (plainMachine none) ∧
      ¬ RolledBack plainSetup (plainMachine none) m := by
  obtain ⟨m, hm⟩ : ∃ m, (.installationMade, m) ∈
      (start plainSetup .owned).trace (plainMachine none) := exists_of_find (by decide +kernel)
  exact ⟨m, hm, fun hrolled => ((start_judged .owned).1 _ hm).mp hrolled trivial⟩

end FlatpakBlackbox.SystemHelper
