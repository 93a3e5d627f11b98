import FlatpakBlackbox.Basic.Lines
import FlatpakBlackbox.Basic.PurePath
import FlatpakBlackbox.Basic.Steps
import FlatpakBlackbox.Errors

set_option autoImplicit false

/-! # Provisioning a machine for the system helper

`start`, `stop` and `run_case` of `ci/system_helper.py`, as programs that can be stopped between
any two changes of the machine and part-way through writing or copying a file. A file is its
content; permissions are not modelled. The commands (`useradd`, `userdel`, `systemd-sysusers`) do
what they are named for, and a process runs until it is signalled or found to have exited.
-/

namespace FlatpakBlackbox.SystemHelper

open PyLib PyException

/-! ## The machine -/

/-- The files that provisioning creates outside its own directory. -/
inductive Provisioned where
  | config
  | busPolicy
  | polkitPolicy
  | rules
  deriving DecidableEq, Repr

def Provisioned.path : Provisioned → String
  | .config => "/etc/flatpak/installations.d/blackbox-ci.conf"
  | .busPolicy => "/etc/dbus-1/system.d/org.freedesktop.Flatpak.Blackbox.conf"
  | .polkitPolicy => "/usr/share/polkit-1/actions/org.freedesktop.Flatpak.policy"
  | .rules => "/etc/polkit-1/rules.d/00-flatpak-blackbox.rules"

inductive TestUser where
  | writer
  | reader
  deriving DecidableEq, Repr

def TestUser.name : TestUser → String
  | .writer => "bb-flatpak-writer"
  | .reader => "bb-flatpak-reader"

def installationPath : String := "/var/lib/flatpak-blackbox-ci"

/-- The directory `system-helper-state`: the files it can hold. -/
structure StateDir where
  createdFiles : Option String := none
  createdUsers : Option String := none
  helperUserCreated : Bool := false
  installationCreated : Bool := false
  originalPolicy : Option String := none
  pid : Option String := none
  caseLock : Bool := false
  deriving DecidableEq, Repr

inductive StateEntry where
  | createdFiles | createdUsers | helperUserCreated | installationCreated | originalPolicy | pid
  | caseLock
  deriving DecidableEq, Repr

/-- The directory without one entry. -/
def StateDir.remove (d : StateDir) : StateEntry → StateDir
  | .createdFiles => { d with createdFiles := none }
  | .createdUsers => { d with createdUsers := none }
  | .helperUserCreated => { d with helperUserCreated := false }
  | .installationCreated => { d with installationCreated := false }
  | .originalPolicy => { d with originalPolicy := none }
  | .pid => { d with pid := none }
  | .caseLock => { d with caseLock := false }

/-- What provisioning reads and changes. -/
structure Machine where
  state : Option StateDir
  files : Provisioned → Option String
  /-- The entries of `INSTALLATION`, if it exists. -/
  installation : Option (List String)
  users : TestUser → Bool
  /-- The user `flatpak`. -/
  helperUser : Bool
  /-- The executable of each running process. -/
  processes : Nat → Option String
  /-- Whether the bus name of the helper has an owner. -/
  busOwned : Bool

def Machine.setFile (m : Machine) (file : Provisioned) (content : Option String) : Machine :=
  { m with files := Function.update m.files file content }

def Machine.setState (m : Machine) (f : StateDir → StateDir) : Machine :=
  { m with state := m.state.map f }

def Machine.setUser (m : Machine) (user : TestUser) (present : Bool) : Machine :=
  { m with users := Function.update m.users user present }

def Machine.setProcess (m : Machine) (pid : Nat) (executable : Option String) : Machine :=
  { m with processes := Function.update m.processes pid executable }

def Machine.setInstallation (m : Machine) (entries : Option (List String)) : Machine :=
  { m with installation := entries }

@[simp] theorem Machine.setFile_self (m : Machine) (file : Provisioned) (content : Option String) :
    (m.setFile file content).files file = content := Function.update_self ..

theorem Machine.setFile_ne (m : Machine) {file other : Provisioned} (content : Option String)
    (h : other ≠ file) : (m.setFile file content).files other = m.files other :=
  Function.update_of_ne h ..

theorem Machine.setUser_ne (m : Machine) {user other : TestUser} (present : Bool)
    (h : other ≠ user) : (m.setUser user present).users other = m.users other :=
  Function.update_of_ne h ..

@[simp] theorem Machine.setProcess_self (m : Machine) (pid : Nat) (executable : Option String) :
    (m.setProcess pid executable).processes pid = executable := Function.update_self ..

theorem Machine.setProcess_ne (m : Machine) {pid other : Nat} (executable : Option String)
    (h : other ≠ pid) : (m.setProcess pid executable).processes other = m.processes other :=
  Function.update_of_ne h ..

/-- What the programs are run with. -/
structure Setup where
  /-- `str(root / "system-helper-state")`. -/
  statePath : String
  /-- `(root / "build/system-helper/flatpak-system-helper").resolve()`. -/
  helper : String
  /-- The bus policy of the source tree and the polkit policy of the build tree. -/
  busPolicyText : String
  polkitPolicyText : String
  /-- The process id that `Popen` gets. -/
  pid : Nat
  pid_pos : 0 < pid
  /-- The order in which `rmtree` meets the entries of the state directory. -/
  order : List StateEntry

/-- What `install` writes to each file. -/
def Setup.content (setup : Setup) : Provisioned → String
  | .config => "[Installation \"blackbox-ci\"]\nPath=" ++ installationPath ++
      "\nDisplayName=Blackbox helper probe\nStorageType=harddisk\n"
  | .busPolicy => setup.busPolicyText
  | .polkitPolicy => setup.polkitPolicyText
  | .rules => "polkit.addRule(function(action, subject) \x7b\n" ++
      "  if (action.id.indexOf(\"org.freedesktop.Flatpak.\") !== 0) return;\n" ++
      "  if (subject.user === \"" ++ TestUser.writer.name ++ "\") return polkit.Result.YES;\n" ++
      "  if (subject.user === \"" ++ TestUser.reader.name ++
        "\") return polkit.Result.AUTH_SELF;\n" ++
      "\x7d);\n"

/-! ## Texts -/

/-- The digits of `str(n)`, for a positive number. -/
def decimal (n : Nat) : List Char := (Nat.digits 10 n).reverse.map fun d => Char.ofNat (48 + d)

def decimalValue (cs : List Char) : Nat := cs.foldl (fun n c => 10 * n + (c.toNat - 48)) 0

/-- `int(text)`. Signs and underscores, which nothing here writes, are not read. -/
def int (text : String) : Except PyException Nat :=
  if text.toList ≠ [] ∧ text.toList.all Char.isDigit = true then .ok (decimalValue text.toList)
  else .error (valueError s!"invalid literal for int() with base 10: {text}")

def runtimeError (message : String) : PyException := .ofClass .runtimeError message

/-- The provisioned file that `Path(line)` is. -/
def provisionedFile (line : String) : Except PyException Provisioned :=
  match [Provisioned.config, .busPolicy, .polkitPolicy, .rules].find? fun file =>
      PurePath.ofString line = PurePath.ofString file.path with
  | some file => .ok file
  | none => .error (runtimeError
      s!"unexpected provisioning cleanup path: {(PurePath.ofString line).text}")

/-- The test user that a line names. -/
def testUser (line : String) : Except PyException TestUser :=
  match [TestUser.writer, .reader].find? fun user => line = user.name with
  | some user => .ok user
  | none => .error (runtimeError s!"unexpected provisioning cleanup user: {line}")

/-- The content of an entry of the state directory that is read. -/
def readEntry (name : String) (content : Option String) : Except PyException String :=
  match content with
  | some text => .ok text
  | none => .error (fileNotFound name)

/-! ## `start` -/

/-- Where `start` can be stopped. A list is what has been written of a text. -/
inductive StartPoint where
  | checked
  | stateMade
  | filesMarked
  | usersMarked
  | recordingUser (user : TestUser) (written : List Char)
  | userAdded (user : TestUser)
  | helperUserAdded
  | helperUserMarked
  | installationMade
  | installationMarked
  | creating (file : Provisioned) (written : List Char)
  | recordingFile (file : Provisioned) (written : List Char)
  | savingPolicy (written : List Char)
  | policyUnlinked
  | activated
  | helperSpawned
  | writingPid (written : List Char)
  | waiting
  | helperExited
  deriving DecidableEq

section

variable {P : Type}

/-- The refusals of `start`. -/
def freshProblem (setup : Setup) (m : Machine) : Option String :=
  let stale := [(m.state.isSome, setup.statePath), (m.installation.isSome, installationPath),
    ((m.files .config).isSome, Provisioned.config.path),
    ((m.files .busPolicy).isSome, Provisioned.busPolicy.path),
    ((m.files .rules).isSome, Provisioned.rules.path)].find? Prod.fst
  let user := [TestUser.writer, .reader].find? m.users
  -- The paths come first: a stale path is reported even where a test user exists too.
  match stale, user with
  | some (_, path), _ => some s!"system-helper provisioning needs a fresh path: {path}"
  | none, some user => some s!"system-helper test user already exists: {user.name}"
  | none, none => if m.busOwned then some "a system helper already owns the bus name" else none

/-- `path.open("x")`, then `stream.write(content)`. -/
def createFile (file : Provisioned) (content : String) :
    Steps PyException StartPoint Machine Unit := do
  let existing ← Steps.read fun m => m.files file
  Steps.ofExcept (raiseIf (existing ≠ none) (.ofClass (.other "FileExistsError") file.path))
  Steps.gradually (.creating file) (fun written m => m.setFile file (some (String.ofList written)))
    content.toList

/-- `stream.write(text)` on a file of the state directory opened for appending. -/
def appendTo (content : Option String) (written : List Char) : Option String :=
  content.map (· ++ String.ofList written)

/-- `install(path, content)`. -/
def install (file : Provisioned) (content : String) :
    Steps PyException StartPoint Machine Unit := do
  createFile file content
  -- The record follows the file, so a stop between the two leaves a file that is not recorded.
  Steps.gradually (.recordingFile file)
    (fun written m =>
      m.setState fun d => { d with createdFiles := appendTo d.createdFiles written })
    (file.path ++ "\n").toList

/-- The creation of one test user. -/
def addUser (user : TestUser) : Steps PyException StartPoint Machine Unit := do
  -- A user is recorded before it exists, unlike a file.
  Steps.gradually (.recordingUser user)
    (fun written m =>
      m.setState fun d => { d with createdUsers := appendTo d.createdUsers written })
    (user.name ++ "\n").toList
  Steps.step (.userAdded user) fun m => m.setUser user true

/-- The creation of the user `flatpak`, where it is missing. -/
def addHelperUser : Steps PyException StartPoint Machine Unit := do
  match (← Steps.read Machine.helperUser) with
  | true => pure ()
  | false =>
      Steps.step .helperUserAdded fun m => { m with helperUser := true }
      Steps.step .helperUserMarked fun m => m.setState fun d => { d with helperUserCreated := true }

def makeInstallation : Steps PyException StartPoint Machine Unit := do
  Steps.step .installationMade fun m => m.setInstallation (some [])
  Steps.step .installationMarked fun m => m.setState fun d => { d with installationCreated := true }

/-- Saving the policy of another flatpak. -/
def savePolicy : Steps PyException StartPoint Machine Unit := do
  match (← Steps.read fun m => m.files .polkitPolicy) with
  | none => pure ()
  | some original =>
      Steps.gradually .savingPolicy
        (fun written m => m.setState fun d =>
          { d with originalPolicy := some (String.ofList written) }) original.toList
      Steps.step .policyUnlinked fun m => m.setFile .polkitPolicy none

/-- Starting the helper and recording its process. -/
def spawnHelper (setup : Setup) : Steps PyException StartPoint Machine Unit := do
  let process ← Steps.read fun m => m.processes setup.pid
  Steps.ofExcept (raiseIf (process ≠ none) (.ofClass .osError "Resource temporarily unavailable"))
  Steps.step .helperSpawned fun m => m.setProcess setup.pid (some setup.helper)
  Steps.gradually .writingPid
    (fun written m => m.setState fun d => { d with pid := some (String.ofList written) })
    (decimal setup.pid)

/-- How the wait for the bus name ends. -/
inductive Activation where
  | owned
  | exited
  | failed (message : String)

/-- The polling loop: the helper owns its name, has exited, or another check fails. -/
def awaitHelper (setup : Setup) (activation : Activation) :
    Steps PyException StartPoint Machine Unit := do
  match activation with
  | .owned => Steps.step .waiting id
  | .exited =>
      Steps.step .helperExited fun m => m.setProcess setup.pid none
      Steps.raise (runtimeError "selected system helper exited; see system-helper.log")
  | .failed message =>
      Steps.step .waiting id
      Steps.raise (runtimeError message)

/-- `start(root)`. -/
def start (setup : Setup) (activation : Activation) :
    Steps PyException StartPoint Machine Unit := do
  let problem ← Steps.read (freshProblem setup)
  Steps.ofExcept (raiseIf (problem ≠ none) (runtimeError (problem.getD "")))
  Steps.step .checked id
  Steps.step .stateMade fun m => { m with state := some {} }
  Steps.step .filesMarked fun m => m.setState fun d => { d with createdFiles := some "" }
  Steps.step .usersMarked fun m => m.setState fun d => { d with createdUsers := some "" }
  addUser .writer
  addUser .reader
  addHelperUser
  makeInstallation
  install .config (setup.content .config)
  install .busPolicy (setup.content .busPolicy)
  savePolicy
  install .polkitPolicy (setup.content .polkitPolicy)
  install .rules (setup.content .rules)
  Steps.step .activated id
  spawnHelper setup
  awaitHelper setup activation

/-! ## `stop` -/

/-- Where `stop` can be interrupted. -/
inductive StopPoint where
  | entered
  | helperStopped
  | fileRemoved (file : Provisioned)
  | restoringPolicy (written : List Char)
  | reloaded
  | removingInstallation (rest : List String)
  | installationRemoved
  | userRemoved (user : TestUser)
  | helperUserRemoved
  | removingState (removed : List StateEntry)
  | stateRemoved
  deriving DecidableEq

/-- `shutil.rmtree(INSTALLATION)`. -/
def rmtreeInstallation (removing : List String → P) (removed : P) :
    Steps PyException P Machine Unit := do
  match (← Steps.read Machine.installation) with
  | none => Steps.raise (fileNotFound installationPath)
  | some entries =>
      Steps.gradually removing (fun done m => m.setInstallation (some (entries.drop done.length)))
        entries
      Steps.step removed fun m => m.setInstallation none

/-- Stopping the recorded process. -/
def stopHelper (setup : Setup) (state : StateDir) : Steps PyException StopPoint Machine Unit := do
  match state.pid with
  | none => pure ()
  | some text =>
      let pid ← Steps.ofExcept (int text)
      match (← Steps.read fun m => m.processes pid) with
      | none => pure ()
      | some executable =>
          -- Another program has the process id by now.
          Steps.ofExcept (raiseIf (executable ≠ setup.helper)
            (runtimeError "refusing to stop an unrelated process after PID reuse"))
          Steps.step .helperStopped fun m => m.setProcess pid none

/-- Removing the recorded files. -/
def removeFiles (state : StateDir) : Steps PyException StopPoint Machine Unit := do
  let text ← Steps.ofExcept (readEntry "created-files" state.createdFiles)
  Steps.forEach (splitLines text) fun line => do
    let file ← Steps.ofExcept (provisionedFile line)
    -- `unlink(missing_ok=True)`.
    Steps.step (.fileRemoved file) fun m => m.setFile file none

/-- Copying the saved policy back. -/
def restorePolicy (state : StateDir) : Steps PyException StopPoint Machine Unit :=
  match state.originalPolicy with
  | none => pure ()
  | some original => Steps.gradually .restoringPolicy
      (fun written m => m.setFile .polkitPolicy (some (String.ofList written))) original.toList

/-- Removing the installation, if it was recorded. -/
def removeInstallation (state : StateDir) : Steps PyException StopPoint Machine Unit :=
  if state.installationCreated then
    rmtreeInstallation .removingInstallation .installationRemoved
  else pure ()

/-- Removing the recorded users. -/
def removeUsers (state : StateDir) : Steps PyException StopPoint Machine Unit := do
  let text ← Steps.ofExcept (readEntry "created-users" state.createdUsers)
  Steps.forEach (splitLines text) fun line => do
    let user ← Steps.ofExcept (testUser line)
    -- `userdel` of a missing user fails, and the failure is ignored.
    Steps.step (.userRemoved user) fun m => m.setUser user false

def removeHelperUser (state : StateDir) : Steps PyException StopPoint Machine Unit :=
  if state.helperUserCreated then
    Steps.step .helperUserRemoved fun m => { m with helperUser := false }
  else pure ()

/-- `shutil.rmtree(state)`. -/
def removeState (setup : Setup) : Steps PyException StopPoint Machine Unit := do
  Steps.gradually .removingState (fun removed m => m.setState fun d => removed.foldl .remove d)
    setup.order
  Steps.step .stateRemoved fun m => { m with state := none }

/-- `stop(root)`. -/
def stop (setup : Setup) : Steps PyException StopPoint Machine Unit := do
  Steps.step .entered id
  match (← Steps.read Machine.state) with
  | none => pure ()
  | some state =>
      stopHelper setup state
      removeFiles state
      restorePolicy state
      Steps.step .reloaded id
      removeInstallation state
      removeUsers state
      removeHelperUser state
      removeState setup

/-! ## `run_case` -/

/-- Where `run_case` can be interrupted. -/
inductive CasePoint where
  | entered
  | locked
  | resetting (rest : List String)
  | reset
  | remade
  | running (entries : List String)
  | cleaning (rest : List String)
  | cleaned
  | restored
  deriving DecidableEq

/-- What a case meets and does: the owner of the bus name, the preparation of its directory, and
the entries of `INSTALLATION` after each operation, with the outcome of the assertions. -/
structure Case where
  busOwner : Option Nat
  preparation : Except PyException Unit
  contents : List (List String)
  outcome : Except PyException Unit

/-- The body of the `try` statement. -/
def caseBody (case : Case) : Steps PyException CasePoint Machine Unit := do
  Steps.forEach case.contents fun entries =>
    Steps.step (.running entries) fun m => m.setInstallation (some entries)
  Steps.ofExcept case.outcome

/-- `run_case(root, ...)`. -/
def runCase (setup : Setup) (case : Case) : Steps PyException CasePoint Machine Unit := do
  Steps.step .entered id
  match (← Steps.read Machine.state).bind StateDir.pid with
  | none => Steps.raise (.ofClass (.other "SystemExit") "77")
  | some text =>
      let pid ← Steps.ofExcept (int text)
      let process ← Steps.read fun m => m.processes pid
      Steps.ofExcept (raiseIf (process ≠ some setup.helper)
        (runtimeError "provisioned system helper is no longer running"))
      Steps.ofExcept (raiseIf (case.busOwner ≠ some pid)
        (runtimeError "provisioned helper no longer owns the system bus name"))
      Steps.step .locked fun m => m.setState fun d => { d with caseLock := true }
      Steps.ofExcept case.preparation
      rmtreeInstallation .resetting .reset
      Steps.step .remade fun m => m.setInstallation (some [])
      -- A stop before this `try` can leave no installation at all.
      Steps.tryFinally (caseBody case) do
        rmtreeInstallation .cleaning .cleaned
        Steps.step .restored fun m => m.setInstallation (some [])

end

end FlatpakBlackbox.SystemHelper
