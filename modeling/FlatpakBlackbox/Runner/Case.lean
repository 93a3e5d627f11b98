import FlatpakBlackbox.Basic.Effects
import FlatpakBlackbox.Basic.PurePath
import FlatpakBlackbox.Runner.Process
import FlatpakBlackbox.Schema.Report

set_option autoImplicit false

/-! # The block of one case

The part of `main` (`run.py`) from the reading of `case_started` to the write of the report: the
`try` around the adapter, the two context managers and the handler, and its `finally` with the
cleanup. What the world answers is `CaseRun`, one field for each call that can raise. The state
is `CaseFrame`: the result of the case, the clock, and the local variables of the block.

`status = 1` is the flag `failed`, which the surrounding loop adds to its own.
-/

namespace FlatpakBlackbox

namespace Runner

open PyLib PyException

/-! ## Exceptions -/

/-- `failure_status(error)`. -/
def failureStatus (error : PyException) : String :=
  if error.isInstance [.diagnosticFailure] then "setup-error"
  else if error.isInstance [.prerequisiteError] then "unmet-prerequisite"
  else if error.isInstance [.unsupportedCapability] then "unsupported"
  else if error.isInstance [.contractFailure] then "failed"
  else "setup-error"

/-- `result.update({"status": failure_status(error), "error": str(error)})`. -/
def failedWith (error : PyException) (result : CaseResult) : CaseResult :=
  { result with status := failureStatus error, error := some error.message }

/-- What the `except` clause of a case names. -/
def caseClasses : List ExcClass := [.prerequisiteError, .contractFailure, .unsupportedCapability,
  .osError, .valueError, .keyError, .typeError]

/-- What the `except` clause of its cleanup names. -/
def cleanupClasses : List ExcClass := [.osError, .valueError, .keyError, .typeError,
  .prerequisiteError, .contractFailure]

/-- What the outer `except` clause of `main` names. -/
def runClasses : List ExcClass := [.osError, .valueError, .keyError, .typeError,
  .prerequisiteError, .contractFailure, .unsupportedCapability]

/-! ## Context managers -/

/-- A generator with one `yield`: what comes before its `try`, what comes between `try` and
`yield`, and what its `finally` does beside `on_cleanup`, which depends on whether the `yield`
was reached. -/
structure Context where
  before : Except PyException Unit
  start : Except PyException Unit
  stop : Bool → Except PyException Unit

/-- What the world answers `session_bus`. -/
structure BusRun where
  /-- The directory, the configuration and the log. -/
  files : Except PyException Unit
  popen : Except PyException Unit
  /-- `selector.select(timeout=10)`, whether anything is ready. -/
  select : Except PyException Bool
  /-- `process.stdout.readline().strip()`. -/
  address : Except PyException String
  terminate : Except PyException Unit
  close : Except PyException Unit

/-- `try: x` and `finally: y`, of calls without a state. -/
def finallyDo (x y : Except PyException Unit) : Except PyException Unit := y >>= fun _ => x

/-- `session_bus(env, root, on_cleanup=...)`. -/
def sessionBus (w : BusRun) : Context where
  before := do
    w.files
    match w.popen with
    | .ok _ => .ok ()
    | .error error =>
        if error.isInstance [.fileNotFoundError] then
          .error (.ofClass .prerequisiteError "dbus-daemon is required")
        else .error error
  start := do
    let ready ← w.select
    raiseIf (ready = false)
      (.ofClass .prerequisiteError "session bus startup timed out; see dbus.log")
    let address ← w.address
    raiseIf (address = "") (.ofClass .prerequisiteError "session bus failed to start; see dbus.log")
  stop _ := finallyDo w.terminate w.close

/-- What the world answers `RepositoryServer.serving`. -/
structure ServerRun where
  /-- `ThreadingHTTPServer(...)`. -/
  bind : Except PyException Unit
  /-- `threading.Thread(...)` and `thread.start()`. -/
  thread : Except PyException Unit
  shutdown : Except PyException Unit
  serverClose : Except PyException Unit
  join : Except PyException Unit

/-- `repository.serving(on_cleanup=...)`. The thread is joined only after a shutdown. -/
def serving (w : ServerRun) : Context where
  before := w.bind
  start := w.thread
  stop threadStarted :=
    let shutdown := if threadStarted then w.shutdown else .ok ()
    let join := if threadStarted && w.shutdown.isOk then w.join else .ok ()
    finallyDo shutdown (finallyDo w.serverClose join)

/-- The contexts of a case. -/
inductive ContextName where
  | sessionBus
  | repositoryServer
  deriving DecidableEq, Repr

/-! ## Worlds and frames -/

/-- What the world answers the calls in the block of a case, and `print` when the case is
reported. -/
structure CaseRun where
  /-- `tempfile.mkdtemp(prefix="fp-bb-")`. -/
  mkdtemp : Except PyException String
  /-- `environment(root, target)`. -/
  environment : Except PyException Unit
  adapter : Except PyException CompletedProcess
  adapterEvidence : List EvidenceRecord
  /-- `parse_environment(decode_json(adapter.stdout, "adapter"), "adapter")`. -/
  adapterEnvironment : String → Except PyException Unit
  bus : BusRun
  server : ServerRun
  /-- The import of the handler and its call. -/
  handler : Except PyException Unit
  handlerEvidence : List EvidenceRecord
  requests : List RepositoryRequest
  /-- The copy of `dbus.log`, if there is one. -/
  copyLog : Except PyException Unit
  rmtree : Except PyException Unit
  /-- `write_json(output / "report.json", report)`. -/
  writeReport : Except PyException Unit
  print : Except PyException Unit

/-- What the block does beside its result. -/
inductive CaseEvent where
  | entered (name : ContextName)
  /-- The handler is called. -/
  | called
  | left (name : ContextName)
  | removed (root : String)
  deriving DecidableEq, Repr

/-- What the block of a case reads and writes. -/
structure CaseFrame where
  /-- How often the clock was read. -/
  reads : ℕ
  result : CaseResult
  failed : Bool := false
  caseStarted : ℚ
  executionStarted : Option ℚ := none
  cleanupStarted : Option ℚ := none
  root : Option String := none
  /-- `repository is not None`. -/
  repository : Bool := false
  /-- The contexts on the `ExitStack`, the last one first. -/
  contexts : List ContextName := []
  events : List CaseEvent := []

/-- The contexts of a case by name. -/
def CaseRun.context (c : CaseRun) : ContextName → Context
  | .sessionBus => FlatpakBlackbox.Runner.sessionBus c.bus
  | .repositoryServer => serving c.server

/-- `clock()`, which counts its readings. A reading is an exact number, and so are the differences
of readings: the rounding of floats is left out. -/
def tick (clock : ℕ → ℚ) : Py PyException ℕ ℚ := fun n => (.ok (clock n), n + 1)

/-- `result.update(...)`. -/
def updateResult (f : CaseResult → CaseResult) : Py PyException CaseFrame Unit :=
  Py.modify fun frame => { frame with result := f frame.result }

/-- `result["evidence"]` grows. -/
def recordEvidence (records : List EvidenceRecord) : Py PyException CaseFrame Unit :=
  updateResult fun result => { result with evidence := some (result.evidence.getD [] ++ records) }

def addEvent (event : CaseEvent) : Py PyException CaseFrame Unit :=
  Py.modify fun frame => { frame with events := frame.events ++ [event] }

/-- The part of the target's configuration that the block reads: `library.runtime_library_dirs`,
`none` without a library. -/
abbrev LibraryDirs := Option (List String)

/-- The checks between the adapter and the contexts. -/
def CaseRun.checkSetup (c : CaseRun) (kind : String) (library : LibraryDirs)
    (adapter : CompletedProcess) : Except PyException Unit := do
  raiseIf (adapter.returncode = 77)
    (.ofClass .prerequisiteError s!"setup adapter failed: {adapter.stderr}")
  raiseIf (adapter.returncode ≠ 0) (valueError s!"setup adapter failed: {adapter.stderr}")
  c.adapterEnvironment adapter.stdout
  if kind = "library" then
    match library with
    | none => .error (.ofClass .prerequisiteError "target.library: configuration is required")
    | some directories =>
        raiseIf (directories = [] ∨ ∃ p ∈ directories, (PurePath.ofString p).isAbsolute = false)
          (.ofClass .prerequisiteError "explicit absolute runtime library dirs required")

/-! ## The block -/

section Block

variable (clock : ℕ → ℚ)

/-- `clock()` in the block. -/
def now : Py PyException CaseFrame ℚ :=
  Py.zoom CaseFrame.reads (fun frame reads => { frame with reads := reads }) (tick clock)

/-- `begin_cleanup()`. -/
def beginCleanup : Py PyException CaseFrame Unit := do
  let cleanupStarted ← Py.read CaseFrame.cleanupStarted
  if cleanupStarted = none then do
    let t ← now clock
    Py.modify fun frame => { frame with cleanupStarted := some t }

/-- `contexts.enter_context(...)`. A context may roll back before the stack owns it. -/
def enterContext (c : CaseRun) (name : ContextName) : Py PyException CaseFrame Unit := do
  Py.ofExcept (c.context name).before
  Py.onRaise (Py.ofExcept (c.context name).start) do
    beginCleanup clock
    Py.ofExcept ((c.context name).stop false)
  Py.modify fun frame => { frame with contexts := name :: frame.contexts }
  addEvent (.entered name)

/-- `__exit__` of a context that was entered. -/
def exitContext (c : CaseRun) (name : ContextName) : Py PyException CaseFrame Unit := do
  addEvent (.left name)
  beginCleanup clock
  Py.ofExcept ((c.context name).stop true)

/-- `contexts.close()`: each context is left, and the last exception is raised. -/
def closeContexts (c : CaseRun) : List ContextName → Py PyException CaseFrame Unit
  | [] => pure ()
  | name :: names => Py.tryFinally (exitContext clock c name) (closeContexts c names)

/-- The `try` of a case. -/
def attempt (kind : String) (library : LibraryDirs) (c : CaseRun) :
    Py PyException CaseFrame Unit := do
  let root ← Py.ofExcept c.mkdtemp
  Py.modify fun frame => { frame with root := some root }
  updateResult fun result => { result with stateDirectory := some root }
  Py.modify fun frame => { frame with repository := true }
  Py.ofExcept c.environment
  recordEvidence c.adapterEvidence
  let adapter ← Py.ofExcept c.adapter
  Py.ofExcept (c.checkSetup kind library adapter)
  enterContext clock c .sessionBus
  enterContext clock c .repositoryServer
  let t ← now clock
  Py.modify fun frame => { frame with executionStarted := some t }
  recordEvidence c.handlerEvidence
  addEvent .called
  Py.ofExcept c.handler
  updateResult fun result => { result with status := "passed" }

/-- The `except` of a case. -/
def caseFailed (error : PyException) : Py PyException CaseFrame Unit := do
  updateResult (failedWith error)
  Py.modify fun frame => { frame with failed := true }

/-- The removal of the directory of the case. -/
def removeDirectory (c : CaseRun) : Py PyException CaseFrame Unit := do
  let root ← Py.read CaseFrame.root
  match root with
  | none => pure ()
  | some root =>
      Py.ofExcept c.copyLog
      Py.ofExcept c.rmtree
      addEvent (.removed root)

/-- The `finally` of `contexts.close()`. -/
def removeRoot (c : CaseRun) : Py PyException CaseFrame Unit := do
  let repository ← Py.read CaseFrame.repository
  if repository = true then
    updateResult fun result => { result with repositoryRequests := some c.requests }
  removeDirectory c

/-- The `except` of the cleanup. -/
def cleanupFailed (error : PyException) : Py PyException CaseFrame Unit := do
  updateResult fun result =>
    { result with status := "setup-error", cleanupError := some error.message }
  Py.modify fun frame => { frame with failed := true }

/-- The duration and the phases of a case that finishes now. -/
def CaseFrame.timings (frame : CaseFrame) (cleanupStarted finished : ℚ) : CaseTimings where
  setupSeconds := frame.executionStarted.getD cleanupStarted - frame.caseStarted
  executionSeconds := frame.executionStarted.elim 0 fun started => cleanupStarted - started
  cleanupSeconds := finished - cleanupStarted

/-- The `finally` of the cleanup. -/
def recordTimings (cleanupStarted : ℚ) : Py PyException CaseFrame Unit := do
  let finished ← now clock
  Py.modify fun frame => { frame with
    result := { frame.result with
      durationSeconds := some (finished - frame.caseStarted)
      timings := some (frame.timings cleanupStarted finished) } }

/-- `assert cleanup_started is not None`. -/
def assertStarted : Option ℚ → Except PyException ℚ
  | none => .error (.ofClass .assertionError "")
  | some started => .ok started

/-- `contexts.close()` with its `finally`. -/
def leaveAll (c : CaseRun) : Py PyException CaseFrame Unit := do
  let contexts ← Py.read CaseFrame.contexts
  Py.tryFinally (closeContexts clock c contexts) (removeRoot c)
  updateResult fun result => { result with cleanupComplete := some true }

/-- The `finally` of a case. -/
def finishCase (c : CaseRun) : Py PyException CaseFrame Unit := do
  beginCleanup clock
  let cleanupStarted ← Py.read CaseFrame.cleanupStarted
  let started ← Py.ofExcept (assertStarted cleanupStarted)
  Py.tryFinally
    (Py.tryExcept (leaveAll clock c) (fun error => error.isInstance cleanupClasses) cleanupFailed)
    (recordTimings clock started)
  Py.ofExcept c.writeReport

/-- The block of a case. -/
def caseBlock (kind : String) (library : LibraryDirs) (c : CaseRun) :
    Py PyException CaseFrame Unit :=
  Py.tryFinally
    (Py.tryExcept (attempt clock kind library c) (fun error => error.isInstance caseClasses)
      caseFailed)
    (finishCase clock c)

end Block

end Runner

end FlatpakBlackbox
