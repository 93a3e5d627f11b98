import FlatpakBlackbox.Basic.Effects
import FlatpakBlackbox.Basic.Lines
import FlatpakBlackbox.Schema.Report
import Mathlib.Data.List.ModifyLast

set_option autoImplicit false

/-! # Running external commands

`execute` and `Driver.external_call` of `run.py`. The operating system is the parameter
`ProcessRunner`: what spawning a command and waiting for it does to the world, and with which
output. The state is the world together with the evidence list of the running case.
-/

namespace FlatpakBlackbox

open PyLib

/-- The evidence record of a command: what coverage accounting reads of it, and the two fields
that only a failed command sets. -/
structure CommandRecord extends EvidenceRecord where
  error : Option String := none
  timedOut : Option Bool := none

/-- `subprocess.CompletedProcess`. -/
structure CompletedProcess where
  args : List String
  returncode : Int
  stdout : String
  stderr : String
  deriving DecidableEq, Repr

/-- How a command ends. The outputs are the contents of the two temporary files. -/
inductive Spawned where
  | notFound (message : String)
  | raised (error : PyException)
  | timedOut (returncode : Int) (stdout stderr : String)
  | exited (returncode : Int) (stdout stderr : String)

/-- The operating system, for the environment, directory and timeout of one driver. -/
structure ProcessRunner (W : Type) where
  /-- `subprocess.Popen`, the wait, and `terminate`. -/
  spawn : List String → W → Spawned × W
  /-- `f"command timed out after {timeout}s: {argv}"`. -/
  timeoutText : List String → String

section

variable {W : Type}

/-- `record.update(...)` on the record appended last. -/
def updateRecord (f : CommandRecord → CommandRecord) :
    Py PyException (W × List CommandRecord) Unit :=
  Py.modify fun s => (s.1, s.2.modifyLast f)

/-- `execute(argv, env, cwd, evidence, timeout)`. -/
def execute (runner : ProcessRunner W) (argv : List String) :
    Py PyException (W × List CommandRecord) CompletedProcess := do
  Py.modify fun s => (s.1, s.2 ++ [{ argv := some argv }])
  let spawned ← Py.zoom Prod.fst (fun s w => (w, s.2)) fun w =>
    (.ok (runner.spawn argv w).1, (runner.spawn argv w).2)
  match spawned with
  | .notFound message =>
      updateRecord fun record => { record with error := some message }
      Py.raise (.ofClass .prerequisiteError message)
  | .raised error => Py.raise error
  | .timedOut returncode stdout stderr =>
      updateRecord fun record => { record with
        stdout := some (readText stdout), stderr := some (readText stderr), timedOut := some true,
        exitStatus := some returncode }
      Py.raise (.ofClass .diagnosticFailure (runner.timeoutText argv))
  | .exited returncode stdout stderr =>
      updateRecord fun record => { record with
        stdout := some (readText stdout), stderr := some (readText stderr),
        exitStatus := some returncode }
      return ⟨argv, returncode, readText stdout, readText stderr⟩

/-- `sorted({line.removeprefix(tag) for line in stderr.splitlines() if line.startswith(tag)})`. -/
def taggedLines (tag stderr : String) : List String :=
  sorted (((splitLines stderr).filter (startsWith · tag)).map (removePrefix · tag)).dedup

/-- `Driver.external_call(argv, interface)`. -/
def externalCall (runner : ProcessRunner W) (argv : List String) (interface : String) :
    Py PyException (W × List CommandRecord) CompletedProcess := do
  if interface ∉ ["cli", "library", "setup"] then
    Py.raise (.valueError s!"invalid external command interface: {interface}")
  let result ← execute runner argv
  if interface ≠ "setup" then
    updateRecord fun record => { record with interface := some interface }
  if interface = "library" then
    updateRecord fun record => { record with
      apiCalls := some (taggedLines "api-call " result.stderr),
      signals := some (taggedLines "signal-event " result.stderr) }
  return result

theorem mem_taggedLines {tag stderr name : String} :
    name ∈ taggedLines tag stderr ↔
      ∃ line ∈ splitLines stderr, startsWith line tag = true ∧ removePrefix line tag = name := by
  simp only [taggedLines, mem_sorted, List.mem_dedup, List.mem_map, List.mem_filter, and_assoc]

/-- The record of a command that ran to its end. -/
def completedRecord (argv : List String) (interface : String) (returncode : Int)
    (stdout stderr : String) : CommandRecord where
  argv := some argv
  stdout := some stdout
  stderr := some stderr
  exitStatus := some returncode
  interface := some interface
  apiCalls := if interface = "library" then some (taggedLines "api-call " stderr) else none
  signals := if interface = "library" then some (taggedLines "signal-event " stderr) else none

/-- What the driver does with a command of either interface that runs to its end. -/
theorem externalCall_exited {runner : ProcessRunner W} {argv : List String} {interface : String}
    {w w' : W} {evidence : List CommandRecord} {returncode : Int} {stdout stderr : String}
    (hinterface : interface = "cli" ∨ interface = "library")
    (h : runner.spawn argv w = (.exited returncode stdout stderr, w')) :
    externalCall runner argv interface (w, evidence) =
      (.ok ⟨argv, returncode, readText stdout, readText stderr⟩, w',
        evidence ++ [completedRecord argv interface returncode (readText stdout)
        (readText stderr)]) := by
  have hexecute : execute runner argv (w, evidence) =
      (.ok ⟨argv, returncode, readText stdout, readText stderr⟩, w',
        evidence ++ [{ argv := some argv, stdout := some (readText stdout),
                       stderr := some (readText stderr), exitStatus := some returncode }]) := by
    simp only [execute, Py.bind_apply, Py.modify, Py.zoom, h, updateRecord,
      List.modifyLast_concat]
    rfl
  rcases hinterface with rfl | rfl
  · simp [externalCall, Py.bind_apply, Py.pure_apply, hexecute, updateRecord, Py.modify,
      List.modifyLast_concat, completedRecord]
  · simp [externalCall, Py.bind_apply, Py.pure_apply, hexecute, updateRecord, Py.modify,
      List.modifyLast_concat, completedRecord]

end

end FlatpakBlackbox
