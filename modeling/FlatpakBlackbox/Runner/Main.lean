import FlatpakBlackbox.Basic.Update
import FlatpakBlackbox.Console.Summary
import FlatpakBlackbox.Coverage.Model
import FlatpakBlackbox.Coverage.Verification
import FlatpakBlackbox.Runner.Case

set_option autoImplicit false

/-! # A run

`main` of `run.py` behind its argument parser: the selection of cases, the `try` with the gate of
unsupported capabilities, the probes of the target and the loop over the cases, the outer `except`
for a failed setup, the `finally` that completes the report, and the exit status.

The world (`World`) answers every call outside of `main` that can raise. What it answers for a case
stands under the key of the case: a run asks for each case once.
-/

namespace FlatpakBlackbox

namespace Runner

open PyLib PyException

/-! ## What a run is started with -/

/-- The definitions of a suite: `load_behaviors(HERE)` and `CoverageModel(HERE)`. -/
structure Suite where
  inventory : List Behavior
  model : ModelData
  distinct : (inventory.map Behavior.id).Nodup
  cases : collectCases inventory = .ok model.cases

/-- `--driver`. -/
inductive DriverChoice where
  | cli
  | library
  | all
  deriving DecidableEq, Repr

/-- The interfaces a choice selects. -/
def DriverChoice.kinds : DriverChoice → List String
  | .cli => ["cli"]
  | .library => ["library"]
  | .all => ["cli", "library"]

/-- The arguments that a run reads after its parser; the scenario `none` is `all`. -/
structure Arguments where
  driver : DriverChoice
  scenario : Option String
  allowExpectedFailures : Bool

/-- `TargetConfig`. -/
structure TargetConfig where
  name : String
  unsupportedCapabilities : Dict String String
  library : LibraryDirs

/-- A case of this interface: `"scenario" in behavior` and `kind in behavior["drivers"]`. -/
def isCase (kind : String) (behavior : Behavior) : Bool :=
  behavior.scenario.isSome && behavior.drivers.contains kind

/-- `(behavior["id"], kind, behavior["profile"])`. -/
def keyOf (kind : String) (behavior : Behavior) : CaseKey := ⟨behavior.id, kind, behavior.profile⟩

/-- Whether the arguments select a case. -/
def Arguments.selects (arguments : Arguments) (kind : String) (behavior : Behavior) : Bool :=
  arguments.driver.kinds.contains kind
    && (arguments.scenario.isNone || arguments.scenario = behavior.scenario)

/-- The capabilities a case requires, by itself and by the requirements it is mapped to. -/
def requiredCapabilities (model : ModelData) (kind : String) (behavior : Behavior) : List String :=
  let mapped := (model.mapped (keyOf kind behavior)).flatMap fun id =>
    ((model.requirements.get? id).map Requirement.requiredCapabilities).getD []
  let library := if kind = "library" then ["libflatpak"] else []
  sorted (behavior.requiredCapabilities ++ ["cli"] ++ library ++ mapped).dedup

/-- The result a case starts with. -/
def initialResult (suite : Suite) (arguments : Arguments) (kind : String) (behavior : Behavior) :
    CaseResult where
  behaviorId := behavior.id
  driver := kind
  profile := behavior.profile
  status := if arguments.selects kind behavior then "pending" else "not-selected"
  evidence := some []
  requiredCapabilities := some (requiredCapabilities suite.model kind behavior)

/-- The cases of one interface. -/
def plannedCases (suite : Suite) (arguments : Arguments) (kind : String) :
    List (CaseKey × CaseResult) :=
  (suite.inventory.filter (isCase kind)).map fun behavior =>
    (keyOf kind behavior, initialResult suite arguments kind behavior)

theorem nodup_keys_plannedCases (suite : Suite) (arguments : Arguments) (kind : String) :
    ((plannedCases suite arguments kind).map Prod.fst).Nodup := by
  rw [plannedCases, List.map_map]
  refine List.Nodup.of_map CaseKey.behaviorId ?_
  rw [List.map_map]
  exact List.Nodup.sublist (List.filter_sublist.map Behavior.id) suite.distinct

theorem driver_of_mem_plannedCases {suite : Suite} {arguments : Arguments} {kind : String}
    {entry : CaseKey × CaseResult} (h : entry ∈ plannedCases suite arguments kind) :
    entry.1.driver = kind := by
  obtain ⟨behavior, _, rfl⟩ := List.mem_map.mp h
  rfl

/-- `cases`, in the order of `report["results"]`. -/
def initialCases (suite : Suite) (arguments : Arguments) : Dict CaseKey CaseResult where
  entries := plannedCases suite arguments "cli" ++ plannedCases suite arguments "library"
  nodup := by
    rw [List.map_append]
    refine List.nodup_append.mpr ⟨nodup_keys_plannedCases suite arguments "cli",
      nodup_keys_plannedCases suite arguments "library", fun key hcli key' hlibrary heq => ?_⟩
    obtain ⟨entry, hentry, rfl⟩ := List.mem_map.mp hcli
    obtain ⟨entry', hentry', rfl⟩ := List.mem_map.mp hlibrary
    have hdriver := (driver_of_mem_plannedCases hentry).symm.trans
      ((congrArg CaseKey.driver heq).trans (driver_of_mem_plannedCases hentry'))
    exact absurd hdriver (by decide)

/-! ## The state and the world -/

/-- The variables of `main`, its report and its console. -/
structure RunState where
  /-- How often the clock was read. -/
  reads : ℕ := 0
  cases : Dict CaseKey CaseResult
  status : ℕ := 0
  /-- `console.completed`. -/
  completed : ℕ := 0
  /-- The calls of `console.case_finished`, each with the status the case had. -/
  reported : List (CaseKey × String) := []
  /-- What happened in the blocks of the cases. -/
  events : List (CaseKey × CaseEvent) := []
  target : Option String := none
  targetVersion : Option String := none
  declaredUnsupportedCapabilities : Option (Dict String String) := none
  setupError : Option String := none
  setupStatus : Option String := none
  complete : Option Bool := none
  artifactIntegrity : Option ArtifactIntegrity := none
  /-- `report["coverage"]["verification"]["status"]`. -/
  coverage : Option VerificationStatus := none
  durationSeconds : Option ℚ := none

/-- The report of a run as the coverage model reads it. `rest` holds the fields that `main` fills
with what the world answers. -/
def RunState.report (s : RunState) (rest : RunReport) : RunReport :=
  { rest with
    results := s.cases.values
    complete := s.complete
    target := s.target
    targetVersion := s.targetVersion
    artifactIntegrity := s.artifactIntegrity }

/-- What the world answers a run. -/
structure World where
  clock : ℕ → ℚ
  suite : Suite
  arguments : Arguments
  /-- The first `write_json(output / "report.json", report)`. -/
  writeInitial : Except PyException Unit
  /-- `load_target(target_path)`. -/
  loadTarget : Except PyException TargetConfig
  /-- `record_artifact(target_path, artifacts)`. -/
  recordTarget : Except PyException Unit
  /-- `load_fixture`, the checks of its files and its record; the architecture of the fixture. -/
  fixture : Except PyException String
  /-- The probe environment, the programs of the target and their records. -/
  programs : Except PyException Unit
  /-- `execute([cli, "--version"], ...)`. -/
  version : Except PyException CompletedProcess
  /-- `execute([cli, "--default-arch"], ...)`. -/
  defaultArch : Except PyException CompletedProcess
  /-- `build_client(...)`, with the API features it probes. -/
  buildClient : Except PyException (Dict String Bool)
  case : CaseKey → CaseRun
  printSetupError : Except PyException Unit
  /-- `check_artifacts(artifacts)`. -/
  checkArtifacts : ArtifactIntegrity
  /-- `coverage_model.summarize(report)`. -/
  summarize : RunState → Except PyException VerificationStatus
  /-- The last `write_json`. -/
  writeReport : Except PyException Unit
  /-- The write of `coverage.md`. -/
  writeCoverage : Except PyException Unit
  /-- `console.summary(report, output, status)`. -/
  printSummary : Except PyException Unit
  /-- Whether `GITHUB_STEP_SUMMARY` is set and not empty. -/
  stepSummary : Bool
  /-- `github_summary`, the append to the step summary and the write of `job-summary.md`. -/
  writeSummary : Except PyException Unit
  printSummaryError : Except PyException Unit

/-! ## Cases in a run -/

/-- `cases[key]`. -/
def caseResult (key : CaseKey) : Py PyException RunState CaseResult := fun s =>
  match s.cases.get? key with
  | none => (.error (keyError key.text), s)
  | some result => (.ok result, s)

/-- `result.update(...)` of a case that fails, and `status = 1`. -/
def failCase (key : CaseKey) (f : CaseResult → CaseResult) : Py PyException RunState Unit :=
  Py.modify fun s => { s with cases := s.cases.update key f, status := 1 }

/-- Whether some case is pending. -/
def RunState.anyPending (s : RunState) : Bool :=
  s.cases.values.any fun result => result.status = "pending"

section Run

variable (w : World)

/-- `console.case_finished(result)`. -/
def caseFinished (key : CaseKey) : Py PyException RunState Unit := do
  let result ← caseResult key
  Py.modify fun s => { s with
    completed := s.completed + 1, reported := s.reported ++ [(key, result.status)] }
  -- The label of the status is looked up before anything is printed.
  Py.ofExcept (raiseIf ((statusLabels.lookup result.status).isNone) (keyError result.status))
  Py.ofExcept (w.case key).print

/-! ## The gate -/

/-- The capabilities of a case that the target declares unsupported, with the reasons. -/
def missingCapabilities (unsupported : Dict String String) (result : CaseResult) :
    List (String × String) :=
  (result.requiredCapabilities.getD []).filterMap fun capability =>
    (unsupported.get? capability).map fun reason => (capability, reason)

/-- The first test of the gate. -/
def gateCapabilities (unsupported : Dict String String) (key : CaseKey) :
    Py PyException RunState Unit := do
  let result ← caseResult key
  let missing := missingCapabilities unsupported result
  if result.status = "pending" ∧ missing ≠ [] then
    failCase key fun result =>
      { result with status := "unsupported", unsupportedCapabilities := some missing }

/-- `coverage_model.cases[key]`. -/
def caseDefinition (key : CaseKey) : Except PyException Behavior :=
  match w.suite.model.cases.get? key with
  | none => .error (keyError key.text)
  | some behavior => .ok behavior

/-- A system profile without an environment that can run it. -/
def needsMachine (result : CaseResult) (definition : Behavior) : Prop :=
  result.profile ∉ ["user", "any"]
    ∧ definition.executionEnvironment ∉ [some "root-userns", some "provisioned-system"]

instance (result : CaseResult) (definition : Behavior) :
    Decidable (needsMachine result definition) := by
  unfold needsMachine
  infer_instance

/-- The second test of the gate. -/
def gateProfile (key : CaseKey) : Py PyException RunState Unit := do
  let definition ← Py.ofExcept (caseDefinition w key)
  let result ← caseResult key
  if result.status = "pending" ∧ needsMachine result definition then
    failCase key fun result => { result with
      status := "unsupported", error := some "System-profile execution requires a VM runner." }

/-- The report of a case that the gate keeps. -/
def gateReport (key : CaseKey) : Py PyException RunState Unit := do
  let result ← caseResult key
  if result.status = "unsupported" then caseFinished w key

/-- One turn of the gate. -/
def gateCase (unsupported : Dict String String) (key : CaseKey) : Py PyException RunState Unit := do
  gateCapabilities unsupported key
  gateProfile w key
  gateReport w key

/-! ## The loop over the cases -/

/-- `FEATURES` (`library_features.py`): the name of an API and the behaviors that need it. -/
def features : List (String × List String) :=
  [("flatpak_transaction_progress_get_bytes_per_second", ["transaction.rate"]),
   ("flatpak_user_data_delete", ["library.user-data.delete"])]

/-- `missing_apis(behavior, available)`. -/
def missingApis (behavior : String) (available : Dict String Bool) : List String :=
  (features.filter fun feature =>
    behavior ∈ feature.2 && !(available.getD feature.1 false)).map Prod.fst

/-- `case_started = clock()`, and the other readings of `main`. -/
def runNow : Py PyException RunState ℚ :=
  Py.zoom RunState.reads (fun s reads => { s with reads := reads }) (tick w.clock)

/-- What the block of a case leaves behind. -/
def RunState.absorb (s : RunState) (key : CaseKey) (frame : CaseFrame) : RunState :=
  { s with
    reads := frame.reads
    cases := s.cases.update key fun _ => frame.result
    -- A case that passes does not take back the failure of another.
    status := if frame.failed = true then 1 else s.status
    events := s.events ++ frame.events.map fun event => (key, event) }

/-- The block of a case and its report. -/
def runCase (library : LibraryDirs) (key : CaseKey) : Py PyException RunState Unit := do
  let result ← caseResult key
  let caseStarted ← runNow w
  Py.zoom (fun s => { reads := s.reads, result, caseStarted }) (fun s frame => s.absorb key frame)
    (caseBlock w.clock key.driver library (w.case key))
  caseFinished w key

/-- The branch of a case whose client does not build. -/
def failClient (key : CaseKey) (error : PyException) : Py PyException RunState Unit := do
  failCase key (failedWith error)
  caseFinished w key

/-- The branch of a case whose APIs are missing. -/
def failApis (key : CaseKey) (unavailable : List String) : Py PyException RunState Unit := do
  failCase key fun result => { result with
    status := "unsupported"
    error := some ("Public library APIs unavailable: " ++ ", ".intercalate unavailable) }
  caseFinished w key

/-- A pending case, given how the client was built. -/
def pendingCase (library : LibraryDirs) (client : Except PyException (Dict String Bool))
    (key : CaseKey) : Py PyException RunState Unit :=
  match client with
  | .error error => failClient w key error
  | .ok available =>
      -- Only the library driver asks for APIs.
      let unavailable := if key.driver = "library" then missingApis key.behaviorId available else []
      if unavailable ≠ [] then failApis w key unavailable else runCase w library key

/-- One turn of the loop over the inventory. -/
def turn (library : LibraryDirs) (kind : String) (client : Except PyException (Dict String Bool))
    (behavior : Behavior) : Py PyException RunState Unit :=
  if isCase kind behavior = false then pure ()
  else do
    let result ← caseResult (keyOf kind behavior)
    if result.status ≠ "pending" then pure ()
    else pendingCase w library client (keyOf kind behavior)

/-- What the `except` clause around `build_client` names. -/
def clientClasses : List ExcClass :=
  [.contractFailure, .prerequisiteError, .keyError, .valueError, .osError]

/-- `client_error`. No scenario has run yet, including when a compiler times out. -/
def clientError (error : PyException) : PyException :=
  if error.isInstance [.contractFailure] then valueError error.message else error

/-- The client of an interface, or why there is none. -/
def prepareClient (kind : String) : Py PyException RunState
    (Except PyException (Dict String Bool)) :=
  if kind = "library" then
    Py.tryExcept (Py.ofExcept w.buildClient >>= fun available => pure (.ok available))
      (fun error => error.isInstance clientClasses) fun error => pure (.error (clientError error))
  else pure (.ok Dict.empty)

/-- The cases of one interface. -/
def runKind (library : LibraryDirs) (kind : String) : Py PyException RunState Unit := do
  let s ← Py.read id
  -- No client is built for an interface without pending cases.
  if (s.cases.entries.any fun entry => entry.1.driver = kind && entry.2.status = "pending") = false
  then pure ()
  else do
    let client ← prepareClient w kind
    Py.forEach w.suite.inventory (turn w library kind client)

/-! ## The outer `try` -/

/-- The capabilities that some case or requirement asks for. -/
def RunState.knownCapabilities (s : RunState) : List String :=
  s.cases.values.flatMap (fun result => result.requiredCapabilities.getD [])
    ++ w.suite.model.requirements.values.flatMap Requirement.requiredCapabilities

/-- The target, and the gate. -/
def openTarget : Py PyException RunState TargetConfig := do
  let target ← Py.ofExcept w.loadTarget
  Py.ofExcept w.recordTarget
  Py.modify fun s => { s with target := some target.name }
  let s ← Py.read id
  Py.ofExcept (raiseIf (∃ c ∈ target.unsupportedCapabilities.keys, c ∉ s.knownCapabilities w)
    (valueError "unsupported_capabilities must map known capabilities to reasons"))
  Py.modify fun s =>
    { s with declaredUnsupportedCapabilities := some target.unsupportedCapabilities }
  Py.forEach s.cases.keys (gateCase w target.unsupportedCapabilities)
  return target

/-- The fixture and the probes of the target. -/
def probeTarget : Py PyException RunState Unit := do
  let arch ← Py.ofExcept w.fixture
  Py.ofExcept w.programs
  let version ← Py.ofExcept w.version
  Py.ofExcept (raiseIf (version.returncode ≠ 0)
    (.ofClass .contractFailure "target version query failed"))
  let text := String.ofList (strip version.stdout.toList)
  Py.modify fun s => { s with
    targetVersion := some text
    cases := s.cases.mapValues fun result => { result with targetVersion := some text } }
  let answer ← Py.ofExcept w.defaultArch
  Py.ofExcept (raiseIf (answer.returncode ≠ 0)
    (.ofClass .contractFailure "target architecture query failed"))
  Py.ofExcept (raiseIf (strip answer.stdout.toList ≠ arch.toList)
    (.ofClass .prerequisiteError "fixture architecture differs from target architecture"))

/-- The outer `try`. -/
def runCases : Py PyException RunState Unit := do
  let target ← openTarget w
  let s ← Py.read id
  Py.ofExcept (raiseIf (s.anyPending = false)
    (.ofClass .unsupportedCapability "target declares all selected scenarios unsupported"))
  probeTarget w
  Py.forEach w.arguments.driver.kinds (runKind w target.library)

/-- The outer `except`, for one case. -/
def failPending (error : PyException) (key : CaseKey) : Py PyException RunState Unit := do
  let result ← caseResult key
  if result.status = "pending" then do
    Py.modify fun s => { s with cases := s.cases.update key (failedWith error) }
    caseFinished w key

/-- The outer `except`. -/
def setupFailed (error : PyException) : Py PyException RunState Unit := do
  Py.modify fun s => { s with
    setupError := some error.message, setupStatus := some (failureStatus error) }
  let s ← Py.read id
  -- A case that has finished keeps its result.
  Py.forEach s.cases.keys (failPending w error)
  Py.modify fun s => { s with status := 1 }
  Py.ofExcept w.printSetupError

/-- `report["artifact_integrity"]["status"] == "verified"`. -/
def RunState.isVerified (s : RunState) : Bool :=
  s.artifactIntegrity.bind ArtifactIntegrity.status = some "verified"

/-- The outer `finally`. -/
def completeRun (started : ℚ) : Py PyException RunState Unit := do
  Py.modify fun s => { s with complete := some (!s.anyPending) }
  Py.modify fun s => { s with artifactIntegrity := some w.checkArtifacts }
  -- Both tests can only fail the run: a status of 1 is never taken back.
  Py.modify fun s => { s with status := if s.isVerified = true then s.status else 1 }
  let s ← Py.read id
  let coverage ← Py.ofExcept (w.summarize s)
  Py.modify fun s => { s with coverage := some coverage }
  Py.modify fun s => { s with status := if coverage = .current then s.status else 1 }
  let finished ← runNow w
  Py.modify fun s => { s with durationSeconds := some (finished - started) }
  Py.ofExcept w.writeReport
  Py.ofExcept w.writeCoverage

/-! ## The exit status -/

/-- `startswith(security_sensitive_prefixes)`, or the one behavior of a transaction. -/
def securitySensitive (behavior : String) : Bool :=
  (["auth.", "remote-auth.", "multiuser.auth-", "sandbox.", "oci-signatures."].any fun p =>
    startsWith behavior p) || behavior = "transaction.pre-auth"

/-- `expected_scenario_failures_only(report, status, summary_delivered)`. -/
def expectedScenarioFailuresOnly (s : RunState) (summaryDelivered : Bool) : Bool :=
  let results := s.cases.values
  s.status = 1 && summaryDelivered && s.complete = some true && s.setupError.isNone
    && results.any (fun result => result.status = "failed")
    && !results.any (fun result => result.status = "failed" && securitySensitive result.behaviorId)
    && results.all (fun result => result.status ∈ ["passed", "failed", "not-selected"])
    && s.isVerified && s.coverage = some .current

/-- The delivery of the job summary: whether it succeeded. -/
def deliverSummary : Py PyException RunState Bool :=
  if w.stepSummary = false then pure true
  else Py.tryExcept (Py.ofExcept w.writeSummary >>= fun _ => pure true)
    (fun error => error.isInstance [.osError]) fun _ => do
      Py.ofExcept w.printSummaryError
      Py.modify fun s => { s with status := 1 }
      return false

/-- `main()`, behind the argument parser and the creation of the output directory. -/
def main : Py PyException RunState ℕ := do
  let started ← runNow w
  Py.ofExcept w.writeInitial
  Py.tryFinally
    (Py.tryExcept (runCases w) (fun error => error.isInstance runClasses) (setupFailed w))
    (completeRun w started)
  Py.ofExcept w.printSummary
  let summaryDelivered ← deliverSummary w
  let s ← Py.read id
  -- The only way from a failed run to the exit status 0.
  if w.arguments.allowExpectedFailures && expectedScenarioFailuresOnly s summaryDelivered then
    return 0
  return s.status

/-- The variables of `main` when its cases are set up. -/
def World.initial : RunState := { cases := initialCases w.suite w.arguments }

end Run

end Runner

end FlatpakBlackbox
