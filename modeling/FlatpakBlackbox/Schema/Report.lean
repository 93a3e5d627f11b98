import FlatpakBlackbox.Schema.Catalogue
import FlatpakBlackbox.Schema.Fixture

set_option autoImplicit false

/-! # Execution reports

`report_schema.py`: the annotation of a report, `parseReport`, and the typed view of a parsed
report that coverage accounting reads. Optional fields are `Option`s: their presence does not
establish that a report may earn credit, `Coverage/Verification.lean` checks that.
-/

namespace FlatpakBlackbox

open PyLib PyException

namespace TypeHint

def definition : TypeHint := .typedDict [
  req "schema" .int, req "fingerprint" .str, req "files" (strDict .str),
  req "policy_sha256" .str, req "loader_sha256" .str, req "reference_commit" .str]

/-- The fields of `CaseIdentity`. -/
def caseIdentityFields : List (String × Bool × TypeHint) := [
  req "behavior_id" .str, req "driver" .str, req "profile" .str]

def repositoryRequest : TypeHint := .typedDict [
  req "path" .str, req "version" .str, req "blocked" .bool]

/-- The fields of `SideloadNetworkObservation`. -/
def sideloadFields : List (String × Bool × TypeHint) := [req "requests" (.list repositoryRequest)]

def evidenceRecord : TypeHint := .typedDict [
  opt "argv" (.list .str), opt "cli_argv" (.list .str), opt "interface" .str,
  opt "exit_status" .int, opt "stdout" .str, opt "stderr" .str, opt "api_calls" (.list .str),
  opt "signals" (.list .str), opt "observation" .str, opt "data" .jsonValue, opt "error" .str,
  opt "timed_out" .bool, opt "role" .str, opt "mode" .str, opt "xdg_data_home" .str,
  opt "cleanup_confirmed" .bool,
  opt "query_network_observation" (.typedDict (sideloadFields ++ [
    req "cached_query_requests" .int, req "uncached_query_requests" .int])),
  opt "sideload_image_network_observation" (.typedDict (sideloadFields ++ [
    req "remote_contains_images" .bool])),
  opt "sideload_network_observation" (.typedDict sideloadFields)]

def caseTimings : TypeHint := .typedDict [
  req "setup_seconds" .float, req "execution_seconds" .float, req "cleanup_seconds" .float]

def caseResult : TypeHint := .typedDict (caseIdentityFields ++ [
  req "status" .str, opt "duration_seconds" .float, opt "timings" caseTimings,
  opt "evidence" (.list evidenceRecord), opt "cleanup_complete" .bool, opt "cleanup_error" .str,
  opt "error" .str, opt "target_version" (orNone .str),
  opt "required_capabilities" (.list .str), opt "unsupported_capabilities" (strDict .str),
  opt "state_directory" .str, opt "repository_requests" (.list repositoryRequest)])

/-- The fields of `ArtifactProvenance`. -/
def artifactFields : List (String × Bool × TypeHint) := [opt "path" .str, opt "sha256" .str]

def targetProvenance : TypeHint := .typedDict [
  opt "configuration_sha256" .str, opt "cli_path" .str, opt "cli_sha256" .str,
  opt "adapter_files" (.list (.typedDict artifactFields))]

def fixtureProvenance : TypeHint := .typedDict [opt "path" .str, opt "manifest_sha256" .str]

def libraryProvenance : TypeHint := .typedDict (artifactFields ++ [
  opt "package_version" .str, opt "client_sha256" .str, opt "api_features" (strDict .bool)])

def artifactIntegrity : TypeHint := .typedDict [
  opt "status" .str, opt "errors" (.list .str), opt "changed_paths" (.list .str)]

def coverageMetric : TypeHint := .typedDict [
  req "total" .int, req "implemented" .int, req "implemented_percent" (orNone .float),
  req "passed" (orNone .int), req "passed_percent" (orNone .float)]

def identityLists : TypeHint := strDict (.list (.typedDict caseIdentityFields))

def coverageSummary : TypeHint := .typedDict [
  req "schema" .int, req "definition" definition,
  req "verification" (.typedDict [req "status" .str, req "reason" .str]),
  req "metrics" (.typedDict [
    req "behaviors" (strDict coverageMetric), req "surfaces" (strDict coverageMetric),
    req "profiles" (strDict (strDict coverageMetric)),
    req "categories" (strDict (strDict coverageMetric))]),
  req "case_statuses" (strDict .int), req "evidence" identityLists,
  req "interface_evidence" identityLists,
  req "requirement_capabilities" (strDict (.list .str)),
  req "all_possible_behavior_percent" .none,
  req "recorded_execution" (orNone (strDict .jsonValue)),
  req "surfaces_without_catalogued_requirements" (.list .str),
  req "unimplemented_requirements" (.list .str),
  req "unverified_requirements" (orNone (.list .str)), req "limitations" (.list .str),
  opt "cli_option_accounting" (.typedDict [
    req "equivalence_checks" coverageMetric, req "accounted" coverageMetric,
    req "equivalence_evidence" identityLists])]

/-- `RunReport`. -/
def runReport : TypeHint := .typedDict [
  req "schema" .int, opt "duration_seconds" .float, opt "results" (.list caseResult),
  opt "coverage_definition" definition, opt "complete" .bool, opt "target" .str,
  opt "target_configuration" .str, opt "target_version" .str, opt "started_at" .str,
  opt "finished_at" .str, opt "target_provenance" targetProvenance,
  opt "library_provenance" libraryProvenance, opt "fixture_provenance" fixtureProvenance,
  opt "artifact_integrity" artifactIntegrity,
  opt "declared_unsupported_capabilities" (strDict .str),
  opt "setup_evidence" (.list evidenceRecord), opt "setup_error" .str, opt "setup_status" .str,
  opt "full_compatibility" .bool, opt "fixture" fixtureManifest, opt "gaps" (.list gapBehavior),
  opt "coverage" coverageSummary]

end TypeHint

/-! ## `parse_report` -/

/-- The integers that round to a finite float lie below this bound. -/
def floatIntegerBound : Int := 2 ^ 1024 - 2 ^ 970

theorem floatIntegerBound_pos : 0 < floatIntegerBound :=
  sub_pos.mpr (pow_lt_pow_right₀ (by norm_num) (by norm_num))

/-- `_seconds(value, path)`: finite and nonnegative. -/
def checkSeconds (value : Value) (path : String) : Except PyException Unit :=
  let valid := match value with
    | .int i => decide (0 ≤ i ∧ i < floatIntegerBound)
    | .float (.finite q) => decide (0 ≤ q)
    | _ => false
  raiseIf (valid = false) (validationError s!"{path}: expected finite nonnegative seconds")

/-- The check of `_check_observations` on one record. -/
def checkObservation (record : Value) (path : String) : Except PyException Unit :=
  match record.field? "query_network_observation" with
  | some observation =>
      ["cached_query_requests", "uncached_query_requests"].forM fun key => do
        let _ ← integer (some 0) ((observation.field? key).getD .none)
          s!"{path}.query_network_observation.{key}"
  | none => .ok ()

/-- `_check_observations(evidence, path)`. -/
def checkObservations (evidence : List Value) (path : String) : Except PyException Unit :=
  evidence.zipIdx.forM fun (record, index) => checkObservation record s!"{path}[{index}]"

/-- `if key in value: check(value[key], f"{path}.{key}")`. -/
def checkPresent (value : Value) (key path : String)
    (check : Value → String → Except PyException Unit) : Except PyException Unit :=
  match value.field? key with
  | some item => check item s!"{path}.{key}"
  | none => .ok ()

/-- `if key in value: value[key] = parse(value[key], f"{path}.{key}")`. -/
def replacePresent (value : Value) (key path : String)
    (parse : Value → String → Except PyException Value) : Except PyException Value :=
  match value.field? key with
  | some item => do
      let parsed ← parse item s!"{path}.{key}"
      return value.setField key parsed
  | none => .ok value

/-- The domain checks of one result. -/
def checkResult (result : Value) (pathPrefix : String) : Except PyException Unit := do
  checkPresent result "duration_seconds" pathPrefix checkSeconds
  (((result.field? "timings").bind Value.asEntries?).getD []).forM fun (key, value) =>
    checkSeconds value s!"{pathPrefix}.timings.{key}"
  checkObservations ((result.list? "evidence").getD []) s!"{pathPrefix}.evidence"

/-- The gaps of a report, each parsed. -/
def parseGaps [UnicodeDatabase] (value : Value) (path : String) : Except PyException Value := do
  let gaps ← array value path
  let parsed ← gaps.zipIdx.mapM fun (gap, index) => parseGap gap s!"{path}[{index}]"
  return .list parsed

/-- `parse_report(value, path)`. -/
def parseReport [UnicodeDatabase] (value : Value) (path : String) : Except PyException Value := do
  let report ← parseTyped .runReport value path
  checkPresent report "duration_seconds" path checkSeconds
  let report ← replacePresent report "fixture" path parseFixture
  let report ← replacePresent report "gaps" path parseGaps
  checkObservations ((report.list? "setup_evidence").getD []) s!"{path}.setup_evidence"
  ((report.list? "results").getD []).zipIdx.forM fun (result, index) =>
    checkResult result s!"{path}.results[{index}]"
  return report

/-! ## What is accepted -/

theorem checkSeconds_path {value : Value} {path : String} (path' : String)
    (h : checkSeconds value path = .ok ()) : checkSeconds value path' = .ok () :=
  raiseIf_of_not (raiseIf_eq_ok.mp h)

theorem checkObservation_path {record : Value} {path : String} (path' : String)
    (h : checkObservation record path = .ok ()) : checkObservation record path' = .ok () := by
  unfold checkObservation at h ⊢
  cases hfield : record.field? "query_network_observation" with
  | none => rfl
  | some observation =>
      rw [hfield] at h
      refine forM_eq_ok.mpr fun key hkey => ?_
      obtain ⟨i, hi, _⟩ := bind_eq_ok.mp (forM_eq_ok.mp h key hkey)
      exact bind_eq_ok.mpr ⟨i, integer_path _ hi, rfl⟩

/-- The records are checked one by one: neither their order nor the path matters. -/
theorem checkObservations_eq_ok {evidence : List Value} {path : String} :
    checkObservations evidence path = .ok () ↔
      ∀ record ∈ evidence, checkObservation record "" = .ok () :=
  forM_zipIdx_eq_ok fun _ _ => ⟨checkObservation_path _, checkObservation_path _⟩

theorem checkPresent_eq_ok {value : Value} {key path : String}
    {check : Value → String → Except PyException Unit} :
    checkPresent value key path check = .ok () ↔
      ∀ item, value.field? key = some item → check item s!"{path}.{key}" = .ok () := by
  unfold checkPresent
  cases value.field? key with
  | none => simp
  | some item => simp

theorem checkResult_path {result : Value} {path : String} (path' : String)
    (h : checkResult result path = .ok ()) : checkResult result path' = .ok () := by
  obtain ⟨_, hseconds, h⟩ := bind_eq_ok.mp h
  obtain ⟨_, htimings, hevidence⟩ := bind_eq_ok.mp h
  refine bind_eq_ok.mpr ⟨(), checkPresent_eq_ok.mpr fun item hitem => ?_, bind_eq_ok.mpr
    ⟨(), forM_eq_ok.mpr fun entry hentry => ?_, ?_⟩⟩
  · exact checkSeconds_path _ (checkPresent_eq_ok.mp hseconds item hitem)
  · exact checkSeconds_path _ (forM_eq_ok.mp htimings entry hentry)
  · exact checkObservations_eq_ok.mpr (checkObservations_eq_ok.mp hevidence)

/-- Replacing a field leaves the others as they are. -/
theorem field?_replacePresent {value replaced : Value} {key key' path : String}
    {parse : Value → String → Except PyException Value}
    (h : replacePresent value key path parse = .ok replaced) (hne : key ≠ key') :
    replaced.field? key' = value.field? key' := by
  unfold replacePresent at h
  cases hfield : value.field? key with
  | none =>
      rw [hfield] at h
      cases h
      rfl
  | some item =>
      rw [hfield] at h
      obtain ⟨parsed, _, h⟩ := bind_eq_ok.mp h
      cases h
      exact Value.field?_setField_ne value parsed hne

/-- Whether a field can be replaced is decided by that field alone. -/
theorem replacePresent_isOk {value other : Value} {key path : String}
    {parse : Value → String → Except PyException Value}
    (hsame : other.field? key = value.field? key)
    (h : ∃ replaced, replacePresent value key path parse = .ok replaced) :
    ∃ replaced, replacePresent other key path parse = .ok replaced := by
  unfold replacePresent at h ⊢
  rw [hsame]
  cases hfield : value.field? key with
  | none => exact ⟨_, rfl⟩
  | some item =>
      rw [hfield] at h
      obtain ⟨_, h⟩ := h
      obtain ⟨parsed, hparsed, _⟩ := bind_eq_ok.mp h
      exact ⟨_, bind_eq_ok.mpr ⟨parsed, hparsed, rfl⟩⟩

/-! ## The typed view -/

/-- `EvidenceRecord`: a recorded command or a supplemental observation. -/
structure EvidenceRecord where
  argv : Option (List String) := none
  cliArgv : Option (List String) := none
  interface : Option String := none
  exitStatus : Option Int := none
  stdout : Option String := none
  stderr : Option String := none
  apiCalls : Option (List String) := none
  signals : Option (List String) := none
  observation : Option String := none
  data : Option Value := none

def EvidenceRecord.ofValue (v : Value) : EvidenceRecord where
  argv := v.strs? "argv"
  cliArgv := v.strs? "cli_argv"
  interface := v.str? "interface"
  exitStatus := v.int? "exit_status"
  stdout := v.str? "stdout"
  stderr := v.str? "stderr"
  apiCalls := v.strs? "api_calls"
  signals := v.strs? "signals"
  observation := v.str? "observation"
  data := v.field? "data"

/-- `RepositoryRequest`. -/
structure RepositoryRequest where
  path : String
  version : String
  blocked : Bool
  deriving DecidableEq, Repr

def RepositoryRequest.ofValue (v : Value) : RepositoryRequest :=
  ⟨(v.str? "path").getD "", (v.str? "version").getD "", (v.bool? "blocked").getD false⟩

/-- `CaseTimings`. -/
structure CaseTimings where
  setupSeconds : ℚ
  executionSeconds : ℚ
  cleanupSeconds : ℚ
  deriving DecidableEq, Repr

/-- The seconds under `key`. -/
def Value.seconds? (v : Value) (key : String) : Option ℚ := (v.field? key).bind Value.asNumber?

def CaseTimings.ofValue (v : Value) : CaseTimings :=
  ⟨(v.seconds? "setup_seconds").getD 0, (v.seconds? "execution_seconds").getD 0,
    (v.seconds? "cleanup_seconds").getD 0⟩

/-- `CaseResult`. -/
structure CaseResult where
  behaviorId : String
  driver : String
  profile : String
  status : String
  durationSeconds : Option ℚ := none
  timings : Option CaseTimings := none
  evidence : Option (List EvidenceRecord) := none
  cleanupComplete : Option Bool := none
  cleanupError : Option String := none
  error : Option String := none
  targetVersion : Option String := none
  requiredCapabilities : Option (List String) := none
  unsupportedCapabilities : Option (List (String × String)) := none
  stateDirectory : Option String := none
  repositoryRequests : Option (List RepositoryRequest) := none

/-- `case_key(result)`. -/
def CaseResult.caseKey (r : CaseResult) : CaseKey := ⟨r.behaviorId, r.driver, r.profile⟩

def CaseResult.ofValue (v : Value) : CaseResult where
  behaviorId := (v.str? "behavior_id").getD ""
  driver := (v.str? "driver").getD ""
  profile := (v.str? "profile").getD ""
  status := (v.str? "status").getD ""
  durationSeconds := v.seconds? "duration_seconds"
  timings := (v.field? "timings").map CaseTimings.ofValue
  evidence := (v.list? "evidence").map fun records => records.map EvidenceRecord.ofValue
  cleanupComplete := v.bool? "cleanup_complete"
  cleanupError := v.str? "cleanup_error"
  error := v.str? "error"
  targetVersion := v.str? "target_version"
  requiredCapabilities := v.strs? "required_capabilities"
  unsupportedCapabilities := v.strMap? "unsupported_capabilities"
  stateDirectory := v.str? "state_directory"
  repositoryRequests := (v.list? "repository_requests").map fun requests =>
    requests.map RepositoryRequest.ofValue

/-- `ArtifactProvenance`. -/
structure ArtifactProvenance where
  path : Option String
  sha256 : Option String
  deriving DecidableEq, Repr

def ArtifactProvenance.ofValue (v : Value) : ArtifactProvenance := ⟨v.str? "path", v.str? "sha256"⟩

/-- `TargetProvenance`. -/
structure TargetProvenance where
  configurationSha256 : Option String
  cliPath : Option String
  cliSha256 : Option String
  adapterFiles : Option (List ArtifactProvenance)
  deriving DecidableEq, Repr

def TargetProvenance.ofValue (v : Value) : TargetProvenance where
  configurationSha256 := v.str? "configuration_sha256"
  cliPath := v.str? "cli_path"
  cliSha256 := v.str? "cli_sha256"
  adapterFiles := (v.list? "adapter_files").map fun files => files.map ArtifactProvenance.ofValue

/-- `FixtureProvenance`. -/
structure FixtureProvenance where
  path : Option String
  manifestSha256 : Option String
  deriving DecidableEq, Repr

def FixtureProvenance.ofValue (v : Value) : FixtureProvenance :=
  ⟨v.str? "path", v.str? "manifest_sha256"⟩

/-- `LibraryProvenance`. -/
structure LibraryProvenance where
  path : Option String := none
  sha256 : Option String := none
  packageVersion : Option String := none
  clientSha256 : Option String := none
  apiFeatures : Option (List (String × Bool)) := none
  deriving DecidableEq, Repr

def LibraryProvenance.ofValue (v : Value) : LibraryProvenance where
  path := v.str? "path"
  sha256 := v.str? "sha256"
  packageVersion := v.str? "package_version"
  clientSha256 := v.str? "client_sha256"
  apiFeatures := ((v.field? "api_features").bind Value.asEntries?).map fun entries =>
    entries.filterMap fun (key, item) => item.asBool?.map fun b => (key, b)

/-- `ArtifactIntegrity`. -/
structure ArtifactIntegrity where
  status : Option String
  changedPaths : Option (List String)
  deriving DecidableEq, Repr

def ArtifactIntegrity.ofValue (v : Value) : ArtifactIntegrity :=
  ⟨v.str? "status", v.strs? "changed_paths"⟩

/-- The fields of a report that `summarize` copies into `recorded_execution`. -/
def recordedKeys : List String :=
  ["target", "target_version", "target_provenance", "library_provenance", "started_at",
    "finished_at", "declared_unsupported_capabilities"]

/-- `RunReport`, as coverage accounting reads it. -/
structure RunReport where
  results : List CaseResult := []
  coverageDefinition : Option Value := none
  complete : Option Bool := none
  target : Option String := none
  targetVersion : Option String := none
  startedAt : Option String := none
  finishedAt : Option String := none
  targetProvenance : Option TargetProvenance := none
  libraryProvenance : Option LibraryProvenance := none
  fixtureProvenance : Option FixtureProvenance := none
  artifactIntegrity : Option ArtifactIntegrity := none
  recorded : List (String × Value) := []

def RunReport.ofValue (v : Value) : RunReport where
  results := ((v.list? "results").getD []).map CaseResult.ofValue
  coverageDefinition := v.field? "coverage_definition"
  complete := v.bool? "complete"
  target := v.str? "target"
  targetVersion := v.str? "target_version"
  startedAt := v.str? "started_at"
  finishedAt := v.str? "finished_at"
  targetProvenance := (v.field? "target_provenance").map TargetProvenance.ofValue
  libraryProvenance := (v.field? "library_provenance").map LibraryProvenance.ofValue
  fixtureProvenance := (v.field? "fixture_provenance").map FixtureProvenance.ofValue
  artifactIntegrity := (v.field? "artifact_integrity").map ArtifactIntegrity.ofValue
  recorded := recordedKeys.map fun key => (key, (v.field? key).getD .none)

/-- Coverage accounting reads no field that parsing replaces. -/
theorem ofValue_congr {value other : Value}
    (h : ∀ key, key ≠ "fixture" → key ≠ "gaps" → other.field? key = value.field? key) :
    RunReport.ofValue other = RunReport.ofValue value := by
  have hrecorded : recordedKeys.map (fun key => (key, (other.field? key).getD .none))
      = recordedKeys.map fun key => (key, (value.field? key).getD .none) := by
    refine List.map_congr_left fun key hkey => ?_
    have hne : key ≠ "fixture" ∧ key ≠ "gaps" := by
      revert key
      decide
    rw [h key hne.1 hne.2]
  unfold RunReport.ofValue Value.list? Value.bool? Value.str?
  rw [hrecorded]
  simp only [ne_eq, String.reduceEq, not_false_eq_true, h]

section Accepted

variable [UnicodeDatabase]

/-- What `parse_report` checks of a report, field by field. -/
structure ReportAccepted (json : Value) (path : String) : Prop where
  accepts : TypeHint.runReport.Accepts json
  seconds : checkPresent json "duration_seconds" path checkSeconds = .ok ()
  fixture : ∃ replaced, replacePresent json "fixture" path parseFixture = .ok replaced
  gaps : ∃ replaced, replacePresent json "gaps" path parseGaps = .ok replaced
  setup : ∀ record ∈ (json.list? "setup_evidence").getD [], checkObservation record "" = .ok ()
  results : ∀ result ∈ (json.list? "results").getD [], checkResult result "" = .ok ()

omit [UnicodeDatabase] in
/-- The results are checked one by one: neither their order nor the path matters. -/
theorem checkResults_eq_ok {results : List Value} {path : String} :
    (results.zipIdx.forM fun (result, index) => checkResult result s!"{path}.results[{index}]") =
      .ok () ↔ ∀ result ∈ results, checkResult result "" = .ok () :=
  forM_zipIdx_eq_ok fun _ _ => ⟨checkResult_path _, checkResult_path _⟩

/-- **What a parsed report is.** Replacing the fixture and the gaps changes no other field, so every
check is one on the report as it was received. -/
theorem of_parseReport_eq_ok {value parsed : Value} {path : String}
    (h : parseReport value path = .ok parsed) :
    ∃ json, jsonValue value path = .ok json ∧ ReportAccepted json path ∧
      ∀ key, key ≠ "fixture" → key ≠ "gaps" → parsed.field? key = json.field? key := by
  obtain ⟨json, htyped, h⟩ := bind_eq_ok.mp h
  obtain ⟨_, hseconds, h⟩ := bind_eq_ok.mp h
  obtain ⟨report, hfixture, h⟩ := bind_eq_ok.mp h
  obtain ⟨report', hgaps, h⟩ := bind_eq_ok.mp h
  obtain ⟨_, hsetup, h⟩ := bind_eq_ok.mp h
  obtain ⟨_, hresults, h⟩ := bind_eq_ok.mp h
  obtain ⟨_, hjson, htyped⟩ := bind_eq_ok.mp htyped
  obtain ⟨_, haccepts, htyped⟩ := bind_eq_ok.mp htyped
  cases htyped
  obtain rfl := Except.ok.inj h
  have hsame : ∀ key, key ≠ "fixture" → key ≠ "gaps" → report'.field? key = json.field? key :=
    fun key hf hg => (field?_replacePresent hgaps hg.symm).trans
      (field?_replacePresent hfixture hf.symm)
  refine ⟨json, hjson, ⟨(accepts_iff path).mpr haccepts, hseconds, ⟨_, hfixture⟩,
    replacePresent_isOk (field?_replacePresent hfixture (by decide)).symm ⟨_, hgaps⟩, ?_, ?_⟩,
      hsame⟩
  · have hsetup := checkObservations_eq_ok.mp hsetup
    rwa [Value.list?, hsame _ (by decide) (by decide)] at hsetup
  · have hresults := checkResults_eq_ok.mp hresults
    rwa [Value.list?, hsame _ (by decide) (by decide)] at hresults

/-- **The inversion of `parse_report`.** -/
theorem parseReport_isOk_iff {value : Value} {path : String} :
    (∃ parsed, parseReport value path = .ok parsed) ↔
      ∃ json, jsonValue value path = .ok json ∧ ReportAccepted json path := by
  constructor
  · rintro ⟨parsed, h⟩
    obtain ⟨json, hjson, haccepted, _⟩ := of_parseReport_eq_ok h
    exact ⟨json, hjson, haccepted⟩
  · rintro ⟨json, hjson, h⟩
    obtain ⟨report, hfixture⟩ := h.fixture
    obtain ⟨report', hgaps⟩ := replacePresent_isOk
      (field?_replacePresent hfixture (by decide)) h.gaps
    have hsame : ∀ key, key ≠ "fixture" → key ≠ "gaps" → report'.field? key = json.field? key :=
      fun key hf hg => (field?_replacePresent hgaps hg.symm).trans
        (field?_replacePresent hfixture hf.symm)
    have hsetup := h.setup
    have hresults := h.results
    rw [Value.list?, ← hsame _ (by decide) (by decide)] at hsetup hresults
    exact ⟨report', bind_eq_ok.mpr ⟨json, bind_eq_ok.mpr ⟨json, hjson, bind_eq_ok.mpr
      ⟨(), h.accepts path, rfl⟩⟩, bind_eq_ok.mpr ⟨(), h.seconds, bind_eq_ok.mpr ⟨report, hfixture,
      bind_eq_ok.mpr ⟨report', hgaps, bind_eq_ok.mpr ⟨(), checkObservations_eq_ok.mpr hsetup,
      bind_eq_ok.mpr ⟨(), checkResults_eq_ok.mpr hresults, rfl⟩⟩⟩⟩⟩⟩⟩

/-- A report stays accepted where another field is set, to a value of its annotation. -/
theorem ReportAccepted.setField {json item : Value} {path key : String}
    (h : ReportAccepted json path) (haccepts : TypeHint.runReport.Accepts (json.setField key item))
    (hresults : ∀ result ∈ ((json.setField key item).list? "results").getD [],
      checkResult result "" = .ok ())
    (hkey : key ∉ ["duration_seconds", "fixture", "gaps", "setup_evidence"]) :
    ReportAccepted (json.setField key item) path := by
  simp only [List.mem_cons, List.not_mem_nil, or_false, not_or] at hkey
  obtain ⟨hseconds, hfixture, hgaps, hsetup⟩ := hkey
  refine ⟨haccepts, ?_, ?_, ?_, ?_, hresults⟩
  · rw [checkPresent, Value.field?_setField_ne _ _ hseconds]
    exact h.seconds
  · exact replacePresent_isOk (Value.field?_setField_ne _ _ hfixture) h.fixture
  · exact replacePresent_isOk (Value.field?_setField_ne _ _ hgaps) h.gaps
  · rw [Value.list?, Value.field?_setField_ne _ _ hsetup]
    exact h.setup

/-- The view of a parsed report is that of the report as JSON. -/
theorem of_parseReport {value parsed : Value} {path : String}
    (h : parseReport value path = .ok parsed) :
    ∃ json, jsonValue value path = .ok json ∧ TypeHint.runReport.Accepts json
      ∧ RunReport.ofValue parsed = RunReport.ofValue json := by
  obtain ⟨json, hjson, haccepted, hsame⟩ := of_parseReport_eq_ok h
  exact ⟨json, hjson, haccepted.accepts, ofValue_congr hsame⟩

end Accepted

end FlatpakBlackbox
