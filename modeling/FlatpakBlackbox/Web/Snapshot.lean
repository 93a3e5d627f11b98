import FlatpakBlackbox.Coverage.Verification
import FlatpakBlackbox.Web.Schema
import FlatpakBlackbox.Web.Timestamp

set_option autoImplicit false

/-! # Snapshots

The history entries of the web application: `history.ts`, `baselines.ts` and `failureDetails.ts`.
Every type carries what its schema checks, so a snapshot in this development is a snapshot that
`snapshotSchema` accepts.
-/

namespace FlatpakBlackbox

open PyLib

/-! ## Enumerations -/

/-- `Track`. -/
inductive Track where
  | pinned
  | upstream
  deriving DecidableEq, Repr

def Track.text : Track → String
  | .pinned => "pinned"
  | .upstream => "upstream"

/-- `CaseStatus`. -/
inductive CaseStatus where
  | passed
  | failed
  | setupError
  | unmetPrerequisite
  | unsupported
  | notSelected
  | pending
  deriving DecidableEq, Repr

def CaseStatus.text : CaseStatus → String
  | .passed => "passed"
  | .failed => "failed"
  | .setupError => "setup-error"
  | .unmetPrerequisite => "unmet-prerequisite"
  | .unsupported => "unsupported"
  | .notSelected => "not-selected"
  | .pending => "pending"

inductive CaseDriver where
  | cli
  | library
  deriving DecidableEq, Repr

def CaseDriver.text : CaseDriver → String
  | .cli => "cli"
  | .library => "library"

inductive CaseProfile where
  | user
  | system
  | any
  deriving DecidableEq, Repr

def CaseProfile.text : CaseProfile → String
  | .user => "user"
  | .system => "system"
  | .any => "any"

namespace Schema

def track : Schema Track :=
  enumeration [.pinned, .upstream] Track.text fun a => by cases a <;> decide

def caseStatus : Schema CaseStatus :=
  enumeration [.passed, .failed, .setupError, .unmetPrerequisite, .unsupported, .notSelected,
    .pending] CaseStatus.text fun a => by cases a <;> decide

def caseDriver : Schema CaseDriver :=
  enumeration [.cli, .library] CaseDriver.text fun a => by cases a <;> decide

def caseProfile : Schema CaseProfile :=
  enumeration [.user, .system, .any] CaseProfile.text fun a => by cases a <;> decide

def verificationStatus : Schema VerificationStatus :=
  enumeration [.current, .notRun, .incomplete, .stale, .invalid, .unversioned]
    VerificationStatus.text fun a => by cases a <;> decide

/-- `timestampSchema`. -/
def timestamp : Schema Timestamp where
  parse v := v.asStr?.bind Timestamp.ofText?
  write t := .str t.text
  parse_write := Timestamp.ofText?_text

end Schema

/-! ## Case timings -/

/-- A nonnegative number of seconds. -/
abbrev Seconds := {q : ℚ // 0 ≤ q}

/-- One entry of `FailureDetails.evidence`. -/
structure FailureEvidence where
  title : String
  body : String
  deriving DecidableEq

/-- `FailureDetails`. -/
structure FailureDetails where
  error : Option String
  cleanupError : Option String
  evidence : List FailureEvidence
  truncated : Bool
  deriving DecidableEq

/-- The phases of a `CaseTiming`. -/
structure PhaseTimings where
  setupSeconds : Seconds
  executionSeconds : Seconds
  cleanupSeconds : Seconds
  deriving DecidableEq

/-- `CaseTiming`. -/
structure CaseTiming where
  behaviorId : String
  driver : CaseDriver
  profile : CaseProfile
  status : CaseStatus
  failureDetails : Option FailureDetails
  durationSeconds : Option Seconds
  timings : Option PhaseTimings
  deriving DecidableEq

/-- `caseKey(item)`: the JSON text of the three parts is determined by them and determines them. -/
def CaseTiming.caseKey (item : CaseTiming) : CaseKey :=
  ⟨item.behaviorId, item.driver.text, item.profile.text⟩

namespace Schema

def failureEvidence : Schema FailureEvidence :=
  ((Fields.required "title" string).both (.required "body" string)).schema (by decide)
    |>.map (fun (title, body) => ⟨title, body⟩) (fun e => (e.title, e.body)) fun _ => rfl

/-- `failureDetailsSchema`. -/
def failureDetails : Schema FailureDetails :=
  ((Fields.optional "error" string).both <| (Fields.optional "cleanup_error" string).both <|
      (Fields.required "evidence" (array failureEvidence)).both <|
      Fields.required "truncated" boolean).schema (by decide)
    |>.map (fun (error, cleanupError, evidence, truncated) =>
        { error, cleanupError, evidence, truncated })
      (fun d => (d.error, d.cleanupError, d.evidence, d.truncated)) fun _ => rfl

def phaseTimings : Schema PhaseTimings :=
  ((Fields.required "setup_seconds" seconds).both <|
      (Fields.required "execution_seconds" seconds).both <|
      Fields.required "cleanup_seconds" seconds).schema (by decide)
    |>.map (fun (setupSeconds, executionSeconds, cleanupSeconds) =>
        { setupSeconds, executionSeconds, cleanupSeconds })
      (fun t => (t.setupSeconds, t.executionSeconds, t.cleanupSeconds)) fun _ => rfl

/-- `caseTimingSchema`. -/
def caseTiming : Schema CaseTiming :=
  ((Fields.required "behavior_id" string).both <| (Fields.required "driver" caseDriver).both <|
      (Fields.required "profile" caseProfile).both <|
      (Fields.required "status" caseStatus).both <|
      (Fields.optional "failure_details" failureDetails).both <|
      (Fields.optional "duration_seconds" seconds).both <|
      Fields.optional "timings" phaseTimings).schema (by decide)
    |>.map (fun (behaviorId, driver, profile, status, failureDetails, durationSeconds, timings) =>
        { behaviorId, driver, profile, status, failureDetails, durationSeconds, timings })
      (fun t => (t.behaviorId, t.driver, t.profile, t.status, t.failureDetails, t.durationSeconds,
        t.timings)) fun _ => rfl

end Schema

/-! ## Performance -/

/-- The names every object of the counts inherits: they are not numbers. -/
def objectPrototype : List String :=
  ["constructor", "hasOwnProperty", "isPrototypeOf", "propertyIsEnumerable", "toLocaleString",
    "toString", "valueOf", "__proto__", "__defineGetter__", "__defineSetter__",
    "__lookupGetter__", "__lookupSetter__"]

/-- `counts[status] ?? 0`: a number, or `none` for an inherited property. -/
def countOf (counts : Dict String Nat) (status : String) : Option Nat :=
  match counts.get? status with
  | some n => some n
  | none => if status ∈ objectPrototype then none else some 0

/-- The counting loop of `performanceSchema`, `inventoryComplete` and `record`. -/
def statusCounts (cases : List CaseTiming) : Dict String Nat :=
  cases.foldl (fun counts item => counts.increment item.status.text) Dict.empty

/-- The counts of the cases are the recorded counts. -/
def countsMatch (cases : List CaseTiming) (recorded : Dict String Nat) : Bool :=
  ((statusCounts cases).keys ++ recorded.keys).all fun status =>
    countOf (statusCounts cases) status = countOf recorded status

/-- The performance record of a snapshot. -/
structure Performance where
  durationSeconds : Option Seconds
  caseStatuses : Dict String Nat
  cases : List CaseTiming
  casesComplete : Option Bool
  unique : (cases.map CaseTiming.caseKey).Nodup
  counted : casesComplete = some true → countsMatch cases caseStatuses = true

/-- `performanceSchema`. -/
def Schema.performance : Schema Performance :=
  ((Fields.optional "duration_seconds" seconds).both <|
      (Fields.required "case_statuses" (record count)).both <|
      (Fields.required "cases" (array caseTiming)).both <|
      Fields.optional "cases_complete" boolean).schema (by decide)
    |>.refine (fun p => (p.2.2.1.map CaseTiming.caseKey).Nodup
        ∧ (p.2.2.2 = some true → countsMatch p.2.2.1 p.2.1 = true))
    |>.map (fun p => ⟨p.1.1, p.1.2.1, p.1.2.2.1, p.1.2.2.2, p.2.1, p.2.2⟩)
      (fun p => ⟨(p.durationSeconds, p.caseStatuses, p.cases, p.casesComplete),
        p.unique, p.counted⟩)
      fun _ => rfl

/-! ## Metrics and baselines -/

/-- A percentage, where there is one. -/
abbrev Percent := {q : ℚ // 0 ≤ q ∧ q ≤ 100}

/-- `Metric`. -/
structure Metric where
  total : Nat
  implemented : Nat
  implementedPercent : Option Percent
  passed : Option Nat
  passedPercent : Option Percent
  implemented_le : implemented ≤ total
  passed_le : ∀ n, passed = some n → n ≤ total

/-- `metricSchema`. -/
def Schema.metric : Schema Metric :=
  let percent : Schema (Option Percent) := (number.refine _).nullable fun _ => nofun
  ((Fields.required "total" count).both <| (Fields.required "implemented" count).both <|
      (Fields.required "implemented_percent" percent).both <|
      (Fields.required "passed" (count.nullable fun _ => nofun)).both <|
      Fields.required "passed_percent" percent).schema (by decide)
    |>.refine (fun m => m.2.1 ≤ m.1 ∧ ∀ n ∈ m.2.2.2.1, n ≤ m.1)
    |>.map (fun m => ⟨m.1.1, m.1.2.1, m.1.2.2.1, m.1.2.2.2.1, m.1.2.2.2.2, m.2.1, m.2.2⟩)
      (fun m => ⟨(m.total, m.implemented, m.implementedPercent, m.passed, m.passedPercent),
        m.implemented_le, m.passed_le⟩) fun _ => rfl

/-- `/^[0-9][0-9A-Za-z.+-]*$/`. -/
def isVersion (cs : List Char) : Bool :=
  cs.head?.any Char.isDigit && cs.all fun c => c.isAlphanum || c = '.' || c = '+' || c = '-'

/-- `/^[0-9a-f]{40}$/`. -/
def isCommit (cs : List Char) : Bool :=
  cs.length = 40 && cs.all fun c => c.isDigit || ('a' ≤ c && c ≤ 'f')

/-- `/^refs\/tags\/[0-9][0-9A-Za-z.+-]*$/`. -/
def isTagRef (cs : List Char) : Bool :=
  "refs/tags/".toList.isPrefixOf cs && isVersion (cs.drop 10)

/-- `Baseline`. -/
structure Baseline where
  version : String
  commit : String
  ref : Option String
  version_ok : isVersion version.toList = true
  commit_ok : isCommit commit.toList = true
  ref_ok : ∀ r ∈ ref, isTagRef r.toList = true

/-- `baselineSchema`. -/
def Schema.baseline : Schema Baseline :=
  ((Fields.required "version" (string.refine fun s => isVersion s.toList = true)).both <|
      (Fields.required "commit" (string.refine fun s => isCommit s.toList = true)).both <|
      Fields.optional "ref" (string.refine fun s => isTagRef s.toList = true)).schema (by decide)
    |>.map (fun b => ⟨b.1, b.2.1, b.2.2.map Subtype.val, b.1.2, b.2.1.2, by
        intro r hr
        obtain ⟨x, -, rfl⟩ := Option.mem_map.mp hr
        exact x.2⟩)
      (fun b => (⟨b.version, b.version_ok⟩, ⟨b.commit, b.commit_ok⟩,
        b.ref.attach.map fun r => ⟨r.1, b.ref_ok r.1 r.2⟩))
      fun b => by
        obtain ⟨version, commit, ref, _, _, _⟩ := b
        cases ref <;> rfl

/-- `baselineConfig`: the definitions of `ci/baselines.json`, which all have a tag. -/
structure BaselineConfig where
  baselines : List Baseline
  nonempty : baselines ≠ []
  unique : (baselines.map Baseline.commit).Nodup
  tagged : ∀ b ∈ baselines, b.ref.isSome = true

/-- `findBaseline(commit)`. -/
def BaselineConfig.findBaseline (config : BaselineConfig) (commit : String) : Option Baseline :=
  config.baselines.find? fun item => item.commit = commit

theorem BaselineConfig.commit_of_findBaseline {config : BaselineConfig} {commit : String}
    {b : Baseline} (h : config.findBaseline commit = some b) : b.commit = commit := by
  simpa using List.find?_some h

/-! ## Snapshots -/

/-- `workflow` of a snapshot. -/
structure Workflow where
  event : String
  createdAt : Timestamp

/-- `Snapshot`. -/
structure Snapshot where
  track : Track
  timestamp : Timestamp
  complete : Bool
  verification : VerificationStatus
  suiteCommit : String
  targetCommit : String
  baseline : Option Baseline
  targetVersion : Option String
  runUrl : String
  workflow : Option Workflow
  fingerprint : String
  metrics : Dict String Metric
  performance : Option Performance
  pinned : ∀ b ∈ baseline, track = .pinned ∧ b.commit = targetCommit

namespace Schema

def workflow : Schema Workflow :=
  ((Fields.required "event" string).both (.required "created_at" timestamp)).schema (by decide)
    |>.map (fun (event, createdAt) => ⟨event, createdAt⟩) (fun w => (w.event, w.createdAt))
      fun _ => rfl

/-- `snapshotSchema`. -/
def snapshot : Schema Snapshot :=
  ((Fields.required "schema" one).both <| (Fields.required "track" track).both <|
      (Fields.required "timestamp" timestamp).both <| (Fields.required "complete" boolean).both <|
      (Fields.required "verification" verificationStatus).both <|
      (Fields.required "suite_commit" string).both <|
      (Fields.required "target_commit" string).both <|
      (Fields.optional "baseline" baseline).both <|
      (Fields.optional "target_version" string).both <| (Fields.required "run_url" string).both <|
      (Fields.optional "workflow" workflow).both <| (Fields.required "fingerprint" string).both <|
      (Fields.required "metrics" (record metric)).both <|
      Fields.optional "performance" performance).schema (by decide)
    |>.refine (fun (_, track, _, _, _, _, targetCommit, baseline, _) =>
        ∀ b ∈ baseline, track = .pinned ∧ b.commit = targetCommit)
    |>.map (fun ⟨(_, track, timestamp, complete, verification, suiteCommit, targetCommit, baseline,
          targetVersion, runUrl, workflow, fingerprint, metrics, performance), h⟩ =>
        ⟨track, timestamp, complete, verification, suiteCommit, targetCommit, baseline,
          targetVersion, runUrl, workflow, fingerprint, metrics, performance, h⟩)
      (fun s => ⟨((), s.track, s.timestamp, s.complete, s.verification, s.suiteCommit,
        s.targetCommit, s.baseline, s.targetVersion, s.runUrl, s.workflow, s.fingerprint,
        s.metrics, s.performance), s.pinned⟩)
      fun _ => rfl

/-- `historySchema`. -/
def history : Schema (List Snapshot) := array snapshot

end Schema

end FlatpakBlackbox
