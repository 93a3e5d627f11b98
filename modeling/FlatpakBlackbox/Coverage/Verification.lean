import FlatpakBlackbox.Coverage.Model
import FlatpakBlackbox.Schema.Report

set_option autoImplicit false

/-! # Verification of a report

When does a report count as evidence? `verification` is the chain of tests at the head of
`CoverageModel.summarize` together with `subject_problem`: the report was recorded for the
current definitions, it is complete, it has exactly one finished result per case, and every
passing result is attributable and backed by command evidence. The chain stops at the first
problem; `ModelData.Verified` says what it means to reach its end, without an order, and
`verifyResults_current_iff` connects the two. Demotion and permutation of results are then facts
about a conjunction.
-/

namespace FlatpakBlackbox

open PyLib PyException

/-! ## Command evidence -/

/-- `invoked_option(record, cli, command, option)`: the leading options of a recorded command
line, never its payload. -/
def invokedOption (record : EvidenceRecord) (cli command option : String) : Bool :=
  let argv := record.argv.getD []
  if record.interface ≠ some "cli" ∨ argv = [] then false
  else
    let inner := record.cliArgv.getD []
    -- a wrapped command: the recorded inner command line has to be the tail of the outer one
    let wrapped := argv.head? ≠ some cli
    if wrapped ∧ (inner = [] ∨ inner.head? ≠ some cli
        ∨ argv.drop (argv.length - inner.length) ≠ inner) then false
    else
      match if wrapped then inner else argv with
      | _ :: first :: rest => first = command && leadingOption rest
      | _ => false
where
  /-- The scan over the arguments after the command. -/
  leadingOption : List String → Bool
    | [] => false
    | argument :: rest =>
        if argument = "--" ∨ startsWith argument "-" = false then false
        else argument = option || startsWith argument (option ++ "=") || leadingOption rest

/-- `text(value)` of `subject_problem`. -/
def isText (value : Option String) : Bool := value.any fun s => s ≠ ""

/-- `sha256(value)` of `subject_problem`. -/
def isSha256 (value : Option String) : Bool :=
  value.any fun s => s.toList.length = 64 && s.toList.all fun c =>
    "0123456789abcdef".toList.contains c

/-- A chain of tests, each with the problem to report where it fails: the first problem. -/
def firstProblem (checks : List (Bool × String)) : Option String :=
  (checks.find? fun check => check.1 = false).map Prod.snd

theorem firstProblem_eq_none_iff {checks : List (Bool × String)} :
    firstProblem checks = none ↔ ∀ check ∈ checks, check.1 = true := by
  simp [firstProblem]

/-- The checks of `subject_problem` on the trace of a library command. -/
def traceProblem (record : EvidenceRecord) : Option String :=
  let names (trace : Option (List String)) : Bool :=
    trace.any fun calls => calls.all fun name => isText (some name)
  firstProblem [
    (names record.apiCalls, "Library command evidence lacks a call-stage trace."),
    (names record.signals, "Library command evidence lacks signal-emission accounting.")]

/-- The checks of `subject_problem` on one evidence record of a passing case. -/
def recordProblem (record : EvidenceRecord) : Option String :=
  if record.observation.isSome then
    if isText record.observation = false ∨ record.data.isNone ∨ record.argv.isSome
        ∨ record.interface.isSome then
      some "Malformed supplemental observation."
    else none
  else if isText ((record.argv.getD []).head?) = false then
    some "Command evidence lacks arguments."
  else if record.exitStatus.isNone ∨ record.stdout.isNone ∨ record.stderr.isNone then
    some "Command evidence lacks its result."
  else if record.interface = some "library" then traceProblem record
  else none

/-- The checks of `subject_problem` on one passing case. -/
def caseProblem (result : CaseResult) : Option String :=
  let commands := result.evidence.getD []
  if commands.isEmpty then some s!"Passing case has no command evidence: {result.caseKey.text}"
  else
    match commands.findSome? recordProblem with
    | some problem => some problem
    | none =>
        if commands.any (fun command => command.interface = some result.driver) = false then
          some "Passing case has no evidence at its declared interface."
        else none

/-! ## Attribution -/

/-- Whether the selected target is recorded. -/
def TargetProvenance.attributed (target : TargetProvenance) : Bool :=
  isText target.cliPath && isSha256 target.configurationSha256 && isSha256 target.cliSha256

/-- Whether the files of the target's adapter are recorded. -/
def TargetProvenance.adapted (target : TargetProvenance) : Bool :=
  target.adapterFiles.any fun files =>
    !files.isEmpty && files.all fun item => isText item.path && isSha256 item.sha256

/-- The checks of `subject_problem` on the report as a whole, when some case passes;
`library` says whether a case of the library does. -/
def attributionProblem (report : RunReport) (library : Bool) : Option String :=
  firstProblem [
    (isText report.target, "Passing report lacks target."),
    (isText report.targetVersion, "Passing report lacks target_version."),
    (isText report.startedAt, "Passing report lacks started_at."),
    (isText report.finishedAt, "Passing report lacks finished_at."),
    (report.targetProvenance.any TargetProvenance.attributed,
      "Passing report lacks selected target provenance."),
    (report.targetProvenance.any TargetProvenance.adapted,
      "Passing report lacks adapter provenance."),
    (report.fixtureProvenance.any fun fixture =>
        isText fixture.path && isSha256 fixture.manifestSha256,
      "Passing report lacks fixture provenance."),
    (!library || report.libraryProvenance.any fun l =>
        isText l.path && isText l.packageVersion && isSha256 l.sha256 && isSha256 l.clientSha256,
      "Passing library cases lack selected library/client provenance."),
    (report.artifactIntegrity.bind ArtifactIntegrity.status = some "verified",
      "Selected artifacts were not verified unchanged at completion.")]

/-- `result["status"] == "passed"`. -/
def CaseResult.isPassed (result : CaseResult) : Bool := result.status = "passed"

/-- `subject_problem(report, results)`. -/
def subjectProblem (report : RunReport) (results : List CaseResult) : Option String :=
  let passing := results.filter CaseResult.isPassed
  if passing.isEmpty then none
  else
    match attributionProblem report (passing.any fun result => result.driver = "library") with
    | some problem => some problem
    | none => passing.findSome? caseProblem

/-! ## The chain -/

/-- `STATUSES`. -/
def statuses : List String :=
  ["passed", "failed", "unmet-prerequisite", "unsupported", "setup-error", "not-selected"]

/-- The status of a verification. -/
inductive VerificationStatus where
  | notRun
  | unversioned
  | stale
  | incomplete
  | invalid
  | current
  deriving DecidableEq, Repr

/-- The text of a status in a summary. -/
def VerificationStatus.text : VerificationStatus → String
  | .notRun => "not-run"
  | .unversioned => "unversioned"
  | .stale => "stale"
  | .incomplete => "incomplete"
  | .invalid => "invalid"
  | .current => "current"

/-- `Verification`. -/
structure Verification where
  status : VerificationStatus
  reason : String
  deriving DecidableEq, Repr

/-- A result that is not final, or passed without a confirmed cleanup. -/
def CaseResult.unfinished (result : CaseResult) : Bool :=
  result.status ∉ statuses || (result.isPassed
    && (isText result.cleanupError || result.cleanupComplete ≠ some true))

namespace ModelData

/-- The tests on the results of a complete report. -/
def verifyResults (m : ModelData) (report : RunReport) : Verification :=
  let keys := report.results.map CaseResult.caseKey
  if ¬ keys.Nodup ∨ keys.toFinset ≠ m.cases.keys.toFinset then
    ⟨.invalid, "Report has missing, duplicate or unknown cases."⟩
  else if report.results.any CaseResult.unfinished then
    ⟨.invalid, "Report contains unfinished cases or unconfirmed cleanup."⟩
  else
    match subjectProblem report report.results with
    | some problem => ⟨.invalid, problem⟩
    | none => ⟨.current, "Complete report matches current definitions."⟩

variable {Bytes : Type}

/-- Whether the report was recorded for other definitions than the present ones. The files are
read again only when the recorded definition is the model's. -/
def isStale (m : ModelData) (rt : Runtime Bytes) (tree : FileTree Bytes) (recorded : Value) :
    Except PyException Bool :=
  if recorded.pyEq m.definition.toValue = false then .ok true
  else do
    let now ← snapshot rt tree m.cases m.definition.referenceCommit
    return decide (now ≠ m.definition)

/-- The verification of a report that `parse_report` accepted. -/
def verification (m : ModelData) (rt : Runtime Bytes) (tree : FileTree Bytes)
    (report : RunReport) : Except PyException Verification :=
  match report.coverageDefinition with
  | none => .ok ⟨.unversioned, "Report has no definition hashes."⟩
  | some recorded => do
      if ← m.isStale rt tree recorded then
        return ⟨.stale, "Report does not match current suite/catalogue definitions."⟩
      else if report.complete ≠ some true then
        return ⟨.incomplete, "Run did not complete; no verified credit assigned."⟩
      else return m.verifyResults report

end ModelData

/-! ## What a current report establishes -/

/-- A passing result with a confirmed cleanup and evidence without a problem. -/
structure CaseResult.Sound (result : CaseResult) : Prop where
  cleanup_complete : result.cleanupComplete = some true
  cleanup_error : isText result.cleanupError = false
  evidence : caseProblem result = none

/-- The results of a report are evidence: one finished result per case, and sound attributable
passes. -/
structure ModelData.Verified (m : ModelData) (report : RunReport) : Prop where
  nodup : (report.results.map CaseResult.caseKey).Nodup
  keys : ∀ key, key ∈ report.results.map CaseResult.caseKey ↔ key ∈ m.cases.keys
  finished : ∀ result ∈ report.results, result.status ∈ statuses
  attributed : ∀ result ∈ report.results, result.isPassed = true →
    attributionProblem report (result.driver = "library") = none
  sound : ∀ result ∈ report.results, result.isPassed = true → result.Sound

/-- The provenance of the library is the only part of the attribution that depends on which
cases pass. -/
theorem attributionProblem_false {report : RunReport} {library : Bool}
    (h : attributionProblem report library = none) : attributionProblem report false = none := by
  unfold attributionProblem at h ⊢
  rw [firstProblem_eq_none_iff] at h ⊢
  simp only [List.forall_mem_cons, Bool.not_false, Bool.true_or] at h ⊢
  obtain ⟨h1, h2, h3, h4, h5, h6, h7, -, h9⟩ := h
  exact ⟨h1, h2, h3, h4, h5, h6, h7, trivial, h9⟩

theorem attributionProblem_any {report : RunReport} {passing : List CaseResult} :
    (passing.isEmpty = true ∨
      attributionProblem report (passing.any fun result => result.driver = "library") = none)
      ↔ ∀ result ∈ passing, attributionProblem report (result.driver = "library") = none := by
  constructor
  · rintro (hempty | hany) result hr
    · rw [List.isEmpty_iff.mp hempty] at hr
      cases hr
    · by_cases hlib : result.driver = "library"
      · have htrue : passing.any (fun result => result.driver = "library") = true :=
          List.any_eq_true.mpr ⟨result, hr, by simpa using hlib⟩
        rw [htrue] at hany
        simpa [hlib] using hany
      · simpa [hlib] using attributionProblem_false hany
  · intro h
    cases hpassing : passing with
    | nil => exact Or.inl rfl
    | cons first rest =>
        refine Or.inr ?_
        by_cases hany : passing.any (fun result => result.driver = "library") = true
        · obtain ⟨result, hr, hlib⟩ := List.any_eq_true.mp hany
          have hlib' : result.driver = "library" := by simpa using hlib
          rw [← hpassing, hany]
          simpa [hlib'] using h result hr
        · rw [← hpassing, Bool.not_eq_true _ |>.mp hany]
          exact attributionProblem_false (h first (by rw [hpassing]; exact List.mem_cons_self ..))

theorem subjectProblem_eq_none_iff {report : RunReport} {results : List CaseResult} :
    subjectProblem report results = none ↔ ∀ result ∈ results, result.isPassed = true →
      attributionProblem report (result.driver = "library") = none ∧ caseProblem result = none := by
  have hmem : ∀ P : CaseResult → Prop, (∀ r ∈ results.filter CaseResult.isPassed, P r)
      ↔ ∀ r ∈ results, r.isPassed = true → P r := by
    intro P
    simp only [List.mem_filter, and_imp]
  have hattr := @attributionProblem_any report (results.filter CaseResult.isPassed)
  rw [hmem] at hattr
  have hcase : (results.filter CaseResult.isPassed).findSome? caseProblem = none
      ↔ ∀ r ∈ results, r.isPassed = true → caseProblem r = none := by
    rw [List.findSome?_eq_none_iff, hmem]
  unfold subjectProblem
  by_cases hempty : (results.filter CaseResult.isPassed).isEmpty = true
  · have hnone : ∀ r ∈ results, r.isPassed ≠ true := by
      intro r hr hp
      have := List.isEmpty_iff.mp hempty ▸ List.mem_filter.mpr ⟨hr, hp⟩
      cases this
    simp only [hempty, if_true, true_iff]
    intro r hr hp
    exact absurd hp (hnone r hr)
  · simp only [hempty, Bool.false_eq_true, if_false, false_or] at hattr ⊢
    cases hproblem : attributionProblem report
        ((results.filter CaseResult.isPassed).any fun result => result.driver = "library") with
    | some problem =>
        rw [hproblem] at hattr
        simp only [reduceCtorEq, false_iff] at hattr ⊢
        intro h
        exact hattr fun r hr hp => (h r hr hp).1
    | none =>
        rw [hproblem] at hattr
        simp only [true_iff] at hattr
        rw [hcase]
        exact ⟨fun h r hr hp => ⟨hattr r hr hp, h r hr hp⟩, fun h r hr hp => (h r hr hp).2⟩

/-- A result passes the test on finished results. -/
theorem CaseResult.unfinished_eq_false_iff (result : CaseResult) :
    result.unfinished = false ↔ result.status ∈ statuses ∧ (result.isPassed = true →
      isText result.cleanupError = false ∧ result.cleanupComplete = some true) := by
  unfold CaseResult.unfinished
  cases result.isPassed <;> cases isText result.cleanupError <;> simp

theorem verifyResults_current_iff_checks {m : ModelData} {report : RunReport} :
    (m.verifyResults report).status = .current ↔
      ((report.results.map CaseResult.caseKey).Nodup
        ∧ (report.results.map CaseResult.caseKey).toFinset = m.cases.keys.toFinset)
      ∧ (∀ result ∈ report.results, result.unfinished = false)
      ∧ subjectProblem report report.results = none := by
  unfold ModelData.verifyResults
  dsimp only
  have hany : report.results.any CaseResult.unfinished = false
      ↔ ∀ result ∈ report.results, result.unfinished = false := by
    simp only [List.any_eq_false, Bool.not_eq_true]
  rw [← hany]
  split
  · next hkeys =>
      rw [or_iff_not_imp_left, not_not] at hkeys
      exact ⟨fun h => (by cases h), fun h => absurd h.1.2 (hkeys h.1.1)⟩
  · next hkeys =>
      simp only [not_or, not_not] at hkeys
      split
      · next hfinished =>
          exact ⟨fun h => (by cases h), fun h => (by rw [hfinished] at h; cases h.2.1)⟩
      · next hfinished =>
          rw [Bool.not_eq_true] at hfinished
          cases hproblem : subjectProblem report report.results with
          | some problem => exact ⟨fun h => (by cases h), fun h => (by cases h.2.2)⟩
          | none => exact ⟨fun _ => ⟨hkeys, hfinished, rfl⟩, fun _ => rfl⟩

/-- The chain of tests ends with `current` exactly on the verified reports. -/
theorem verifyResults_current_iff {m : ModelData} {report : RunReport} :
    (m.verifyResults report).status = .current ↔ m.Verified report := by
  rw [verifyResults_current_iff_checks, subjectProblem_eq_none_iff]
  simp only [Finset.ext_iff, List.mem_toFinset, CaseResult.unfinished_eq_false_iff]
  constructor
  · rintro ⟨⟨hnodup, hkeys⟩, hfinished, hsubject⟩
    refine ⟨hnodup, hkeys, fun r hr => (hfinished r hr).1, fun r hr hp => (hsubject r hr hp).1,
      fun r hr hp => ?_⟩
    obtain ⟨herror, hcomplete⟩ := (hfinished r hr).2 hp
    exact ⟨hcomplete, herror, (hsubject r hr hp).2⟩
  · intro h
    refine ⟨⟨h.nodup, h.keys⟩, fun r hr => ⟨h.finished r hr, fun hp => ?_⟩, fun r hr hp => ?_⟩
    · exact ⟨(h.sound r hr hp).cleanup_error, (h.sound r hr hp).cleanup_complete⟩
    · exact ⟨h.attributed r hr hp, (h.sound r hr hp).evidence⟩

end FlatpakBlackbox
