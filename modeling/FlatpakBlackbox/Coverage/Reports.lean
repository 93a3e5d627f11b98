import FlatpakBlackbox.Coverage.Summary

set_option autoImplicit false

/-! # Reports for a model

For every model there are reports that `parse_report` accepts and `summarize` verifies: a
complete report with one result per case, in which any chosen cases of the command line pass with
one recorded command each. `verified_runValue` is used where a claim needs some report, for
instance to show that a way to lose credit can happen.
-/

namespace FlatpakBlackbox

open PyLib PyException

/-! ## The report -/

/-- A SHA-256 digest. -/
def someDigest : String := "0000000000000000000000000000000000000000000000000000000000000000"

/-- A successful command of the command line. -/
def commandRecord (argv : List String) : Value := .dict [
  ("argv", .list (argv.map .str)), ("interface", .str "cli"), ("exit_status", .int 0),
  ("stdout", .str ""), ("stderr", .str "")]

/-- The result of a case: failed, or of some status, with one recorded command of the given
arguments. -/
def resultValue (outcome : CaseKey → Option (String × List String)) (key : CaseKey) : Value :=
  match outcome key with
  | none => .dict [("behavior_id", .str key.behaviorId), ("driver", .str key.driver),
      ("profile", .str key.profile), ("status", .str "failed")]
  | some (status, argv) => .dict [("behavior_id", .str key.behaviorId), ("driver", .str key.driver),
      ("profile", .str key.profile), ("status", .str status), ("cleanup_complete", .bool true),
      ("evidence", .list [commandRecord argv])]

/-- A complete report for the definition, with these results. -/
def runValue (d : Definition) (cli : String) (results : List Value) : Value := .dict [
  ("schema", .int 1), ("coverage_definition", d.toValue), ("complete", .bool true),
  ("target", .str "flatpak"), ("target_version", .str "1"), ("started_at", .str "1"),
  ("finished_at", .str "2"),
  ("target_provenance", .dict [("configuration_sha256", .str someDigest), ("cli_path", .str cli),
    ("cli_sha256", .str someDigest),
    ("adapter_files", .list [.dict [("path", .str "adapter"), ("sha256", .str someDigest)]])]),
  ("fixture_provenance", .dict [("path", .str "fixture"), ("manifest_sha256", .str someDigest)]),
  ("artifact_integrity", .dict [("status", .str "verified")]),
  ("results", .list results)]

/-! ## It is accepted -/

theorem isJson_str (text : String) : (Value.str text).IsJson := fun _ => rfl

theorem accepts_str (text : String) : TypeHint.str.Accepts (.str text) := fun _ => rfl

theorem isJson_texts (texts : List String) : (Value.list (texts.map .str)).IsJson :=
  isJson_list fun item hitem => by
    obtain ⟨text, _, rfl⟩ := List.mem_map.mp hitem
    exact isJson_str text

theorem accepts_texts (texts : List String) :
    (TypeHint.list .str).Accepts (.list (texts.map .str)) :=
  accepts_list fun item hitem => by
    obtain ⟨text, _, rfl⟩ := List.mem_map.mp hitem
    exact accepts_str text

theorem isJson_textObject (d : Dict String String) : (textObject d).IsJson :=
  isJson_dict fun entry hentry => by
    obtain ⟨item, _, rfl⟩ := List.mem_map.mp hentry
    exact isJson_str item.2

theorem accepts_textObject (d : Dict String String) :
    (TypeHint.strDict .str).Accepts (textObject d) :=
  accepts_strDict fun entry hentry => by
    obtain ⟨item, _, rfl⟩ := List.mem_map.mp hentry
    rfl

theorem isJson_definition (d : Definition) : d.toValue.IsJson := by
  refine isJson_dict ?_
  simp only [List.forall_mem_cons]
  exact ⟨fun _ => rfl, isJson_str _, isJson_textObject _, isJson_str _, isJson_str _, isJson_str _,
    fun entry hentry => (by cases hentry)⟩

theorem accepts_definition (d : Definition) : TypeHint.definition.Accepts d.toValue := by
  refine accepts_typedDict rfl ?_ (fun _ => rfl)
  show ∀ declared ∈ [(TypeHint.int, Value.int 1), (.str, .str d.fingerprint),
    (.strDict .str, textObject d.files), (.str, .str d.policySha256), (.str, .str d.loaderSha256),
    (.str, .str d.referenceCommit)], _
  simp only [List.forall_mem_cons]
  exact ⟨fun _ => rfl, accepts_str _, accepts_textObject _, accepts_str _, accepts_str _,
    accepts_str _, fun declared hdeclared => (by cases hdeclared)⟩

theorem isJson_commandRecord (argv : List String) : (commandRecord argv).IsJson := by
  refine isJson_dict ?_
  simp only [List.forall_mem_cons]
  exact ⟨isJson_texts argv, isJson_str _, fun _ => rfl, isJson_str _, isJson_str _,
    fun entry hentry => (by cases hentry)⟩

theorem accepts_commandRecord (argv : List String) :
    TypeHint.evidenceRecord.Accepts (commandRecord argv) := by
  refine accepts_typedDict rfl ?_ (fun _ => rfl)
  show ∀ declared ∈ [(TypeHint.list .str, Value.list (argv.map .str)), (.str, .str "cli"),
    (.int, .int 0), (.str, .str ""), (.str, .str "")], _
  simp only [List.forall_mem_cons]
  exact ⟨accepts_texts argv, accepts_str _, fun _ => rfl, accepts_str _, accepts_str _,
    fun declared hdeclared => (by cases hdeclared)⟩

theorem isJson_resultValue (outcome : CaseKey → Option (String × List String)) (key : CaseKey) :
    (resultValue outcome key).IsJson := by
  unfold resultValue
  cases houtcome : outcome key with
  | none => exact fun _ => rfl
  | some result =>
      obtain ⟨status, argv⟩ := result
      have hevidence : (Value.list [commandRecord argv]).IsJson := isJson_list fun item hitem => by
        rw [List.mem_singleton.mp hitem]
        exact isJson_commandRecord argv
      refine isJson_dict ?_
      simp only [List.forall_mem_cons]
      exact ⟨isJson_str _, isJson_str _, isJson_str _, isJson_str _, fun _ => rfl, hevidence,
        fun entry hentry => (by cases hentry)⟩

theorem accepts_resultValue (outcome : CaseKey → Option (String × List String)) (key : CaseKey) :
    TypeHint.caseResult.Accepts (resultValue outcome key) := by
  unfold resultValue
  cases houtcome : outcome key with
  | none => exact fun _ => rfl
  | some result =>
      obtain ⟨status, argv⟩ := result
      have hevidence : (TypeHint.list .evidenceRecord).Accepts (.list [commandRecord argv]) :=
        accepts_list fun item hitem => by
          rw [List.mem_singleton.mp hitem]
          exact accepts_commandRecord argv
      refine accepts_typedDict rfl ?_ (fun _ => rfl)
      show ∀ declared ∈ [(TypeHint.str, Value.str key.behaviorId), (.str, .str key.driver),
        (.str, .str key.profile), (.str, .str status),
        (.list .evidenceRecord, .list [commandRecord argv]), (.bool, .bool true)], _
      simp only [List.forall_mem_cons]
      exact ⟨accepts_str _, accepts_str _, accepts_str _, accepts_str _, hevidence, fun _ => rfl,
        fun declared hdeclared => (by cases hdeclared)⟩

section Run

variable {d : Definition} {cli : String} {results : List Value}

theorem isJson_runValue (h : ∀ result ∈ results, result.IsJson) :
    (runValue d cli results).IsJson := by
  refine isJson_dict ?_
  simp only [List.forall_mem_cons]
  exact ⟨fun _ => rfl, isJson_definition d, fun _ => rfl, fun _ => rfl, fun _ => rfl, fun _ => rfl,
    fun _ => rfl, fun _ => rfl, fun _ => rfl, fun _ => rfl, isJson_list h,
    fun entry hentry => (by cases hentry)⟩

theorem accepts_runValue (h : ∀ result ∈ results, TypeHint.caseResult.Accepts result) :
    TypeHint.runReport.Accepts (runValue d cli results) := by
  refine accepts_typedDict rfl ?_ (fun _ => rfl)
  show ∀ declared ∈ [(TypeHint.int, Value.int 1), (.list .caseResult, .list results),
    (.definition, d.toValue), (.bool, .bool true), (.str, .str "flatpak"), (.str, .str "1"),
    (.str, .str "1"), (.str, .str "2"),
    (.targetProvenance, .dict [("configuration_sha256", .str someDigest), ("cli_path", .str cli),
      ("cli_sha256", .str someDigest),
      ("adapter_files", .list [.dict [("path", .str "adapter"), ("sha256", .str someDigest)]])]),
    (.fixtureProvenance, .dict [("path", .str "fixture"), ("manifest_sha256", .str someDigest)]),
    (.artifactIntegrity, .dict [("status", .str "verified")])], _
  simp only [List.forall_mem_cons]
  exact ⟨fun _ => rfl, accepts_list h, accepts_definition d, fun _ => rfl, fun _ => rfl,
    fun _ => rfl, fun _ => rfl, fun _ => rfl, fun _ => rfl, fun _ => rfl, fun _ => rfl,
    fun declared hdeclared => (by cases hdeclared)⟩

theorem checkResult_resultValue (outcome : CaseKey → Option (String × List String)) (key : CaseKey)
    (path : String) : checkResult (resultValue outcome key) path = .ok () := by
  unfold resultValue
  cases outcome key with
  | none => rfl
  | some argv => rfl

variable [UnicodeDatabase] {keys : List CaseKey} {outcome : CaseKey → Option (String × List String)}

/-- `parse_report` returns the report as it is. -/
theorem parseReport_runValue :
    parseReport (runValue d cli (keys.map (resultValue outcome))) "report"
      = .ok (runValue d cli (keys.map (resultValue outcome))) := by
  have hmem : ∀ P : Value → Prop, (∀ key, P (resultValue outcome key)) →
      ∀ result ∈ keys.map (resultValue outcome), P result := by
    intro P h result hresult
    obtain ⟨key, _, rfl⟩ := List.mem_map.mp hresult
    exact h key
  have hjson : (runValue d cli (keys.map (resultValue outcome))).IsJson :=
    isJson_runValue (hmem _ (isJson_resultValue outcome))
  have haccepts : TypeHint.runReport.Accepts (runValue d cli (keys.map (resultValue outcome))) :=
    accepts_runValue (hmem _ (accepts_resultValue outcome))
  have hparse : parseTyped .runReport (runValue d cli (keys.map (resultValue outcome))) "report"
      = .ok (runValue d cli (keys.map (resultValue outcome))) := by
    rw [parseTyped, hjson]
    exact bind_eq_ok.mpr ⟨_, rfl, bind_eq_ok.mpr ⟨(), haccepts _, rfl⟩⟩
  have hresults : ((keys.map (resultValue outcome)).zipIdx.forM fun entry =>
      checkResult entry.1 s!"report.results[{entry.2}]") = .ok () := by
    refine forM_eq_ok.mpr fun entry hentry => ?_
    obtain ⟨key, _, hkey⟩ := List.mem_map.mp (List.fst_mem_of_mem_zipIdx hentry)
    show checkResult entry.1 _ = .ok ()
    rw [← hkey]
    exact checkResult_resultValue outcome key _
  rw [parseReport, hparse]
  -- the report has no duration, fixture, gaps or setup evidence: only the results are checked
  refine bind_eq_ok.mpr ⟨_, rfl, bind_eq_ok.mpr ⟨_, rfl, bind_eq_ok.mpr ⟨_, rfl, ?_⟩⟩⟩
  refine bind_eq_ok.mpr ⟨_, rfl, bind_eq_ok.mpr ⟨_, rfl, ?_⟩⟩
  exact bind_eq_ok.mpr ⟨(), hresults, rfl⟩

end Run

/-! ## It is verified -/

theorem pyEq_textObject (d : Dict String String) :
    Value.pyEq (textObject d) (textObject d) = true := by
  refine pyEq_dict_self ?_ fun entry hentry => ?_
  · rw [List.map_map]
    exact d.nodup
  · obtain ⟨item, _, rfl⟩ := List.mem_map.mp hentry
    rw [Value.pyEq]
    exact beq_self_eq_true item.2

theorem pyEq_definition (d : Definition) : Value.pyEq d.toValue d.toValue = true := by
  refine pyEq_dict_self ?_ ?_
  · show List.Nodup ["schema", "fingerprint", "files", "policy_sha256", "loader_sha256",
      "reference_commit"]
    decide
  · have htext : ∀ text, Value.pyEq (.str text) (.str text) = true := fun text => by
      rw [Value.pyEq]
      exact beq_self_eq_true text
    simp only [List.forall_mem_cons]
    refine ⟨?_, htext _, pyEq_textObject _, htext _, htext _, htext _,
      fun entry hentry => (by cases hentry)⟩
    rw [Value.pyEq]
    rfl

/-- The definition of a model is not stale while the files of the suite are those it was built
from. -/
theorem isStale_own {Bytes : Type} {rt : Runtime Bytes} {tree : FileTree Bytes} {m : ModelData}
    (hfiles : snapshot rt tree m.cases m.definition.referenceCommit = .ok m.definition) :
    m.isStale rt tree m.definition.toValue = .ok false := by
  rw [ModelData.isStale, pyEq_definition, hfiles]
  simp [bind, Except.bind, pure, Except.pure]

/-- The record a report view shows for `commandRecord`. -/
def cliRecord (argv : List String) : EvidenceRecord :=
  { argv := some argv, interface := some "cli", exitStatus := some 0, stdout := some ""
    stderr := some "" }

/-- The result a report view shows for `resultValue`. -/
def resultOf (outcome : CaseKey → Option (String × List String)) (key : CaseKey) : CaseResult :=
  match outcome key with
  | none => { behaviorId := key.behaviorId, driver := key.driver, profile := key.profile
              status := "failed" }
  | some (status, argv) =>
      { behaviorId := key.behaviorId, driver := key.driver, profile := key.profile
        status := status, cleanupComplete := some true
        evidence := some [cliRecord argv] }

theorem filterMap_asStr? (texts : List String) :
    (texts.map Value.str).filterMap Value.asStr? = texts := by
  induction texts with
  | nil => rfl
  | cons text texts ih => rw [List.map_cons, List.filterMap_cons_some (by rfl), ih]

theorem ofValue_resultValue (outcome : CaseKey → Option (String × List String)) (key : CaseKey) :
    CaseResult.ofValue (resultValue outcome key) = resultOf outcome key := by
  unfold resultValue resultOf
  cases outcome key with
  | none => rfl
  | some result =>
      obtain ⟨status, argv⟩ := result
      have hrecord : EvidenceRecord.ofValue (commandRecord argv) = cliRecord argv := by
        conv => rhs; rw [← filterMap_asStr? argv]
        rfl
      dsimp only
      rw [← hrecord]
      rfl

/-- The report of a run in which exactly the cases with an outcome pass. -/
def runReport (m : ModelData) (cli : String) (outcome : CaseKey → Option (String × List String)) :
    RunReport :=
  RunReport.ofValue (runValue m.definition cli (m.cases.keys.map (resultValue outcome)))

section Verified

variable {m : ModelData} {cli : String} {outcome : CaseKey → Option (String × List String)}

theorem results_runReport : (runReport m cli outcome).results = m.cases.keys.map
    (resultOf outcome) := by
  show (m.cases.keys.map (resultValue outcome)).map CaseResult.ofValue = _
  rw [List.map_map]
  exact List.map_congr_left fun key _ => ofValue_resultValue outcome key

theorem caseKey_resultOf (key : CaseKey) : (resultOf outcome key).caseKey = key := by
  unfold resultOf
  cases outcome key with
  | none => rfl
  | some argv => rfl

theorem isPassed_resultOf {key : CaseKey} :
    (resultOf outcome key).isPassed = true ↔ ∃ argv, outcome key = some ("passed", argv) := by
  unfold resultOf
  cases outcome key with
  | none => simp [CaseResult.isPassed]
  | some result => simp [CaseResult.isPassed, Prod.ext_iff]

theorem attributionProblem_runReport (hcli : cli ≠ "") :
    attributionProblem (runReport m cli outcome) false = none := by
  have hdigest : isSha256 (some someDigest) = true := by decide
  have htarget : (runReport m cli outcome).targetProvenance = some {
      configurationSha256 := some someDigest, cliPath := some cli, cliSha256 := some someDigest
      adapterFiles := some [⟨some "adapter", some someDigest⟩] } := rfl
  have hfixture : (runReport m cli outcome).fixtureProvenance
      = some ⟨some "fixture", some someDigest⟩ := rfl
  refine firstProblem_eq_none_iff.mpr ?_
  rw [htarget, hfixture]
  simp only [List.forall_mem_cons]
  refine ⟨rfl, rfl, rfl, rfl, ?_, ?_, ?_, rfl, rfl, fun check hcheck => (by cases hcheck)⟩
  · simp [TargetProvenance.attributed, hdigest, isText, hcli]
  · simp [TargetProvenance.adapted, hdigest, isText]
  · simp [hdigest, isText]

theorem caseProblem_resultOf {key : CaseKey} {argv : List String}
    (houtcome : outcome key = some ("passed", argv)) (hdriver : key.driver = "cli")
    (hargv : isText argv.head? = true) : caseProblem (resultOf outcome key) = none := by
  have hrecord : recordProblem (cliRecord argv) = none := by
    simp [recordProblem, cliRecord, hargv]
  unfold resultOf
  rw [houtcome]
  simp only [caseProblem, Option.getD_some, List.findSome?_cons, hrecord, hdriver]
  rfl

/-- **A verified report.** Let any cases of the command line pass, each with some command, and
others end with any valid status: the report is current. -/
theorem verified_runValue {Bytes : Type} {rt : Runtime Bytes} {tree : FileTree Bytes}
    (hfiles : snapshot rt tree m.cases m.definition.referenceCommit = .ok m.definition)
    (hcli : cli ≠ "") (hstatus : ∀ key status argv, outcome key = some (status, argv) →
      status ∈ statuses) (houtcome : ∀ key argv, outcome key = some ("passed", argv) →
      key.driver = "cli" ∧ isText argv.head? = true) :
    ∃ v, m.verification rt tree (runReport m cli outcome) = .ok v ∧ v.status = .current := by
  obtain ⟨v, hv⟩ : ∃ v, m.verification rt tree (runReport m cli outcome) = .ok v :=
    verification_isOk ⟨_, hfiles⟩
  have hkeys : (runReport m cli outcome).results.map CaseResult.caseKey = m.cases.keys := by
    rw [results_runReport, List.map_map]
    exact (List.map_congr_left fun key _ => caseKey_resultOf key).trans (List.map_id _)
  have hmem : ∀ P : CaseResult → Prop, (∀ key, P (resultOf outcome key)) →
      ∀ result ∈ (runReport m cli outcome).results, P result := by
    intro P h result hresult
    rw [results_runReport] at hresult
    obtain ⟨key, _, rfl⟩ := List.mem_map.mp hresult
    exact h key
  refine ⟨v, hv, (verification_current_iff hv).mpr
    ⟨⟨m.definition.toValue, rfl, isStale_own hfiles⟩, rfl, ?_⟩⟩
  refine ⟨hkeys ▸ m.cases.keys_nodup, fun key => by rw [hkeys], hmem _ fun key => ?_,
    hmem _ fun key hp => ?_, hmem _ fun key hp => ?_⟩
  · unfold resultOf
    cases hsome : outcome key with
    | none => show "failed" ∈ statuses; decide
    | some result => exact hstatus key result.1 result.2 hsome
  · obtain ⟨argv, hsome⟩ := isPassed_resultOf.mp hp
    have hdriver : (resultOf outcome key).driver = "cli" :=
      (congrArg CaseKey.driver (caseKey_resultOf key)).trans (houtcome key argv hsome).1
    rw [hdriver]
    exact attributionProblem_runReport hcli
  · obtain ⟨argv, hsome⟩ := isPassed_resultOf.mp hp
    obtain ⟨hdriver, hargv⟩ := houtcome key argv hsome
    refine ⟨?_, ?_, caseProblem_resultOf hsome hdriver hargv⟩
    · unfold resultOf
      rw [hsome]
    · unfold resultOf
      rw [hsome]
      rfl

end Verified

/-! ## Reports in which one case passes -/

/-- Exactly this case passes, with this command. -/
def onlyCase (key : CaseKey) (argv : List String) (k : CaseKey) : Option (String × List String) :=
  if k = key then some ("passed", argv) else none

/-- The report of the model in which exactly the case `key` passes, with the command `argv`. -/
def caseReport (m : ModelData) (key : CaseKey) (argv : List String) : Value :=
  runValue m.definition "flatpak" (m.cases.keys.map (resultValue (onlyCase key argv)))

section OneCase

variable {m : ModelData} {key : CaseKey} {argv : List String}

/-- The view of such a report. -/
def caseRun (m : ModelData) (key : CaseKey) (argv : List String) : RunReport :=
  runReport m "flatpak" (onlyCase key argv)

theorem parseReport_caseReport [UnicodeDatabase] :
    parseReport (caseReport m key argv) "report" = .ok (caseReport m key argv) :=
  parseReport_runValue

/-- The passing results of such a report: the one of the case. -/
theorem mem_results_caseRun {result : CaseResult} :
    result ∈ (caseRun m key argv).results ∧ result.isPassed = true
      ↔ key ∈ m.cases.keys ∧ result = resultOf (onlyCase key argv) key := by
  rw [caseRun, results_runReport, List.mem_map]
  constructor
  · rintro ⟨⟨k, hk, rfl⟩, hp⟩
    obtain ⟨argv', hsome⟩ := isPassed_resultOf.mp hp
    unfold onlyCase at hsome
    split at hsome
    · next heq =>
        subst heq
        exact ⟨hk, rfl⟩
    · cases hsome
  · rintro ⟨hk, rfl⟩
    exact ⟨⟨key, hk, rfl⟩, isPassed_resultOf.mpr ⟨argv, if_pos rfl⟩⟩

theorem verified_caseReport {Bytes : Type} {rt : Runtime Bytes} {tree : FileTree Bytes}
    (hfiles : snapshot rt tree m.cases m.definition.referenceCommit = .ok m.definition)
    (hdriver : key.driver = "cli") (hargv : isText argv.head? = true) :
    ∃ v, m.verification rt tree (caseRun m key argv) = .ok v ∧ v.status = .current := by
  refine verified_runValue hfiles (by decide) (fun k status argv' hk => ?_) fun k argv' hk => ?_
  · unfold onlyCase at hk
    split at hk
    · cases hk
      decide
    · cases hk
  · unfold onlyCase at hk
    split at hk
    · next heq =>
        cases hk
        exact ⟨heq ▸ hdriver, hargv⟩
    · cases hk

end OneCase

/-! ## A small suite -/

/-- A runtime over files that hold decoded JSON. -/
def jsonRuntime : Runtime Value where
  loads := some
  dumps := id
  sha256 := fun _ => someDigest
  policySource := .none
  loaderSource := .none

/-- An executable behavior of the command line. -/
def smallBehavior (id : String) : Value := .dict [("id", .str id), ("scenario", .str id),
  ("profile", .str "user"), ("drivers", .list [.str "cli"])]

/-- A suite of two cases, `list` and `run`. The case `run` covers the requirement `cli.run` and
declares `option` as an equivalent option. -/
def smallSuite (option : String) : FileTree Value where
  root := ["suite"]
  files := {
    entries := [
      (["inventory.json"], .dict [("schema", .int 1),
        ("behaviors", .list [smallBehavior "list", smallBehavior "run"])]),
      (["coverage-data", "surfaces.json"], .dict [("schema", .int 1),
        ("reference", .dict [("commit", .str "0"), ("sources", .dict [])]),
        ("limitations", .list []),
        ("surfaces", .list [
          .dict [("id", .str "cli.command.run"), ("kind", .str "cli-command"),
            ("name", .str "run")],
          .dict [("id", .str option), ("kind", .str "cli-option"), ("name", .str option)]])]),
      (["coverage-data", "cli-requirements.json"], .dict [("schema", .int 1),
        ("scope", .str "cli"), ("limitations", .list []),
        ("requirements", .list [.dict [("id", .str "cli.run"), ("interface", .str "cli"),
          ("profile", .str "user"), ("category", .str "run"), ("description", .str "runs"),
          ("sources", .list [.dict [("path", .str "doc"), ("anchor", .str "run")]]),
          ("surfaces", .list [.str "cli.command.run"]),
          ("required_capabilities", .list [.str "cli"])]])]),
      (["coverage-data", "library-requirements.json"], .dict [("schema", .int 1),
        ("scope", .str "library"), ("limitations", .list []), ("requirements", .list [])]),
      (["coverage-data", "mapping.json"], .dict [("schema", .int 1), ("cases", .list [
        .dict [("behavior_id", .str "run"), ("driver", .str "cli"), ("profile", .str "user"),
          ("requirements", .list [.str "cli.run"]), ("rationale", .str "runs"),
          ("equivalent_options", .list [
            .dict [("id", .str option), ("rationale", .str "default")]])]])])]
    nodup := by
      show List.Nodup [["inventory.json"], ["coverage-data", "surfaces.json"],
        ["coverage-data", "cli-requirements.json"], ["coverage-data", "library-requirements.json"],
        ["coverage-data", "mapping.json"]]
      decide }
  wellFormed := by
    show ∀ path ∈ [["inventory.json"], ["coverage-data", "surfaces.json"],
      ["coverage-data", "cli-requirements.json"], ["coverage-data", "library-requirements.json"],
      ["coverage-data", "mapping.json"]], path ≠ [] ∧ path.all isComponent = true
    decide

/-- The model of the small suite, where the constructor accepts it. -/
def smallInit (option : String) : Except PyException CoverageModel :=
  @CoverageModel.init Value asciiOnly jsonRuntime (smallSuite option)

/-- The two cases of the small suite. -/
def listCase : CaseKey := ⟨"list", "cli", "user"⟩

def runCase : CaseKey := ⟨"run", "cli", "user"⟩

/-- `summarize` on the small suite. -/
def smallSummary (option : String) (m : ModelData) (value : Value) :
    Except PyException CoverageSummary :=
  @ModelData.summarize Value asciiOnly m jsonRuntime (smallSuite option) (some value)

/-- What the model of the small suite looks like. -/
structure SmallShape (option : String) (m : ModelData) : Prop where
  cases : m.cases.keys = [listCase, runCase]
  options : ∀ id, kindOf m.surfaces id = some .cliOption → id = option
  command : (m.surfaces.get? "cli.command.run").any
    (fun s => s.kind = .cliCommand && s.name = "run") = true
  mapping : m.mapping.entries = [(runCase, ["cli.run"])]
  equivalents : m.equivalentOptions.entries = [(runCase, [option])]

theorem SmallShape.equivalents_run {option : String} {m : ModelData} (h : SmallShape option m) :
    m.equivalents runCase = [option] := by
  unfold ModelData.equivalents Dict.getD Dict.get?
  rw [h.equivalents]
  rfl

theorem SmallShape.mapped_run {option : String} {m : ModelData} (h : SmallShape option m) :
    "cli.run" ∈ m.mapped runCase := by
  unfold ModelData.mapped Dict.getD Dict.get?
  rw [h.mapping]
  decide

/-- The constructor accepts the small suite where the computation says so. -/
theorem exists_small {option : String}
    (h : (smallInit option).toOption.any (fun m =>
      m.cases.keys = [listCase, runCase]
      && m.surfaces.entries.all (fun e => e.2.kind ≠ .cliOption || e.1 = option)
      && (m.surfaces.get? "cli.command.run").any (fun s => s.kind = .cliCommand && s.name = "run")
      && m.mapping.entries = [(runCase, ["cli.run"])]
      && m.equivalentOptions.entries = [(runCase, [option])]) = true) :
    ∃ m : CoverageModel, smallInit option = .ok m ∧ SmallShape option m.toModelData := by
  cases hinit : smallInit option with
  | error e => rw [hinit] at h; cases h
  | ok m =>
      rw [hinit] at h
      simp only [Except.toOption, Option.any_some, Bool.and_eq_true, decide_eq_true_eq,
        List.all_eq_true, Bool.or_eq_true] at h
      obtain ⟨⟨⟨⟨hcases, hsurfaces⟩, hcommand⟩, hmapping⟩, hequivalents⟩ := h
      refine ⟨m, rfl, hcases, fun id hkind => ?_, hcommand, hmapping, hequivalents⟩
      obtain ⟨surface, hget, hsurface⟩ := Option.map_eq_some_iff.mp hkind
      rcases hsurfaces _ (Dict.mem_entries_of_get? hget) with hother | hid
      · exact absurd hsurface hother
      · exact hid

theorem small_verbose : ∃ m : CoverageModel, smallInit "cli.option.run.--verbose" = .ok m
    ∧ SmallShape "cli.option.run.--verbose" m.toModelData :=
  exists_small (by decide +kernel)

theorem small_foo : ∃ m : CoverageModel, smallInit "foo" = .ok m
    ∧ SmallShape "foo" m.toModelData :=
  exists_small (by decide +kernel)

theorem small_global : ∃ m : CoverageModel, smallInit "cli.option.global.--verbose" = .ok m
    ∧ SmallShape "cli.option.global.--verbose" m.toModelData :=
  exists_small (by decide +kernel)

end FlatpakBlackbox
