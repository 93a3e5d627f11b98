import FlatpakBlackbox.Coverage.Reports
import FlatpakBlackbox.Runner.Refinement

set_option autoImplicit false

/-! # What a run guarantees

The theorems about `main` itself: its exit status, its clock, the contexts of its cases, the outcome
of every case, the console, the way it gets to its end, and the verification of its own report.
-/

namespace FlatpakBlackbox

namespace Runner

open PyLib PyException

variable {w : World} {s : RunState} {n : ℕ}

/-! ## A calm world -/

section Calm

/-- A target without unsupported capabilities and without a library. -/
def plainTarget : TargetConfig where
  name := "target"
  unsupportedCapabilities := Dict.empty
  library := none

/-- What the coverage model reads of the report of a calm run beside its results. -/
def plainReport (suite : Suite) : RunReport :=
  { coverageDefinition := some suite.model.definition.toValue }

/-- A case whose calls all succeed, and whose handler ends as `handler` says. -/
def calmCase (handler : Except PyException Unit) : CaseRun where
  mkdtemp := .ok "/tmp/fp-bb-0"
  environment := .ok ()
  adapter := .ok ⟨["adapter"], 0, "\x7b\x7d", ""⟩
  adapterEvidence := []
  adapterEnvironment := fun _ => .ok ()
  bus := ⟨.ok (), .ok (), .ok true, .ok "unix:path=/bus", .ok (), .ok ()⟩
  server := ⟨.ok (), .ok (), .ok (), .ok (), .ok ()⟩
  handler := handler
  handlerEvidence := []
  requests := []
  copyLog := .ok ()
  rmtree := .ok ()
  writeReport := .ok ()
  print := .ok ()

/-- A world for a suite of the files of `tree`, in which the handlers end as `handlers` says. -/
def calmWorld (tree : FileTree Value) (suite : Suite)
    (handlers : CaseKey → Except PyException Unit) :
    World where
  clock := fun n => n
  suite := suite
  arguments := ⟨.all, none, false⟩
  writeInitial := .ok ()
  loadTarget := .ok plainTarget
  recordTarget := .ok ()
  fixture := .ok "x86_64"
  programs := .ok ()
  version := .ok ⟨["flatpak", "--version"], 0, "Flatpak 1.16\n", ""⟩
  defaultArch := .ok ⟨["flatpak", "--default-arch"], 0, "x86_64\n", ""⟩
  buildClient := .ok Dict.empty
  case := fun key => calmCase (handlers key)
  printSetupError := .ok ()
  checkArtifacts := ⟨some "verified", some []⟩
  summarize := fun s =>
    (suite.model.summarizeReport jsonRuntime tree (s.report (plainReport suite))).map
      fun summary => summary.verification.status
  writeReport := .ok ()
  writeCoverage := .ok ()
  printSummary := .ok ()
  stepSummary := false
  writeSummary := .ok ()
  printSummaryError := .ok ()

/-- The files of the small suite, whose cases are two of the command line. -/
def smallTree : FileTree Value := smallSuite "cli.option.run.--verbose"

def loadSmall : Except PyException Suite := @Suite.load Value asciiOnly jsonRuntime smallTree

theorem exists_smallSuite : ∃ suite, loadSmall = .ok suite
    ∧ SmallShape "cli.option.run.--verbose" suite.model := by
  let _ := asciiOnly
  obtain ⟨m, hinit, hshape⟩ := small_verbose
  have hinit' : CoverageModel.init jsonRuntime smallTree = .ok m := hinit
  obtain ⟨loaded, h⟩ := CoverageModel.init_eq_ok.mp hinit'
  obtain ⟨hdistinct, hcases⟩ := suite_of_init h.behaviors hinit'
  exact ⟨⟨loaded.behaviors, m.toModelData, hdistinct, hcases⟩,
    Suite.load_eq_ok.mpr ⟨h.behaviors, m, hinit', rfl⟩, hshape⟩

variable {suite : Suite} {handlers : CaseKey → Except PyException Unit}

theorem monotone_calmWorld : Monotone (calmWorld smallTree suite handlers).clock :=
  fun _ _ h => Nat.cast_le.mpr h

theorem missing_plain (planned : CaseResult) :
    missingCapabilities plainTarget.unsupportedCapabilities planned = [] :=
  List.filterMap_eq_nil_iff.mpr fun _ _ => rfl

/-- A planned case of the small suite. -/
theorem planned_small (hshape : SmallShape "cli.option.run.--verbose" suite.model) {key : CaseKey}
    {planned : CaseResult}
    (h : (calmWorld smallTree suite handlers).initial.cases.get? key = some planned) :
    key = listCase ∨ key = FlatpakBlackbox.runCase := by
  have hmem : key ∈ (initialCases suite (calmWorld smallTree suite handlers).arguments).keys :=
    (Dict.mem_keys_iff _ _).mpr ⟨planned, h⟩
  rw [← mem_keys_model_iff, hshape.cases] at hmem
  exact (List.mem_cons.mp hmem).imp_right List.mem_singleton.mp

/-- Every id that a case of the small suite declares can be decoded. -/
theorem decodable_small (hshape : SmallShape "cli.option.run.--verbose" suite.model)
    (result : CaseResult) : suite.model.Decodable result := by
  intro _ id hid
  have hentry : id = "cli.option.run.--verbose" := by
    unfold ModelData.equivalents Dict.getD at hid
    cases hget : suite.model.equivalentOptions.get? result.caseKey with
    | none =>
        rw [hget] at hid
        cases hid
    | some ids =>
        rw [hget] at hid
        have hmem := Dict.mem_entries_of_get? hget
        rw [hshape.equivalents] at hmem
        obtain ⟨-, rfl⟩ := Prod.mk.inj (List.mem_singleton.mp hmem)
        exact List.mem_singleton.mp hid
  rw [hentry]
  exact decodeOption_isOk_iff.mpr (by decide)

theorem reports_calmWorld (hload : loadSmall = .ok suite)
    (hshape : SmallShape "cli.option.run.--verbose" suite.model) :
    (calmWorld smallTree suite handlers).Reports where
  writeInitial := rfl
  summarize s := by
    let _ := asciiOnly
    obtain ⟨-, m, hinit, hmodel⟩ := Suite.load_eq_ok.mp hload
    have hfiles := CoverageModel.snapshot_of_init hinit
    have hvalid : suite.model.Valid := hmodel ▸ m.valid
    rw [← hmodel] at hfiles
    obtain ⟨v, hv⟩ : ∃ v, suite.model.verification jsonRuntime smallTree
        (s.report (plainReport suite)) = .ok v := verification_isOk ⟨_, hfiles⟩
    have hsummary : ∃ summary, suite.model.summarizeReport jsonRuntime smallTree
        (s.report (plainReport suite)) = .ok summary := by
      by_cases hcurrent : v.status = .current
      · exact ⟨_, (summarizeReport_eq_ok hvalid).mpr ⟨v, _, .current hv hcurrent
          fun result _ => decodable_small hshape result, rfl⟩⟩
      · exact ⟨_, (summarizeReport_eq_ok hvalid).mpr ⟨v, _, .uncredited hv hcurrent, rfl⟩⟩
    obtain ⟨summary, hsummary⟩ := hsummary
    refine ⟨summary.verification.status, ?_⟩
    show (suite.model.summarizeReport jsonRuntime smallTree (s.report (plainReport suite))).map _ =
      _
    rw [hsummary]
    rfl
  writeReport := rfl
  writeCoverage := rfl
  printSummary := rfl
  writeSummary error herror := by cases herror

theorem tidy_calmCase {handler : Except PyException Unit} : (calmCase handler).Tidy "cli" none where
  cleans error herror := by
    have hclosed : (calmCase handler).closes ((calmCase handler).holds "cli" none) = .ok () := rfl
    unfold CaseRun.cleans at herror
    rw [hclosed] at herror
    cases herror
  writeReport := rfl

/-- The first case of the small suite is reached. -/
theorem reaches_list (hshape : SmallShape "cli.option.run.--verbose" suite.model) :
    (calmWorld smallTree suite handlers).Reaches plainTarget listCase := by
  have hmem : listCase ∈
    (initialCases suite (calmWorld smallTree suite handlers).arguments).keys := by
    rw [← mem_keys_model_iff, hshape.cases]
    exact List.mem_cons_self
  obtain ⟨planned, hplanned⟩ := (Dict.mem_keys_iff _ _).mp hmem
  obtain ⟨behavior, -, -, hkey, rfl⟩ := exists_of_mem_initial hplanned
  refine ⟨_, Dict.empty, hplanned, rfl, ?_, rfl, rfl⟩
  have hprofile : behavior.profile = "user" := (congrArg CaseKey.profile hkey).symm
  unfold World.gates
  rw [if_neg (not_not.mpr (missing_plain _))]
  cases (calmWorld smallTree suite handlers).suite.model.cases.get? listCase with
  | none => rfl
  | some definition =>
      refine if_neg fun hneeds => hneeds.1 ?_
      show behavior.profile ∈ ["user", "any"]
      rw [hprofile]
      decide

theorem ready_calmWorld (hshape : SmallShape "cli.option.run.--verbose" suite.model) :
    (calmWorld smallTree suite handlers).Ready plainTarget where
  loadTarget := rfl
  recordTarget := rfl
  known capability hcapability := absurd hcapability List.not_mem_nil
  ungated := by
    obtain ⟨planned, _, hplanned, hpending, hungated, -⟩ := @reaches_list suite handlers hshape
    exact ⟨listCase, planned, hplanned, hpending, hungated⟩
  fixture := ⟨"x86_64", rfl, _, rfl, rfl, by decide⟩
  programs := rfl
  version := ⟨_, rfl, rfl⟩
  client error herror := by cases herror
  print _ _ := rfl

theorem driver_of_reaches (hshape : SmallShape "cli.option.run.--verbose" suite.model)
    {key : CaseKey} (h : (calmWorld smallTree suite handlers).Reaches plainTarget key) :
    key.driver = "cli" := by
  obtain ⟨planned, _, hplanned, -⟩ := h
  rcases planned_small hshape hplanned with rfl | rfl
  · rfl
  · rfl

theorem contains_calmWorld (hshape : SmallShape "cli.option.run.--verbose" suite.model)
    (hhandlers : ∀ key error, handlers key = .error error → error.isInstance caseClasses = true) :
    (calmWorld smallTree suite handlers).Contains plainTarget := by
  intro key hreaches
  rw [driver_of_reaches hshape hreaches]
  exact ⟨tidy_calmCase, fun error herror => hhandlers key error herror⟩

/-- A handler of the small suite: the assertion of the case `run` fails. -/
def failingRun (key : CaseKey) : Except PyException Unit :=
  if key = listCase then .ok () else .error (.ofClass .contractFailure "expected an update")

theorem failingRun_caught (key : CaseKey) (error : PyException)
    (h : failingRun key = .error error) :
    error.isInstance caseClasses = true := by
  unfold failingRun at h
  split at h
  · cases h
  · obtain rfl := Except.error.inj h
    decide

/-- A handler of the small suite that raises what no `except` clause names. -/
def crash : PyException := .ofClass .runtimeError "maximum recursion depth exceeded"

/-- The world of the small suite whose case `run` fails. -/
def smallWorld (suite : Suite) : World := calmWorld smallTree suite failingRun

end Calm

/-! ## The exit status -/

/-- **The exit status of a run.** It is 0 exactly for a delivered report that is clean, or whose
failures the caller allows; a failed cleanup, a failed setup and a case that could not run exclude
both. -/
theorem main_exit (hclock : Monotone w.clock) (hrun : main w w.initial = (.ok n, s)) :
    (n = 0 ∨ n = 1)
      ∧ (n = 0 ↔ w.Delivered ∧ (s.Clean w
        ∨ (w.arguments.allowExpectedFailures = true ∧ s.ExpectedFailures)))
      ∧ ∀ result ∈ s.cases.values, (result.cleanupError ≠ none
          ∨ result.status ∈ ["setup-error", "unmet-prerequisite", "unsupported"]) → n = 1 := by
  have h := Py.of_wp (main_spec hclock) hrun
  refine ⟨h.exit, h.exit_zero, fun result hresult hbroken => h.exit.resolve_left fun hzero => ?_⟩
  obtain ⟨key, hget⟩ := Dict.mem_values_iff.mp hresult
  have hcase := h.cases key result hget
  have hstatus : result.status ∈ ["setup-error", "unmet-prerequisite", "unsupported"] := by
    rcases hbroken with hcleanup | hstatus
    · rw [hcase.cleanup hcleanup]
      exact List.mem_cons_self
    · exact hstatus
  have hexpected : result.status ∈ ["passed", "failed", "not-selected"] := by
    rcases (h.exit_zero.mp hzero).2 with hclean | hfailures
    · cases hselected : w.selected key with
      | true =>
          rw [hclean.passed key result hget hselected]
          exact List.mem_cons_self
      | false =>
          rw [hcase.unselected hselected]
          exact List.mem_cons_of_mem _ (List.mem_cons_of_mem _ List.mem_cons_self)
    · exact hfailures.2.statuses result hresult
  simp only [List.mem_cons, List.not_mem_nil, or_false] at hstatus hexpected
  rcases hstatus with hstatus | hstatus | hstatus <;> rw [hstatus] at hexpected <;>
    exact absurd hexpected (by decide)

/-! ## Times and contexts -/

/-- **The times of a run, however it ends**, in exact arithmetic and for a clock that does not go
back. The phases of every case partition its duration, a case has no execution time unless both
contexts were entered, and the cases take no more time than the run, or than the duration of its
report. -/
theorem main_times (hclock : Monotone w.clock) {outcome : Except PyException ℕ}
    (hrun : main w w.initial = (outcome, s)) :
    (∀ key result, s.cases.get? key = some result → Phased result
      ∧ ∀ t, result.timings = some t → (∃ name, (key, CaseEvent.entered name) ∉ s.events) →
        t.executionSeconds = 0)
      ∧ (s.cases.values.map secondsOf).sum ≤ w.clock s.reads - w.clock 0
      ∧ (outcome.isOk = true →
        ∃ d, s.durationSeconds = some d ∧ (s.cases.values.map secondsOf).sum ≤ d) := by
  have h : (main w w.initial).2.Sound w :=
    Py.of_wp_either (Py.wp_mono (main_spec hclock) (fun _ _ h => h.toSound) fun _ _ h => h)
  rw [hrun] at h
  refine ⟨fun key result hget => ⟨(h.cases key result hget).phased,
    fun t ht => h.execution key result t hget ht⟩, h.seconds, fun hok => ?_⟩
  cases outcome with
  | error error => cases hok
  | ok n => exact (Py.of_wp (main_spec hclock) hrun).seconds_le

/-- **The contexts of every case are released, however the run ends.** What a case entered it
leaves, the last context first, the handler is called with both contexts only, and the directory
is removed behind them. -/
theorem main_releases (hclock : Monotone w.clock) (key : CaseKey) :
    Released ((main w w.initial).2.eventsOf key) := by
  have h : (main w w.initial).2.Sound w :=
    Py.of_wp_either (Py.wp_mono (main_spec hclock) (fun _ _ h => h.toSound) fun _ _ h => h)
  exact h.released key

/-! ## The way to the end -/

section End

variable {target : TargetConfig}

/-- A run in a ready world: it returns without a setup error, or something was not contained. -/
theorem run_of_ready (hclock : Monotone w.clock) (hready : w.Ready target) (hreports : w.Reports) :
    (∃ n s, main w w.initial = (.ok n, s) ∧ (w.Tidy target → s.setupError = none))
      ∨ ∃ error s, main w w.initial = (.error error, s) ∧ ¬ w.Contains target
        ∧ (w.Tidy target → error.isInstance caseClasses = false) := by
  rcases hrun : main w w.initial with ⟨outcome, s⟩
  cases outcome with
  | error error =>
      have hblames := Py.of_wp_error (main_concluded hclock target) hrun
      exact Or.inr ⟨error, s, rfl, hblames hreports hready⟩
  | ok n =>
      exact Or.inl ⟨n, s, rfl, (Py.of_wp (main_concluded hclock target) hrun).setup hready⟩

theorem exists_of_contains (hclock : Monotone w.clock) (hready : w.Ready target)
    (hreports : w.Reports) (hcontains : w.Contains target) :
    ∃ n s, main w w.initial = (.ok n, s) ∧ s.setupError = none := by
  rcases run_of_ready hclock hready hreports with ⟨n, s, hrun, hsetup⟩ | ⟨_, _, -, hnot, -⟩
  · exact ⟨n, s, hrun, hsetup fun key hreaches => (hcontains key hreaches).toTidy⟩
  · exact absurd hcontains hnot

theorem RunState.Returned.outcome_eq (h : s.Returned w n) (htracked : s.Tracked w target [])
    {key : CaseKey} {planned : CaseResult} (hplanned : w.initial.cases.get? key = some planned) :
    ∃ result, s.cases.get? key = some result ∧ outcomeOf result = w.outcome target key planned := by
  obtain ⟨result, hget⟩ := htracked.exists_result ((Dict.mem_keys_iff _ _).mpr ⟨planned, hplanned⟩)
  refine ⟨result, hget, htracked.decided key planned result hplanned hget fun hpending => ?_⟩
  exact h.settled key ⟨result, hget, hpending⟩

/-- A run that returns without a setup error has kept track of its target. -/
theorem tracked_of_main (hclock : Monotone w.clock) (hrun : main w w.initial = (.ok n, s))
    (hsetup : s.setupError = none) :
    ∃ target, w.loadTarget = .ok target ∧ s.Tracked w target [] := by
  have hconcluded := Py.of_wp (main_concluded hclock plainTarget) hrun
  exact hconcluded.tracked hsetup

/-- **A run decides as the abstract run does.** A run that returns without a setup error gives every
case the outcome of the abstract run. -/
theorem main_decides (hclock : Monotone w.clock) (hrun : main w w.initial = (.ok n, s))
    (hsetup : s.setupError = none) :
    ∃ target, w.loadTarget = .ok target ∧ ∀ key planned, w.initial.cases.get? key = some planned →
      ∃ result, s.cases.get? key = some result
        ∧ outcomeOf result = w.outcome target key planned := by
  have hreturned := Py.of_wp (main_spec hclock) hrun
  obtain ⟨target, hload, htracked⟩ := tracked_of_main hclock hrun hsetup
  exact ⟨target, hload, fun key planned hplanned => hreturned.outcome_eq htracked hplanned⟩

/-- The outcome of a case depends on the answers for no other case. -/
theorem outcome_congr {w' : World} (hsuite : w'.suite = w.suite)
    (hclient : w'.buildClient = w.buildClient) {key : CaseKey} (hcase : w'.case key = w.case key)
    (planned : CaseResult) : w'.outcome target key planned = w.outcome target key planned := by
  have hclientOf : w'.clientOf key.driver = w.clientOf key.driver := by
    unfold World.clientOf
    rw [hclient]
  unfold World.outcome World.gates World.runs
  rw [hsuite, hclientOf, hcase]

/-- **No case influences another.** Two runs of the same suite, arguments, target and client that
both return without a setup error agree on every case that has the same answers in both, whatever
the other cases do. -/
theorem main_isolates {w' : World} {s' : RunState} {n' : ℕ} (hclock : Monotone w.clock)
    (hclock' : Monotone w'.clock) (hrun : main w w.initial = (.ok n, s))
    (hrun' : main w' w'.initial = (.ok n', s')) (hsetup : s.setupError = none)
    (hsetup' : s'.setupError = none) (hsuite : w'.suite = w.suite)
    (harguments : w'.arguments = w.arguments) (htarget : w'.loadTarget = w.loadTarget)
    (hclient : w'.buildClient = w.buildClient) {key : CaseKey} (hcase : w'.case key = w.case key) :
    (s'.cases.get? key).map outcomeOf = (s.cases.get? key).map outcomeOf := by
  have hreturned := Py.of_wp (main_spec hclock) hrun
  have hreturned' := Py.of_wp (main_spec hclock') hrun'
  obtain ⟨target, hload, htracked⟩ := tracked_of_main hclock hrun hsetup
  obtain ⟨target', hload', htracked'⟩ := tracked_of_main hclock' hrun' hsetup'
  obtain rfl : target' = target := Except.ok.inj (hload'.symm.trans (htarget.trans hload))
  have hinitial : w'.initial.cases = w.initial.cases := by
    unfold World.initial
    rw [hsuite, harguments]
  cases hplanned : w.initial.cases.get? key with
  | none =>
      have hkeys := hreturned.keys
      have hkeys' := hreturned'.keys
      have hnot := (Dict.get?_eq_none_iff _ _).mp hplanned
      have hnone : s.cases.get? key = none := (Dict.get?_eq_none_iff _ _).mpr fun hmem =>
        hnot (hkeys ▸ hmem)
      have hnone' : s'.cases.get? key = none := (Dict.get?_eq_none_iff _ _).mpr fun hmem => by
        rw [hkeys', hsuite, harguments] at hmem
        exact hnot hmem
      rw [hnone, hnone']
  | some planned =>
      obtain ⟨result, hget, houtcome⟩ := hreturned.outcome_eq htracked hplanned
      obtain ⟨result', hget', houtcome'⟩ :=
        hreturned'.outcome_eq htracked' (hinitial ▸ hplanned)
      rw [hget, hget', Option.map_some, Option.map_some, houtcome, houtcome',
        outcome_congr hsuite hclient hcase]

/-- **What a run survives.** Where the setup succeeds and the reports can be written, a run gets to
its end exactly if the cases it reaches are contained: their adapters, contexts and handlers raise
what the `except` clause of a case names, and their cleanups what that of the cleanup names. Where
only the cleanups do, a run raises what the `except` clause of a case does not name. -/
theorem main_completes (hclock : Monotone w.clock) (hready : w.Ready target)
    (hreports : w.Reports) :
    ((∃ n s, main w w.initial = (.ok n, s) ∧ s.setupError = none) ↔ w.Contains target)
      ∧ (w.Tidy target → ¬ w.Contains target → ∃ error s, main w w.initial = (.error error, s)
        ∧ error.isInstance caseClasses = false) := by
  have hcontained : (∃ n s, main w w.initial = (.ok n, s) ∧ s.setupError = none) →
      w.Contains target := by
    rintro ⟨n, s, hrun, hsetup⟩
    have hreturned := Py.of_wp (main_spec hclock) hrun
    obtain ⟨target', hload, htracked⟩ :=
      (Py.of_wp (main_concluded hclock target) hrun).tracked hsetup
    obtain rfl : target' = target := Except.ok.inj (hload.symm.trans hready.loadTarget)
    exact fun key hreaches => htracked.contained key hreaches (hreturned.settled key)
  refine ⟨⟨hcontained, exists_of_contains hclock hready hreports⟩, fun htidy hnot => ?_⟩
  rcases run_of_ready hclock hready hreports with ⟨n, s, hrun, hsetup⟩ | ⟨error, s,
    hrun, -, hraised⟩
  · exact absurd (hcontained ⟨n, s, hrun, hsetup htidy⟩) hnot
  · exact ⟨error, s, hrun, hraised htidy⟩

/-! ## The console -/

/-- **The console is told of every case once.** Only selected cases are reported, each at most once
and with its final status; at most one selected case is left out, and none in a run that returns
without a setup error. -/
theorem main_tells (hclock : Monotone w.clock) (hrun : main w w.initial = (.ok n, s)) :
    (s.reported.map Prod.fst).Nodup
      ∧ (∀ key status, (key, status) ∈ s.reported → w.selected key = true
        ∧ ∃ result, s.cases.get? key = some result ∧ result.status = status)
      ∧ s.completed = s.reported.length
      ∧ (∃ owed : List CaseKey, owed.length ≤ 1 ∧ ∀ key, w.selected key = true →
        key ∈ owed ∨ key ∈ s.reported.map Prod.fst)
      ∧ (s.setupError = none → ∀ key, w.selected key = true → key ∈ s.reported.map Prod.fst) := by
  have hreturned := Py.of_wp (main_spec hclock) hrun
  have hconcluded := Py.of_wp (main_concluded hclock plainTarget) hrun
  obtain ⟨owed, howed, htold⟩ := hconcluded.told
  refine ⟨htold.nodup, fun key status hentry => ?_, htold.completed,
    ⟨owed, howed, fun key hselected => ?_⟩, fun hsetup key hselected => ?_⟩
  · obtain ⟨hselected, -, hresult⟩ := htold.told key status hentry
    exact ⟨hselected, hresult⟩
  · exact (htold.covered key hselected).resolve_left (hreturned.settled key)
  · obtain ⟨target, -, htracked⟩ := hconcluded.tracked hsetup
    have hcovered := (htracked.covered key hselected).resolve_left (hreturned.settled key)
    exact hcovered.resolve_left List.not_mem_nil

end End

/-! ## The report of a run -/

/-- The keys of the results of a run are those of the coverage model. -/
theorem keys_report (h : s.Sound w) : s.cases.values.map CaseResult.caseKey = s.cases.keys := by
  unfold Dict.values Dict.keys
  rw [List.map_map]
  refine List.map_congr_left fun entry hentry => ?_
  exact (h.cases entry.1 entry.2 (Dict.get?_of_mem_entries hentry)).caseKey

/-- The verification of a report without unfinished, unknown or missing cases. -/
def verificationOf (problem : Option String) : Verification :=
  match problem with
  | some problem => ⟨.invalid, problem⟩
  | none => ⟨.current, "Complete report matches current definitions."⟩

theorem verifyResults_of_returned (hclean : w.CleansUp) (h : s.Returned w n) (rest : RunReport) :
    w.suite.model.verifyResults (s.report rest)
      = verificationOf (subjectProblem (s.report rest) s.cases.values) := by
  have hkeys := keys_report h.toSound
  have hnodup : (s.cases.values.map CaseResult.caseKey).Nodup := hkeys ▸ s.cases.keys_nodup
  -- The report has a result for every case of the model, and no others.
  have hsame : (s.cases.values.map CaseResult.caseKey).toFinset
      = w.suite.model.cases.keys.toFinset := by
    ext key
    rw [hkeys, h.keys, List.mem_toFinset, List.mem_toFinset, mem_keys_model_iff]
  -- No result is pending, and one that passed has a confirmed cleanup.
  have hfinished : s.cases.values.any CaseResult.unfinished = false := by
    refine List.any_eq_false.mpr fun result hresult => ?_
    obtain ⟨key, hget⟩ := Dict.mem_values_iff.mp hresult
    have hcase := h.cases key result hget
    rw [Bool.not_eq_true, CaseResult.unfinished_eq_false_iff]
    refine ⟨?_, fun hpassed => ?_⟩
    · cases hselected : w.selected key with
      | false =>
          rw [hcase.unselected hselected]
          decide
      | true =>
          rcases hcase.selected hselected with hpending | hpassed | hfailed
          · exact absurd ⟨result, hget, hpending⟩ (h.settled key)
          · rw [hpassed]
            decide
          · revert hfailed
            exact (by decide : ∀ status ∈ failureStatuses, status ∈ statuses) _
    · obtain ⟨herror, hcomplete⟩ := hcase.confirmed hclean (of_decide_eq_true hpassed)
      rw [herror]
      exact ⟨rfl, hcomplete⟩
  have hresults : (s.report rest).results = s.cases.values := rfl
  unfold ModelData.verifyResults
  dsimp only
  rw [hresults, if_neg (not_or.mpr ⟨not_not.mpr hnodup, not_not.mpr hsame⟩), hfinished,
    if_neg Bool.false_ne_true]
  rfl

/-- **A run verifies its own report.** The report of a run that returns is neither unversioned nor
stale nor incomplete, and no result in it is missing, unknown or unfinished: its verification is
that of the evidence of its passing cases, if the files of the suite are those that it was loaded
from. -/
theorem main_verifies {Bytes : Type} [UnicodeDatabase] {rt : Runtime Bytes}
    {tree : FileTree Bytes} {rest : RunReport} (hclock : Monotone w.clock) (hclean : w.CleansUp)
    (hload : Suite.load rt tree = .ok w.suite)
    (hdefinition : rest.coverageDefinition = some w.suite.model.definition.toValue)
    (hsummarize : ∀ s coverage, w.summarize s = .ok coverage → ∃ summary,
      w.suite.model.summarizeReport rt tree (s.report rest) = .ok summary
        ∧ summary.verification.status = coverage)
    (hrun : main w w.initial = (.ok n, s)) :
    w.suite.model.verification rt tree (s.report rest)
        = .ok (verificationOf (subjectProblem (s.report rest) s.cases.values))
      ∧ (s.coverage = some .current ↔ subjectProblem (s.report rest) s.cases.values = none) := by
  have h := Py.of_wp (main_spec hclock) hrun
  obtain ⟨-, m, hinit, hmodel⟩ := Suite.load_eq_ok.mp hload
  have hfiles := CoverageModel.snapshot_of_init hinit
  have hvalid : w.suite.model.Valid := hmodel ▸ m.valid
  rw [← hmodel] at hfiles
  have hverification : w.suite.model.verification rt tree (s.report rest)
      = .ok (verificationOf (subjectProblem (s.report rest) s.cases.values)) := by
    unfold ModelData.verification
    rw [show (s.report rest).coverageDefinition = some w.suite.model.definition.toValue from
      hdefinition]
    dsimp only
    -- The definition in the report is that of the model, so it is not stale.
    rw [isStale_own hfiles]
    refine Eq.trans ?_ (congrArg Except.ok (verifyResults_of_returned hclean h rest))
    exact if_neg (not_not.mpr h.complete)
  refine ⟨hverification, ?_⟩
  obtain ⟨summarized, coverage, hcoverage, hsome, hsame⟩ := h.summarized
  obtain ⟨summary, hsummary, hstatus⟩ := hsummarize summarized coverage hcoverage
  rw [hsame rest] at hsummary
  obtain ⟨v, credit, houtcome, rfl⟩ := (summarizeReport_eq_ok hvalid).mp hsummary
  have hv : w.suite.model.verification rt tree (s.report rest) = .ok v := by
    cases houtcome with
    | uncredited hv _ => exact hv
    | current hv _ _ => exact hv
  obtain rfl := Except.ok.inj (hverification.symm.trans hv)
  rw [hsome, ← hstatus, Option.some.injEq]
  show (verificationOf _).status = .current ↔ _
  cases subjectProblem (s.report rest) s.cases.values with
  | none => exact ⟨fun _ => rfl, fun _ => rfl⟩
  | some problem => exact ⟨fun h => (by cases h), fun h => (by cases h)⟩

/-! ## In the small suite -/

/-- The run of the small suite. -/
theorem exists_smallRun : ∃ suite n s, loadSmall = .ok suite
    ∧ SmallShape "cli.option.run.--verbose" suite.model
    ∧ main (smallWorld suite) (smallWorld suite).initial = (.ok n, s) ∧ s.setupError = none := by
  obtain ⟨suite, hload, hshape⟩ := exists_smallSuite
  obtain ⟨n, s, hrun, hsetup⟩ := exists_of_contains monotone_calmWorld (ready_calmWorld hshape)
    (reports_calmWorld hload hshape) (contains_calmWorld hshape failingRun_caught)
  exact ⟨suite, n, s, hload, hshape, hrun, hsetup⟩

theorem main_exit_small : ∃ suite n s,
    main (smallWorld suite) (smallWorld suite).initial = (.ok n, s) ∧ (n = 0 ∨ n = 1)
      ∧ (n = 0 ↔ (smallWorld suite).Delivered ∧ (s.Clean (smallWorld suite)
        ∨ ((smallWorld suite).arguments.allowExpectedFailures = true ∧ s.ExpectedFailures)))
      ∧ ∀ result ∈ s.cases.values, (result.cleanupError ≠ none
          ∨ result.status ∈ ["setup-error", "unmet-prerequisite", "unsupported"]) → n = 1 := by
  obtain ⟨suite, n, s, -, -, hrun, -⟩ := exists_smallRun
  exact ⟨suite, n, s, hrun, main_exit monotone_calmWorld hrun⟩

theorem main_times_small : ∃ suite outcome s,
    main (smallWorld suite) (smallWorld suite).initial = (outcome, s)
    ∧ (∀ key result, s.cases.get? key = some result → Phased result
      ∧ ∀ t, result.timings = some t → (∃ name, (key, CaseEvent.entered name) ∉ s.events) →
        t.executionSeconds = 0)
    ∧ (s.cases.values.map secondsOf).sum
        ≤ (smallWorld suite).clock s.reads - (smallWorld suite).clock 0
    ∧ (outcome.isOk = true →
        ∃ d, s.durationSeconds = some d ∧ (s.cases.values.map secondsOf).sum ≤ d) := by
  obtain ⟨suite, n, s, -, -, hrun, -⟩ := exists_smallRun
  exact ⟨suite, .ok n, s, hrun, main_times monotone_calmWorld hrun⟩

theorem main_releases_small : ∃ suite,
    Released ((main (smallWorld suite) (smallWorld suite).initial).2.eventsOf listCase) := by
  obtain ⟨suite, -⟩ := exists_smallRun
  exact ⟨suite, main_releases monotone_calmWorld listCase⟩

theorem main_decides_small : ∃ suite n s target,
    main (smallWorld suite) (smallWorld suite).initial = (.ok n, s)
      ∧ (smallWorld suite).loadTarget = .ok target
      ∧ ∀ key planned, (smallWorld suite).initial.cases.get? key = some planned →
        ∃ result, s.cases.get? key = some result
          ∧ outcomeOf result = (smallWorld suite).outcome target key planned := by
  obtain ⟨suite, n, s, -, -, hrun, hsetup⟩ := exists_smallRun
  obtain ⟨target, hload, houtcomes⟩ := main_decides monotone_calmWorld hrun hsetup
  exact ⟨suite, n, s, target, hrun, hload, houtcomes⟩

/-- The case `list` passes as it does where `run` passes, too. -/
theorem main_isolates_small : ∃ suite n s n' s',
    main (smallWorld suite) (smallWorld suite).initial = (.ok n, s)
      ∧ main (calmWorld smallTree suite fun _ => .ok ())
          (calmWorld smallTree suite fun _ => .ok ()).initial = (.ok n', s')
      ∧ (s'.cases.get? listCase).map outcomeOf = (s.cases.get? listCase).map outcomeOf := by
  obtain ⟨suite, n, s, hload, hshape, hrun, hsetup⟩ := exists_smallRun
  obtain ⟨n', s', hrun', hsetup'⟩ := exists_of_contains monotone_calmWorld (ready_calmWorld hshape)
    (reports_calmWorld hload hshape)
    (@contains_calmWorld suite (fun _ => .ok ()) hshape fun _ _ herror => by cases herror)
  exact ⟨suite, n, s, n', s', hrun, hrun',
    main_isolates monotone_calmWorld monotone_calmWorld hrun hrun'
    hsetup hsetup' rfl rfl rfl rfl (congrArg calmCase (if_pos rfl).symm)⟩

/-- The run whose case `run` fails gets to its end, the run whose handlers crash does not. -/
theorem main_completes_small : ∃ suite,
    (∃ n s, main (smallWorld suite) (smallWorld suite).initial = (.ok n, s) ∧ s.setupError = none)
      ∧ ∃ error s, main (calmWorld smallTree suite fun _ => .error crash)
          (calmWorld smallTree suite fun _ => .error crash).initial = (.error error, s)
        ∧ error.isInstance caseClasses = false := by
  obtain ⟨suite, hload, hshape⟩ := exists_smallSuite
  refine ⟨suite, (main_completes monotone_calmWorld (ready_calmWorld hshape)
    (reports_calmWorld hload hshape)).1.mpr (contains_calmWorld hshape failingRun_caught),
    (main_completes monotone_calmWorld (ready_calmWorld hshape)
      (reports_calmWorld hload hshape)).2 (fun key hreaches => ?_) fun hcontains => ?_⟩
  · rw [driver_of_reaches hshape hreaches]
    exact tidy_calmCase
  · have hnamed := (hcontains listCase (reaches_list hshape)).attempts crash rfl
    exact absurd hnamed (by decide)

theorem main_tells_small : ∃ suite n s,
    main (smallWorld suite) (smallWorld suite).initial = (.ok n, s)
      ∧ (s.reported.map Prod.fst).Nodup
      ∧ (∀ key status, (key, status) ∈ s.reported → (smallWorld suite).selected key = true
        ∧ ∃ result, s.cases.get? key = some result ∧ result.status = status)
      ∧ s.completed = s.reported.length
      ∧ (∃ owed : List CaseKey, owed.length ≤ 1 ∧ ∀ key, (smallWorld suite).selected key = true →
        key ∈ owed ∨ key ∈ s.reported.map Prod.fst)
      ∧ (s.setupError = none → ∀ key, (smallWorld suite).selected key = true →
        key ∈ s.reported.map Prod.fst) := by
  obtain ⟨suite, n, s, -, -, hrun, -⟩ := exists_smallRun
  exact ⟨suite, n, s, hrun, main_tells monotone_calmWorld hrun⟩

theorem main_verifies_small : ∃ suite n s,
    main (smallWorld suite) (smallWorld suite).initial = (.ok n, s)
      ∧ suite.model.verification jsonRuntime smallTree (s.report (plainReport suite))
        = .ok (verificationOf (subjectProblem (s.report (plainReport suite)) s.cases.values))
      ∧ (s.coverage = some .current
        ↔ subjectProblem (s.report (plainReport suite)) s.cases.values = none) := by
  let _ := asciiOnly
  obtain ⟨suite, n, s, hload, -, hrun, -⟩ := exists_smallRun
  refine ⟨suite, n, s, hrun,
    main_verifies monotone_calmWorld (fun key => ⟨fun name error hstop => ?_,
    fun _ hcopy => (by cases hcopy), fun _ hremove => (by cases hremove)⟩) hload rfl
    (fun _ _ => map_eq_ok.mp) hrun⟩
  cases name with
  | sessionBus => cases hstop
  | repositoryServer => cases hstop

end Runner

end FlatpakBlackbox
