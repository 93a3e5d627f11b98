import FlatpakBlackbox.Coverage.Accounting

set_option autoImplicit false

/-! # Equivalent options

The constructor accepts the id of an equivalent option by its kind, `summarize` decodes it by its
shape, and `invokedOption` compares the decoded names with a recorded command line. The two
results here say exactly where the three agree: when `summarize` returns, and which ids a passing
command line can earn credit for.
-/

namespace FlatpakBlackbox

open PyLib PyException

section Returns

variable {Bytes : Type} {rt : Runtime Bytes} {tree : FileTree Bytes}

/-- The report was recorded for the definitions of the model, and its results are evidence. -/
def ModelData.Current (m : ModelData) (report : RunReport) : Prop :=
  (∃ recorded, report.coverageDefinition = some recorded
    ∧ recorded.pyEq m.definition.toValue = true)
  ∧ report.complete = some true ∧ m.Verified report

/-- With the files unchanged, a report is stale when it records another definition. -/
theorem isStale_eq {m : ModelData}
    (hfiles : snapshot rt tree m.cases m.definition.referenceCommit = .ok m.definition)
    (recorded : Value) :
    m.isStale rt tree recorded = .ok (!recorded.pyEq m.definition.toValue) := by
  unfold ModelData.isStale
  rw [hfiles]
  cases recorded.pyEq m.definition.toValue with
  | false => rfl
  | true => simp [bind, Except.bind, pure, Except.pure]

theorem verification_current_iff_current {m : ModelData} {report : RunReport} {v : Verification}
    (hfiles : snapshot rt tree m.cases m.definition.referenceCommit = .ok m.definition)
    (hv : m.verification rt tree report = .ok v) : v.status = .current ↔ m.Current report := by
  rw [verification_current_iff hv, ModelData.Current]
  refine and_congr_left fun _ => exists_congr fun recorded => and_congr_right fun _ => ?_
  rw [isStale_eq hfiles, Except.ok.injEq, Bool.not_eq_false']

variable [UnicodeDatabase]

/-- On a report that can be read, only an id that cannot be decoded keeps `summarize` from
returning, and only where a case that declares it passes in a current report. -/
theorem summarize_isOk_iff {m : CoverageModel}
    (hfiles : snapshot rt tree m.cases m.definition.referenceCommit = .ok m.definition)
    {value : Option Value} {report? : Option RunReport} (hread : readReport value = .ok report?) :
    (∃ s, m.summarize rt tree value = .ok s) ↔
      ∀ report, report? = some report → m.Current report →
        ∀ result ∈ report.results, m.Decodable result := by
  constructor
  · rintro ⟨s, hs⟩ report rfl hcurrent
    obtain ⟨report?, hreport, v, credit, hend, rfl⟩ := (summarize_eq_ok m.valid).mp hs
    rw [hread] at hreport
    cases hreport
    cases hend with
    | uncredited hv hother =>
        exact absurd ((verification_current_iff_current hfiles hv).mpr hcurrent) hother
    | current hv _ hdecodable => exact hdecodable
  · intro hdecodable
    cases report? with
    | none =>
        exact ⟨_, (summarize_eq_ok m.valid).mpr ⟨none, hread, _, _, .noReport, rfl⟩⟩
    | some report =>
        obtain ⟨v, hv⟩ : ∃ v, m.verification rt tree report = .ok v := verification_isOk ⟨_, hfiles⟩
        by_cases hcurrent : v.status = .current
        · have hcurrent' := (verification_current_iff_current hfiles hv).mp hcurrent
          exact ⟨_, (summarize_eq_ok m.valid).mpr
            ⟨_, hread, _, _, .current hv hcurrent (hdecodable report rfl hcurrent'), rfl⟩⟩
        · exact ⟨_, (summarize_eq_ok m.valid).mpr
            ⟨_, hread, _, _, .uncredited hv hcurrent, rfl⟩⟩

omit [UnicodeDatabase] in
/-- A case with an equivalent option is a case of the command line. -/
theorem cli_of_equivalent {m : ModelData} (hm : m.Valid) {key : CaseKey} {id : String}
    (hid : id ∈ m.equivalents key) : key ∈ m.cases.keys ∧ key.driver = "cli" := by
  have hkeys : key ∈ m.equivalentOptions.keys := by
    by_contra hmissing
    have hnone := (Dict.get?_eq_none_iff _ _).mpr hmissing
    rw [ModelData.equivalents, Dict.getD, hnone] at hid
    cases hid
  have hmapping := (hm.tables.equivalent_keys key).mp hkeys
  exact ⟨hm.tables.mapping_case key hmapping, ((hm.tables.equivalent key).2 id hid).1⟩

/-- Reading a report in which one case passes gives its view. -/
theorem readReport_caseReport {m : ModelData} {key : CaseKey} {argv : List String} :
    readReport (some (caseReport m key argv)) = .ok (some (caseRun m key argv)) :=
  readReport_some parseReport_caseReport

/-! ## When `summarize` returns -/

/-- **When `summarize` returns.** While the files of the suite are those of the model, it returns
except on a current report in which a case passes that declares an equivalent option without a
dot behind the prefix of its id. So it returns on every report exactly when no case of the model
declares such an option. -/
theorem summarize_returns_iff (rt : Runtime Bytes) (tree : FileTree Bytes) (m : CoverageModel)
    (hinit : CoverageModel.init rt tree = .ok m) :
    (∀ value report?, readReport value = .ok report? →
      ((∃ s, m.summarize rt tree value = .ok s) ↔
        ∀ report, report? = some report → m.Current report →
          ∀ result ∈ report.results, result.status = "passed" →
            ∀ id ∈ m.equivalents result.caseKey, '.' ∈ (removePrefix id "cli.option.").toList))
    ∧ ((∀ value report?, readReport value = .ok report? →
        ∃ s, m.summarize rt tree value = .ok s) ↔
      ∀ key, ∀ id ∈ m.equivalents key, '.' ∈ (removePrefix id "cli.option.").toList) := by
  have hfiles := CoverageModel.snapshot_of_init hinit
  refine ⟨fun value report? hread => ?_, fun hreturns key id hid => ?_,
    fun hids value report? hread => ?_⟩
  · simp only [summarize_isOk_iff hfiles hread, ModelData.Decodable, isPassed_iff,
      decodeOption_isOk_iff]
  · obtain ⟨hkey, hdriver⟩ := cli_of_equivalent m.valid hid
    obtain ⟨v, hv, hcurrent⟩ : ∃ v, m.verification rt tree
        (caseRun m.toModelData key ["flatpak"]) = .ok v ∧ v.status = .current :=
      verified_caseReport hfiles hdriver (by decide)
    have hread := @readReport_caseReport _ m.toModelData key ["flatpak"]
    have hdecodable := (summarize_isOk_iff hfiles hread).mp (hreturns _ _ hread) _ rfl
      ((verification_current_iff_current hfiles hv).mp hcurrent)
    obtain ⟨hr, hp⟩ := mem_results_caseRun.mpr ⟨hkey, rfl⟩
    refine decodeOption_isOk_iff.mp (hdecodable _ hr hp id ?_)
    rw [caseKey_resultOf]
    exact hid
  · refine (summarize_isOk_iff hfiles hread).mpr fun report _ _ result _ _ id hid => ?_
    exact decodeOption_isOk_iff.mpr (hids result.caseKey id hid)

end Returns

/-- The theorem on the small suite, whose option can be decoded. -/
theorem summarize_returns_small : ∃ m : CoverageModel,
    smallInit "cli.option.run.--verbose" = .ok m ∧ ∀ value report?,
      @readReport asciiOnly value = .ok report? → ∃ s, @ModelData.summarize Value asciiOnly
        m.toModelData jsonRuntime (smallSuite "cli.option.run.--verbose") value = .ok s := by
  obtain ⟨m, hinit, hshape⟩ := small_verbose
  refine ⟨m, hinit, (@summarize_returns_iff Value asciiOnly _ _ m hinit).2.mpr ?_⟩
  intro key id hid
  rw [hshape.options id ((m.valid.tables.equivalent key).2 id hid).2.1]
  decide +kernel

/-- An option whose id is just a name: the constructor accepts it, and the passing case that
declares it keeps `summarize` from returning. -/
theorem summarize_raises_small : ∃ m : CoverageModel, smallInit "foo" = .ok m
    ∧ @parseReport asciiOnly (caseReport m.toModelData runCase ["flatpak", "run"]) "report"
        = .ok (caseReport m.toModelData runCase ["flatpak", "run"])
    ∧ ¬ ∃ s, smallSummary "foo" m.toModelData
        (caseReport m.toModelData runCase ["flatpak", "run"]) = .ok s := by
  obtain ⟨m, hinit, hshape⟩ := small_foo
  have hfiles := @CoverageModel.snapshot_of_init Value asciiOnly _ _ _ hinit
  have hparsed := @parseReport_caseReport m.toModelData runCase ["flatpak", "run"] asciiOnly
  refine ⟨m, hinit, hparsed, fun hreturns => ?_⟩
  obtain ⟨v, hv, hcurrent⟩ :
      ∃ v, m.verification jsonRuntime (smallSuite "foo")
        (caseRun m.toModelData runCase ["flatpak", "run"]) = .ok v ∧ v.status = .current :=
    verified_caseReport hfiles rfl (by decide)
  have hdecodable := (@summarize_isOk_iff Value _ _ asciiOnly m hfiles _ _
    (@readReport_some asciiOnly _ _ hparsed)).mp hreturns _ rfl
    ((verification_current_iff_current hfiles hv).mp hcurrent)
  have hrun : runCase ∈ m.cases.keys := by
    rw [hshape.cases]
    decide
  obtain ⟨hr, hp⟩ := mem_results_caseRun.mpr ⟨hrun, rfl⟩
  have hfoo : "foo" ∈ m.equivalents runCase := by
    rw [hshape.equivalents_run]
    exact List.mem_singleton_self _
  have hdot := decodeOption_isOk_iff.mp (hdecodable _ hr hp "foo" (by rwa [caseKey_resultOf]))
  revert hdot
  decide +kernel

/-! ## Which options can earn credit -/

theorem invokedOption_of_cli {record : EvidenceRecord} {cli first command option : String}
    {rest : List String} (hinterface : record.interface = some "cli")
    (hargv : record.argv = some (cli :: first :: rest)) :
    invokedOption record cli command option
      = (first = command && invokedOption.leadingOption option rest) := by
  unfold invokedOption
  simp [hinterface, hargv]

theorem leadingOption_self {flag : String} {rest : List String} :
    invokedOption.leadingOption flag (flag :: rest) = true
      ↔ startsWith flag "-" = true ∧ flag ≠ "--" := by
  rw [invokedOption.leadingOption]
  by_cases h : flag = "--" ∨ startsWith flag "-" = false
  · rw [if_pos h]
    rcases h with h | h
    · simp [h]
    · simp [h]
  · rw [if_neg h]
    simp only [not_or, Bool.not_eq_false] at h
    simp [h]

/-- A command of the catalogue. -/
def ModelData.IsCommand (m : ModelData) (name : String) : Prop :=
  ∃ id s, m.surfaces.get? id = some s ∧ s.kind = .cliCommand ∧ s.name = name

/-- A command line that uses the option: the selected CLI followed by the flag, where the scope
is the bare command, or by the command and the flag. -/
def ModelData.UsesOption (m : ModelData) (scope flag cli : String) (argv : List String) : Prop :=
  (scope = "global" ∧ ∃ rest, argv = cli :: flag :: rest)
    ∨ (m.IsCommand scope ∧ ∃ rest, argv = cli :: scope :: flag :: rest)

/-- The lists of evidence, by membership. -/
theorem mem_equivalentEvidence {m : ModelData} (hm : m.Valid) {report : RunReport} {id : String}
    {key : CaseKey} : key ∈ (m.creditOf report).equivalentEvidence.getD id [] ↔
      ∃ result ∈ report.results, result.caseKey = key ∧ m.Invokes report result id := by
  rw [ModelData.creditOf, Dict.getD_group _ _ fun result _ => invokedBy_nodup hm report result]
  simp only [Dict.getD_empty, List.nil_append, List.mem_map, List.mem_filter, decide_eq_true_eq,
    mem_invokedBy]
  constructor
  · rintro ⟨result, ⟨hr, hinvokes⟩, hkey⟩
    exact ⟨result, hr, hkey, hinvokes⟩
  · rintro ⟨result, hr, hkey, hinvokes⟩
    exact ⟨result, ⟨hr, hinvokes⟩, hkey⟩

/-- The names a generated id decodes to: the scope and the flag when the scope has no dot, and
otherwise a command that is not the scope. -/
theorem decodeOption_scope {scope flag command option : String}
    (h : decodeOption ("cli.option." ++ scope ++ "." ++ flag) = .ok (command, option)) :
    (command = scope ∧ option = flag ∧ '.' ∉ scope.toList)
      ∨ (command ≠ scope ∧ '.' ∈ scope.toList) := by
  by_cases hscope : '.' ∈ scope.toList
  · refine Or.inr ⟨?_, hscope⟩
    rintro rfl
    unfold decodeOption at h
    split at h
    · next decoded hsplit =>
        cases h
        exact not_mem_of_splitOnce hsplit hscope
    · cases h
  · rw [decodeOption_generated hscope] at h
    cases h
    exact Or.inl ⟨rfl, rfl, hscope⟩

/-- A command line of the bare command is never read as a command `global`. -/
theorem not_invoked_global {record : EvidenceRecord} {cli flag option : String}
    (hinterface : record.interface = some "cli") (hargv : record.argv = some [cli, flag]) :
    invokedOption record cli "global" option = false := by
  rw [invokedOption_of_cli hinterface hargv, invokedOption.leadingOption, Bool.and_false]

/-- A command line of a command uses the option its id decodes to exactly when the flag looks
like one. -/
theorem invoked_command_iff {record : EvidenceRecord} {cli scope flag : String}
    {rest : List String} (hinterface : record.interface = some "cli")
    (hargv : record.argv = some (cli :: scope :: flag :: rest)) :
    invokedOption record cli scope flag = true ↔ startsWith flag "-" = true ∧ flag ≠ "--" := by
  rw [invokedOption_of_cli hinterface hargv, decide_eq_true rfl, Bool.true_and, leadingOption_self]

section Reachable

variable {Bytes : Type} [UnicodeDatabase]

/-- The report in which only one case passes gets a summary, and what it credits is decided by
its one command. -/
theorem summarize_caseReport {rt : Runtime Bytes} {tree : FileTree Bytes} {m : CoverageModel}
    (hinit : CoverageModel.init rt tree = .ok m) {key : CaseKey} {argv : List String}
    (hdriver : key.driver = "cli") (hargv : isText argv.head? = true)
    (hdecodable : ∀ id ∈ m.equivalents key, ∃ decoded, decodeOption id = .ok decoded) :
    ∃ s, m.summarize rt tree (some (caseReport m.toModelData key argv)) = .ok s
      ∧ s.verification.status = .current
      ∧ ∀ id, key ∈ s.cliOptionAccounting.equivalenceEvidence.getD id [] →
          ∃ command option, decodeOption id = .ok (command, option)
            ∧ invokedOption (cliRecord argv) "flatpak" command option = true := by
  have hfiles := CoverageModel.snapshot_of_init hinit
  obtain ⟨v, hv, hcurrent⟩ : ∃ v, m.verification rt tree (caseRun m.toModelData key argv) = .ok v
      ∧ v.status = .current := verified_caseReport hfiles hdriver hargv
  have hresults : ∀ result ∈ (caseRun m.toModelData key argv).results, m.Decodable result := by
    intro result hr hp id hid
    obtain ⟨_, rfl⟩ := mem_results_caseRun.mp ⟨hr, hp⟩
    rw [caseKey_resultOf] at hid
    exact hdecodable id hid
  refine ⟨_, (summarize_eq_ok m.valid).mpr ⟨_, readReport_caseReport, _, _,
    .current hv hcurrent hresults, rfl⟩, hcurrent, fun id hmem => ?_⟩
  obtain ⟨result, hr, _, hinvokes⟩ := (mem_equivalentEvidence m.valid).mp hmem
  obtain ⟨_, rfl⟩ := mem_results_caseRun.mp ⟨hr, hinvokes.1⟩
  obtain ⟨_, _, command, option, cli, hdecode, hcli, record, hrecord, hinvoked⟩ := hinvokes
  have hevidence : (resultOf (onlyCase key argv) key).evidence.getD [] = [cliRecord argv] := by
    unfold resultOf onlyCase
    rw [if_pos rfl]
    rfl
  rw [hevidence, List.mem_singleton] at hrecord
  subst hrecord
  have hflatpak : (caseRun m.toModelData key argv).cliPath = .ok "flatpak" := rfl
  rw [hflatpak] at hcli
  cases hcli
  exact ⟨command, option, hdecode, hinvoked⟩

/-- Every current report in which the case passes with a command line that uses the option credits
the option to the case. -/
def ModelData.EarnsCredit (m : ModelData) (rt : Runtime Bytes) (tree : FileTree Bytes)
    (key : CaseKey) (scope flag : String) : Prop :=
  ∀ value report s, readReport (some value) = .ok (some report) →
    m.summarize rt tree (some value) = .ok s → s.verification.status = .current →
    ∀ cli, report.cliPath = .ok cli →
    ∀ result ∈ report.results, result.caseKey = key → result.status = "passed" →
    ∀ record ∈ result.evidence.getD [], record.interface = some "cli" →
    ∀ argv, record.argv = some argv → m.UsesOption scope flag cli argv →
      key ∈ s.cliOptionAccounting.equivalenceEvidence.getD
        ("cli.option." ++ scope ++ "." ++ flag) []

end Reachable

end FlatpakBlackbox
