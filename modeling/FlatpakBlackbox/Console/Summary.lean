import FlatpakBlackbox.Console.SafeText
import FlatpakBlackbox.Coverage.Metric
import FlatpakBlackbox.Schema.Report

set_option autoImplicit false

/-! # The job summary

`github_summary` of `console_output.py` renders a report as Markdown tables. What it reads of a
report is decoded here once (`SummaryReport`); the numbers keep Python's two types, because an
integer that no float can hold cannot be formatted with decimals.
-/

namespace FlatpakBlackbox

open PyLib

/-! ## Numbers -/

/-- A number of a JSON document: an `int` or a finite `float`. -/
inductive Number where
  | int (i : Int)
  | double (q : ℚ)
  deriving DecidableEq

def Number.ofValue? : Value → Option Number
  | .int i => some (.int i)
  | .float (.finite q) => some (.double q)
  | _ => none

/-- The value that comparisons see. -/
def Number.value : Number → ℚ
  | .int i => i
  | .double q => q

/-- The number converts to a float. -/
def Number.Fits : Number → Prop
  | .int i => -floatIntegerBound < i ∧ i < floatIntegerBound
  | .double _ => True

instance : DecidablePred Number.Fits
  | .int _ => inferInstanceAs (Decidable (_ ∧ _))
  | .double _ => inferInstanceAs (Decidable True)

/-- A decimal fraction with this many digits after the point, rounded half to even. -/
def fixedPoint (digits : Nat) (q : ℚ) : String :=
  let scaled := (roundHalfEven (|q| * 10 ^ digits)).toNat
  let fraction := (scaled % 10 ^ digits).repr
  (if q < 0 then "-" else "") ++ (scaled / 10 ^ digits).repr ++ "." ++
    String.ofList (List.replicate (digits - fraction.toList.length) '0') ++ fraction

/-- `f"{number:.{digits}f}"`. -/
def Number.format (digits : Nat) (n : Number) : Except PyException String :=
  match n with
  | .int i =>
      if (Number.int i).Fits then .ok (fixedPoint digits (toDouble i))
      else .error (.ofClass (.other "OverflowError") "int too large to convert to float")
  | .double q => .ok (fixedPoint digits q)

/-! ## What the summary reads -/

/-- `CaseResult`, with its numbers. -/
structure SummaryCase extends CaseResult where
  duration : Option Number
  /-- The setup, execution and cleanup seconds of `timings`. -/
  phases : Option (Number × Number × Number)

def Value.number? (v : Value) (key : String) : Option Number :=
  (v.field? key).bind Number.ofValue?

def SummaryCase.ofValue (v : Value) : SummaryCase where
  toCaseResult := CaseResult.ofValue v
  duration := v.number? "duration_seconds"
  phases := (v.field? "timings").map fun timings =>
    ((timings.number? "setup_seconds").getD (.int 0),
      (timings.number? "execution_seconds").getD (.int 0),
      (timings.number? "cleanup_seconds").getD (.int 0))

/-- `CoverageMetric`. -/
structure MetricCells where
  total : Int
  passed : Option Int
  passedPercent : Option Number

def MetricCells.ofValue (v : Value) : MetricCells :=
  ⟨(v.int? "total").getD 0, v.int? "passed", v.number? "passed_percent"⟩

/-- `CoverageSummary`. Objects of an accepted report that are there are not empty. -/
structure CoverageCells where
  verification : String
  /-- `metrics`, by group and key. -/
  metric : String → String → Option MetricCells
  /-- The equivalence checks and the accounted options of `cli_option_accounting`. -/
  accounting : Option (MetricCells × MetricCells)

def CoverageCells.ofValue (v : Value) : CoverageCells where
  verification := ((v.field? "verification").bind fun item => item.str? "status").getD ""
  metric group key := ((v.field? "metrics").bind fun metrics => (metrics.field? group).bind
    fun metrics => metrics.field? key).map MetricCells.ofValue
  accounting := (v.field? "cli_option_accounting").map fun item =>
    (((item.field? "equivalence_checks").map MetricCells.ofValue).getD ⟨0, none, none⟩,
      ((item.field? "accounted").map MetricCells.ofValue).getD ⟨0, none, none⟩)

/-- `RunReport`, as the summary reads it, and the two fields of the setup that it must not. -/
structure SummaryReport where
  results : List SummaryCase
  duration : Option Number
  /-- `report.get("artifact_integrity", {}).get("status")`. -/
  integrity : Option String
  coverage : Option CoverageCells
  setupError : Option String
  setupEvidence : Option (List EvidenceRecord)

def SummaryReport.ofValue (v : Value) : SummaryReport where
  results := ((v.list? "results").getD []).map SummaryCase.ofValue
  duration := v.number? "duration_seconds"
  integrity := (v.field? "artifact_integrity").bind fun item => item.str? "status"
  coverage := (v.field? "coverage").map CoverageCells.ofValue
  setupError := v.str? "setup_error"
  setupEvidence := (v.list? "setup_evidence").map fun records => records.map EvidenceRecord.ofValue

/-! ## Tables -/

/-- `_STATUSES`: the statuses with their labels and colours. -/
def statusLabels : List (String × String × Nat) :=
  [("passed", "PASS", 32), ("failed", "FAIL", 31), ("setup-error", "ERROR", 31),
   ("unmet-prerequisite", "UNMET", 33), ("unsupported", "UNSUPPORTED", 33)]

/-- Passing credit is shown for a current coverage of verified artifacts. -/
def SummaryReport.verified (report : SummaryReport) : Bool :=
  report.coverage.any (fun coverage => coverage.verification = "current") &&
    report.integrity = some "verified"

/-- The passing cell of a metric. -/
def passingCell (verified : Bool) (metric : MetricCells) : Except PyException String :=
  match verified, metric.passed, metric.passedPercent with
  | true, some passed, some percent => do
      let text ← percent.format 1
      return toString passed ++ " (" ++ text ++ "%)"
  | _, _, _ => .ok "unverified"

/-- The groups, keys and labels of `coverage_rows`. -/
def coverageLabels : List (String × String × String) :=
  [("behaviors", "cli", "CLI behaviors"), ("behaviors", "library", "Library behaviors"),
   ("surfaces", "cli-command", "CLI commands"), ("surfaces", "cli-option", "CLI options"),
   ("surfaces", "library-function", "Library functions"),
   ("surfaces", "library-signal", "Library signals")]

/-- `coverage_rows(report)`. -/
def coverageRows (report : SummaryReport) : Except PyException (List (List String)) :=
  coverageLabels.mapM fun entry =>
    match report.coverage.bind fun coverage => coverage.metric entry.1 entry.2.1 with
    | some metric => do
        let passing ← passingCell report.verified metric
        return [entry.2.2, passing, toString metric.total]
    | none => return [entry.2.2, "unverified", "unverified"]

/-- `option_accounting_rows(report)`. -/
def optionAccountingRows (report : SummaryReport) : Except PyException (List (List String)) :=
  match report.coverage.bind CoverageCells.accounting with
  | some (checks, accounted) =>
      [("Equivalence checks", checks), ("Accounted options", accounted)].mapM fun entry => do
        let passing ← passingCell report.verified entry.2
        return [entry.1, passing, toString entry.2.total]
  | none => .ok []

/-- The order of `slowest_cases`: the longest first, then by identifier, driver and profile. -/
def SummaryCase.before (a b : SummaryCase) : Prop :=
  toLex (-(a.duration.elim 0 Number.value), toLex (a.behaviorId, toLex (a.driver, a.profile))) ≤
    toLex (-(b.duration.elim 0 Number.value), toLex (b.behaviorId, toLex (b.driver, b.profile)))

instance : DecidableRel SummaryCase.before := fun _ _ => inferInstanceAs (Decidable (_ ≤ _))

/-- `slowest_cases(report)`. -/
def slowestCases (report : SummaryReport) : List SummaryCase :=
  ((report.results.filter fun case => case.duration.isSome &&
    case.status ∉ ["not-selected", "unsupported", "pending"]).insertionSort
      SummaryCase.before).take 10

/-- `timing_cells(case)`. -/
def timingCells (case : SummaryCase) : Except PyException (List String) := do
  let total ← (case.duration.getD (.int 0)).format 2
  match case.phases with
  | some (setup, execution, cleanup) => do
      let setup ← setup.format 2
      let execution ← execution.format 2
      let cleanup ← cleanup.format 2
      return [total ++ "s", setup ++ "s", execution ++ "s", cleanup ++ "s"]
  | none => return [total ++ "s", "unverified", "unverified", "unverified"]

/-- `result_heading(report, status)`. -/
def resultHeading (report : SummaryReport) (status : Int) : String :=
  if report.integrity ≠ some "verified" ∨
      report.coverage.map CoverageCells.verification ≠ some "current" then "INVALID"
  else if status ≠ 0 then "UNSUCCESSFUL"
  else "Selected cases passed"

/-- `text.replace(c, new)`. -/
def replaceChar (c : Char) (new : String) (text : List Char) : List Char :=
  text.flatMap fun d => if d = c then new.toList else [d]

/-- `html.escape(text, quote=False)`. -/
def escapeHtml (text : List Char) : List Char :=
  replaceChar '>' "&gt;" (replaceChar '<' "&lt;" (replaceChar '&' "&amp;" text))

/-- The characters with a meaning in Markdown: the class that `markdown_cell` replaces. -/
def markdownSyntax : List Char :=
  ['\\', '\x60', '*', '_', '{', '}', '[', ']', '(', ')', '#', '+', '.', '!', '|', '~', ':', '/',
    '@', '-']

section

variable [CategoryDatabase]

/-- `markdown_cell(text)`. -/
def markdownCell (text : String) : String :=
  String.ofList ((oneOf markdownSyntax).sub
    (fun found => ("&#" ++ (found.headD ' ').toNat.repr ++ ";").toList)
    (escapeHtml (safeText text).toList))

/-- `"| " + " | ".join(cells) + " |"`. -/
def tableRow (cells : List String) : String := "| " ++ " | ".intercalate cells ++ " |"

/-- The status cell of a case. -/
def statusCell (case : SummaryCase) : String :=
  let label := markdownCell ((statusLabels.lookup case.status).elim case.status Prod.fst)
  if case.status ≠ "passed" then "**" ++ label ++ "**" else label

/-- The row of a case. -/
def caseRow (case : SummaryCase) : Except PyException String := do
  let timings ← timingCells case
  return tableRow ([markdownCell case.behaviorId, markdownCell case.driver, statusCell case] ++
    timings)

/-- `f"{totals[key]} {label}"` for every status. -/
def totalsText (report : SummaryReport) : String :=
  ", ".intercalate (statusLabels.map fun entry =>
    (((report.results.map fun case => case.status).filter (· ≠ "not-selected")).count entry.1).repr
      ++ " " ++ entry.2.1)

/-- The lines above the table of cases. -/
def headLines (report : SummaryReport) (status : Int) (runtime : String)
    (coverage accounting : List (List String)) : List String :=
  ["## Flatpak compatibility", "", "**" ++ resultHeading report status ++ "**",
    "Run wall time: " ++ runtime, "",
    "Artifact integrity: " ++ markdownCell (report.integrity.getD "unverified") ++
      "; coverage verification: " ++
      markdownCell (report.coverage.elim "unverified" CoverageCells.verification), "",
    totalsText report, "",
    "| Coverage | Passing | Total |", "| --- | ---: | ---: |"] ++ coverage.map tableRow ++
  (if accounting = [] then [] else
    ["", "Separate option inventory; equivalence is not behavioral coverage.", "",
      "| Inventory | Passing | Total |", "| --- | ---: | ---: |"] ++ accounting.map tableRow) ++
  ["", "Full compatibility coverage is incomplete.", "", "### Slowest selected cases", "",
    "| Case | Driver | Status | Total | Setup | Execution | Cleanup |",
    "| --- | --- | --- | ---: | ---: | ---: | ---: |"]

/-- The lines below it. -/
def tailLines (report : SummaryReport) : List String :=
  if slowestCases report = [] then ["", "No executed case timings available."] else []

/-- The run wall time. -/
def runtimeText (report : SummaryReport) : Except PyException String :=
  match report.duration with
  | some duration => do
      let text ← duration.format 2
      return text ++ "s"
  | none => .ok "unverified"

/-- `github_summary(report, status)`. -/
def githubSummary (report : SummaryReport) (status : Int) : Except PyException String := do
  let runtime ← runtimeText report
  let coverage ← coverageRows report
  let accounting ← optionAccountingRows report
  let rows ← (slowestCases report).mapM caseRow
  return "\n".intercalate (headLines report status runtime coverage accounting ++ rows ++
    tailLines report) ++ "\n"

/-! ## Cells -/

/-- Text that neither ends its cell nor its line, nor escapes what follows. -/
def PlainCell (text : String) : Prop :=
  ∀ c ∈ text.toList, c ≠ '|' ∧ c ≠ '\\' ∧ isLineBreak c = false

omit [CategoryDatabase] in
theorem plain_of_isDigit {c : Char} (h : c = '-' ∨ c.isDigit = true) :
    c ≠ '|' ∧ c ≠ '\\' ∧ isLineBreak c = false := by
  have hspace := not_isSpace_of_isDigit h
  refine ⟨?_, ?_, ?_⟩
  · rintro rfl
    simp at h
  · rintro rfl
    simp at h
  · exact not_isLineBreak_of_not_isSpace hspace

omit [CategoryDatabase] in
theorem plainCell_append {a b : String} : PlainCell (a ++ b) ↔ PlainCell a ∧ PlainCell b := by
  rw [PlainCell, String.toList_append]
  exact List.forall_mem_append

omit [CategoryDatabase] in
theorem plainCell_ofList {cs : List Char}
    (h : cs.all (fun c => c != '|' && c != '\\' && !isLineBreak c) = true) :
    PlainCell (String.ofList cs) := by
  intro c hc
  rw [String.toList_ofList] at hc
  simpa [and_assoc] using List.all_eq_true.mp h c hc

omit [CategoryDatabase] in
theorem plainCell_repr (n : Nat) : PlainCell n.repr := fun _ hc =>
  plain_of_isDigit (.inr (isDigit_of_mem_repr hc))

omit [CategoryDatabase] in
theorem plainCell_toString (n : Int) : PlainCell (toString n) := fun _ hc =>
  plain_of_isDigit (mem_toString hc)

omit [CategoryDatabase] in
theorem plainCell_fixedPoint (digits : Nat) (q : ℚ) : PlainCell (fixedPoint digits q) := by
  have hsign : PlainCell (if q < 0 then "-" else "") := by
    split
    · exact plainCell_ofList (by decide)
    · exact plainCell_ofList (by decide)
  have hpoint : PlainCell "." := plainCell_ofList (by decide)
  have hzeros : ∀ n, PlainCell (String.ofList (List.replicate n '0')) := by
    intro n c hc
    rw [String.toList_ofList] at hc
    rw [(List.mem_replicate.mp hc).2]
    exact plain_of_isDigit (.inr rfl)
  unfold fixedPoint
  simp only [plainCell_append]
  exact ⟨⟨⟨⟨hsign, plainCell_repr _⟩, hpoint⟩, hzeros _⟩, plainCell_repr _⟩

omit [CategoryDatabase] in
theorem plainCell_format {n : Number} {digits : Nat} {text : String}
    (h : n.format digits = .ok text) : PlainCell text := by
  cases n with
  | int i =>
      rw [Number.format] at h
      split at h
      · rw [← Except.ok.inj h]
        exact plainCell_fixedPoint _ _
      · cases h
  | double q =>
      rw [← Except.ok.inj h]
      exact plainCell_fixedPoint _ _

omit [CategoryDatabase] in
/-- What replacing a character leaves is old, or part of the new text. -/
theorem mem_replaceChar {c d : Char} {new : String} {text : List Char}
    (h : d ∈ replaceChar c new text) : d ∈ new.toList ∨ d ∈ text := by
  obtain ⟨e, he, hd⟩ := List.mem_flatMap.mp h
  split at hd
  · exact .inl hd
  · rw [List.mem_singleton.mp hd]
    exact .inr he

omit [CategoryDatabase] in
theorem not_break_escapeHtml {text : List Char} (h : ∀ c ∈ text, isLineBreak c = false) :
    ∀ c ∈ escapeHtml text, isLineBreak c = false := by
  have hentity : ∀ new ∈ ["&gt;", "&lt;", "&amp;"], ∀ c ∈ new.toList, isLineBreak c = false := by
    intro new hnew
    simp only [List.mem_cons, List.not_mem_nil, or_false] at hnew
    rcases hnew with rfl | rfl | rfl <;> exact forall_mem_toList (by decide)
  intro c hc
  rcases mem_replaceChar hc with hc | hc
  · exact hentity "&gt;" (by simp) c hc
  rcases mem_replaceChar hc with hc | hc
  · exact hentity "&lt;" (by simp) c hc
  rcases mem_replaceChar hc with hc | hc
  · exact hentity "&amp;" (by simp) c hc
  · exact h c hc

/-- **A Markdown cell is plain**, whatever text it holds. -/
theorem plainCell_markdownCell (text : String) : PlainCell (markdownCell text) := by
  have hinert : InertText 240 (safeText text) := inertText_safeText text (by decide)
  have hsafe := not_break_escapeHtml hinert.unbroken
  intro c hc
  rw [markdownCell, String.toList_ofList, oneOf, Regex.sub_cls] at hc
  obtain ⟨d, hd, hc⟩ := List.mem_flatMap.mp hc
  split at hc
  · have hentity : PlainCell ("&#" ++ (([d] : List Char).headD ' ').toNat.repr ++ ";") := by
      simp only [plainCell_append]
      exact ⟨⟨plainCell_ofList (by decide), plainCell_repr _⟩, plainCell_ofList (by decide)⟩
    exact hentity c hc
  · next hclass =>
      obtain rfl := List.mem_singleton.mp hc
      refine ⟨?_, ?_, hsafe c hd⟩
      · rintro rfl
        exact hclass (by decide)
      · rintro rfl
        exact hclass (by decide)

theorem plainCell_statusCell (case : SummaryCase) : PlainCell (statusCell case) := by
  have hstars : PlainCell "**" := plainCell_ofList (by decide)
  unfold statusCell
  dsimp only
  split
  · simp only [plainCell_append]
    exact ⟨⟨hstars, plainCell_markdownCell _⟩, hstars⟩
  · exact plainCell_markdownCell _

omit [CategoryDatabase] in
theorem plainCell_timingCells {case : SummaryCase} {cells : List String}
    (h : timingCells case = .ok cells) : cells.length = 4 ∧ ∀ cell ∈ cells, PlainCell cell := by
  have hseconds : ∀ {n : Number} {text : String}, n.format 2 = .ok text →
      PlainCell (text ++ "s") := fun hformat =>
    plainCell_append.mpr ⟨plainCell_format hformat, plainCell_ofList (by decide)⟩
  have hunverified : PlainCell "unverified" := plainCell_ofList (by decide)
  obtain ⟨total, htotal, h⟩ := bind_eq_ok.mp h
  cases hphases : case.phases with
  | none =>
      rw [hphases] at h
      rw [← Except.ok.inj h]
      simp [hseconds htotal, hunverified]
  | some phases =>
      obtain ⟨setup, execution, cleanup⟩ := phases
      rw [hphases] at h
      obtain ⟨setupText, hsetup, h⟩ := bind_eq_ok.mp h
      obtain ⟨executionText, hexecution, h⟩ := bind_eq_ok.mp h
      obtain ⟨cleanupText, hcleanup, h⟩ := bind_eq_ok.mp h
      rw [← Except.ok.inj h]
      simp [hseconds htotal, hseconds hsetup, hseconds hexecution, hseconds hcleanup]

/-! ## Rows -/

/-- The pipes of a line of Markdown that no backslash escapes; the flag says that the last
character was such a backslash. -/
def unescapedPipes : Bool → List Char → Nat
  | _, [] => 0
  | true, _ :: rest => unescapedPipes false rest
  | false, c :: rest =>
      if c = '\\' then unescapedPipes true rest
      else if c = '|' then unescapedPipes false rest + 1
      else unescapedPipes false rest

omit [CategoryDatabase] in
/-- Without backslashes every pipe counts. -/
theorem unescapedPipes_eq_count {cs : List Char} (h : '\\' ∉ cs) :
    unescapedPipes false cs = cs.count '|' := by
  induction cs with
  | nil => rfl
  | cons c rest ih =>
      simp only [List.mem_cons, not_or] at h
      rw [unescapedPipes, if_neg (Ne.symm h.1), ih h.2]
      by_cases hc : c = '|'
      · rw [if_pos hc, hc, List.count_cons_self]
      · rw [if_neg hc, List.count_cons_of_ne (Ne.symm (Ne.symm hc))]

omit [CategoryDatabase] in
theorem count_of_plain {text : String} (h : PlainCell text) : text.toList.count '|' = 0 :=
  List.count_eq_zero.mpr fun hmem => (h '|' hmem).1 rfl

omit [CategoryDatabase] in
/-- What stands between the first and the last pipe of a row. -/
theorem intercalate_cells {cells : List String} (hne : cells ≠ [])
    (h : ∀ cell ∈ cells, PlainCell cell) :
    (" | ".intercalate cells).toList.count '|' + 1 = cells.length ∧
      ∀ c ∈ (" | ".intercalate cells).toList, c ≠ '\\' ∧ isLineBreak c = false := by
  induction cells with
  | nil => exact absurd rfl hne
  | cons cell rest ih =>
      have hcell := h cell (List.mem_cons_self ..)
      by_cases hrest : rest = []
      · subst hrest
        rw [String.intercalate_singleton]
        exact ⟨by rw [count_of_plain hcell]; rfl, fun c hc => (hcell c hc).2⟩
      · obtain ⟨hcount, hchars⟩ :=
          ih hrest fun other hother => h other (List.mem_cons_of_mem _ hother)
        have hsep : ∀ c ∈ " | ".toList, c ≠ '\\' ∧ isLineBreak c = false :=
          forall_mem_toList (by decide)
        rw [String.intercalate_cons_of_ne_nil hrest]
        constructor
        · simp only [String.toList_append, List.count_append, count_of_plain hcell,
            List.length_cons]
          rw [show " | ".toList.count '|' = 1 from rfl]
          omega
        · intro c hc
          simp only [String.toList_append, List.mem_append] at hc
          rcases hc with (hc | hc) | hc
          · exact (hcell c hc).2
          · exact hsep c hc
          · exact hchars c hc

omit [CategoryDatabase] in
/-- A row of plain cells has one pipe more than cells, and is one line. -/
theorem tableRow_plain {cells : List String} (hne : cells ≠ [])
    (h : ∀ cell ∈ cells, PlainCell cell) :
    unescapedPipes false (tableRow cells).toList = cells.length + 1 ∧
      ∀ c ∈ (tableRow cells).toList, isLineBreak c = false := by
  obtain ⟨hcount, hchars⟩ := intercalate_cells hne h
  have hopen : ∀ c ∈ "| ".toList, c ≠ '\\' ∧ isLineBreak c = false :=
    forall_mem_toList (by decide)
  have hclose : ∀ c ∈ " |".toList, c ≠ '\\' ∧ isLineBreak c = false :=
    forall_mem_toList (by decide)
  have hall : ∀ c ∈ (tableRow cells).toList, c ≠ '\\' ∧ isLineBreak c = false := by
    intro c hc
    simp only [tableRow, String.toList_append, List.mem_append] at hc
    rcases hc with (hc | hc) | hc
    · exact hopen c hc
    · exact hchars c hc
    · exact hclose c hc
  refine ⟨?_, fun c hc => (hall c hc).2⟩
  rw [unescapedPipes_eq_count fun hmem => (hall _ hmem).1 rfl]
  simp only [tableRow, String.toList_append, List.count_append]
  rw [show "| ".toList.count '|' = 1 from rfl, show " |".toList.count '|' = 1 from rfl]
  omega

/-- **The row of a case keeps its structure.** -/
theorem caseRow_plain {case : SummaryCase} {row : String} (h : caseRow case = .ok row) :
    unescapedPipes false row.toList = 8 ∧ ∀ c ∈ row.toList, isLineBreak c = false := by
  obtain ⟨timings, htimings, h⟩ := bind_eq_ok.mp h
  obtain ⟨hlength, hplain⟩ := plainCell_timingCells htimings
  rw [← Except.ok.inj h]
  have hcells : ∀ cell ∈ [markdownCell case.behaviorId, markdownCell case.driver,
    statusCell case] ++
      timings, PlainCell cell := by
    intro cell hcell
    rcases List.mem_append.mp hcell with hcell | hcell
    · simp only [List.mem_cons, List.not_mem_nil, or_false] at hcell
      rcases hcell with rfl | rfl | rfl
      · exact plainCell_markdownCell _
      · exact plainCell_markdownCell _
      · exact plainCell_statusCell _
    · exact hplain cell hcell
  have hrow := tableRow_plain (by simp) hcells
  rwa [List.length_append, hlength] at hrow

/-! ## The lines of the summary -/

/-- Text on one line. -/
def OneLine (text : String) : Prop := ∀ c ∈ text.toList, isLineBreak c = false

omit [CategoryDatabase] in
theorem PlainCell.oneLine {text : String} (h : PlainCell text) : OneLine text :=
  fun c hc => (h c hc).2.2

omit [CategoryDatabase] in
theorem oneLine_append {a b : String} : OneLine (a ++ b) ↔ OneLine a ∧ OneLine b := by
  rw [OneLine, String.toList_append]
  exact List.forall_mem_append

omit [CategoryDatabase] in
theorem oneLine_ofList {cs : List Char} (h : cs.all (fun c => isLineBreak c = false) = true) :
    OneLine (String.ofList cs) := forall_mem_toList h

omit [CategoryDatabase] in
theorem plainCell_passingCell {verified : Bool} {metric : MetricCells} {text : String}
    (h : passingCell verified metric = .ok text) : PlainCell text := by
  unfold passingCell at h
  split at h
  · obtain ⟨percent, hpercent, h⟩ := bind_eq_ok.mp h
    rw [← Except.ok.inj h]
    simp only [plainCell_append]
    exact ⟨⟨⟨plainCell_toString _, plainCell_ofList (by decide)⟩, plainCell_format hpercent⟩,
      plainCell_ofList (by decide)⟩
  · rw [← Except.ok.inj h]
    exact plainCell_ofList (by decide)

/-- Rows of plain cells, none of them empty. -/
def PlainRows (rows : List (List String)) : Prop :=
  ∀ row ∈ rows, row ≠ [] ∧ ∀ cell ∈ row, PlainCell cell

omit [CategoryDatabase] in
theorem plainRows_coverageRows {report : SummaryReport} {rows : List (List String)}
    (h : coverageRows report = .ok rows) : PlainRows rows := by
  have hlabel : ∀ entry ∈ coverageLabels, PlainCell entry.2.2 := by
    intro entry hentry
    simp only [coverageLabels, List.mem_cons, List.not_mem_nil, or_false] at hentry
    rcases hentry with rfl | rfl | rfl | rfl | rfl | rfl <;> exact plainCell_ofList (by decide)
  have hunverified : PlainCell "unverified" := plainCell_ofList (by decide)
  intro row hrow
  obtain ⟨entry, hentry, hrow⟩ := exists_of_mem_mapM h hrow
  split at hrow
  · obtain ⟨passing, hpassing, hrow⟩ := bind_eq_ok.mp hrow
    rw [← Except.ok.inj hrow]
    simp only [List.forall_mem_cons]
    exact ⟨List.cons_ne_nil _ _, hlabel entry hentry, plainCell_passingCell hpassing,
      plainCell_toString _, by simp⟩
  · rw [← Except.ok.inj hrow]
    simp only [List.forall_mem_cons]
    exact ⟨List.cons_ne_nil _ _, hlabel entry hentry, hunverified, hunverified, by simp⟩

omit [CategoryDatabase] in
theorem plainRows_optionAccountingRows {report : SummaryReport} {rows : List (List String)}
    (h : optionAccountingRows report = .ok rows) : PlainRows rows := by
  unfold optionAccountingRows at h
  split at h
  · next checks accounted _ =>
      intro row hrow
      obtain ⟨entry, hentry, hrow⟩ := exists_of_mem_mapM h hrow
      have hlabel : PlainCell entry.1 := by
        simp only [List.mem_cons, List.not_mem_nil, or_false] at hentry
        rcases hentry with rfl | rfl <;> exact plainCell_ofList (by decide)
      obtain ⟨passing, hpassing, hrow⟩ := bind_eq_ok.mp hrow
      rw [← Except.ok.inj hrow]
      simp only [List.forall_mem_cons]
      exact ⟨List.cons_ne_nil _ _, hlabel, plainCell_passingCell hpassing, plainCell_toString _,
        by simp⟩
  · rw [← Except.ok.inj h]
    exact fun row hrow => absurd hrow List.not_mem_nil

omit [CategoryDatabase] in
theorem oneLine_totalsText (report : SummaryReport) : OneLine (totalsText report) := by
  have hintercalate : ∀ texts : List String, (∀ text ∈ texts, OneLine text) →
      OneLine (", ".intercalate texts) := by
    intro texts
    induction texts with
    | nil => exact fun _ c hc => absurd hc (by simp)
    | cons text rest ih =>
        intro htexts
        have htext := htexts text (List.mem_cons_self ..)
        by_cases hrest : rest = []
        · subst hrest
          rwa [String.intercalate_singleton]
        · rw [String.intercalate_cons_of_ne_nil hrest]
          simp only [oneLine_append]
          exact ⟨⟨htext, oneLine_ofList (by decide)⟩,
            ih fun other hother => htexts other (List.mem_cons_of_mem _ hother)⟩
  apply hintercalate
  intro text htext
  obtain ⟨entry, hentry, rfl⟩ := List.mem_map.mp htext
  have hlabel : OneLine entry.2.1 := by
    simp only [statusLabels, List.mem_cons, List.not_mem_nil, or_false] at hentry
    rcases hentry with rfl | rfl | rfl | rfl | rfl <;> exact oneLine_ofList (by decide)
  simp only [oneLine_append]
  exact ⟨⟨(plainCell_repr _).oneLine, oneLine_ofList (by decide)⟩, hlabel⟩

/-- Every line above the cases is one line. -/
theorem oneLine_headLines {report : SummaryReport} {status : Int} {runtime : String}
    {coverage accounting : List (List String)} (hruntime : OneLine runtime)
    (hcoverage : PlainRows coverage) (haccounting : PlainRows accounting) :
    ∀ line ∈ headLines report status runtime coverage accounting, OneLine line := by
  have hrows : ∀ {rows : List (List String)}, PlainRows rows →
      ∀ line ∈ rows.map tableRow, OneLine line := by
    intro rows hplain line hline
    obtain ⟨row, hrow, rfl⟩ := List.mem_map.mp hline
    exact (tableRow_plain (hplain row hrow).1 (hplain row hrow).2).2
  have hheading : OneLine (resultHeading report status) := by
    unfold resultHeading
    split
    · exact oneLine_ofList (by decide)
    · split <;> exact oneLine_ofList (by decide)
  have hliterals : ∀ line ∈ (["## Flatpak compatibility", "", "| Coverage | Passing | Total |",
      "| --- | ---: | ---: |", "| Inventory | Passing | Total |",
      "Separate option inventory; equivalence is not behavioral coverage.",
      "Full compatibility coverage is incomplete.", "### Slowest selected cases",
      "| Case | Driver | Status | Total | Setup | Execution | Cleanup |",
      "| --- | --- | --- | ---: | ---: | ---: | ---: |"] : List String), OneLine line := by
    simp only [List.forall_mem_cons]
    refine ⟨?_, ?_, ?_, ?_, ?_, ?_, ?_, ?_, ?_, ?_, by simp⟩ <;> exact oneLine_ofList (by decide)
  have hwall : OneLine ("Run wall time: " ++ runtime) :=
    oneLine_append.mpr ⟨oneLine_ofList (by decide), hruntime⟩
  have hstars : OneLine ("**" ++ resultHeading report status ++ "**") := by
    simp only [oneLine_append]
    exact ⟨⟨oneLine_ofList (by decide), hheading⟩, oneLine_ofList (by decide)⟩
  have hintegrity : OneLine ("Artifact integrity: " ++
      markdownCell (report.integrity.getD "unverified") ++ "; coverage verification: " ++
      markdownCell (report.coverage.elim "unverified" CoverageCells.verification)) := by
    simp only [oneLine_append]
    exact ⟨⟨⟨oneLine_ofList (by decide), (plainCell_markdownCell _).oneLine⟩,
      oneLine_ofList (by decide)⟩, (plainCell_markdownCell _).oneLine⟩
  intro line hline
  simp only [headLines, List.mem_append] at hline
  rcases hline with ((hline | hline) | hline) | hline
  · simp only [List.mem_cons, List.not_mem_nil, or_false] at hline
    rcases hline with rfl | rfl | rfl | rfl | rfl | rfl | rfl | rfl | rfl | rfl | rfl
    · exact hliterals _ (by simp)
    · exact hliterals _ (by simp)
    · exact hstars
    · exact hwall
    · exact hliterals _ (by simp)
    · exact hintegrity
    · exact hliterals _ (by simp)
    · exact oneLine_totalsText report
    · exact hliterals _ (by simp)
    · exact hliterals _ (by simp)
    · exact hliterals _ (by simp)
  · exact hrows hcoverage line hline
  · split at hline
    · cases hline
    · rcases List.mem_append.mp hline with hline | hline
      · apply hliterals
        simp only [List.mem_cons, List.not_mem_nil, or_false] at hline ⊢
        rcases hline with rfl | rfl | rfl | rfl | rfl <;> simp
      · exact hrows haccounting line hline
  · apply hliterals
    simp only [List.mem_cons, List.not_mem_nil, or_false] at hline ⊢
    rcases hline with rfl | rfl | rfl | rfl | rfl | rfl | rfl <;> simp

/-- The summary is there, and between the lines above and below the table it has for each of the
slowest cases, in their order, one line: the row of the case, with eight unescaped pipes. -/
def KeepsRows (report : SummaryReport) (status : Int) : Prop :=
  ∃ text before rows, githubSummary report status = .ok text ∧
    splitLines text = before ++ rows ++ tailLines report ∧
    before.getLast? = some "| --- | --- | --- | ---: | ---: | ---: | ---: |" ∧
    List.Forall₂ (fun case row => caseRow case = .ok row ∧ unescapedPipes false row.toList = 8)
      (slowestCases report) rows

omit [CategoryDatabase] in
theorem oneLine_tailLines (report : SummaryReport) : ∀ line ∈ tailLines report, OneLine line := by
  intro line hline
  unfold tailLines at hline
  split at hline
  · simp only [List.mem_cons, List.not_mem_nil, or_false] at hline
    rcases hline with rfl | rfl <;> exact oneLine_ofList (by decide)
  · cases hline

/-- **A summary that is rendered keeps its rows.** -/
theorem keepsRows_of_ok {report : SummaryReport} {status : Int} {text : String}
    (h : githubSummary report status = .ok text) : KeepsRows report status := by
  have htext := h
  obtain ⟨runtime, hruntime, h⟩ := bind_eq_ok.mp h
  obtain ⟨coverage, hcoverage, h⟩ := bind_eq_ok.mp h
  obtain ⟨accounting, haccounting, h⟩ := bind_eq_ok.mp h
  obtain ⟨rows, hrows, h⟩ := bind_eq_ok.mp h
  have hplain : OneLine runtime := by
    unfold runtimeText at hruntime
    split at hruntime
    · obtain ⟨seconds, hseconds, hruntime⟩ := bind_eq_ok.mp hruntime
      rw [← Except.ok.inj hruntime]
      exact oneLine_append.mpr ⟨(plainCell_format hseconds).oneLine, oneLine_ofList (by decide)⟩
    · rw [← Except.ok.inj hruntime]
      exact oneLine_ofList (by decide)
  have hhead : ∀ line ∈ headLines report status runtime coverage accounting, OneLine line :=
    oneLine_headLines hplain (plainRows_coverageRows hcoverage)
      (plainRows_optionAccountingRows haccounting)
  refine ⟨text, headLines report status runtime coverage accounting, rows, htext, ?_, ?_, ?_⟩
  · rw [← Except.ok.inj h]
    apply splitLines_intercalate
    · simp [headLines]
    · intro line hline
      rcases List.mem_append.mp hline with hline | hline
      · rcases List.mem_append.mp hline with hline | hline
        · exact hhead line hline
        · obtain ⟨case, _, hcase⟩ := exists_of_mem_mapM hrows hline
          exact (caseRow_plain hcase).2
      · exact oneLine_tailLines report line hline
  · rw [headLines, List.getLast?_append_of_ne_nil _ (List.cons_ne_nil _ _)]
    rfl
  · exact (mapM_eq_ok.mp hrows).imp fun _ _ hcase => ⟨hcase, (caseRow_plain hcase).1⟩

/-! ## When it is rendered -/

omit [CategoryDatabase] in
theorem format_isOk_iff {n : Number} {digits : Nat} :
    (∃ text, n.format digits = .ok text) ↔ n.Fits := by
  cases n with
  | int i =>
      rw [Number.format]
      by_cases hfits : (Number.int i).Fits
      · simp [hfits]
      · simp [hfits]
  | double q => exact ⟨fun _ => trivial, fun _ => ⟨_, rfl⟩⟩

/-- The percentages that the summary prints. -/
def SummaryReport.percentages (report : SummaryReport) : List Number :=
  if report.verified then
    ((coverageLabels.filterMap fun entry =>
        report.coverage.bind fun coverage => coverage.metric entry.1 entry.2.1) ++
      ((report.coverage.bind CoverageCells.accounting).elim [] fun pair =>
        [pair.1, pair.2])).filterMap
        fun metric => metric.passed.bind fun _ => metric.passedPercent
  else []

/-- The seconds of a report can be formatted. -/
structure TimesFit (report : SummaryReport) : Prop where
  duration : ∀ n, report.duration = some n → n.Fits
  cases : ∀ case ∈ report.results, ∀ n, case.duration = some n → n.Fits
  phases : ∀ case ∈ report.results, ∀ phases, case.phases = some phases →
    phases.1.Fits ∧ phases.2.1.Fits ∧ phases.2.2.Fits

omit [CategoryDatabase] in
theorem passingCell_isOk_iff {verified : Bool} {metric : MetricCells} :
    (∃ text, passingCell verified metric = .ok text) ↔ (verified = true →
      ∀ n ∈ metric.passed.bind fun _ => metric.passedPercent, n.Fits) := by
  cases verified with
  | false => simp [passingCell]
  | true =>
      cases hpassed : metric.passed with
      | none => simp [passingCell, hpassed]
      | some passed =>
          cases hpercent : metric.passedPercent with
          | none => simp [passingCell, hpassed, hpercent]
          | some percent =>
              have hbind : (∃ text, passingCell true metric = .ok text) ↔
                  ∃ text, percent.format 1 = .ok text := by
                unfold passingCell
                rw [hpassed, hpercent]
                simp only [bind_eq_ok]
                exact ⟨fun ⟨_, text, htext, _⟩ => ⟨text, htext⟩, fun ⟨text, htext⟩ =>
                  ⟨_, text, htext, rfl⟩⟩
              rw [hbind, format_isOk_iff]
              simp

omit [CategoryDatabase] in
theorem coverageRows_isOk_iff {report : SummaryReport} :
    (∃ rows, coverageRows report = .ok rows) ↔ (report.verified = true → ∀ metric ∈
      coverageLabels.filterMap (fun entry =>
        report.coverage.bind fun coverage => coverage.metric entry.1 entry.2.1),
      ∀ n ∈ metric.passed.bind fun _ => metric.passedPercent, n.Fits) := by
  have hrow : ∀ entry : String × String × String, (∃ row, (match report.coverage.bind
        fun coverage => coverage.metric entry.1 entry.2.1 with
      | some metric => do
          let passing ← passingCell report.verified metric
          return [entry.2.2, passing, toString metric.total]
      | none => return [entry.2.2, "unverified", "unverified"] : Except PyException (List String)) =
        .ok row) ↔ ∀ metric, (report.coverage.bind fun coverage =>
          coverage.metric entry.1 entry.2.1) = some metric →
        ∃ text, passingCell report.verified metric = .ok text := by
    intro entry
    cases report.coverage.bind fun coverage => coverage.metric entry.1 entry.2.1 with
    | none => simp [pure, Except.pure]
    | some metric =>
        simp only [Option.some.injEq, forall_eq', bind_eq_ok]
        exact ⟨fun ⟨_, text, htext, _⟩ => ⟨text, htext⟩, fun ⟨text, htext⟩ => ⟨_, text, htext, rfl⟩⟩
  rw [coverageRows, mapM_isOk_iff]
  simp only [hrow, passingCell_isOk_iff, List.mem_filterMap]
  constructor
  · rintro h hverified metric ⟨entry, hentry, hmetric⟩
    exact h entry hentry metric hmetric hverified
  · intro h entry hentry metric hmetric hverified
    exact h hverified metric ⟨entry, hentry, hmetric⟩

omit [CategoryDatabase] in
theorem optionAccountingRows_isOk_iff {report : SummaryReport} :
    (∃ rows, optionAccountingRows report = .ok rows) ↔ (report.verified = true → ∀ metric ∈
      ((report.coverage.bind CoverageCells.accounting).elim [] fun pair => [pair.1, pair.2]),
      ∀ n ∈ metric.passed.bind fun _ => metric.passedPercent, n.Fits) := by
  unfold optionAccountingRows
  cases report.coverage.bind CoverageCells.accounting with
  | none => simp
  | some pair =>
      have hrow : ∀ entry : String × MetricCells, (∃ row, (do
            let passing ← passingCell report.verified entry.2
            return [entry.1, passing, toString entry.2.total] : Except PyException (List String)) =
              .ok row) ↔ ∃ text, passingCell report.verified entry.2 = .ok text := by
        intro entry
        simp only [bind_eq_ok]
        exact ⟨fun ⟨_, text, htext, _⟩ => ⟨text, htext⟩, fun ⟨text, htext⟩ => ⟨_, text, htext, rfl⟩⟩
      rw [mapM_isOk_iff]
      simp only [hrow, passingCell_isOk_iff, Option.elim_some, List.forall_mem_cons]
      simp only [List.not_mem_nil, false_imp_iff, implies_true, and_true]
      exact ⟨fun h hverified => ⟨h.1 hverified, h.2 hverified⟩,
        fun h => ⟨fun hverified => (h hverified).1, fun hverified => (h hverified).2⟩⟩

omit [CategoryDatabase] in
theorem fits_natCast (n : ℕ) : (Number.int n).Fits ↔ n < 2 ^ 1024 - 2 ^ 970 := by
  have hbound : floatIntegerBound = ((2 ^ 1024 - 2 ^ 970 : ℕ) : ℤ) := by
    have hle : 2 ^ 970 ≤ 2 ^ 1024 := Nat.pow_le_pow_right (by norm_num) (by norm_num)
    rw [Nat.cast_sub hle, floatIntegerBound]
    simp only [Nat.cast_pow, Nat.cast_ofNat]
  have hneg : -floatIntegerBound < n := by
    have := floatIntegerBound_pos
    omega
  constructor
  · intro hfits
    have hlt : (n : ℤ) < floatIntegerBound := hfits.2
    rw [hbound] at hlt
    exact Nat.cast_lt.mp hlt
  · intro hlt
    refine ⟨hneg, ?_⟩
    rw [hbound]
    exact Nat.cast_lt.mpr hlt

omit [CategoryDatabase] in
theorem fits_zero : (Number.int 0).Fits :=
  ⟨neg_neg_of_pos floatIntegerBound_pos, floatIntegerBound_pos⟩

omit [CategoryDatabase] in
theorem timingCells_isOk {case : SummaryCase} (hduration : ∀ n, case.duration = some n → n.Fits)
    (hphases : ∀ phases, case.phases = some phases →
      phases.1.Fits ∧ phases.2.1.Fits ∧ phases.2.2.Fits) : ∃ cells,
      timingCells case = .ok cells := by
  have hseconds : ∀ {n : Number}, n.Fits → ∃ text, n.format 2 = .ok text :=
    fun hn => format_isOk_iff.mpr hn
  have htotal : (case.duration.getD (.int 0)).Fits := by
    cases hcase : case.duration with
    | none => exact fits_zero
    | some n => exact hduration n hcase
  obtain ⟨total, htotal⟩ := hseconds htotal
  unfold timingCells
  cases hcase : case.phases with
  | none => exact ⟨_, bind_eq_ok.mpr ⟨total, htotal, rfl⟩⟩
  | some phases =>
      obtain ⟨hsetup, hexecution, hcleanup⟩ := hphases phases hcase
      obtain ⟨setup, hsetup⟩ := hseconds hsetup
      obtain ⟨execution, hexecution⟩ := hseconds hexecution
      obtain ⟨cleanup, hcleanup⟩ := hseconds hcleanup
      exact ⟨_, bind_eq_ok.mpr ⟨total, htotal, bind_eq_ok.mpr ⟨setup, hsetup, bind_eq_ok.mpr
        ⟨execution, hexecution, bind_eq_ok.mpr ⟨cleanup, hcleanup, rfl⟩⟩⟩⟩⟩

/-- **A summary is rendered when its numbers can be formatted.** -/
theorem githubSummary_isOk_iff {report : SummaryReport} (status : Int) (htimes : TimesFit report) :
    (∃ text, githubSummary report status = .ok text) ↔ ∀ n ∈ report.percentages, n.Fits := by
  have hruntime : ∃ text, runtimeText report = .ok text := by
    unfold runtimeText
    cases hduration : report.duration with
    | none => exact ⟨_, rfl⟩
    | some duration =>
        have hformat : ∃ text, duration.format 2 = .ok text :=
          format_isOk_iff.mpr (htimes.duration duration hduration)
        obtain ⟨text, htext⟩ := hformat
        exact ⟨_, bind_eq_ok.mpr ⟨text, htext, rfl⟩⟩
  have hrows : ∃ rows, (slowestCases report).mapM caseRow = .ok rows := by
    apply mapM_isOk
    intro case hcase
    have hmem : case ∈ report.results :=
      List.mem_of_mem_filter ((List.mem_insertionSort _).mp (List.mem_of_mem_take hcase))
    obtain ⟨cells, hcells⟩ := timingCells_isOk (htimes.cases case hmem) (htimes.phases case hmem)
    exact ⟨_, bind_eq_ok.mpr ⟨cells, hcells, rfl⟩⟩
  -- Only percentages can fail: the times of the report are finite.
  have hpercentages : (∀ n ∈ report.percentages, n.Fits) ↔
      (∃ rows, coverageRows report = .ok rows) ∧ ∃ rows, optionAccountingRows report =
        .ok rows := by
    rw [coverageRows_isOk_iff, optionAccountingRows_isOk_iff, SummaryReport.percentages]
    cases report.verified with
    | false => simp
    | true =>
        simp only [if_true, forall_true_left, List.mem_filterMap, List.mem_append]
        constructor
        · intro h
          exact ⟨fun metric hmetric n hn => h n ⟨metric, .inl hmetric, hn⟩,
            fun metric hmetric n hn => h n ⟨metric, .inr hmetric, hn⟩⟩
        · rintro ⟨hcoverage, haccounting⟩ n ⟨metric, hmetric | hmetric, hn⟩
          · exact hcoverage metric hmetric n hn
          · exact haccounting metric hmetric n hn
  rw [hpercentages]
  constructor
  · rintro ⟨text, h⟩
    obtain ⟨_, _, h⟩ := bind_eq_ok.mp h
    obtain ⟨coverage, hcoverage, h⟩ := bind_eq_ok.mp h
    obtain ⟨accounting, haccounting, _⟩ := bind_eq_ok.mp h
    exact ⟨⟨coverage, hcoverage⟩, accounting, haccounting⟩
  · rintro ⟨⟨coverage, hcoverage⟩, accounting, haccounting⟩
    obtain ⟨runtime, hruntime⟩ := hruntime
    obtain ⟨rows, hrows⟩ := hrows
    exact ⟨_, bind_eq_ok.mpr ⟨runtime, hruntime, bind_eq_ok.mpr ⟨coverage, hcoverage,
      bind_eq_ok.mpr ⟨accounting, haccounting, bind_eq_ok.mpr ⟨rows, hrows, rfl⟩⟩⟩⟩⟩

/-! ## Accepted reports -/

omit [CategoryDatabase] in
theorem fits_of_checkSeconds {item : Value} {path : String} {n : Number}
    (h : checkSeconds item path = .ok ()) (hn : Number.ofValue? item = some n) : n.Fits := by
  have hvalid := raiseIf_eq_ok.mp h
  cases item with
  | int i =>
      obtain rfl := Option.some.inj hn
      have hbounds : 0 ≤ i ∧ i < floatIntegerBound := by simpa using hvalid
      have hpos := floatIntegerBound_pos
      exact ⟨by omega, hbounds.2⟩
  | float x =>
      cases x with
      | finite q =>
          obtain rfl := Option.some.inj hn
          exact trivial
      | _ => cases hn
  | _ => cases hn

omit [CategoryDatabase] in
/-- `parse_report` accepts no seconds that do not convert to a float. -/
theorem timesFit_of_parseReport [UnicodeDatabase] {value parsed : Value} {path : String}
    (h : parseReport value path = .ok parsed) : TimesFit (SummaryReport.ofValue parsed) := by
  obtain ⟨json, _, haccepted, hsame⟩ := of_parseReport_eq_ok h
  have hresults : ∀ case ∈ (SummaryReport.ofValue parsed).results, ∃ result,
      checkResult result "" = .ok () ∧ SummaryCase.ofValue result = case := by
    intro case hcase
    obtain ⟨result, hresult, hview⟩ := List.mem_map.mp hcase
    rw [Value.list?, hsame _ (by decide) (by decide)] at hresult
    exact ⟨result, haccepted.results result hresult, hview⟩
  refine ⟨?_, ?_, ?_⟩
  · intro n hn
    obtain ⟨item, hitem, hn⟩ := Option.bind_eq_some_iff.mp hn
    rw [hsame _ (by decide) (by decide)] at hitem
    exact fits_of_checkSeconds (checkPresent_eq_ok.mp haccepted.seconds item hitem) hn
  · intro case hcase n hn
    obtain ⟨result, hresult, rfl⟩ := hresults case hcase
    obtain ⟨_, hseconds, _⟩ := bind_eq_ok.mp hresult
    obtain ⟨item, hitem, hn⟩ := Option.bind_eq_some_iff.mp hn
    exact fits_of_checkSeconds (checkPresent_eq_ok.mp hseconds item hitem) hn
  · intro case hcase phases hphases
    obtain ⟨result, hresult, rfl⟩ := hresults case hcase
    obtain ⟨_, _, hresult⟩ := bind_eq_ok.mp hresult
    obtain ⟨_, htimings, _⟩ := bind_eq_ok.mp hresult
    obtain ⟨timings, hfield, rfl⟩ := Option.map_eq_some_iff.mp hphases
    rw [hfield] at htimings
    have hphase : ∀ key, ((timings.number? key).getD (.int 0)).Fits := by
      intro key
      cases hn : timings.number? key with
      | none => exact fits_zero
      | some n =>
          obtain ⟨item, hitem, hnumber⟩ := Option.bind_eq_some_iff.mp hn
          cases timings with
          | dict entries =>
              exact fits_of_checkSeconds (forM_eq_ok.mp htimings (key, item)
                (mem_of_lookup hitem)) hnumber
          | _ => cases hitem
    exact ⟨hphase _, hphase _, hphase _⟩

/-! ## What the summary must not read -/

/-- The object without these keys. -/
def Value.without (keys : List String) : Value → Value
  | .dict entries => .dict (entries.filter fun entry => entry.1 ∉ keys)
  | v => v

omit [CategoryDatabase] in
theorem Value.field?_without {keys : List String} {key : String} (v : Value) (h : key ∉ keys) :
    (v.without keys).field? key = v.field? key := by
  cases v with
  | dict entries =>
      show (entries.filter _).lookup key = entries.lookup key
      induction entries with
      | nil => rfl
      | cons entry entries ih =>
          obtain ⟨other, item⟩ := entry
          by_cases hother : other ∈ keys
          · have hne : (key == other) = false := beq_false_of_ne fun heq => h (heq ▸ hother)
            rw [List.filter_cons_of_neg (by simpa using hother), ih, List.lookup_cons, hne]
          · rw [List.filter_cons_of_pos (by simpa using hother), List.lookup_cons, List.lookup_cons,
              ih]
  | _ => rfl

omit [CategoryDatabase] in
theorem Value.field?_without_mem {keys : List String} {key : String} (v : Value) (h : key ∈ keys) :
    (v.without keys).field? key = .none := by
  cases v with
  | dict entries =>
      show (entries.filter _).lookup key = .none
      rw [List.lookup_eq_none_iff]
      intro entry hentry
      have hkept : entry.1 ∉ keys := by simpa using (List.mem_filter.mp hentry).2
      exact bne_iff_ne.mpr fun heq => hkept (heq ▸ h)
  | _ => rfl

/-- A result without its evidence, its errors and what its environment was. -/
def redactResult (result : Value) : Value :=
  result.without ["evidence", "error", "cleanup_error", "state_directory", "repository_requests"]

/-- A report without the evidence and the error of its setup, and with redacted results. -/
def redact (report : Value) : Value :=
  let rest := report.without ["setup_error", "setup_evidence"]
  match rest.field? "results" with
  | some (.list results) => rest.setField "results" (.list (results.map redactResult))
  | _ => rest

/-- The view that the summary is allowed to read. -/
def SummaryCase.redacted (case : SummaryCase) : SummaryCase :=
  { case with
    evidence := none, error := none, cleanupError := none, stateDirectory := none,
    repositoryRequests := none }

def SummaryReport.redacted (report : SummaryReport) : SummaryReport :=
  { report with
    results := report.results.map SummaryCase.redacted, setupError := none, setupEvidence := none }

omit [CategoryDatabase] in
theorem slowestCases_redacted (report : SummaryReport) :
    slowestCases report.redacted = (slowestCases report).map SummaryCase.redacted := by
  unfold slowestCases SummaryReport.redacted
  rw [List.filter_map, List.map_take, List.map_insertionSort SummaryCase.before
    SummaryCase.before SummaryCase.redacted _ fun _ _ _ _ => Iff.rfl]
  rfl

/-- **The summary reads nothing that is redacted.** -/
theorem githubSummary_redacted (report : SummaryReport) (status : Int) :
    githubSummary report.redacted status = githubSummary report status := by
  have hrows : (slowestCases report.redacted).mapM caseRow =
    (slowestCases report).mapM caseRow := by
    rw [slowestCases_redacted, List.mapM_map]
    rfl
  have htail : tailLines report.redacted = tailLines report := by
    unfold tailLines
    rw [slowestCases_redacted]
    simp only [List.map_eq_nil_iff]
  have htotals : totalsText report.redacted = totalsText report := by
    have hstatuses : report.redacted.results.map (fun case => case.status) =
        report.results.map fun case => case.status := by
      rw [SummaryReport.redacted, List.map_map]
      rfl
    unfold totalsText
    rw [hstatuses]
  have hhead : headLines report.redacted status = headLines report status := by
    unfold headLines
    rw [htotals]
    rfl
  unfold githubSummary
  rw [hrows, htail, hhead]
  rfl

omit [CategoryDatabase] in
theorem ofValue_redactResult (result : Value) :
    SummaryCase.ofValue (redactResult result) = (SummaryCase.ofValue result).redacted := by
  have hkept : ∀ key, key ∉ ["evidence", "error", "cleanup_error", "state_directory",
      "repository_requests"] → (redactResult result).field? key = result.field? key :=
    fun key hkey => Value.field?_without result hkey
  have hgone : ∀ key, key ∈ ["evidence", "error", "cleanup_error", "state_directory",
      "repository_requests"] → (redactResult result).field? key = none :=
    fun key hkey => Value.field?_without_mem result hkey
  unfold SummaryCase.ofValue SummaryCase.redacted CaseResult.ofValue Value.strs? Value.strMap?
    Value.list? Value.str? Value.bool? Value.seconds? Value.number?
  rw [hkept "behavior_id" (by decide), hkept "driver" (by decide), hkept "profile" (by decide),
    hkept "status" (by decide), hkept "duration_seconds" (by decide), hkept "timings" (by decide),
    hkept "cleanup_complete" (by decide), hkept "target_version" (by decide),
    hkept "required_capabilities" (by decide), hkept "unsupported_capabilities" (by decide),
    hgone "evidence" (by decide), hgone "error" (by decide), hgone "cleanup_error" (by decide),
    hgone "state_directory" (by decide), hgone "repository_requests" (by decide)]
  rfl

omit [CategoryDatabase] in
theorem ofValue_redact (report : Value) :
    SummaryReport.ofValue (redact report) = (SummaryReport.ofValue report).redacted := by
  -- The summary reads three kinds of keys: kept ones, dropped ones, and the results.
  have hkept : ∀ key, key ∉ ["setup_error", "setup_evidence"] → key ≠ "results" →
      (redact report).field? key = report.field? key := by
    intro key hkey hne
    have hrest := Value.field?_without report hkey
    unfold redact
    dsimp only
    split
    · rw [Value.field?_setField_ne _ _ (Ne.symm hne), hrest]
    · exact hrest
  have hgone : ∀ key, key ∈ ["setup_error", "setup_evidence"] →
      (redact report).field? key = none := by
    intro key hkey
    have hrest := Value.field?_without_mem report hkey
    have hne : "results" ≠ key := by
      rintro rfl
      simp at hkey
    unfold redact
    dsimp only
    split
    · rw [Value.field?_setField_ne _ _ hne, hrest]
    · exact hrest
  have hresults : (((redact report).list? "results").getD []).map SummaryCase.ofValue =
      (((report.list? "results").getD []).map SummaryCase.ofValue).map SummaryCase.redacted := by
    have hrest : (report.without ["setup_error", "setup_evidence"]).field? "results" =
        report.field? "results" := Value.field?_without report (by decide)
    unfold redact Value.list?
    dsimp only
    rw [hrest]
    split
    · next results hfield =>
        rw [Value.field?_setField_eq (hrest.trans hfield), hfield]
        show (results.map redactResult).map _ = (results.map _).map _
        rw [List.map_map, List.map_map]
        exact List.map_congr_left fun result _ => ofValue_redactResult result
    · next hother =>
        have hnone : (report.field? "results").bind Value.asList? = none := by
          cases hfield : report.field? "results" with
          | none => rfl
          | some item =>
              cases item with
              | list results => exact absurd hfield (hother results)
              | _ => rfl
        rw [hrest, hnone]
        rfl
  unfold SummaryReport.ofValue SummaryReport.redacted
  rw [hresults]
  unfold Value.number? Value.str? Value.list?
  rw [hkept "duration_seconds" (by decide) (by decide),
    hkept "artifact_integrity" (by decide) (by decide), hkept "coverage" (by decide) (by decide),
    hgone "setup_error" (by decide), hgone "setup_evidence" (by decide)]
  rfl

end

/-! ## Small reports -/

section Small

/-- A coverage section that claims this percentage for the CLI behaviors. -/
def claimedCoverage (percent : Value) : Value := .dict [
  ("schema", .int 1),
  ("definition", .dict [("schema", .int 1), ("fingerprint", .str "f"), ("files", .dict []),
    ("policy_sha256", .str "p"), ("loader_sha256", .str "l"), ("reference_commit", .str "c")]),
  ("verification", .dict [("status", .str "current"), ("reason", .str "complete")]),
  ("metrics", .dict [
    ("behaviors", .dict [("cli", .dict [("total", .int 1), ("implemented", .int 1),
      ("implemented_percent", .none), ("passed", .int 1), ("passed_percent", percent)])]),
    ("surfaces", .dict []), ("profiles", .dict []), ("categories", .dict [])]),
  ("case_statuses", .dict []), ("evidence", .dict []), ("interface_evidence", .dict []),
  ("requirement_capabilities", .dict []), ("all_possible_behavior_percent", .none),
  ("recorded_execution", .none), ("surfaces_without_catalogued_requirements", .list []),
  ("unimplemented_requirements", .list []), ("unverified_requirements", .none),
  ("limitations", .list [])]

/-- A report of one case, whose coverage claims this percentage. -/
def claimedReport (percent : Value) : Value := .dict [
  ("schema", .int 1), ("artifact_integrity", .dict [("status", .str "verified")]),
  ("results", .list [.dict [("behavior_id", .str "a|b"), ("driver", .str "cli"),
    ("profile", .str "any"), ("status", .str "passed"),
    ("duration_seconds", .float (.finite 1))]]),
  ("coverage", claimedCoverage percent)]

/-- The same report with what its case left behind. -/
def tracedReport (percent : Value) : Value := .dict [
  ("schema", .int 1), ("artifact_integrity", .dict [("status", .str "verified")]),
  ("setup_error", .str "secret"),
  ("results", .list [.dict [("behavior_id", .str "a|b"), ("driver", .str "cli"),
    ("profile", .str "any"), ("status", .str "passed"), ("duration_seconds", .float (.finite 1)),
    ("error", .str "secret"), ("state_directory", .str "/tmp/secret")]]),
  ("coverage", claimedCoverage percent)]

end Small

end FlatpakBlackbox
