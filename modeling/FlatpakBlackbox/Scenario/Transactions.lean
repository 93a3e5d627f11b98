import FlatpakBlackbox.Basic.Text
import FlatpakBlackbox.Scenario.Client
import FlatpakBlackbox.Schema.Lossless

set_option autoImplicit false

/-! # The supplemental transaction scenarios

`_supplemental` of `transaction_scenarios.py` unpacks and indexes the transactions group of the
manifest. The validator checks the shape of the group, but not which versions and refs are in it.
-/

namespace FlatpakBlackbox.Scenario

open PyLib PyException Script

/-! ## Helpers -/

/-- `[row[1:] for row in rows if row[0] == label]`. -/
def rowsOf (label : String) (rows : List (List String)) : List (List String) :=
  (labelled label rows).map List.tail

/-- `items[0]`. -/
def head {α : Type} (items : List α) : Talk α :=
  match items with
  | item :: _ => pure item
  | [] => .raise (.ofClass .indexError "list index out of range")

/-- A list of strings of the manifest. -/
def texts (items : Value) : List String :=
  (items.asList?.getD []).map fun item => item.asStr?.getD ""

/-- The keyword arguments of `_tx`. -/
structure Transaction where
  operand : String := "-"
  succeeds : Bool := true

/-- `_tx(driver, mode, action, ref, …)`. -/
def tx (mode action ref : String) (options : Transaction := {}) : Talk (List (List String)) := do
  let answer ← ask (.call "tx-run" [mode, action, "fixture", ref, options.operand])
  check (answer.returncode = if options.succeeds then 0 else 1)
    s!"{mode}/{action}: unexpected result {answer.returncode}: {answer.stderr}"
  check ("result" ∈ answer.rows.filterMap List.head?) "client must complete its assertions"
  check (options.succeeds = true ∨ ∃ row ∈ answer.rows, row.head? = some "error" ∧ row.length = 3)
    "failed transaction must supply an outer GError"
  return answer.rows

/-- `int(text)`, for decimal digits of ASCII. -/
def parseInt (text : String) : Option Int :=
  let value (digits : List Char) : Option Nat :=
    if (digits.splitOn '_').all fun group => group ≠ [] && group.all Char.isDigit then
      some ((digits.filter Char.isDigit).foldl (fun n c => 10 * n + (c.toNat - 48)) 0)
    else none
  match strip text.toList with
  | '-' :: digits => (value digits).map fun n => -(n : Int)
  | '+' :: digits => (value digits).map fun n => (n : Int)
  | digits => (value digits).map fun n => (n : Int)

/-- `int(row[k])`. -/
def intCell (k : Nat) (row : List String) : Talk Int := do
  let text ← cell k row
  match parseInt text with
  | some n => pure n
  | none => .raise (valueError s!"invalid literal for int() with base 10: {text}")

/-- `max(numbers)`. -/
def maximum (numbers : List Int) : Talk Int :=
  match numbers with
  | n :: rest => pure (rest.foldl max n)
  | [] => .raise (valueError "max() iterable argument is empty")

/-- `absent(ref)`. -/
def absent (ref : String) : Talk Unit := do
  let result ← ask (.call "query" [ref])
  check (result.returncode = 3) s!"{ref} must be absent with NOT_INSTALLED"

/-- What a supplemental scenario works with. -/
structure Supplement where
  /-- The transactions group. -/
  extra : Value
  directory : String
  /-- The names of the applications. -/
  apps : List String
  first : String
  second : String

namespace Supplement

variable (s : Supplement)

/-- `extra["commits"][version][ref]`. -/
def commit (version ref : String) : Talk String := do
  let commits ← lookup [] s.extra "commits"
  let refs ← lookup ["commits"] commits version
  lookupText ["commits", version] refs ref

/-- `set(extra["payloads"]["B"][ref])`. -/
def payloads (ref : String) : Talk (List String) := do
  let payloads ← lookup [] s.extra "payloads"
  let refs ← lookup ["payloads"] payloads "B"
  let items ← lookup ["payloads", "B"] refs ref
  return texts items

/-- `state(ref, version)`. -/
def state (ref version : String) : Talk Unit := do
  let answer ← success "query" [ref]
  let commit ← s.commit version ref
  check (answer.words = [ref, commit]) s!"{ref} must be deployed at {version}"

/-- `server.directory = directory / version`, with the other settings of the server. -/
def serve (version : String) (slow : Bool := false) (blocked : List String := []) : Talk Answer :=
  ask (.serve s!"{s.directory}/{version}" slow blocked)

/-! ## Scenarios -/

/-- `f"{version}:{name}"`. -/
def metadataKey (version name : String) : String := s!"{version}:{name}"

/-- One of the two texts that `tx-metadata` compares. -/
def compareMetadata (rows : List (List String)) (label version : String) : Talk Unit := do
  let row ← head (rowsOf label rows)
  let encoded ← show Talk String from
    match row with
    | [encoded] => pure encoded
    | _ => .raise (valueError "not enough values to unpack (expected 1)")
  let metadata ← lookup [] s.extra "metadata"
  let name ← head s.apps
  let expected ← lookupText ["metadata"] metadata (metadataKey version name)
  let same ← ask (.sameConfiguration encoded expected)
  check (same.returncode = 0) s!"{label} must equal complete fixture {version}"

/-- `tx-metadata`. -/
def metadata : Talk Unit := do
  let rows ← tx "abort-ready" "update" s.first { succeeds := false }
  check (rowsOf "ready" rows = [["1"]]) "metadata update resolves only app"
  let op ← head (rowsOf "op" rows)
  let resolved ← cell 3 op
  let commit ← s.commit "B" s.first
  check (resolved = commit) "resolved commit must be B"
  s.compareMetadata rows "metadata" "B"
  s.compareMetadata rows "old-metadata" "A"
  s.state s.first "A"

/-- One transfer of `tx-frequency`: how many samples it advances by. -/
def sampleCount (url : String) (index : Nat) (mode : String) : Talk Nat := do
  let _ ← ask (.mkdir s!"transaction-states/frequency-{index}")
  let _ ← s.serve "A"
  setupSuccess "remote-create" ["fixture", url, "Supplemental transactions", "1"]
  setupSuccess "install" [s.first]
  s.state s.first "A"
  let _ ← s.serve "B" true
  let rows ← tx mode "update" s.first
  let samples ← (rowsOf "progress" rows).mapM (intCell 1)
  let largest ← maximum samples
  check (1024 * 1024 ≤ largest) "each cadence control transfers independent payload"
  s.state s.first "B"
  return (samples.dedup.filter fun n => n ≠ 0 ∧ n ≠ largest).length

/-- `tx-frequency`. -/
def frequency (url : String) : Talk Unit := do
  let fast ← s.sampleCount url 0 "frequency-fast"
  let slow ← s.sampleCount url 1 "frequency-slow"
  let again ← s.sampleCount url 2 "frequency-fast"
  check (1 ≤ slow ∧ 2 * slow < min fast again)
    s!"50ms updates sample advancing bytes more often than 1000ms: {[fast, slow, again]}"

/-- `tx-progress` and `tx-rate`. -/
def progress (rate : Bool) : Talk Unit := do
  let _ ← s.serve "B" true
  let rows ← tx (if rate then "rate" else "progress") "update" s.first
  let values := rowsOf "progress" rows
  check (2 < values.length) "paced transfer needs repeated readings and payload-sized byte count"
  let samples ← values.mapM (intCell 1)
  let largest ← maximum samples
  check (1024 * 1024 ≤ largest)
    "paced transfer needs repeated readings and payload-sized byte count"
  if rate then do
    let elapsed ← (rowsOf "rate" rows).mapM (intCell 0)
    let rates ← (rowsOf "rate" rows).mapM (intCell 1)
    check (∃ entry ∈ elapsed.zip rates, entry.1 < 1000000 ∧ entry.2 = 0)
      "first transfer second must expose initial zero rate"
    check (∃ entry ∈ elapsed.zip rates, 1000000 ≤ entry.1 ∧ 0 < entry.2)
      "sustained transfer must eventually expose positive bytes-per-second"
  else pure ()
  s.state s.first "B"

/-- What the errors of the client must be: one, of the failing operation, and fatal. -/
def ownError (failing : String) (errors : List (List String)) : Talk Bool :=
  match errors with
  | [error] => do
      let ref ← cell 0 error
      if ref = failing then return (← cell 3 error) = "0" else return false
  | _ => pure false

/-- One run of a plan of two independent operations, of which one fails. -/
def decision (order : List String) (failing mode : String) (survive : Bool) : Talk Unit := do
  let result ← ask (.call "tx-run" [mode, "update-install", "fixture", s.first, s.second])
  check (result.returncode = 0 ∨ result.returncode = 1)
    s!"operation decision assertion: {result.stderr}"
  let own ← ownError failing (rowsOf "operation-error" result.rows)
  check (own = true) "failing mandatory operation must provide GError and fatal detail"
  let expectedNew := if mode = "continue" ∨ survive = true then order else order.take 1
  check (rowsOf "new" result.rows = expectedNew.map fun ref => [ref])
    "callback decision must govern remaining independent operation"
  let completed := expectedNew.filter fun ref => ref ≠ failing
  let finished ← completed.mapM fun ref => do
    let commit ← s.commit "B" ref
    return [ref, commit, "0"]
  check (rowsOf "done" result.rows = finished)
    "completed independent operations must identify B commits"
  check (mode = "normal" → result.returncode = 1 ∧ rowsOf "error" result.rows ≠ [])
    "stopping on failure must return FALSE and outer GError"
  [s.first, s.second].forM fun ref =>
    if ref ∈ completed then s.state ref "B"
    else if ref = s.first then s.state ref "A"
    else absent ref

/-- `tx-independent-errors`, and `tx-completed-survive`, where the last operation fails. -/
def independent (survive : Bool) : Talk Unit := do
  let plan ← tx "abort-ready" "update-install" s.first { operand := s.second, succeeds := false }
  let order ← (rowsOf "op" plan).mapM (cell 0)
  check (sameSet order [s.first, s.second] = true ∧ order.length = 2)
    "controlled plan must have exactly two independent app operations"
  let failing ← head (if survive then order.reverse else order)
  let blocked ← s.payloads failing
  let _ ← s.serve "B" false blocked
  check (blocked ≠ []) "failed operation must require unique new payloads"
  (if survive then ["normal"] else ["normal", "continue"]).forM fun mode =>
    s.decision order failing mode survive
  let denied ← ask .denied
  check (denied.returncode = 0) "server must observe a denied required payload"

/-- `tx-eol`. -/
def eol : Talk Unit := do
  let _ ← s.serve "EOL"
  let rows ← tx "normal" "update" s.first
  let reason ← lookupText [] s.extra "eol_reason"
  check (rowsOf "eol" rows = [[s.first, reason, "-"]])
    "EOL notification must supply ref, reason, and absent replacement"
  s.state s.first "EOL"
  let _ ← s.serve "REBASE"
  let rows ← tx "normal" "update" s.first
  check (rowsOf "eol" rows = [[s.first, reason, s.second]])
    "EOL notification must also preserve a non-NULL replacement"
  s.state s.first "REBASE"

/-- `tx-eol-rebase`. -/
def eolRebase : Talk Unit := do
  let _ ← s.serve "REBASE"
  let rows ← tx "normal" "update" s.first
  let reason ← lookupText [] s.extra "eol_reason"
  let name ← head s.apps
  let payload := ["fixture", s.first, reason, s.second, name]
  check (rowsOf "eol-rebase" rows = [payload])
    "EOL callback must identify source, reason, target and previous IDs"
  check (rowsOf "new" rows = [[s.first]]) "FALSE must retain old update"
  s.state s.first "REBASE"
  absent s.second
  -- Reinstall A from the available older commit, then accept the same EOL decision.
  let commit ← s.commit "A" s.first
  let _ ← tx "normal" "update" s.first { operand := commit }
  let rows ← tx "rebase" "update" s.first
  check (rowsOf "eol-rebase" rows = [payload]) "TRUE receives same EOL payload"
  check (rowsOf "new" rows = [[s.second], [s.first]])
    "rebase replacement installs before old uninstall"
  let kinds ← (rowsOf "op" rows).mapM (cell 2)
  check (kinds = ["0", "3"]) "old update must be skipped in favor of uninstall"
  s.state s.second "REBASE"
  absent s.first

/-- `tx-rebase-failure`. -/
def rebaseFailure : Talk Unit := do
  let blocked ← s.payloads s.second
  let _ ← s.serve "B" false blocked
  let rows ← tx "normal" "rebase" s.first { operand := s.second, succeeds := false }
  check (rowsOf "new" rows = [[s.second]]) "failed rebase cannot uninstall old app"
  check (rowsOf "operation-error" rows ≠ []) "replacement must fail during execution"
  s.state s.first "A"
  absent s.second

/-- `tx-rebase-success`. -/
def rebaseSuccess : Talk Unit := do
  let rows ← tx "normal" "rebase" s.first { operand := s.second }
  check (rowsOf "new" rows = [[s.second], [s.first]])
    "replacement install must precede old uninstall"
  s.state s.second "B"
  absent s.first
  let _ ← tx "normal" "uninstall" s.second
  let rows ← tx "normal" "rebase" s.first { operand := s.second }
  check (rowsOf "new" rows = [[s.second]]) "absent old ref silently omits uninstall"
  s.state s.second "B"

/-- The branch of a scenario. -/
def scenario (url name : String) : Talk Unit :=
  if name = "tx-metadata" then s.metadata
  else if name = "tx-frequency" then s.frequency url
  else if name = "tx-progress" ∨ name = "tx-rate" then s.progress (name = "tx-rate")
  else if name = "tx-independent-errors" ∨ name = "tx-completed-survive" then
    s.independent (name = "tx-completed-survive")
  else if name = "tx-eol" then s.eol
  else if name = "tx-eol-rebase" then s.eolRebase
  else if name = "tx-rebase-failure" then s.rebaseFailure
  else if name = "tx-rebase-success" then s.rebaseSuccess
  else pure ()

/-- The part of `_supplemental` with the server running. -/
def serving (fixture : Value) (runtime name : String) : Talk Unit := do
  let server ← s.serve "A"
  setupSuccess "remote-edit" ["fixture", server.text, "Supplemental transactions", "1"]
  setupSuccess "install" [s.first]
  s.state s.first "A"
  let _ ← s.serve "B"
  s.scenario server.text name
  let answer ← success "query" [runtime]
  let commit ← lookupText ["fixture"] fixture "runtime_commit"
  check (answer.words = [runtime, commit])
    "supplemental transactions must retain unchanged runtime"

end Supplement

/-- The scenarios that `run` hands over to `_supplemental`. -/
def supplementalScenarios : List String := ["tx-metadata", "tx-independent-errors",
  "tx-completed-survive", "tx-progress", "tx-rate", "tx-frequency", "tx-eol", "tx-eol-rebase",
  "tx-rebase-success", "tx-rebase-failure"]

/-- `first, second = […]`. That there are two applications is something the scenario demands of the
manifest, as it demands its entries. -/
def unpackApps (apps : Value) : Talk (String × String) :=
  .look ["apps", "first, second"] (if (texts apps).length = 2 then some apps else none) fun _ =>
    pure ((texts apps).headD "", (texts apps).getLastD "")

/-- `_supplemental(driver, fixture, name)`, with `fixture["directory"]`, which the runner sets. -/
def supplemental (directory : String) (fixture : Value) (name : String) : Talk Unit :=
  match (fixture.field? "extras").bind (·.field? "transactions") with
  | none => .raise
      (.ofClass .diagnosticFailure "prepare_transactions.py supplemental fixture is required")
  | some extra => do
      let subdirectory ← lookupText [] extra "directory"
      let apps ← lookup [] extra "apps"
      let arch ← lookupText ["fixture"] fixture "arch"
      let branch ← lookupText ["fixture"] fixture "branch"
      let (first, second) ← unpackApps apps
      let runtime ← lookupText ["fixture"] fixture "runtime"
      let s : Supplement := ⟨extra, s!"{directory}/{subdirectory}", texts apps,
        s!"app/{first}/{arch}/{branch}", s!"app/{second}/{arch}/{branch}"⟩
      s.serving fixture s!"runtime/{runtime}/{arch}/{branch}" name

/-! ## What the manifest has -/

/-- `container[k₁]…[kₙ]` is there. -/
def Has (container : Value) : List String → Prop
  | [] => True
  | key :: keys => ∃ item, container.field? key = some item ∧ Has item keys

/-- A lookup finds something. -/
def Found (_ : List String) (found : Option Value) : Prop := found.isSome = true

/-- The entries that the scenarios look up in the group. -/
def Supplement.entries (s : Supplement) : List (List String) := [
  ["commits", "A", s.first], ["commits", "B", s.first], ["commits", "B", s.second],
  ["commits", "EOL", s.first], ["commits", "REBASE", s.first], ["commits", "REBASE", s.second],
  ["payloads", "B", s.first], ["payloads", "B", s.second],
  ["metadata", metadataKey "B" (s.apps.headD "")], ["metadata", metadataKey "A" (s.apps.headD "")]]

def Supplement.Indexed (s : Supplement) : Prop := ∀ keys ∈ s.entries, Has s.extra keys

section

variable {α : Type} {Q : α → Prop}

theorem meets_lookup_bind {name : List String} {container : Value} {key : String}
    {f : Value → Talk α} : (lookup name container key >>= f).Meets Found Q ↔
      ∃ item, container.field? key = some item ∧ (f item).Meets Found Q := by
  constructor
  · rintro ⟨hfound, hnext⟩
    obtain ⟨item, hitem⟩ := Option.isSome_iff_exists.mp hfound
    exact ⟨item, hitem, hnext item hitem⟩
  · rintro ⟨item, hitem, hnext⟩
    refine ⟨Option.isSome_iff_exists.mpr ⟨item, hitem⟩, fun value hvalue => ?_⟩
    obtain rfl := Option.some.inj (hitem.symm.trans hvalue)
    exact hnext

theorem meets_lookupText {name : List String} {container : Value} {key : String} :
    (lookupText name container key).Meets Found Anything ↔ Has container [key] :=
  meets_lookup_bind

theorem meets_commit {s : Supplement} {version ref : String} :
    (s.commit version ref).Meets Found Anything ↔ Has s.extra ["commits", version, ref] :=
  meets_lookup_bind.trans (exists_congr fun _ => and_congr_right fun _ =>
    meets_lookup_bind.trans (exists_congr fun _ => and_congr_right fun _ => meets_lookupText))

theorem meets_payloads {s : Supplement} {ref : String} :
    (s.payloads ref).Meets Found Anything ↔ Has s.extra ["payloads", "B", ref] :=
  meets_lookup_bind.trans (exists_congr fun _ => and_congr_right fun _ =>
    meets_lookup_bind.trans (exists_congr fun _ => and_congr_right fun _ => meets_lookup_bind))

end

/-! ## Enough entries -/

theorem silent_tx (mode action ref : String) (options : Transaction) :
    Silent (tx mode action ref options) :=
  (silent_ask _).bind fun _ => (silent_check _ _).bind fun _ => (silent_check _ _).bind fun _ =>
    (silent_check _ _).bind fun _ => silent_pure _

theorem meets_head {α : Type} {P : List String → Option Value → Prop} (items : List α) :
    (head items).Meets P fun item => items.head? = some item := by
  cases items with
  | nil => trivial
  | cons item items => exact rfl

theorem silent_intCell (k : Nat) (row : List String) : Silent (intCell k row) := by
  refine (silent_cell k row).bind fun text P => ?_
  cases parseInt text with
  | none => trivial
  | some n => trivial

theorem silent_maximum (numbers : List Int) : Silent (maximum numbers) := by
  intro P
  cases numbers with
  | nil => trivial
  | cons n numbers => trivial

theorem silent_absent (ref : String) : Silent (absent ref) :=
  (silent_ask _).bind fun _ => silent_check _ _

namespace Supplement

theorem silent_ownError (failing : String) (errors : List (List String)) :
    Silent (ownError failing errors) := by
  intro P
  unfold ownError
  split
  · refine (silent_cell 0 _ P).bind fun ref _ => .ite (fun _ => ?_) fun _ => trivial
    exact (silent_cell 3 _ P).bind fun _ _ => trivial
  · trivial

variable {s : Supplement}

theorem meets_state {ref version : String} (h : Has s.extra ["commits", version, ref]) :
    (s.state ref version).Meets Found Anything :=
  (silent_success _ _ Found).bind fun _ _ => (meets_commit.mpr h).bind fun _ _ =>
    silent_check _ _ Found

theorem silent_serve (version : String) (slow : Bool) (blocked : List String) :
    Silent (s.serve version slow blocked) := silent_ask _

theorem meets_compareMetadata {rows : List (List String)} {label version : String}
    (h : Has s.extra ["metadata", metadataKey version (s.apps.headD "")]) :
    (s.compareMetadata rows label version).Meets Found Anything := by
  obtain ⟨metadata, hmetadata, hentry⟩ := h
  refine (meets_head _).bind fun row _ => ?_
  refine Meets.bind (Q := Anything) (by split <;> trivial) fun encoded _ => ?_
  refine meets_lookup_bind.mpr ⟨metadata, hmetadata, ?_⟩
  refine (meets_head _).bind fun name hname => ?_
  rw [List.headD_eq_head?_getD, hname] at hentry
  refine (meets_lookupText.mpr hentry).bind fun expected _ => ?_
  exact (silent_ask _ Found).bind fun _ _ => silent_check _ _ Found

variable (hs : s.Indexed)

include hs

theorem meets_metadata : s.metadata.Meets Found Anything := by
  refine (silent_tx _ _ _ _ Found).bind fun rows _ => ?_
  refine (silent_check _ _ Found).bind fun _ _ => ?_
  refine (meets_head _).bind fun op _ => ?_
  refine (silent_cell _ _ Found).bind fun resolved _ => ?_
  refine (meets_commit.mpr (hs _ (by simp [entries]))).bind fun commit _ => ?_
  refine (silent_check _ _ Found).bind fun _ _ => ?_
  refine (meets_compareMetadata (hs _ (by simp [entries]))).bind fun _ _ => ?_
  refine (meets_compareMetadata (hs _ (by simp [entries]))).bind fun _ _ => ?_
  exact meets_state (hs _ (by simp [entries]))

theorem meets_sampleCount (url : String) (index : Nat) (mode : String) :
    (s.sampleCount url index mode).Meets Found Anything := by
  refine (silent_ask _ Found).bind fun _ _ => ?_
  refine (silent_serve _ _ _ Found).bind fun _ _ => ?_
  refine (silent_setupSuccess _ _ Found).bind fun _ _ => ?_
  refine (silent_setupSuccess _ _ Found).bind fun _ _ => ?_
  refine (meets_state (hs _ (by simp [entries]))).bind fun _ _ => ?_
  refine (silent_serve _ _ _ Found).bind fun _ _ => ?_
  refine (silent_tx _ _ _ _ Found).bind fun rows _ => ?_
  refine (silent_mapM (silent_intCell 1) _ Found).bind fun samples _ => ?_
  refine (silent_maximum _ Found).bind fun largest _ => ?_
  refine (silent_check _ _ Found).bind fun _ _ => ?_
  exact (meets_state (hs _ (by simp [entries]))).bind fun _ _ => trivial

theorem meets_frequency (url : String) : (s.frequency url).Meets Found Anything := by
  refine (meets_sampleCount hs _ _ _).bind fun _ _ => ?_
  refine (meets_sampleCount hs _ _ _).bind fun _ _ => ?_
  refine (meets_sampleCount hs _ _ _).bind fun _ _ => ?_
  exact silent_check _ _ Found

theorem meets_progress (rate : Bool) : (s.progress rate).Meets Found Anything := by
  refine (silent_serve _ _ _ Found).bind fun _ _ => ?_
  refine (silent_tx _ _ _ _ Found).bind fun rows _ => ?_
  refine (silent_check _ _ Found).bind fun _ _ => ?_
  refine (silent_mapM (silent_intCell 1) _ Found).bind fun samples _ => ?_
  refine (silent_maximum _ Found).bind fun largest _ => ?_
  refine (silent_check _ _ Found).bind fun _ _ => ?_
  have hlast : (s.state s.first "B").Meets Found Anything := meets_state (hs _ (by simp [entries]))
  cases rate with
  | false => exact hlast
  | true =>
      refine (silent_mapM (silent_intCell 0) _ Found).bind fun elapsed _ => ?_
      refine (silent_mapM (silent_intCell 1) _ Found).bind fun rates _ => ?_
      refine (silent_check _ _ Found).bind fun _ _ => ?_
      exact (silent_check _ _ Found).bind fun _ _ => hlast

variable (hreason : Has s.extra ["eol_reason"])

include hreason

theorem meets_eol : s.eol.Meets Found Anything := by
  refine (silent_serve _ _ _ Found).bind fun _ _ => ?_
  refine (silent_tx _ _ _ _ Found).bind fun rows _ => ?_
  refine (meets_lookupText.mpr hreason).bind fun reason _ => ?_
  refine (silent_check _ _ Found).bind fun _ _ => ?_
  refine (meets_state (hs _ (by simp [entries]))).bind fun _ _ => ?_
  refine (silent_serve _ _ _ Found).bind fun _ _ => ?_
  refine (silent_tx _ _ _ _ Found).bind fun rows _ => ?_
  refine (silent_check _ _ Found).bind fun _ _ => ?_
  exact meets_state (hs _ (by simp [entries]))

theorem meets_eolRebase : s.eolRebase.Meets Found Anything := by
  refine (silent_serve _ _ _ Found).bind fun _ _ => ?_
  refine (silent_tx _ _ _ _ Found).bind fun rows _ => ?_
  refine (meets_lookupText.mpr hreason).bind fun reason _ => ?_
  refine (meets_head _).bind fun name _ => ?_
  refine (silent_check _ _ Found).bind fun _ _ => ?_
  refine (silent_check _ _ Found).bind fun _ _ => ?_
  refine (meets_state (hs _ (by simp [entries]))).bind fun _ _ => ?_
  refine (silent_absent _ Found).bind fun _ _ => ?_
  refine (meets_commit.mpr (hs _ (by simp [entries]))).bind fun commit _ => ?_
  refine (silent_tx _ _ _ _ Found).bind fun _ _ => ?_
  refine (silent_tx _ _ _ _ Found).bind fun rows _ => ?_
  refine (silent_check _ _ Found).bind fun _ _ => ?_
  refine (silent_check _ _ Found).bind fun _ _ => ?_
  refine (silent_mapM (silent_cell 2) _ Found).bind fun kinds _ => ?_
  refine (silent_check _ _ Found).bind fun _ _ => ?_
  refine (meets_state (hs _ (by simp [entries]))).bind fun _ _ => ?_
  exact silent_absent _ Found

omit hreason

theorem meets_rebaseFailure : s.rebaseFailure.Meets Found Anything := by
  refine (meets_payloads.mpr (hs _ (by simp [entries]))).bind fun blocked _ => ?_
  refine (silent_serve _ _ _ Found).bind fun _ _ => ?_
  refine (silent_tx _ _ _ _ Found).bind fun rows _ => ?_
  refine (silent_check _ _ Found).bind fun _ _ => ?_
  refine (silent_check _ _ Found).bind fun _ _ => ?_
  refine (meets_state (hs _ (by simp [entries]))).bind fun _ _ => ?_
  exact silent_absent _ Found

theorem meets_rebaseSuccess : s.rebaseSuccess.Meets Found Anything := by
  refine (silent_tx _ _ _ _ Found).bind fun rows _ => ?_
  refine (silent_check _ _ Found).bind fun _ _ => ?_
  refine (meets_state (hs _ (by simp [entries]))).bind fun _ _ => ?_
  refine (silent_absent _ Found).bind fun _ _ => ?_
  refine (silent_tx _ _ _ _ Found).bind fun _ _ => ?_
  refine (silent_tx _ _ _ _ Found).bind fun rows _ => ?_
  refine (silent_check _ _ Found).bind fun _ _ => ?_
  exact meets_state (hs _ (by simp [entries]))

/-- The commits that `B` and `A` have for the two applications. -/
theorem Indexed.commit_second {ref : String} (href : ref = s.first ∨ ref = s.second) :
    Has s.extra ["commits", "B", ref] := by
  rcases href with rfl | rfl
  · exact hs _ (by simp [entries])
  · exact hs _ (by simp [entries])

theorem meets_decision {order : List String} (horder : ∀ ref ∈ order, ref = s.first ∨
    ref = s.second)
    (failing mode : String) (survive : Bool) :
    (s.decision order failing mode survive).Meets Found Anything := by
  refine (silent_ask _ Found).bind fun result _ => ?_
  refine (silent_check _ _ Found).bind fun _ _ => ?_
  refine (silent_ownError _ _ Found).bind fun own _ => ?_
  refine (silent_check _ _ Found).bind fun _ _ => ?_
  refine (silent_check _ _ Found).bind fun _ _ => ?_
  refine Meets.bind (Q := Anything) ?_ fun finished _ => ?_
  · refine (Meets.mapM (Q := Anything) fun ref href => ?_).mono fun _ _ => trivial
    have hmem : ref ∈ order := by
      have hnew := (List.mem_filter.mp href).1
      split at hnew
      · exact hnew
      · exact List.mem_of_mem_take hnew
    exact (meets_commit.mpr (hs.commit_second (horder ref hmem))).bind fun _ _ => trivial
  refine (silent_check _ _ Found).bind fun _ _ => ?_
  refine (silent_check _ _ Found).bind fun _ _ => ?_
  refine Meets.forM fun ref href => ?_
  refine .ite (fun _ => meets_state (hs.commit_second (by simpa using href))) fun _ => ?_
  refine .ite (fun hfirst => ?_) fun _ => silent_absent _ Found
  subst hfirst
  exact meets_state (hs _ (by simp [entries]))

theorem meets_independent (survive : Bool) : (s.independent survive).Meets Found Anything := by
  refine (silent_tx _ _ _ _ Found).bind fun plan _ => ?_
  refine (silent_mapM (silent_cell 0) _ Found).bind fun order _ => ?_
  refine (meets_check _ _).bind fun _ hplan => ?_
  have horder : ∀ ref ∈ order, ref = s.first ∨ ref = s.second := by
    have hall := List.all_eq_true.mp (Bool.and_eq_true_iff.mp hplan.1).1
    intro ref href
    simpa using hall ref href
  refine (meets_head _).bind fun failing hfailing => ?_
  have hmem : failing ∈ order := by
    have hlist := List.mem_of_head? hfailing
    split at hlist
    · exact List.mem_reverse.mp hlist
    · exact hlist
  refine (meets_payloads.mpr ?_).bind fun blocked _ => ?_
  · rcases horder failing hmem with rfl | rfl
    · exact hs _ (by simp [entries])
    · exact hs _ (by simp [entries])
  refine (silent_serve _ _ _ Found).bind fun _ _ => ?_
  refine (silent_check _ _ Found).bind fun _ _ => ?_
  refine (Meets.forM fun mode _ => meets_decision hs horder _ _ _).bind fun _ _ => ?_
  exact (silent_ask _ Found).bind fun _ _ => silent_check _ _ Found

include hreason in
theorem meets_scenario (url name : String) : (s.scenario url name).Meets Found Anything := by
  refine .ite (fun _ => meets_metadata hs) fun _ => ?_
  refine .ite (fun _ => meets_frequency hs url) fun _ => ?_
  refine .ite (fun _ => meets_progress hs _) fun _ => ?_
  refine .ite (fun _ => meets_independent hs _) fun _ => ?_
  refine .ite (fun _ => meets_eol hs hreason) fun _ => ?_
  refine .ite (fun _ => meets_eolRebase hs hreason) fun _ => ?_
  refine .ite (fun _ => meets_rebaseFailure hs) fun _ => ?_
  exact .ite (fun _ => meets_rebaseSuccess hs) fun _ => trivial

end Supplement

/-! ## Every entry is needed -/

theorem yields_check {condition : Prop} [Decidable condition] {message : String}
    (h : condition) : Yields (check condition message) () := by
  unfold check
  rw [if_pos h]
  exact .ret

theorem yields_cell {k : Nat} {row : List String} {text : String} (h : row[k]? = some text) :
    Yields (cell k row) text := by
  unfold cell
  rw [h]
  exact .ret

theorem yields_head {α : Type} (item : α) (items : List α) : Yields (head (item :: items)) item :=
  .ret

/-- An answer of the client that shows these words. -/
def shows (words : List String) : Answer := ⟨0, "", words, [], ""⟩

/-- An answer of the client that prints these rows. -/
def prints (returncode : Int) (rows : List (List String)) : Answer := ⟨returncode, "", [], rows, ""⟩

theorem yields_success (operation : String) (arguments : List String) (answer : Answer)
    (h : answer.returncode = 0) : Yields (success operation arguments) answer :=
  .answered answer ((yields_check h).bind .ret)

theorem yields_setupSuccess (operation : String) (arguments : List String) :
    Yields (setupSuccess operation arguments) () :=
  .answered (shows []) .ret

theorem yields_tx (mode action ref : String) (options : Transaction) (rows : List (List String))
    (hresult : "result" ∈ rows.filterMap List.head?)
    (herror : options.succeeds = true ∨ ∃ row ∈ rows, row.head? = some "error" ∧ row.length = 3) :
    Yields (tx mode action ref options) rows :=
  .answered (prints (if options.succeeds then 0 else 1) rows)
    ((yields_check rfl).bind ((yields_check hresult).bind ((yields_check herror).bind .ret)))

theorem yields_absent (ref : String) : Yields (absent ref) () :=
  .answered (prints 3 []) (yields_check rfl)

theorem yields_lookup {name : List String} {container item : Value} {key : String}
    (h : container.field? key = some item) : Yields (lookup name container key) item := by
  unfold lookup
  rw [h]
  exact .found .ret

namespace Supplement

variable {s : Supplement}

theorem yields_commit {version ref : String} (h : Has s.extra ["commits", version, ref]) :
    ∃ commit, Yields (s.commit version ref) commit := by
  obtain ⟨commits, hcommits, refs, hrefs, commit, hcommit, -⟩ := h
  exact ⟨_, (yields_lookup hcommits).bind ((yields_lookup hrefs).bind
    ((yields_lookup hcommit).bind .ret))⟩

theorem yields_state {version ref : String} (h : Has s.extra ["commits", version, ref]) :
    Yields (s.state ref version) () := by
  obtain ⟨commit, hcommit⟩ := yields_commit h
  exact (yields_success _ _ (shows [ref, commit]) rfl).bind
    (hcommit.bind (yields_check rfl))

theorem has_of_meets_state {version ref : String} (h : (s.state ref version).Meets Found Anything) :
    Has s.extra ["commits", version, ref] := by
  have hcommit := (h.after (yields_success "query" [ref] (shows []) rfl)).of_bind
  exact meets_commit.mp (hcommit.mono fun _ _ => trivial)

/-- The same in front of more. -/
theorem has_of_meets_state_bind {version ref : String} {f : Unit → Talk Unit}
    (h : (s.state ref version >>= f).Meets Found Anything) :
    Has s.extra ["commits", version, ref] ∧ (f ()).Meets Found Anything := by
  have hcommit := has_of_meets_state (h.of_bind.mono fun _ _ => trivial)
  exact ⟨hcommit, h.after (yields_state hcommit)⟩

section

variable {name : String} {names : List String} (hname : s.apps = name :: names)
  {rows : List (List String)} {label version : String} (hrow : rowsOf label rows = [[""]])

include hname hrow

theorem has_of_compareMetadata (h : (s.compareMetadata rows label version).Meets Found Anything) :
    Has s.extra ["metadata", metadataKey version name] := by
  unfold compareMetadata at h
  rw [hrow] at h
  have hlookup := (h.after (yields_head _ _)).after Yields.ret
  obtain ⟨metadata, hmetadata, hnext⟩ := meets_lookup_bind.mp hlookup
  rw [hname] at hnext
  have hexpected := (hnext.after (yields_head name names)).of_bind
  exact ⟨metadata, hmetadata, meets_lookupText.mp (hexpected.mono fun _ _ => trivial)⟩

theorem yields_compareMetadata (h : Has s.extra ["metadata", metadataKey version name]) :
    Yields (s.compareMetadata rows label version) () := by
  obtain ⟨metadata, hmetadata, text, htext, -⟩ := h
  unfold compareMetadata
  rw [hrow, hname]
  refine (yields_head _ _).bind (Yields.ret.bind ((yields_lookup hmetadata).bind ?_))
  refine (yields_head name names).bind (((yields_lookup htext).bind .ret).bind ?_)
  exact .answered (shows []) (yields_check rfl)

end

/-- What the client prints when it resolves an update to this commit and then stops. -/
def abortRows (commit : String) : List (List String) :=
  [["result"], ["error", "", ""], ["ready", "1"], ["op", "", "", "", commit], ["metadata", ""],
    ["old-metadata", ""]]

theorem rowsOf_abortRows (commit : String) :
    rowsOf "ready" (abortRows commit) = [["1"]] ∧
      rowsOf "op" (abortRows commit) = [["", "", "", commit]] ∧
      rowsOf "metadata" (abortRows commit) = [[""]] ∧
      rowsOf "old-metadata" (abortRows commit) = [[""]] := by
  simp [rowsOf, labelled, abortRows]

theorem has_of_metadata {name : String} {names : List String} (hname : s.apps = name :: names)
    (h : s.metadata.Meets Found Anything) :
    Has s.extra ["commits", "B", s.first] ∧ Has s.extra ["metadata", metadataKey "B" name] ∧
      Has s.extra ["metadata", metadataKey "A" name] := by
  have hrun : ∀ commit, Meets Found Anything (do
      let resolved ← s.commit "B" s.first
      check (commit = resolved) "resolved commit must be B"
      s.compareMetadata (abortRows commit) "metadata" "B"
      s.compareMetadata (abortRows commit) "old-metadata" "A"
      s.state s.first "A") := by
    intro commit
    obtain ⟨hready, hop, -⟩ := rowsOf_abortRows commit
    have htx := h.after (yields_tx _ _ _ _ (abortRows commit) (by simp [abortRows])
      (.inr ⟨["error", "", ""], by simp [abortRows], rfl, rfl⟩))
    have hhead := htx.after (yields_check hready)
    rw [hop] at hhead
    exact (hhead.after (yields_head _ _)).after (yields_cell rfl)
  have hB := meets_commit.mp ((hrun "").of_bind.mono fun _ _ => trivial)
  obtain ⟨commit, hcommit⟩ := yields_commit hB
  obtain ⟨-, -, hnew, hold⟩ := rowsOf_abortRows commit
  have hcompare := ((hrun commit).after hcommit).after (yields_check rfl)
  have hfirst := has_of_compareMetadata hname hnew (hcompare.of_bind.mono fun _ _ => trivial)
  have hnext := hcompare.after (yields_compareMetadata hname hnew hfirst)
  exact ⟨hB, hfirst, has_of_compareMetadata hname hold (hnext.of_bind.mono fun _ _ => trivial)⟩

theorem has_of_rebaseFailure (h : s.rebaseFailure.Meets Found Anything) :
    Has s.extra ["payloads", "B", s.second] :=
  meets_payloads.mp (h.of_bind.mono fun _ _ => trivial)

theorem has_of_rebaseSuccess (h : s.rebaseSuccess.Meets Found Anything) :
    Has s.extra ["commits", "B", s.second] := by
  have htx := h.after (yields_tx _ _ _ _ [["result"], ["new", s.second], ["new", s.first]]
    (by simp) (.inl rfl))
  exact (has_of_meets_state_bind (htx.after (yields_check (by simp [rowsOf, labelled])))).1

theorem has_of_eol (hreason : Has s.extra ["eol_reason"]) (h : s.eol.Meets Found Anything) :
    Has s.extra ["commits", "EOL", s.first] := by
  obtain ⟨reason, hreason, -⟩ := hreason
  have hrun := (h.after (.answered (shows []) .ret)).after (yields_tx _ _ _ _
    [["result"], ["eol", s.first, reason.asStr?.getD "", "-"]] (by simp) (.inl rfl))
  have hnotice := hrun.after ((yields_lookup hreason).bind .ret)
  exact (has_of_meets_state_bind (hnotice.after (yields_check (by simp [rowsOf, labelled])))).1

theorem has_of_eolRebase {name : String} {names : List String} (hname : s.apps = name :: names)
    (hreason : Has s.extra ["eol_reason"]) (hA : Has s.extra ["commits", "A", s.first])
    (h : s.eolRebase.Meets Found Anything) :
    Has s.extra ["commits", "REBASE", s.first] ∧ Has s.extra ["commits", "REBASE", s.second] := by
  obtain ⟨reason, hreason, -⟩ := hreason
  obtain ⟨commit, hcommit⟩ := yields_commit hA
  unfold eolRebase at h
  rw [hname] at h
  -- The client keeps the old application first, and replaces it after that.
  have hrun := (h.after (.answered (shows []) .ret)).after (yields_tx _ _ _ _
    [["result"], ["eol-rebase", "fixture", s.first, reason.asStr?.getD "", s.second, name],
      ["new", s.first]] (by simp) (.inl rfl))
  have hrun := (hrun.after ((yields_lookup hreason).bind .ret)).after (yields_head _ _)
  have hrun := (hrun.after (yields_check (by simp [rowsOf, labelled]))).after
    (yields_check (by simp [rowsOf, labelled]))
  obtain ⟨hfirst, hrun⟩ := has_of_meets_state_bind hrun
  have hrun := ((hrun.after (yields_absent _)).after hcommit).after
    (yields_tx _ _ _ _ [["result"]] (by simp) (.inl rfl))
  have hrun := hrun.after (yields_tx _ _ _ _
    [["result"], ["eol-rebase", "fixture", s.first, reason.asStr?.getD "", s.second, name],
      ["new", s.second], ["new", s.first], ["op", "", "", "0"], ["op", "", "", "3"]]
    (by simp) (.inl rfl))
  have hrun := (hrun.after (yields_check (by simp [rowsOf, labelled]))).after
    (yields_check (by simp [rowsOf, labelled]))
  have hkinds := hrun.after (Yields.mapM (g := fun row => row.getD 2 "") (by
    simp [rowsOf, labelled]
    exact ⟨yields_cell rfl, yields_cell rfl⟩))
  have hstate := hkinds.after (yields_check (by simp [rowsOf, labelled]))
  exact ⟨hfirst, (has_of_meets_state_bind hstate).1⟩

theorem has_of_independent (h : (s.independent false).Meets Found Anything) :
    Has s.extra ["payloads", "B", s.first] := by
  have hrun := h.after (yields_tx _ _ _ _
    [["result"], ["error", "", ""], ["op", s.first], ["op", s.second]] (by simp)
    (.inr ⟨["error", "", ""], by simp, rfl, rfl⟩))
  have horder := hrun.after (Yields.mapM (g := fun row => row.getD 0 "") (by
    simp [rowsOf, labelled]
    exact ⟨yields_cell rfl, yields_cell rfl⟩))
  have hplan := horder.after (yields_check (by simp [rowsOf, labelled, sameSet]))
  have hfailing := hplan.after (a := s.first) (by
    simp [rowsOf, labelled]
    exact yields_head _ _)
  exact meets_payloads.mp (hfailing.of_bind.mono fun _ _ => trivial)

/-- **The scenarios need every entry.** -/
theorem indexed_of_scenarios {name : String} {names : List String} (hname : s.apps = name :: names)
    (hreason : Has s.extra ["eol_reason"]) (hA : Has s.extra ["commits", "A", s.first])
    (h : ∀ scenario ∈ supplementalScenarios, (s.scenario "" scenario).Meets Found Anything) :
    s.Indexed := by
  simp only [supplementalScenarios, List.forall_mem_cons, List.not_mem_nil, false_implies,
    implies_true, and_true] at h
  obtain ⟨hmetadata, hindependent, -, -, -, -, heol, hrebase, hsuccess, hfailure⟩ := h
  obtain ⟨hB, hmetaB, hmetaA⟩ := has_of_metadata hname hmetadata
  obtain ⟨hfirst, hsecond⟩ := has_of_eolRebase hname hreason hA hrebase
  unfold Indexed entries
  rw [hname]
  simp only [List.forall_mem_cons, List.not_mem_nil, false_implies, implies_true, and_true]
  exact ⟨hA, hB, has_of_rebaseSuccess hsuccess, has_of_eol hreason heol, hfirst, hsecond,
    has_of_independent hindependent, has_of_rebaseFailure hfailure, hmetaB, hmetaA⟩

end Supplement

/-! ## The accepted manifests -/

/-- A string of the manifest. -/
def text (container : Value) (key : String) : String :=
  ((container.field? key).bind Value.asStr?).getD ""

/-- The applications of the transactions group. -/
def applications (extra : Value) : List String := texts ((extra.field? "apps").getD .none)

/-- What the scenarios work with. -/
def supplementOf (directory : String) (fixture extra : Value) : Supplement :=
  let arch := text fixture "arch"
  let branch := text fixture "branch"
  let ref (name : String) : String := s!"app/{name}/{arch}/{branch}"
  ⟨extra, directory ++ "/" ++ text extra "directory", applications extra,
    ref ((applications extra).headD ""), ref ((applications extra).getLastD "")⟩

/-- The transactions group of a manifest. -/
theorem exists_parseTransactions {v fixture extras extra : Value} {path : String}
    (h : parseFixture v path = .ok fixture) (hextras : fixture.field? "extras" = some extras)
    (hextra : extras.field? "transactions" = some extra) :
    ∃ x path, parseTransactions x path = .ok extra := by
  obtain ⟨data, result, rfl, rfl, hreads⟩ := parseFixture_follows.mp h
  obtain ⟨reader, x, hmem, -, hx⟩ := lookup_readRequired hreads.read hextras
  have hfield := (manifestGroup_sublist data).subset hmem
  have hreader : reader = parseExtras := by
    simpa [manifestFields, manifestOptional] using hfield
  rw [hreader] at hx
  obtain ⟨data, result, rfl, rfl, hreads⟩ := parseExtras_follows.mp hx
  obtain ⟨reader, x, hmem, -, hx⟩ := lookup_readRequired hreads.read hextra
  have hfield := present_sublist.subset hmem
  have hreader : reader = parseTransactions := by
    simpa [extrasFields] using hfield
  rw [hreader] at hx
  exact ⟨x, _, hx⟩

/-- The fields of an accepted manifest. -/
theorem exists_field {v fixture : Value} {path key : String} {reader : Reader}
    (h : parseFixture v path = .ok fixture) (hmem : (key, reader) ∈ manifestFields) :
    ∃ item, fixture.field? key = some item := by
  obtain ⟨data, result, rfl, rfl, hreads⟩ := parseFixture_follows.mp h
  obtain ⟨-, item, -, -, hitem⟩ := readRequired_lookup hreads.read (manifestGroup_nodup data)
    (mem_manifestGroup hmem data)
  exact ⟨item, hitem⟩

/-- The fields of an accepted transactions group. -/
theorem exists_transactionsField {v extra : Value} {path key : String} {reader : Reader}
    (h : parseTransactions v path = .ok extra) (hmem : (key, reader) ∈ transactionsFields) :
    ∃ item, extra.field? key = some item := by
  obtain ⟨data, result, rfl, rfl, hreads⟩ := parseTransactions_follows.mp h
  have hnodup : (transactionsFields.map Prod.fst).Nodup := by decide
  obtain ⟨-, item, -, -, hitem⟩ := readRequired_lookup hreads.read hnodup hmem
  exact ⟨item, hitem⟩

theorem meets_lookupText_bind {α : Type} {Q : α → Prop} {name : List String} {container : Value}
    {key : String} {f : String → Talk α} (hkey : ∃ item, container.field? key = some item) :
    (lookupText name container key >>= f).Meets Found Q ↔
    (f (text container key)).Meets Found Q := by
  obtain ⟨item, hitem⟩ := hkey
  have htext : text container key = item.asStr?.getD "" := by
    unfold text
    rw [hitem]
    rfl
  rw [htext]
  unfold lookupText
  rw [bind_assoc, meets_lookup_bind]
  constructor
  · rintro ⟨item', hitem', hnext⟩
    rw [hitem] at hitem'
    obtain rfl := Option.some.inj hitem'
    exact hnext
  · exact fun hnext => ⟨item, hitem, hnext⟩

theorem meets_unpackApps_bind {α : Type} {Q : α → Prop} {apps : Value}
    {f : String × String → Talk α} : (unpackApps apps >>= f).Meets Found Q ↔
      (texts apps).length = 2 ∧
      (f ((texts apps).headD "", (texts apps).getLastD "")).Meets Found Q := by
  constructor
  · rintro ⟨hfound, hnext⟩
    by_cases hlength : (texts apps).length = 2
    · rw [if_pos hlength] at hnext
      exact ⟨hlength, hnext apps rfl⟩
    · rw [if_neg hlength] at hfound
      cases hfound
  · rintro ⟨hlength, hnext⟩
    refine ⟨?_, fun _ _ => hnext⟩
    rw [if_pos hlength]
    rfl

theorem exists_cons_of_length {α : Type} {l : List α} (h : l.length = 2) : ∃ a as, l = a :: as := by
  cases l with
  | nil => cases h
  | cons a as => exact ⟨a, as, rfl⟩

/-- What the part with the server running demands. -/
theorem Supplement.meets_serving {s : Supplement} {fixture : Value} {runtime name : String}
    (hcommit : Has fixture ["runtime_commit"]) :
    (s.serving fixture runtime name).Meets Found Anything ↔
      Has s.extra ["commits", "A", s.first] ∧
        ∀ url, (s.scenario url name).Meets Found Anything := by
  constructor
  · intro h
    have hstate (url : String) := (((h.after (.answered ⟨0, url, [], [], ""⟩ .ret)).after
      (yields_setupSuccess _ _)).after (yields_setupSuccess _ _))
    refine ⟨(has_of_meets_state_bind (hstate "")).1, fun url => ?_⟩
    have hscenario := (has_of_meets_state_bind (hstate url)).2.after (.answered (shows []) .ret)
    exact hscenario.of_bind.mono fun _ _ => trivial
  · rintro ⟨hA, hscenario⟩
    refine (silent_serve _ _ _ Found).bind fun server _ => ?_
    refine (silent_setupSuccess _ _ Found).bind fun _ _ => ?_
    refine (silent_setupSuccess _ _ Found).bind fun _ _ => ?_
    refine (meets_state hA).bind fun _ _ => ?_
    refine (silent_serve _ _ _ Found).bind fun _ _ => ?_
    refine (hscenario server.text).bind fun _ _ => ?_
    refine (silent_success _ _ Found).bind fun answer _ => ?_
    exact (meets_lookupText.mpr hcommit).bind fun _ _ => silent_check _ _ Found

section

variable {v fixture extras extra : Value} {path : String} (h : parseFixture v path = .ok fixture)
  (hextras : fixture.field? "extras" = some extras)
  (hextra : extras.field? "transactions" = some extra)

include h hextras hextra

/-- What one scenario demands of the manifest. -/
theorem meets_supplemental (directory name : String) :
    (supplemental directory fixture name).Meets Found Anything ↔
      (applications extra).length = 2 ∧
        Has extra ["commits", "A", (supplementOf directory fixture extra).first] ∧
        ∀ url, ((supplementOf directory fixture extra).scenario url name).Meets Found Anything := by
  obtain ⟨x, path', hparsed⟩ := exists_parseTransactions h hextras hextra
  obtain ⟨apps, happs⟩ := exists_transactionsField hparsed (.tail _ (.head _))
  have hdirectory := exists_transactionsField hparsed (.head _)
  have harch := exists_field h (.head _)
  have hruntime := exists_field h (.tail _ (.tail _ (.head _)))
  have hbranch := exists_field h (.tail _ (.tail _ (.tail _ (.head _))))
  have hcommit := exists_field h (.tail _ (.tail _ (.tail _ (.tail _ (.tail _ (.head _))))))
  have htexts : applications extra = texts apps := by
    unfold applications
    rw [happs]
    rfl
  have hgroup : (fixture.field? "extras").bind (·.field? "transactions") = some extra := by
    rw [hextras]
    exact hextra
  unfold supplemental
  rw [hgroup]
  dsimp only
  have hcommit : Has fixture ["runtime_commit"] := hcommit.imp fun _ hitem => ⟨hitem, trivial⟩
  rw [meets_lookupText_bind hdirectory, meets_lookup_bind, htexts]
  constructor
  · rintro ⟨apps', happs', hrun⟩
    obtain rfl := Option.some.inj (happs.symm.trans happs')
    rw [meets_lookupText_bind harch, meets_lookupText_bind hbranch, meets_unpackApps_bind] at hrun
    obtain ⟨hlength, hrun⟩ := hrun
    have hserving := (meets_lookupText_bind hruntime).mp hrun
    rw [← htexts] at hserving
    exact ⟨hlength, (Supplement.meets_serving hcommit).mp hserving⟩
  · rintro ⟨hlength, hneeds⟩
    refine ⟨apps, happs, ?_⟩
    rw [meets_lookupText_bind harch, meets_lookupText_bind hbranch, meets_unpackApps_bind]
    refine ⟨hlength, (meets_lookupText_bind hruntime).mpr ?_⟩
    rw [← htexts]
    exact (Supplement.meets_serving hcommit).mpr hneeds

/-- **When the transaction oracle is closed.** For an accepted manifest with a transactions group,
the lookups of all supplemental scenarios succeed, whatever the client answers, if and only if the
group has exactly two applications and the entries for them that the scenarios name. -/
theorem supplemental_closed_iff (directory : String) :
    (∀ scenario ∈ supplementalScenarios, ∀ name found,
        (supplemental directory fixture scenario).Reads name found → found.isSome = true) ↔
      (applications extra).length = 2 ∧ (supplementOf directory fixture extra).Indexed := by
  obtain ⟨x, path', hparsed⟩ := exists_parseTransactions h hextras hextra
  have hreason : Has extra ["eol_reason"] := by
    have hfield := exists_transactionsField hparsed
      (.tail _ (.tail _ (.tail _ (.tail _ (.tail _ (.head _))))))
    exact hfield.imp fun _ hitem => ⟨hitem, trivial⟩
  have hscenario := fun name => meets_supplemental h hextras hextra directory name
  constructor
  · intro hclosed
    have hmeets := fun name hname => (hscenario name).mp (Meets.of_reads (hclosed name hname))
    obtain ⟨hlength, hA, -⟩ := hmeets "tx-metadata" (.head _)
    obtain ⟨app, apps, happs⟩ := exists_cons_of_length hlength
    exact ⟨hlength, Supplement.indexed_of_scenarios happs hreason hA fun name hname =>
      (hmeets name hname).2.2 ""⟩
  · rintro ⟨hlength, hindexed⟩ name - key found hreads
    have hmeets := (hscenario name).mpr ⟨hlength, hindexed _ (.head _), fun url =>
      Supplement.meets_scenario hindexed hreason url name⟩
    exact hmeets.reads hreads

end

/-! ## Small manifests -/

section Small

/-- A transactions group with these applications, and with the entries for the first two. -/
def smallTransactions (apps : List String) : Value :=
  let refs (item : Value) : Value := .dict [("app/a/x/d", item), ("app/b/x/d", item)]
  .dict [("directory", .str "t"), ("apps", .list (apps.map Value.str)),
    ("commits", .dict (["A", "B", "EOL", "REBASE"].map fun version => (version, refs (.str "c")))),
    ("payloads", .dict [("B", refs (.list [.str "p"]))]),
    ("metadata", .dict [("A:a", .str "m"), ("B:a", .str "m")]), ("eol_reason", .str "r")]

def smallExtras (apps : List String) : Value := .dict [("transactions", smallTransactions apps)]

def transactionsManifest (apps : List String) : Value := .dict [
  ("schema", .int 1), ("arch", .str "x"), ("app", .str "b"), ("runtime", .str "c"),
  ("branch", .str "d"), ("commits", .dict [("A", .str "e"), ("B", .str "f")]),
  ("runtime_commit", .str "g"), ("sha256", .dict []), ("extras", smallExtras apps)]

/-- The theorem on a small manifest with two applications. -/
theorem supplemental_closed_iff_small :
    parseFixture (transactionsManifest ["a", "b"]) "fixture"
      = .ok (transactionsManifest ["a", "b"]) ∧
    ∀ scenario ∈ supplementalScenarios, ∀ name found,
      (supplemental "f" (transactionsManifest ["a", "b"]) scenario).Reads name found →
        found.isSome = true := by
  have hparsed : parseFixture (transactionsManifest ["a", "b"]) "fixture"
      = .ok (transactionsManifest ["a", "b"]) := by rfl
  have hextras : (transactionsManifest ["a", "b"]).field? "extras" =
    some (smallExtras ["a", "b"]) :=
    rfl
  refine ⟨hparsed, (supplemental_closed_iff hparsed hextras rfl "f").mpr ⟨rfl, ?_⟩⟩
  unfold Supplement.Indexed Supplement.entries
  simp only [List.forall_mem_cons, List.not_mem_nil, false_implies, implies_true, and_true]
  exact ⟨⟨_, rfl, _, rfl, _, rfl, trivial⟩, ⟨_, rfl, _, rfl, _, rfl, trivial⟩,
    ⟨_, rfl, _, rfl, _, rfl, trivial⟩, ⟨_, rfl, _, rfl, _, rfl, trivial⟩,
    ⟨_, rfl, _, rfl, _, rfl, trivial⟩, ⟨_, rfl, _, rfl, _, rfl, trivial⟩,
    ⟨_, rfl, _, rfl, _, rfl, trivial⟩, ⟨_, rfl, _, rfl, _, rfl, trivial⟩,
    ⟨_, rfl, _, rfl, trivial⟩, ⟨_, rfl, _, rfl, trivial⟩⟩

/-- Three applications are accepted, and no scenario can unpack them. -/
theorem supplemental_three_apps :
    parseFixture (transactionsManifest ["a", "b", "c"]) "fixture"
      = .ok (transactionsManifest ["a", "b", "c"]) ∧
    (transactionsManifest ["a", "b", "c"]).field? "extras" = some (smallExtras ["a", "b", "c"]) ∧
    (smallExtras ["a", "b", "c"]).field? "transactions"
      = some (smallTransactions ["a", "b", "c"]) ∧
    ¬ ∀ scenario ∈ supplementalScenarios, ∀ name found,
      (supplemental "f" (transactionsManifest ["a", "b", "c"]) scenario).Reads name found →
        found.isSome = true := by
  refine ⟨by rfl, rfl, rfl, fun h => ?_⟩
  have hreads : (supplemental "f" (transactionsManifest ["a", "b", "c"]) "tx-eol").Reads
      ["apps", "first, second"] none := .after (.after (.after (.after .here)))
  have hfound := h "tx-eol" (by decide) _ _ hreads
  cases hfound

end Small

end FlatpakBlackbox.Scenario
