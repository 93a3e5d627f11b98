import FlatpakBlackbox.Web.Snapshot

set_option autoImplicit false

/-! # Failure details

`diagnosticCase` of `scripts/diagnostics.ts`: a result of a report becomes a case of a snapshot. A
case that failed keeps its errors and the last commands, cut to a budget. Lengths of texts are
those of JavaScript, in UTF-16 code units; `JSON.stringify` is a parameter.
-/

namespace FlatpakBlackbox

open PyLib

/-! ## Texts -/

/-- The code units of a character. -/
def codeUnits (c : Char) : Nat := if c.toNat < 0x10000 then 1 else 2

/-- `text.length`. -/
def jsLength (text : String) : Nat := (text.toList.map codeUnits).sum

/-- The characters of the first code units. Half of a pair stands as the replacement character. -/
def sliceUnits : Nat → List Char → List Char
  | _, [] => []
  | n, c :: cs =>
      if codeUnits c ≤ n then c :: sliceUnits (n - codeUnits c) cs
      else if n = 0 then [] else ['\uFFFD']

/-- `text.slice(0, length)`. -/
def jsSlice (text : String) (length : Nat) : String := .ofList (sliceUnits length text.toList)

/-! ## The budget -/

/-- `diagnosticBudget`. -/
def diagnosticBudget : Nat := 24000

def fieldLimit : Nat := 4000

def recordLimit : Nat := 12

/-- `fields`: the fields of a record that are kept, with their titles. -/
def diagnosticFields : List (String × String) := [
  ("argv", "Command arguments"), ("interface", "Interface"), ("exit_status", "Exit status"),
  ("timed_out", "Timed out"), ("error", "Error"), ("stderr", "Standard error"),
  ("stdout", "Standard output"), ("api_calls", "API calls"), ("signals", "Signals"),
  ("observation", "Observation"), ("data", "Structured data"),
  ("query_network_observation", "Query network observation"),
  ("sideload_network_observation", "Sideload network observation"),
  ("sideload_image_network_observation", "Sideload image network observation")]

/-- The variables of `diagnosticCase`: `remaining` and `details.truncated`. -/
structure Budget where
  remaining : Nat
  truncated : Bool

/-- `bounded(text)`. -/
def bounded (budget : Budget) (text : String) : String × Budget :=
  let length := min budget.remaining fieldLimit
  let remaining := budget.remaining - min (jsLength text) length
  if jsLength text ≤ length then (text, { budget with remaining })
  else (jsSlice text length ++ "\n[truncated]", ⟨remaining, true⟩)

/-- `if (text !== undefined) details.field = bounded(text)`. -/
def boundedOption (budget : Budget) : Option String → Option String × Budget
  | none => (none, budget)
  | some text =>
      let (text, budget) := bounded budget text
      (some text, budget)

section

variable (stringify : Value → String)

/-- The body of a kept field: `JSON.stringify(value, null, 2)`, of a text the text itself. -/
def fieldBody : Value → String
  | .str text => text
  | value => stringify value

/-- One turn of the loop over the fields of the record at `index`. -/
def retainField (index : Nat) (record : Dict String Value)
    (state : List FailureEvidence × Budget) (field : String × String) :
    List FailureEvidence × Budget :=
  match record.get? field.1 with
  | none => state
  | some (.str "") => state
  | some value =>
      if state.2.remaining = 0 then (state.1, { state.2 with truncated := true })
      else
        let (body, budget) := bounded state.2 (fieldBody stringify value)
        (state.1 ++ [⟨s!"Evidence {index + 1}: {field.2}", body⟩], budget)

/-- The loop over the last records: the budget is spent on the most recent ones first, and they
are shown in the order of execution. -/
def retainRecords (evidence : List (Dict String Value)) (budget : Budget) :
    List FailureEvidence × Budget :=
  (evidence.zipIdx.drop (evidence.length - recordLimit)).foldr (fun entry state =>
    let (retained, budget) :=
      diagnosticFields.foldl (retainField stringify entry.2 entry.1) ([], state.2)
    (retained ++ state.1, budget)) ([], budget)

/-! ## The case -/

/-- `isFailure(status)`. -/
def isFailure (status : CaseStatus) : Bool := status = .failed || status = .setupError

/-- What `resultSchema` reads. -/
structure DiagnosticResult where
  behaviorId : String
  driver : CaseDriver
  profile : CaseProfile
  status : CaseStatus
  durationSeconds : Option Seconds
  timings : Option PhaseTimings
  error : Option String
  cleanupError : Option String
  evidence : Option (List (Dict String Value))

/-- `z.unknown()`. -/
def Schema.unknown : Schema Value := ⟨some, id, fun _ => rfl⟩

/-- `resultSchema`. -/
def Schema.diagnosticResult : Schema DiagnosticResult :=
  ((Fields.required "behavior_id" string).both <| (Fields.required "driver" caseDriver).both <|
      (Fields.required "profile" caseProfile).both <|
      (Fields.required "status" caseStatus).both <|
      (Fields.optional "duration_seconds" seconds).both <|
      (Fields.optional "timings" phaseTimings).both <| (Fields.optional "error" string).both <|
      (Fields.optional "cleanup_error" string).both <|
      Fields.optional "evidence" (array (record unknown))).schema (by decide)
    |>.map (fun (behaviorId, driver, profile, status, durationSeconds, timings, error, cleanupError,
          evidence) => ⟨behaviorId, driver, profile, status, durationSeconds, timings, error,
            cleanupError, evidence⟩)
      (fun r => (r.behaviorId, r.driver, r.profile, r.status, r.durationSeconds, r.timings, r.error,
        r.cleanupError, r.evidence)) fun _ => rfl

/-- The details of a failed result. -/
def failureDetailsOf (result : DiagnosticResult) : FailureDetails :=
  let (error, budget) := boundedOption ⟨diagnosticBudget, false⟩ result.error
  let (cleanupError, budget) := boundedOption budget result.cleanupError
  let evidence := result.evidence.getD []
  let budget := { budget with truncated := budget.truncated || recordLimit < evidence.length }
  let (kept, budget) := retainRecords stringify evidence budget
  { error, cleanupError, evidence := kept, truncated := budget.truncated }

/-- `diagnosticCase(raw)`; `none` where a schema rejects it. -/
def diagnosticCase (raw : Value) : Option CaseTiming := do
  let result ← Schema.diagnosticResult.parse raw
  let item ← Schema.caseTiming.parse raw
  let failureDetails :=
    if isFailure result.status then some (failureDetailsOf stringify result) else none
  return { item with failureDetails }

variable {stringify}

end

end FlatpakBlackbox
