import FlatpakBlackbox.Basic.Script
import FlatpakBlackbox.Errors
import FlatpakBlackbox.Json.Value

set_option autoImplicit false

/-! # Talking to the client under test

Scenarios run commands of a client, read what it prints, and compare that with the manifest of the
prepared fixture. The client may print anything: an answer holds its output as a text, as words and
as tab-separated rows, and nothing is assumed of them.
-/

namespace FlatpakBlackbox.Scenario

open PyLib PyException

/-- What a scenario has the host do. -/
inductive Question where
  /-- `driver.call(operation, *arguments)`. -/
  | call (operation : String) (arguments : List String)
  /-- The same with a home directory of its own. -/
  | launch (home operation : String) (arguments : List String)
  /-- `path.mkdir()`. -/
  | mkdir (path : String)
  /-- Serve a directory over HTTP, `slow` or with some payloads `blocked`. -/
  | serve (directory : String) (slow : Bool) (blocked : List String)
  /-- Whether an encoded configuration reads as this text does. -/
  | sameConfiguration (encoded text : String)
  /-- Whether the server denied a request for a payload. -/
  | denied

/-- What came of it. -/
structure Answer where
  returncode : Int
  /-- The output, without white space at its ends. -/
  text : String
  /-- The words of the output. -/
  words : List String
  /-- The rows of the output, by their cells. -/
  rows : List (List String)
  stderr : String

/-- A scenario talks to the client and looks things up in the manifest. -/
abbrev Talk (α : Type) : Type := Script PyException Question Answer Value α

/-- A scenario that goes on after a failed observation. The state holds the failures. -/
abbrev Observing (α : Type) : Type :=
  StateT (List String) (Script PyException Question Answer Value) α

def ask (question : Question) : Talk Answer := .ask question .ret

/-- `driver.check(condition, message)`. -/
def check (condition : Prop) [Decidable condition] (message : String) : Talk Unit :=
  if condition then pure () else .raise (.ofClass .contractFailure message)

/-- The answer to a question that has to succeed. -/
def succeed (question : Question) (what : String) : Talk Answer := do
  let answer ← ask question
  check (answer.returncode = 0) s!"{what} failed: {answer.stderr}"
  return answer

/-- `driver.success(operation, *arguments)`. -/
def success (operation : String) (arguments : List String) : Talk Answer :=
  succeed (.call operation arguments) s!"library {operation}"

/-- `driver.setup_success(operation, *arguments)`. -/
def setupSuccess (operation : String) (arguments : List String) : Talk Unit := do
  let answer ← ask (.call operation arguments)
  if answer.returncode ≠ 0 then
    .raise (.ofClass .diagnosticFailure s!"library {operation} setup failed: {answer.stderr}")
  else pure ()

/-- `observe(condition, label, actual)`. -/
def observe (condition : Prop) [Decidable condition] (label : String) : Observing Unit := do
  if condition then pure () else modify fun failures => failures ++ [label]

/-- `container[key]`, where the container stands under a name in the manifest. -/
def lookup (name : List String) (container : Value) (key : String) : Talk Value :=
  .look (name ++ [key]) (container.field? key) .ret

/-- The same for a string. -/
def lookupText (name : List String) (container : Value) (key : String) : Talk String := do
  let value ← lookup name container key
  return value.asStr?.getD ""

/-- `row[k]`. -/
def cell (k : Nat) (row : List String) : Talk String :=
  match row[k]? with
  | some text => pure text
  | none => .raise (.ofClass .indexError "list index out of range")

/-- The rows with this label. -/
def labelled (label : String) (rows : List (List String)) : List (List String) :=
  rows.filter fun row => row.head? = some label

/-- `[row[k] for row in rows if row[0] == label]`. -/
def column (label : String) (k : Nat) (rows : List (List String)) : Talk (List String) :=
  (labelled label rows).mapM (cell k)

/-- Whether two lists are the same set. -/
def sameSet (a b : List String) : Bool := a.all (b.contains ·) && b.all (a.contains ·)

/-- Whether two lists of entries are the same dictionary. Later entries replace earlier ones. -/
def sameDict (a b : List (String × String)) : Bool :=
  (a ++ b).all fun entry => a.reverse.lookup entry.1 == b.reverse.lookup entry.1

/-- `str(flag)`. -/
def boolText (flag : Bool) : String := if flag then "True" else "False"

/-- `str(int(flag))`. -/
def flagText (flag : Bool) : String := if flag then "1" else "0"

/-! ## Scripts that look nothing up -/

/-- Any result. -/
abbrev Anything {α : Type} : α → Prop := fun _ => True

/-- The script looks nothing up in the manifest. -/
def Silent {α : Type} (p : Talk α) : Prop := ∀ P, p.Meets P Anything

section

variable {α β : Type}

theorem Silent.bind {p : Talk α} {f : α → Talk β} (hp : Silent p) (hf : ∀ a, Silent (f a)) :
    Silent (p >>= f) :=
  fun P => (hp P).bind fun a _ => hf a P

theorem silent_pure (a : α) : Silent (pure a : Talk α) := fun _ => trivial

theorem silent_mapM {f : β → Talk α} (h : ∀ x, Silent (f x)) (l : List β) : Silent (l.mapM f) :=
  fun P => (Script.Meets.mapM fun x _ => h x P).mono fun _ _ => trivial

theorem silent_ask (question : Question) : Silent (ask question) := fun _ _ => trivial

theorem meets_check {P : List String → Option Value → Prop} (condition : Prop)
    [Decidable condition] (message : String) :
    (check condition message).Meets P fun _ => condition :=
  .ite (fun h => h) fun _ => trivial

theorem silent_check (condition : Prop) [Decidable condition] (message : String) :
    Silent (check condition message) :=
  fun _ => .ite (fun _ => trivial) fun _ => trivial

theorem silent_succeed (question : Question) (what : String) : Silent (succeed question what) :=
  (silent_ask question).bind fun _ => (silent_check _ _).bind fun _ => silent_pure _

theorem silent_success (operation : String) (arguments : List String) :
    Silent (success operation arguments) := silent_succeed _ _

theorem silent_setupSuccess (operation : String) (arguments : List String) :
    Silent (setupSuccess operation arguments) :=
  (silent_ask _).bind fun _ _ => .ite (fun _ => trivial) fun _ => trivial

theorem silent_cell (k : Nat) (row : List String) : Silent (cell k row) := by
  intro P
  unfold cell
  split
  · trivial
  · trivial

theorem silent_column (label : String) (k : Nat) (rows : List (List String)) :
    Silent (column label k rows) := silent_mapM (silent_cell k) _

end

end FlatpakBlackbox.Scenario
