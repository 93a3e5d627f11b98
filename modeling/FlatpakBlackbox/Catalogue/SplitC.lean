import FlatpakBlackbox.Basic.Checked
import FlatpakBlackbox.Basic.Regex
import FlatpakBlackbox.Basic.Text
import FlatpakBlackbox.Errors

set_option autoImplicit false

/-! # Splitting at the top level

`split_c` of `catalogue.py` cuts a text at a delimiter that stands in no string literal and in no
brackets. Its tokens are those literals and single characters; a backslash escapes the character
after it.
-/

namespace FlatpakBlackbox

open PyLib Regex PyException

def catalogueError (message : String) : PyException := ofClass .catalogueError message

/-- A string literal with escapes: `q(?:\\.|[^q\\])*q`. -/
def escapedLiteral (q : Char) : Regex :=
  .seq (.cls (· == q)) (.seq (.star (.alt (.seq (.cls (· == '\\')) (.cls fun _ => true))
    (.cls fun c => c != q && c != '\\'))) (.cls (· == q)))

/-- The tokens of `split_c`. -/
def cToken : Regex :=
  .alt (escapedLiteral '"') (.alt (escapedLiteral '\'') (.cls fun _ => true))

/-- What closes an opening bracket. -/
def closerOf : Char → Option Char
  | '(' => some ')'
  | '{' => some '}'
  | '[' => some ']'
  | _ => none

def unbalanced : PyException := catalogueError "Unbalanced C declaration/table"

/-- What a token does to the stack of closing brackets that are still due; `none` where it is a
delimiter at the top level. -/
def stackAfter (delimiter : Char) (token stack : List Char) :
    Except PyException (Option (List Char)) :=
  match token with
  | [c] =>
      match closerOf c with
      | some close => .ok (some (close :: stack))
      | none =>
          if c ∈ [')', '}', ']'] then
            match stack with
            | top :: stack => if top = c then .ok (some stack) else .error unbalanced
            | [] => .error unbalanced
          else if c = delimiter ∧ stack = [] then .ok none
          else .ok (some stack)
  | _ => .ok (some stack)

/-- The loop of `split_c`: the pieces between the delimiters, before they are stripped. `piece` is
what stands since the last delimiter. -/
def splitTokens (delimiter : Char) : List (List Char) → List Char → List Char →
    Except PyException (List (List Char))
  | [], stack, piece => if stack = [] then .ok [piece] else .error unbalanced
  | token :: tokens, stack, piece => do
      match ← stackAfter delimiter token stack with
      | some stack => splitTokens delimiter tokens stack (piece ++ token)
      | none => do
          let pieces ← splitTokens delimiter tokens [] []
          return piece :: pieces

/-- `split_c(text, delimiter)`. -/
def splitC (text : List Char) (delimiter : Char := ',') :
    Except PyException (List (List Char)) := do
  let pieces ← splitTokens delimiter ((scan cToken text).map Prod.snd) [] []
  return (pieces.map strip).filter fun part => part ≠ []

/-- Only the delimiter delimits, where no bracket is due. -/
theorem eq_of_stackAfter {delimiter : Char} {token stack : List Char}
    (h : stackAfter delimiter token stack = .ok none) : token = [delimiter] ∧ stack = [] := by
  unfold stackAfter at h
  split at h
  · split at h
    · cases h
    · split at h
      · split at h
        · split at h <;> cases h
        · cases h
      · split at h
        · next hdelimiter => exact ⟨by rw [hdelimiter.1], hdelimiter.2⟩
        · cases h
  · cases h

/-- What a token of an accepted text does: it goes on with the piece, or it ends it. -/
theorem splitTokens_cons {delimiter : Char} {token : List Char} {tokens : List (List Char)}
    {stack piece : List Char} {pieces : List (List Char)}
    (h : splitTokens delimiter (token :: tokens) stack piece = .ok pieces) :
    (∃ stack', splitTokens delimiter tokens stack' (piece ++ token) = .ok pieces) ∨
      token = [delimiter] ∧ ∃ rest, splitTokens delimiter tokens [] [] = .ok rest ∧
        pieces = piece :: rest := by
  obtain ⟨after, hafter, h⟩ := bind_eq_ok.mp h
  cases after with
  | some stack' => exact .inl ⟨stack', h⟩
  | none =>
      obtain ⟨rest, hrest, h⟩ := bind_eq_ok.mp h
      exact .inr ⟨(eq_of_stackAfter hafter).1, rest, hrest, (Except.ok.inj h).symm⟩

/-- **The pieces, with the delimiters between them, are the text.** -/
theorem intercalate_of_splitTokens {delimiter : Char} {tokens : List (List Char)}
    {stack piece : List Char} {pieces : List (List Char)}
    (h : splitTokens delimiter tokens stack piece = .ok pieces) :
    pieces ≠ [] ∧ [delimiter].intercalate pieces = piece ++ tokens.flatten := by
  induction tokens generalizing stack piece pieces with
  | nil =>
      rw [splitTokens] at h
      split at h
      · rw [← Except.ok.inj h]
        exact ⟨List.cons_ne_nil _ _, by simp⟩
      · cases h
  | cons token tokens ih =>
      rcases splitTokens_cons h with ⟨stack', hrest⟩ | ⟨rfl, rest, hrest, rfl⟩
      · obtain ⟨hne, hjoined⟩ := ih hrest
        rw [List.flatten_cons, ← List.append_assoc]
        exact ⟨hne, hjoined⟩
      · obtain ⟨hne, hjoined⟩ := ih hrest
        rw [List.intercalate_cons_of_ne_nil hne, hjoined, List.flatten_cons]
        exact ⟨List.cons_ne_nil _ _, by simp⟩

/-- The parts of an accepted text are its pieces, stripped, without the empty ones. -/
theorem splitC_eq_ok {text : List Char} {delimiter : Char} {parts : List (List Char)}
    (h : splitC text delimiter = .ok parts) :
    ∃ pieces, [delimiter].intercalate pieces = text ∧
      parts = (pieces.map strip).filter fun part => part ≠ [] := by
  obtain ⟨pieces, hpieces, h⟩ := bind_eq_ok.mp h
  have hjoined := (intercalate_of_splitTokens hpieces).2
  rw [flatten_scan] at hjoined
  exact ⟨pieces, hjoined, (Except.ok.inj h).symm⟩

end FlatpakBlackbox
