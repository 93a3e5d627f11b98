import FlatpakBlackbox.Basic.Regex

set_option autoImplicit false

/-! # Character references

`html.unescape`: the character references of a text are replaced, from left to right and once. The
table of named references is a parameter, of which only the three names that `html.escape` writes
are known.
-/

namespace PyLib

namespace Regex

/-- `r+`, greedy. -/
def plus (r : Regex) : Regex := .seq r (.star r)

/-- `r?`, greedy. -/
def opt (r : Regex) : Regex := .alt r .eps

/-- `r{0,n}`, greedy. -/
def upTo (r : Regex) : Nat → Regex
  | 0 => .eps
  | n + 1 => opt (.seq r (upTo r n))

variable {p : Char → Bool} {rest : List Char}

theorem head?_plus_cls {c : Char} (hc : p c = true) :
    ((plus (cls p)).ends (c :: rest)).head? = some (rest.dropWhile p) := by
  have hfirst : ((cls p).ends (c :: rest)).head? = some rest := by
    rw [ends, if_pos hc]
    rfl
  exact head?_seq hfirst (head?_star_cls p rest)

theorem head?_opt_cls {c : Char} (hc : p c = true) :
    ((opt (cls p)).ends (c :: rest)).head? = some rest := by
  refine head?_alt ?_
  rw [ends, if_pos hc]
  rfl

/-- A bounded repetition takes a whole word that is short enough. -/
theorem head?_upTo {c : Char} {word : List Char} (hword : ∀ d ∈ word, p d = true)
    (hc : p c = false) {n : Nat} (hn : word.length ≤ n) :
    ((upTo (cls p) n).ends (word ++ c :: rest)).head? = some (c :: rest) := by
  induction word generalizing n with
  | nil =>
      cases n with
      | zero => rfl
      | succ n => simp [upTo, opt, ends, hc]
  | cons d word ih =>
      obtain ⟨hd, hrest⟩ := List.forall_mem_cons.mp hword
      obtain ⟨n, rfl⟩ := Nat.exists_eq_succ_of_ne_zero (n := n) (by simp at hn; omega)
      have hfirst : ((cls p).ends (d :: (word ++ c :: rest))).head? = some (word ++ c :: rest) := by
        rw [ends, if_pos hd]
        rfl
      exact head?_alt (head?_seq hfirst (ih hrest (by simpa using hn)))

end Regex

open Regex

/-- `html.entities.html5`: what the named references stand for. A name ends in its semicolon, where
it needs one. -/
class EntityTable where
  named : List Char → Option (List Char)
  named_amp : named ['a', 'm', 'p', ';'] = some ['&']
  named_lt : named ['l', 't', ';'] = some ['<']
  named_gt : named ['g', 't', ';'] = some ['>']

/-- A table with these three names only. -/
@[reducible] def escapedEntities : EntityTable :=
  { named := fun name =>
      List.lookup name [(['a', 'm', 'p', ';'], ['&']), (['l', 't', ';'], ['<']),
        (['g', 't', ';'], ['>'])]
    named_amp := rfl
    named_lt := rfl
    named_gt := rfl }

/-! ## References -/

def isHexDigit (c : Char) : Bool :=
  c.isDigit || ('a' ≤ c && c ≤ 'f') || ('A' ≤ c && c ≤ 'F')

/-- `[^\t\n\f <&#;]`. -/
def isReferenceName (c : Char) : Bool := !(['\t', '\n', '\x0c', ' ', '<', '&', '#', ';'].contains c)

/-- `&(#[0-9]+;?|#[xX][0-9a-fA-F]+;?|[^\t\n\f <&#;]{1,32};?)`. -/
def charref : Regex :=
  .seq (.cls (· == '&'))
    (.alt (.seq (.cls (· == '#')) (.seq (plus (.cls Char.isDigit)) (opt (.cls (· == ';')))))
      (.alt (.seq (.cls (· == '#')) (.seq (.cls fun c => c == 'x' || c == 'X')
          (.seq (plus (.cls isHexDigit)) (opt (.cls (· == ';'))))))
        (.seq (.seq (.cls isReferenceName) (upTo (.cls isReferenceName) 31))
          (opt (.cls (· == ';'))))))

/-- `_invalid_charrefs`. -/
def invalidCharrefs : List (Nat × Nat) :=
  [(0x00, 0xFFFD), (0x0D, 0x0D), (0x80, 0x20AC), (0x81, 0x81), (0x82, 0x201A), (0x83, 0x0192),
    (0x84, 0x201E), (0x85, 0x2026), (0x86, 0x2020), (0x87, 0x2021), (0x88, 0x02C6), (0x89, 0x2030),
    (0x8A, 0x0160), (0x8B, 0x2039), (0x8C, 0x0152), (0x8D, 0x8D), (0x8E, 0x017D), (0x8F, 0x8F),
    (0x90, 0x90), (0x91, 0x2018), (0x92, 0x2019), (0x93, 0x201C), (0x94, 0x201D), (0x95, 0x2022),
    (0x96, 0x2013), (0x97, 0x2014), (0x98, 0x02DC), (0x99, 0x2122), (0x9A, 0x0161), (0x9B, 0x203A),
    (0x9C, 0x0153), (0x9D, 0x9D), (0x9E, 0x017E), (0x9F, 0x0178)]

/-- `num in _invalid_codepoints`. -/
def isInvalidCodepoint (num : Nat) : Bool :=
  (0x1 ≤ num && num ≤ 0x8) || num == 0xB || (0xE ≤ num && num ≤ 0x1F) ||
    (0x7F ≤ num && num ≤ 0x9F) || (0xFDD0 ≤ num && num ≤ 0xFDEF) ||
    num % 0x10000 == 0xFFFE || num % 0x10000 == 0xFFFF

/-- What a numeric reference stands for. -/
def numericReference (num : Nat) : List Char :=
  match invalidCharrefs.lookup num with
  | some replacement => [Char.ofNat replacement]
  | none =>
      if (0xD800 ≤ num ∧ num ≤ 0xDFFF) ∨ 0x10FFFF < num then ['\ufffd']
      else if isInvalidCodepoint num then []
      else [Char.ofNat num]

def digitValue (c : Char) : Nat :=
  if c.isDigit then c.toNat - 48 else if c.toNat < 97 then c.toNat - 55 else c.toNat - 87

/-- `int(digits.rstrip(";"), base)`. -/
def referenceNumber (base : Nat) (digits : List Char) : Nat :=
  (digits.takeWhile (· ≠ ';')).foldl (fun num c => base * num + digitValue c) 0

/-- `_replace_charref`. -/
def replaceCharref [EntityTable] (found : List Char) : List Char :=
  match found.tail with
  | '#' :: digits =>
      match digits with
      | 'x' :: hex => numericReference (referenceNumber 16 hex)
      | 'X' :: hex => numericReference (referenceNumber 16 hex)
      | _ => numericReference (referenceNumber 10 digits)
  | name =>
      -- The longest name at the front, of two characters at least, or the whole.
      let lengths := name.length :: (List.range name.length).reverse.filter (2 ≤ ·)
      (lengths.findSome? fun x =>
        (EntityTable.named (name.take x)).map (· ++ name.drop x)).getD ('&' :: name)

/-- `html.unescape(text)`. -/
def unescape [EntityTable] (text : String) : String :=
  .ofList (charref.sub replaceCharref text.toList)

/-! ## Reading references back -/

variable {rest : List Char}

/-- Other characters begin no reference. -/
theorem charref_inert {c : Char} (h : c ≠ '&') : charref.Inert c := by
  intro rest
  simp [charref, ends, h]

/-- A numeric reference. -/
theorem charref_numeric {d : Char} {digits : List Char} (hd : d.isDigit = true)
    (hdigits : ∀ c ∈ digits, c.isDigit = true) :
    (charref.ends ('&' :: '#' :: d :: (digits ++ ';' :: rest))).head? = some rest := by
  have hstop : (digits ++ ';' :: rest).dropWhile Char.isDigit = ';' :: rest := by
    rw [List.dropWhile_append_of_pos hdigits]
    rfl
  have hplus : ((plus (cls Char.isDigit)).ends (d :: (digits ++ ';' :: rest))).head? =
      some (';' :: rest) := by
    rw [head?_plus_cls hd, hstop]
  exact head?_seq rfl (head?_alt (head?_seq rfl (head?_seq hplus (head?_opt_cls rfl))))

/-- A named reference. -/
theorem charref_named {c : Char} {name : List Char} (hc : isReferenceName c = true)
    (hname : ∀ d ∈ name, isReferenceName d = true) (hlength : name.length ≤ 31) :
    (charref.ends ('&' :: c :: (name ++ ';' :: rest))).head? = some rest := by
  have hsign : c ≠ '#' := by
    rintro rfl
    cases hc
  have hfirst : ((cls isReferenceName).ends (c :: (name ++ ';' :: rest))).head? =
      some (name ++ ';' :: rest) := by
    rw [ends, if_pos hc]
    rfl
  have hsemicolon : ((opt (cls (· == ';'))).ends (';' :: rest)).head? = some rest :=
    head?_opt_cls rfl
  have hwhole := head?_seq (head?_seq hfirst (head?_upTo hname (by decide) hlength)) hsemicolon
  refine head?_seq rfl ?_
  simpa [ends, hsign] using hwhole

end PyLib
