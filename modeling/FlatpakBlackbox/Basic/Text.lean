import Mathlib.Data.List.DropRight
import Mathlib.Data.List.Sort
import Mathlib.Data.List.TakeWhile
import Mathlib.Data.String.Basic
import Mathlib.Tactic

set_option autoImplicit false

/-! # Python strings

String methods of Python on Lean strings. A Python string is a sequence of code points, so each
method is defined on `String.toList`. Classifying a character beyond ASCII needs the Unicode
database, which is a parameter (`UnicodeDatabase`): whatever is proved holds for every version
of it.
-/

namespace PyLib

/-- What Python asks the Unicode database about characters that are not ASCII. -/
class UnicodeDatabase where
  /-- `str.isalnum`. -/
  isAlnum : Char → Bool
  /-- May start an identifier. -/
  isIdStart : Char → Bool
  /-- May continue an identifier. -/
  isIdContinue : Char → Bool

/-- A Unicode database that knows nothing beyond ASCII. -/
@[reducible] def asciiOnly : UnicodeDatabase := ⟨fun _ => false, fun _ => false, fun _ => false⟩

/-- `str.isspace` of one character. The list is closed and part of the documentation. -/
def isSpace (c : Char) : Bool :=
  let n := c.toNat
  (9 ≤ n && n ≤ 13) || (28 ≤ n && n ≤ 32) || n == 0x85 || n == 0xA0 || n == 0x1680
    || (0x2000 ≤ n && n ≤ 0x200A) || n == 0x2028 || n == 0x2029 || n == 0x202F || n == 0x205F
    || n == 0x3000

/-- `\w` of a regular expression: a letter, a digit or the underscore. -/
def isWord [UnicodeDatabase] (c : Char) : Bool :=
  if c.toNat < 128 then c.isAlphanum || c == '_' else UnicodeDatabase.isAlnum c

/-- `['"]` of a regular expression. -/
def isQuote (c : Char) : Bool := c == '\'' || c == '"'

theorem isQuote_iff {c : Char} : isQuote c = true ↔ c = '\'' ∨ c = '"' := by
  simp [isQuote]

/-- `str.strip` on a list of characters. -/
def strip (cs : List Char) : List Char :=
  ((cs.dropWhile isSpace).reverse.dropWhile isSpace).reverse

/-- `s.startswith(p)`. -/
def startsWith (s p : String) : Bool := p.toList.isPrefixOf s.toList

/-- `s.endswith(p)`. -/
def endsWith (s p : String) : Bool := p.toList.isSuffixOf s.toList

/-- `s.removeprefix(p)`. -/
def removePrefix (s p : String) : String :=
  if startsWith s p then String.ofList (s.toList.drop p.toList.length) else s

/-- `s.split(c)`. -/
def splitBy (s : String) (c : Char) : List String := (s.toList.splitOn c).map String.ofList

/-- `s.partition(c)`: the text before the first `c`, whether there is one, and the rest. -/
def partition (s : String) (c : Char) : String × Bool × String :=
  let before := s.toList.takeWhile (· ≠ c)
  match s.toList.dropWhile (· ≠ c) with
  | [] => (s, false, "")
  | _ :: after => (String.ofList before, true, String.ofList after)

/-- `first, second = s.split(c, 1)`, `none` where the unpacking fails. -/
def splitOnce (s : String) (c : Char) : Option (String × String) :=
  match s.toList.dropWhile (· ≠ c) with
  | [] => none
  | _ :: after => some (String.ofList (s.toList.takeWhile (· ≠ c)), String.ofList after)

/-- `s.isidentifier()`. -/
def isIdentifier [UnicodeDatabase] (s : String) : Bool :=
  let start (c : Char) : Bool :=
    if c.toNat < 128 then c.isAlpha || c == '_' else UnicodeDatabase.isIdStart c
  let continues (c : Char) : Bool :=
    if c.toNat < 128 then c.isAlphanum || c == '_' else UnicodeDatabase.isIdContinue c
  match s.toList with
  | [] => false
  | c :: cs => start c && cs.all continues

/-- `sorted(...)` of strings, by code points. -/
def sorted (l : List String) : List String := l.insertionSort (· ≤ ·)

theorem sorted_perm (l : List String) : (sorted l).Perm l := List.perm_insertionSort _ l

theorem mem_sorted {l : List String} {s : String} : s ∈ sorted l ↔ s ∈ l :=
  (sorted_perm l).mem_iff

/-- Without duplicates, sorting orders strictly. -/
theorem sorted_lt {l : List String} (h : l.Nodup) : (sorted l).Pairwise (· < ·) := by
  have hnodup : (sorted l).Nodup := (sorted_perm l).nodup_iff.mpr h
  have hsorted : (sorted l).Pairwise (· ≤ ·) := List.pairwise_insertionSort (· ≤ ·) l
  exact (hsorted.and hnodup).imp fun hab => lt_of_le_of_ne hab.1 hab.2

/-- `sorted` forgets the order of its argument. -/
theorem sorted_eq_of_perm {l l' : List String} (h : l.Perm l') : sorted l = sorted l' :=
  List.Perm.eq_of_pairwise' (List.pairwise_insertionSort (· ≤ ·) l)
    (List.pairwise_insertionSort (· ≤ ·) l') (((sorted_perm l).trans h).trans (sorted_perm l').symm)

/-- What holds of some characters is decided on the list of them, not on all characters. -/
theorem forall_mem_chars {p : Char → Prop} [DecidablePred p] {cs : List Char}
    (h : cs.all (fun c => p c) = true) : ∀ c ∈ cs, p c := by
  intro c hc
  simpa using List.all_eq_true.mp h c hc

/-- The same for the characters of a literal. -/
theorem forall_mem_toList {p : Char → Prop} [DecidablePred p] {cs : List Char}
    (h : cs.all (fun c => p c) = true) : ∀ c ∈ (String.ofList cs).toList, p c := by
  rw [String.toList_ofList]
  exact forall_mem_chars h

theorem startsWith_append (p s : String) : startsWith (p ++ s) p = true := by
  simp [startsWith, String.toList_append]

theorem removePrefix_append (p s : String) : removePrefix (p ++ s) p = s := by
  rw [removePrefix, if_pos (startsWith_append p s)]
  simp [String.toList_append]

theorem splitOnce_eq_some_iff {s : String} {c : Char} :
    (splitOnce s c).isSome ↔ c ∈ s.toList := by
  rw [splitOnce]
  cases h : s.toList.dropWhile (· ≠ c) with
  | nil =>
      have := List.dropWhile_eq_nil_iff.mp h
      simp only [Option.isSome_none, Bool.false_eq_true, false_iff]
      intro hc
      simpa using this c hc
  | cons x after =>
      simp only [Option.isSome_some, true_iff]
      by_contra hc
      have hnil : s.toList.dropWhile (· ≠ c) = [] :=
        List.dropWhile_eq_nil_iff.mpr fun a ha => by simpa using fun hac : a = c => hc (hac ▸ ha)
      rw [hnil] at h
      cases h

/-- Splitting at a separator whose left part does not contain it. -/
theorem splitOnce_append {a : String} {c : Char} (ha : c ∉ a.toList) (b : String) :
    splitOnce (a ++ String.ofList [c] ++ b) c = some (a, b) := by
  have hall : ∀ x ∈ a.toList, (decide (x ≠ c)) = true := by
    intro x hx
    have hxc : x ≠ c := fun h => ha (h ▸ hx)
    simpa using hxc
  have hlist : (a ++ String.ofList [c] ++ b).toList = a.toList ++ c :: b.toList := by
    simp [String.toList_append]
  rw [splitOnce, hlist, List.dropWhile_append_of_pos hall, List.takeWhile_append_of_pos hall]
  simp

/-- What is split off in front does not contain the separator. -/
theorem not_mem_of_splitOnce {s a b : String} {c : Char} (h : splitOnce s c = some (a, b)) :
    c ∉ a.toList := by
  unfold splitOnce at h
  split at h
  · cases h
  · cases h
    rw [String.toList_ofList]
    intro hc
    simpa using List.mem_takeWhile_imp hc

/-! ## Stripping -/

/-- What is left begins with no space. -/
theorem isSpace_head_strip {cs : List Char} {c : Char} (h : (strip cs).head? = some c) :
    isSpace c = false := by
  have hpre : strip cs <+: cs.dropWhile isSpace := by
    have hsuffix := List.dropWhile_suffix isSpace (l := (cs.dropWhile isSpace).reverse)
    have hreverse := List.reverse_prefix.mpr hsuffix
    rwa [List.reverse_reverse] at hreverse
  obtain ⟨rest, hrest⟩ := hpre
  cases hstrip : strip cs with
  | nil =>
      rw [hstrip] at h
      cases h
  | cons d ds =>
      rw [hstrip] at h hrest
      obtain rfl := Option.some.inj h
      have hne : cs.dropWhile isSpace ≠ [] := by
        rw [← hrest]
        simp
      have hhead := List.head_dropWhile_not isSpace hne
      simp only [← hrest, List.cons_append, List.head_cons] at hhead
      exact hhead

theorem strip_strip (cs : List Char) : strip (strip cs) = strip cs := by
  have hstart : (strip cs).dropWhile isSpace = strip cs := by
    cases hstrip : strip cs with
    | nil => rfl
    | cons c rest =>
        have hc : isSpace c = false := isSpace_head_strip (hstrip ▸ rfl : (strip cs).head? = some c)
        rw [List.dropWhile_cons_of_neg (by rw [hc]; decide)]
  rw [strip, hstart, strip, List.reverse_reverse, List.dropWhile_idempotent]

/-- What `strip` takes away is white space at both ends. -/
theorem strip_infix (cs : List Char) : ∃ front back, cs = front ++ strip cs ++ back ∧
    (∀ c ∈ front, isSpace c = true) ∧ ∀ c ∈ back, isSpace c = true := by
  have hsplit := List.takeWhile_append_dropWhile (p := isSpace) (l := cs)
  have hback := List.takeWhile_append_dropWhile (p := isSpace) (l := (cs.dropWhile isSpace).reverse)
  have hreverse : cs.dropWhile isSpace =
      strip cs ++ ((cs.dropWhile isSpace).reverse.takeWhile isSpace).reverse := by
    rw [strip, ← List.reverse_append, hback, List.reverse_reverse]
  refine ⟨cs.takeWhile isSpace, ((cs.dropWhile isSpace).reverse.takeWhile isSpace).reverse, ?_,
    fun c hc => List.mem_takeWhile_imp hc, fun c hc => ?_⟩
  · rw [List.append_assoc, ← hreverse, hsplit]
  · exact List.mem_takeWhile_imp (List.mem_reverse.mp hc)

/-- A text between two different marks. -/
theorem enclosed_iff {first last : Char} (hne : first ≠ last) {cs : List Char} :
    cs.head? = some first ∧ cs.getLast? = some last ↔
      cs = first :: (cs.tail.dropLast ++ [last]) := by
  constructor
  · rintro ⟨hhead, hlast⟩
    cases cs with
    | nil => cases hhead
    | cons c rest =>
        obtain rfl := Option.some.inj hhead
        cases rest with
        | nil => exact absurd (Option.some.inj hlast) hne
        | cons d rest =>
            rw [List.getLast?_cons_cons] at hlast
            rw [List.tail_cons, List.dropLast_append_getLast? _ hlast]
  · intro h
    rw [h]
    exact ⟨rfl, by rw [← List.cons_append, List.getLast?_concat]⟩

theorem count_strip {c : Char} (hc : isSpace c = false) (cs : List Char) :
    (strip cs).count c = cs.count c := by
  have hnone : ∀ {spaces : List Char}, (∀ d ∈ spaces, isSpace d = true) → spaces.count c = 0 := by
    intro spaces hspaces
    refine List.count_eq_zero.mpr fun hmem => ?_
    exact absurd (hc.symm.trans (hspaces c hmem)) (by decide)
  obtain ⟨front, back, hsplit, hfront, hback⟩ := strip_infix cs
  have hcount := congrArg (List.count c) hsplit
  rw [List.count_append, List.count_append, hnone hfront, hnone hback] at hcount
  omega

/-- Spaces after the last character that is none are dropped. -/
theorem strip_append {cs spaces : List Char} (hhead : ∀ c, cs.head? = some c → isSpace c = false)
    (hlast : ∀ c, cs.getLast? = some c → isSpace c = false)
    (hspaces : ∀ c ∈ spaces, isSpace c = true) : strip (cs ++ spaces) = cs := by
  have hfront : ∀ ds : List Char, (∀ c, ds.head? = some c → isSpace c = false) →
      ds.dropWhile isSpace = ds := by
    intro ds hds
    cases ds with
    | nil => rfl
    | cons d ds => exact List.dropWhile_cons_of_neg (by simp [hds d rfl])
  have hback : (cs.reverse).dropWhile isSpace = cs.reverse := by
    apply hfront
    intro c hc
    exact hlast c (by rwa [List.head?_reverse] at hc)
  have hdropped : spaces.reverse.dropWhile isSpace = [] := by
    simpa [List.dropWhile_eq_nil_iff] using hspaces
  rcases List.eq_nil_or_concat cs with rfl | ⟨ds, d, hds⟩
  · have hall : spaces.dropWhile isSpace = [] := by
      simpa [List.dropWhile_eq_nil_iff] using hspaces
    simp [strip, hall]
  · have hstart : (cs ++ spaces).dropWhile isSpace = cs ++ spaces := by
      apply hfront
      intro c hc
      have hne : cs ≠ [] := by simp [hds]
      exact hhead c (by rwa [List.head?_append_of_ne_nil _ hne] at hc)
    rw [strip, hstart, List.reverse_append, List.dropWhile_append, hdropped]
    simp [hback]

/-! ## Splitting at a separator -/

/-- The text before the first separator is the first piece. -/
theorem splitBy_append {a b sep : String} {c : Char} (hsep : sep.toList = [c]) (ha : c ∉ a.toList) :
    splitBy (a ++ sep ++ b) c = a :: splitBy b c := by
  have hlist : (a ++ sep ++ b).toList = a.toList ++ c :: b.toList := by
    simp [String.toList_append, hsep]
  rw [splitBy, hlist, List.splitOn_append_cons_self_of_not_mem ha, List.map_cons,
    String.ofList_toList, splitBy]

theorem splitBy_eq_singleton {a : String} {c : Char} (ha : c ∉ a.toList) : splitBy a c = [a] := by
  rw [splitBy, List.splitOn_eq_singleton ha, List.map_singleton, String.ofList_toList]

/-- The pieces hold no other characters than the text. -/
theorem mem_of_mem_splitBy {s piece : String} {c d : Char} (h : piece ∈ splitBy s c)
    (hd : d ∈ piece.toList) : d ∈ s.toList := by
  have hlist : ∀ text cs : List Char, cs ∈ text.splitOn c → d ∈ cs → d ∈ text := by
    intro text
    induction text with
    | nil =>
        intro cs hcs hd
        rw [List.splitOn_nil, List.mem_singleton] at hcs
        rwa [hcs] at hd
    | cons x text ih =>
        intro cs hcs hd
        rw [List.splitOn_cons_eq_if_modifyHead] at hcs
        by_cases hx : x = c
        · rw [if_pos (beq_iff_eq.mpr hx)] at hcs
          rcases List.mem_cons.mp hcs with rfl | hcs
          · cases hd
          · exact List.mem_cons_of_mem x (ih cs hcs hd)
        · rw [if_neg fun h => hx (beq_iff_eq.mp h)] at hcs
          cases hpieces : text.splitOn c with
          | nil => exact absurd hpieces (List.splitOn_ne_nil c text)
          | cons first pieces =>
              rw [hpieces] at ih
              rw [hpieces, List.modifyHead_cons] at hcs
              rcases List.mem_cons.mp hcs with rfl | hcs
              · rcases List.mem_cons.mp hd with rfl | hd
                · exact List.mem_cons_self
                · exact List.mem_cons_of_mem x (ih first List.mem_cons_self hd)
              · exact List.mem_cons_of_mem x (ih cs (List.mem_cons_of_mem first hcs) hd)
  obtain ⟨cs, hcs, rfl⟩ := List.mem_map.mp h
  rw [String.toList_ofList] at hd
  exact hlist s.toList cs hcs hd

/-- A text that does not begin with the separator begins as its first piece does. -/
theorem splitBy_head {s piece : String} {pieces : List String} {c d : Char} {cs : List Char}
    (hs : s.toList = d :: cs) (hd : d ≠ c) (h : splitBy s c = piece :: pieces) :
    piece.toList.head? = some d := by
  rw [splitBy, hs, List.splitOn_cons_eq_if_modifyHead, if_neg fun h => hd (beq_iff_eq.mp h)] at h
  cases hpieces : cs.splitOn c with
  | nil => exact absurd hpieces (List.splitOn_ne_nil c cs)
  | cons first rest =>
      rw [hpieces, List.modifyHead_cons, List.map_cons] at h
      obtain ⟨rfl, -⟩ := List.cons.inj h
      simp

/-- `sep.join(parts).split(sep)`. -/
theorem splitOn_intercalate_toList {sep : String} {c : Char} (hsep : sep.toList = [c])
    {parts : List String} (hne : parts ≠ []) (h : ∀ part ∈ parts, c ∉ part.toList) :
    (sep.intercalate parts).toList.splitOn c = parts.map String.toList := by
  rw [String.toList_intercalate, hsep]
  apply List.splitOn_intercalate
  · intro piece hpiece
    obtain ⟨part, hpart, rfl⟩ := List.mem_map.mp hpiece
    exact h part hpart
  · simpa using hne

/-! ## Printed integers -/

theorem isDigit_of_mem_repr {n : Nat} {c : Char} (h : c ∈ n.repr.toList) : c.isDigit = true := by
  rw [Nat.toList_repr] at h
  exact Nat.isDigit_of_mem_toDigits (by decide) (by decide) h

/-- The characters of a printed integer. -/
theorem mem_toString {n : Int} {c : Char} (h : c ∈ (toString n).toList) :
    c = '-' ∨ c.isDigit = true := by
  rw [Int.toString_eq_repr, Int.repr_eq_if] at h
  split at h
  · exact .inr (isDigit_of_mem_repr h)
  · rw [String.toList_append] at h
    rcases List.mem_append.mp h with h | h
    · exact .inl (List.mem_singleton.mp h)
    · exact .inr (isDigit_of_mem_repr h)

theorem not_isSpace_of_isDigit {c : Char} (h : c = '-' ∨ c.isDigit = true) :
    isSpace c = false := by
  have hbound : 45 ≤ c.toNat ∧ c.toNat ≤ 57 := by
    rcases h with rfl | h
    · decide
    · simp only [Char.isDigit, Bool.and_eq_true, decide_eq_true_eq, UInt32.le_iff_toNat_le,
        ge_iff_le] at h
      have hval : c.toNat = c.val.toNat := rfl
      have hdigits : '0'.val.toNat = 48 ∧ '9'.val.toNat = 57 := by decide
      omega
  simp only [isSpace, Bool.or_eq_false_iff, Bool.and_eq_false_iff, decide_eq_false_iff_not,
    beq_eq_false_iff_ne]
  omega

theorem toString_ne_nil (n : Int) : (toString n).toList ≠ [] := by
  rw [Int.toString_eq_repr, Int.repr_eq_if]
  split
  · rw [Nat.toList_repr]
    exact Nat.toDigits_ne_nil
  · simp [String.toList_append]

end PyLib
