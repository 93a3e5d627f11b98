import Mathlib.Tactic

set_option autoImplicit false

/-! # Backtracking regular expressions

The expressions of Python's `re` that match by backtracking: an expression enumerates the rests
that its matches leave of a text, in the order in which they are tried, and the match is the first
of them. Alternatives are tried from left to right, and a repetition takes as much as it can.
`scan` cuts a text into its leftmost matches and the characters between them, which is what
`re.sub` and `re.finditer` see of it.
-/

namespace PyLib

/-- A regular expression. -/
inductive Regex where
  /-- One character of a class. -/
  | cls (p : Char → Bool)
  /-- The empty text. -/
  | eps
  /-- `$`: the end of the text, or of its last line. -/
  | atEnd
  | seq (r s : Regex)
  | alt (r s : Regex)
  /-- `r*`, greedy. -/
  | star (r : Regex)
  /-- `r*?`, which takes as little as it can. -/
  | lazy (r : Regex)

namespace Regex

/-- The characters of a text, one after the other. -/
def lit (text : List Char) : Regex := text.foldr (fun c r => seq (cls (· == c)) r) eps

/-- Repeat a step that takes something off the text, as often as possible first. -/
def iterate (step : List Char → List (List Char)) : Nat → List Char → List (List Char)
  | 0, text => [text]
  | n + 1, text =>
      ((step text).filter fun rest => rest.length < text.length).flatMap (iterate step n) ++ [text]

/-- Repeat such a step, as rarely as possible first. -/
def iterateLazy (step : List Char → List (List Char)) : Nat → List Char → List (List Char)
  | 0, text => [text]
  | n + 1, text =>
      text :: ((step text).filter fun rest => rest.length < text.length).flatMap
        (iterateLazy step n)

/-- What the matches at the front of a text leave of it, in the order of trying. -/
def ends : Regex → List Char → List (List Char)
  | cls _, [] => []
  | cls p, c :: rest => if p c then [rest] else []
  | eps, text => [text]
  | atEnd, text => if text = [] ∨ text = ['\n'] then [text] else []
  | seq r s, text => (ends r text).flatMap (ends s)
  | alt r s, text => ends r text ++ ends s text
  | star r, text => iterate (ends r) text.length text
  | lazy r, text => iterateLazy (ends r) text.length text

/-- The length of the match at the front of a text. -/
def matchLength (r : Regex) (text : List Char) : Option Nat :=
  (r.ends text).head?.map fun rest => text.length - rest.length

/-- The pieces of the text that is left when this many of its characters belong to a match. -/
def scanFrom (r : Regex) : Nat → List Char → List (Bool × List Char)
  | _, [] => []
  | k + 1, _ :: rest => scanFrom r k rest
  | 0, c :: rest =>
      match r.matchLength (c :: rest) with
      | some (n + 1) => (true, (c :: rest).take (n + 1)) :: scanFrom r n rest
      | _ => (false, [c]) :: scanFrom r 0 rest

/-- The matches in a text, and the characters that belong to none. -/
def scan (r : Regex) (text : List Char) : List (Bool × List Char) := scanFrom r 0 text

/-- `re.sub(r, f, text)`, for an expression that does not match the empty text. -/
def sub (r : Regex) (f : List Char → List Char) (text : List Char) : List Char :=
  (scan r text).flatMap fun piece => if piece.1 then f piece.2 else piece.2

variable {r s : Regex} {text rest : List Char} {c : Char}

/-! ## The first match -/

theorem head?_seq (hr : (r.ends text).head? = some rest) {after : List Char}
    (hs : (s.ends rest).head? = some after) : ((seq r s).ends text).head? = some after := by
  obtain ⟨others, hothers⟩ := List.head?_eq_some_iff.mp hr
  rw [ends, hothers, List.flatMap_cons, List.head?_append, hs, Option.some_or]

theorem head?_alt (hr : (r.ends text).head? = some rest) : ((alt r s).ends text).head? =
    some rest := by
  rw [ends, List.head?_append, hr, Option.some_or]

theorem ends_lit (word : List Char) : (lit word).ends (word ++ rest) = [rest] := by
  induction word with
  | nil => rfl
  | cons c word ih =>
      show (seq (cls (· == c)) (lit word)).ends (c :: (word ++ rest)) = [rest]
      simp [ends, ih]

/-- A repeated class takes all that is in the class. -/
theorem head?_star_cls (p : Char → Bool) (text : List Char) :
    ((star (cls p)).ends text).head? = some (text.dropWhile p) := by
  have hiterate : ∀ n text, text.length ≤ n →
      (iterate (cls p).ends n text).head? = some (text.dropWhile p) := by
    intro n
    induction n with
    | zero =>
        intro text hlength
        rw [List.eq_nil_of_length_eq_zero (Nat.le_zero.mp hlength)]
        rfl
    | succ n ih =>
        intro text hlength
        cases text with
        | nil => rfl
        | cons c rest =>
            have hrest : rest.length ≤ n := by simpa using hlength
            by_cases hc : p c = true
            · simp [iterate, ends, hc, ih rest hrest]
            · simp [iterate, ends, hc]
  exact hiterate text.length text le_rfl

/-- A repeated arbitrary character leaves the ends of the text, the whole of it first. -/
theorem ends_lazy_any (text : List Char) : (lazy (cls fun _ => true)).ends text = text.tails := by
  have hiterate : ∀ text n, text.length ≤ n →
      iterateLazy (cls fun _ => true).ends n text = text.tails := by
    intro text
    induction text with
    | nil =>
        intro n _
        cases n with
        | zero => rfl
        | succ n => rfl
    | cons c rest ih =>
        intro n hlength
        rw [List.length_cons] at hlength
        obtain ⟨n, rfl⟩ := Nat.exists_eq_succ_of_ne_zero (n := n) (by omega)
        have hstep : (cls fun _ => true).ends (c :: rest) = [rest] := by simp [ends]
        rw [iterateLazy, hstep, List.filter_cons_of_pos (by simp), List.filter_nil,
          List.flatMap_singleton, ih n (by omega), List.tails]
  exact hiterate text text.length le_rfl

/-- A repetition whose step cannot go on. -/
theorem iterate_stop {step : List Char → List (List Char)} (h : step text = []) (n : Nat) :
    iterate step n text = [text] := by
  cases n with
  | zero => rfl
  | succ n => rw [iterate, h, List.filter_nil, List.flatMap_nil, List.nil_append]

/-- A repetition whose step goes on in one way. -/
theorem iterate_step {step : List Char → List (List Char)} (h : step text = [rest])
    (hshorter : rest.length < text.length) (n : Nat) :
    iterate step (n + 1) text = iterate step n rest ++ [text] := by
  rw [iterate, h, List.filter_cons_of_pos (by simpa using hshorter), List.filter_nil,
    List.flatMap_cons, List.flatMap_nil, List.append_nil]

/-! ## Scanning -/

/-- A character at which nothing matches is a piece of its own. -/
theorem scan_cons (h : r.ends (c :: rest) = []) :
    scan r (c :: rest) = (false, [c]) :: scan r rest := by
  rw [scan, scanFrom, matchLength, h]
  rfl

theorem scanFrom_append (taken rest : List Char) :
    scanFrom r taken.length (taken ++ rest) = scan r rest := by
  induction taken with
  | nil => rfl
  | cons c taken ih => rw [List.length_cons, List.cons_append, scanFrom, ih]

/-- The first match is a piece. -/
theorem scan_match {taken : List Char} (hne : taken ≠ [])
    (h : (r.ends (taken ++ rest)).head? = some rest) :
    scan r (taken ++ rest) = (true, taken) :: scan r rest := by
  cases taken with
  | nil => exact absurd rfl hne
  | cons c taken =>
      have hlength : r.matchLength (c :: (taken ++ rest)) = some (taken.length + 1) := by
        rw [← List.cons_append, matchLength, h, Option.map_some, List.length_append,
          Nat.add_sub_cancel, List.length_cons]
      rw [List.cons_append, scan, scanFrom, hlength, ← List.cons_append]
      simp only [List.take_left' (show (c :: taken).length = taken.length + 1 from rfl)]
      rw [scanFrom_append]

/-- The pieces make up the text. -/
theorem flatten_scan (r : Regex) (text : List Char) :
    ((scan r text).map Prod.snd).flatten = text := by
  have hfrom : ∀ (text : List Char) (k : Nat),
      ((scanFrom r k text).map Prod.snd).flatten = text.drop k := by
    intro text
    induction text with
    | nil => intro k; cases k <;> rfl
    | cons c rest ih =>
        intro k
        cases k with
        | succ k => exact ih k
        | zero =>
            rw [scanFrom]
            split
            · next n _ =>
                rw [List.map_cons, List.flatten_cons, ih n]
                exact List.take_append_drop (n + 1) (c :: rest)
            · rw [List.map_cons, List.flatten_cons, ih 0]
              rfl
  exact hfrom text 0

/-- The characters at which nothing can match. -/
def Inert (r : Regex) (c : Char) : Prop := ∀ rest, r.ends (c :: rest) = []

theorem scan_append_of_inert {front : List Char} (h : ∀ c ∈ front, r.Inert c) :
    scan r (front ++ rest) = front.map (fun c => (false, [c])) ++ scan r rest := by
  induction front with
  | nil => rfl
  | cons c front ih =>
      have hrest := ih fun d hd => h d (List.mem_cons_of_mem c hd)
      rw [List.cons_append, scan_cons (h c (List.mem_cons_self ..) _), hrest, List.map_cons,
        List.cons_append]

variable {f : List Char → List Char}

theorem sub_append_of_inert {front : List Char} (h : ∀ c ∈ front, r.Inert c) :
    sub r f (front ++ rest) = front ++ sub r f rest := by
  have hfront : (front.map fun c => (false, [c])).flatMap
      (fun piece => if piece.1 then f piece.2 else piece.2) = front := by
    simp [List.flatMap_map]
  rw [sub, scan_append_of_inert h, List.flatMap_append, hfront, sub]

theorem sub_of_inert (h : ∀ c ∈ text, r.Inert c) : sub r f text = text := by
  have happend : sub r f (text ++ []) = text ++ sub r f [] := sub_append_of_inert h
  rwa [List.append_nil, show sub r f [] = [] from rfl, List.append_nil] at happend

theorem sub_match {taken : List Char} (hne : taken ≠ [])
    (h : (r.ends (taken ++ rest)).head? = some rest) :
    sub r f (taken ++ rest) = f taken ++ sub r f rest := by
  rw [sub, scan_match hne h, List.flatMap_cons, if_pos rfl, sub]

/-- Replacing the characters of a class. -/
theorem sub_cls (p : Char → Bool) (f : List Char → List Char) (text : List Char) :
    sub (cls p) f text = text.flatMap fun c => if p c then f [c] else [c] := by
  induction text with
  | nil => rfl
  | cons c rest ih =>
      by_cases hc : p c = true
      · have hmatch : ((cls p).ends ([c] ++ rest)).head? = some rest := by simp [ends, hc]
        have hsub := sub_match (f := f) (by simp) hmatch
        rw [List.singleton_append] at hsub
        rw [hsub, ih, List.flatMap_cons, if_pos hc]
      · have hnone : (cls p).ends (c :: rest) = [] := by simp [ends, hc]
        rw [sub, scan_cons hnone, List.flatMap_cons, if_neg (by simp), ← sub, ih,
          List.flatMap_cons, if_neg hc]

end Regex

end PyLib
