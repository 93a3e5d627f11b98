import FlatpakBlackbox.Catalogue.Comments
import FlatpakBlackbox.Catalogue.Tables

set_option autoImplicit false

/-! # Comments in the C sources

`uncomment` puts blanks in the place of the comments, so that a position in the stripped text is a
position in the source. What a comment is follows from reading the text from the left: a lexeme is
a closed literal, a closed comment, a comment up to the end of its line, or else one character.

Reading the stripped text gives the same literals again and nothing but characters where the
comments stood. A quote or a slash that begins no lexeme does not begin one afterwards either: the
blanks close nothing. What they take away is a backslash, and only one that stands last in a line
matters, for the line end behind it is no longer skipped.
-/

namespace FlatpakBlackbox

open PyLib Regex

/-! ## Lexemes -/

inductive Lexeme where
  | char (c : Char)
  | literal (quote : Char) (body : List Char)
  | block (body : List Char)
  | line (body : List Char)
  deriving DecidableEq

namespace Lexeme

def text : Lexeme → List Char
  | char c => [c]
  | literal q body => q :: (body ++ [q])
  | block body => '/' :: '*' :: (body ++ ['*', '/'])
  | line body => '/' :: '/' :: body

def isComment : Lexeme → Bool
  | block _ => true
  | line _ => true
  | _ => false

end Lexeme

/-- What can stand between two quotes: a backslash takes the next character with it. -/
inductive LiteralBody (q : Char) : List Char → Prop
  | nil : LiteralBody q []
  | escaped {c : Char} {rest : List Char} (hrest : LiteralBody q rest) :
      LiteralBody q ('\\' :: c :: rest)
  | plain {c : Char} {rest : List Char} (hquote : c ≠ q) (hescape : c ≠ '\\')
      (hrest : LiteralBody q rest) : LiteralBody q (c :: rest)

/-- A literal or a comment, and what follows it. -/
inductive Begins : Lexeme → List Char → Prop
  | literal {q : Char} {body : List Char} (hq : isQuote q = true) (hbody : LiteralBody q body)
      (rest : List Char) : Begins (.literal q body) rest
  | block {body : List Char} (hbody : ¬ ['*', '/'] <:+: body ++ ['*']) (rest : List Char) :
      Begins (.block body) rest
  | line {body rest : List Char} (hbody : '\n' ∉ body) (hrest : AtLineEnd rest) :
      Begins (.line body) rest

/-- The lexemes of a text. -/
inductive Lexes : List Char → List Lexeme → Prop
  | nil : Lexes [] []
  | lexeme {l : Lexeme} {rest : List Char} {ls : List Lexeme} (h : Begins l rest)
      (hrest : Lexes rest ls) : Lexes (l.text ++ rest) (l :: ls)
  | char {c : Char} {rest : List Char} {ls : List Lexeme}
      (h : ∀ l rest', Begins l rest' → l.text ++ rest' ≠ c :: rest) (hrest : Lexes rest ls) :
      Lexes (c :: rest) (.char c :: ls)

/-- The place `i` of the text lies in a comment. -/
def InComment : List Lexeme → Nat → Prop
  | [], _ => False
  | l :: ls, i => if i < l.text.length then l.isComment = true else InComment ls (i - l.text.length)

/-! ## What the expression finds -/

theorem head?_alt_or (r s : Regex) (text : List Char) :
    ((alt r s).ends text).head? = (r.ends text).head?.or (s.ends text).head? := by
  rw [ends, List.head?_append]

theorem literalRest_cons (q c : Char) (text : List Char) :
    literalRest q (c :: text) = if c = q then some text
      else if c = '\\' then text.tail?.bind (literalRest q) else literalRest q text := by
  cases text with
  | nil => simp [literalRest]
  | cons d rest => rfl

/-- A literal ends behind a body and the quote. -/
theorem literalRest_eq_some {q : Char} {text rest : List Char} (hq : q ≠ '\\') :
    literalRest q text = some rest ↔ ∃ body, LiteralBody q body ∧ text = body ++ q :: rest := by
  constructor
  · intro h
    induction text using literalRest.induct q with
    | case1 => cases h
    | case2 =>
        rw [literalRest_cons, if_pos rfl] at h
        exact ⟨[], .nil, by rw [← Option.some.inj h]; rfl⟩
    | case3 c hc =>
        rw [literalRest_cons, if_neg hc] at h
        split at h
        · cases h
        · cases h
    | case4 d after =>
        rw [literalRest_cons, if_pos rfl] at h
        exact ⟨[], .nil, by rw [← Option.some.inj h]; rfl⟩
    | case5 d after hc ih =>
        rw [literalRest_cons, if_neg hc, if_pos rfl] at h
        obtain ⟨body, hbody, rfl⟩ := ih h
        exact ⟨'\\' :: d :: body, .escaped hbody, rfl⟩
    | case6 c d after hc hescape ih =>
        rw [literalRest_cons, if_neg hc, if_neg hescape] at h
        obtain ⟨body, hbody, heq⟩ := ih h
        exact ⟨c :: body, .plain hc hescape hbody, by rw [heq]; rfl⟩
  · rintro ⟨body, hbody, rfl⟩
    induction hbody with
    | nil => rw [List.nil_append, literalRest_cons, if_pos rfl]
    | @escaped c body _ ih =>
        rw [List.cons_append, literalRest_cons, if_neg (Ne.symm hq), if_pos rfl]
        exact ih
    | plain hc hescape _ ih => rw [List.cons_append, literalRest_cons, if_neg hc,
        if_neg hescape, ih]

theorem ne_escape {q : Char} (hq : isQuote q = true) : q ≠ '\\' := by
  rcases isQuote_iff.mp hq with rfl | rfl <;> decide

theorem quote_ne_slash {q : Char} (hq : isQuote q = true) : q ≠ '/' := by
  rcases isQuote_iff.mp hq with rfl | rfl <;> decide

theorem head?_escapedLiteral {q : Char} (hq : isQuote q = true) {text rest : List Char} :
    ((escapedLiteral q).ends text).head? = some rest ↔
      ∃ body, LiteralBody q body ∧ text = q :: (body ++ q :: rest) := by
  cases text with
  | nil => simp [escapedLiteral, ends]
  | cons c after =>
      by_cases hc : c = q
      · subst hc
        have hrest := @literalRest_eq_some c after rest (ne_escape hq)
        rw [ends_escapedLiteral (ne_escape hq), Option.head?_toList, hrest]
        simp
      · have hnone : (escapedLiteral q).ends (c :: after) = [] := by simp [escapedLiteral, ends, hc]
        rw [hnone]
        refine iff_of_false (by simp) ?_
        rintro ⟨body, -, heq⟩
        exact hc (List.cons.inj heq).1

/-- What follows the first `*/`. -/
def afterClosing : List Char → Option (List Char)
  | [] => none
  | c :: rest => if c = '*' ∧ rest.head? = some '/' then some rest.tail else afterClosing rest

theorem ends_closing (text : List Char) : (lit ['*', '/']).ends text =
    if text.head? = some '*' ∧ text.tail.head? = some '/' then [text.tail.tail] else [] := by
  rcases text with _ | ⟨c, _ | ⟨d, rest⟩⟩
  · rfl
  · by_cases hc : c = '*' <;> simp [lit, ends, hc]
  · by_cases hc : c = '*' <;> by_cases hd : d = '/' <;> simp [lit, ends, hc, hd]

theorem head?_closing (text : List Char) :
    ((seq (.lazy (.cls fun _ => true)) (lit ['*', '/'])).ends text).head? = afterClosing text := by
  rw [ends, ends_lazy_any]
  induction text with
  | nil => rfl
  | cons c rest ih =>
      rw [List.tails, List.flatMap_cons, List.head?_append, ih, ends_closing, afterClosing]
      by_cases hclosing : c = '*' ∧ rest.head? = some '/'
      · rw [if_pos hclosing, if_pos (by simpa using hclosing)]
        rfl
      · rw [if_neg hclosing, if_neg (by simpa using hclosing)]
        rfl

theorem afterClosing_eq_some {text rest : List Char} : afterClosing text = some rest ↔
    ∃ body, ¬ ['*', '/'] <:+: body ++ ['*'] ∧ text = body ++ '*' :: '/' :: rest := by
  induction text with
  | nil => simp [afterClosing]
  | cons c text ih =>
      rw [afterClosing]
      by_cases hclosing : c = '*' ∧ text.head? = some '/'
      · obtain ⟨rfl, hslash⟩ := hclosing
        obtain ⟨after, rfl⟩ := List.head?_eq_some_iff.mp hslash
        rw [if_pos ⟨rfl, hslash⟩]
        constructor
        · intro h
          exact ⟨[], by decide, by rw [← Option.some.inj h]; rfl⟩
        · rintro ⟨body, hbody, heq⟩
          rcases body with _ | ⟨d, _ | ⟨e, body⟩⟩
          · exact congrArg some (by simpa using heq)
          · simp at heq
          · rw [List.cons_append, List.cons_append, List.cons.injEq, List.cons.injEq] at heq
            obtain ⟨rfl, rfl, -⟩ := heq
            exact absurd ⟨[], body ++ ['*'], rfl⟩ hbody
      · rw [if_neg hclosing, ih]
        constructor
        · rintro ⟨body, hbody, rfl⟩
          refine ⟨c :: body, fun hinfix => ?_, rfl⟩
          rcases List.infix_cons_iff.mp hinfix with hprefix | hlater
          · obtain ⟨rfl, hhead⟩ := List.cons_prefix_cons.mp hprefix
            refine hclosing ⟨rfl, ?_⟩
            obtain ⟨back, hback⟩ := hhead
            cases body with
            | nil => simp at hback
            | cons d body => simp at hback; simp [← hback.1]
          · exact hbody hlater
        · rintro ⟨body, hbody, heq⟩
          cases body with
          | nil =>
              obtain ⟨rfl, rfl⟩ := List.cons.inj heq
              exact absurd ⟨rfl, rfl⟩ hclosing
          | cons d body =>
              obtain ⟨rfl, rfl⟩ := List.cons.inj heq
              exact ⟨body, fun hinfix => hbody (List.infix_cons hinfix), rfl⟩

/-- `/\*.*?\*/`. -/
def blockComment : Regex :=
  .seq (lit ['/', '*']) (.seq (.lazy (.cls fun _ => true)) (lit ['*', '/']))

/-- `//[^\n]*`. -/
def slashComment : Regex := .seq (lit ['/', '/']) (.star (.cls (· != '\n')))

theorem cLexer_eq : cLexer =
    .alt blockComment (.alt slashComment (.alt (escapedLiteral '"') (escapedLiteral '\''))) := rfl

/-- What begins with two given characters. -/
theorem ends_seq_lit (a b : Char) (r : Regex) (text : List Char) :
    (seq (lit [a, b]) r).ends text =
      if text.head? = some a ∧ text.tail.head? = some b then r.ends text.tail.tail else [] := by
  rcases text with _ | ⟨c, _ | ⟨d, rest⟩⟩
  · rfl
  · by_cases hc : c = a <;> simp [lit, ends, hc]
  · by_cases hc : c = a <;> by_cases hd : d = b <;> simp [lit, ends, hc, hd]

theorem head?_blockComment {text rest : List Char} :
    (blockComment.ends text).head? = some rest ↔
      ∃ body, ¬ ['*', '/'] <:+: body ++ ['*'] ∧ text = (Lexeme.block body).text ++ rest := by
  rw [blockComment, ends_seq_lit]
  split
  · next hopen =>
      obtain ⟨after, rfl⟩ := List.head?_eq_some_iff.mp hopen.1
      obtain ⟨after, rfl⟩ := List.head?_eq_some_iff.mp hopen.2
      rw [List.tail_cons, List.tail_cons, head?_closing, afterClosing_eq_some]
      simp [Lexeme.text]
  · next hopen =>
      refine iff_of_false (by simp) ?_
      rintro ⟨body, -, rfl⟩
      exact hopen ⟨rfl, rfl⟩

theorem head?_slashComment {text rest : List Char} :
    (slashComment.ends text).head? = some rest ↔
      ∃ body, '\n' ∉ body ∧ AtLineEnd rest ∧ text = (Lexeme.line body).text ++ rest := by
  rw [slashComment, ends_seq_lit]
  split
  · next hopen =>
      obtain ⟨after, rfl⟩ := List.head?_eq_some_iff.mp hopen.1
      obtain ⟨after, rfl⟩ := List.head?_eq_some_iff.mp hopen.2
      rw [List.tail_cons, List.tail_cons, head?_star_cls]
      constructor
      · intro h
        obtain rfl := Option.some.inj h
        refine ⟨after.takeWhile (· != '\n'), ?_, ?_, by simp [Lexeme.text]⟩
        · intro hmem
          exact absurd (List.mem_takeWhile_imp hmem) (by decide)
        · cases hrest : after.dropWhile (· != '\n') with
          | nil => exact .inl rfl
          | cons c lines =>
              have hc := List.head_dropWhile_not (· != '\n') (l := after) (by simp [hrest])
              simp only [hrest, List.head_cons] at hc
              exact .inr ⟨lines, by simp at hc; rw [hc]⟩
      · rintro ⟨body, hbody, hrest, heq⟩
        obtain rfl : after = body ++ rest := by simpa [Lexeme.text] using heq
        have hkept : ∀ c ∈ body, (c != '\n') = true := fun c hc =>
          bne_iff_ne.mpr fun heq => hbody (heq ▸ hc)
        rw [List.dropWhile_append_of_pos hkept]
        rcases hrest with rfl | ⟨lines, rfl⟩
        · rfl
        · simp
  · next hopen =>
      refine iff_of_false (by simp) ?_
      rintro ⟨body, -, -, rfl⟩
      exact hopen ⟨rfl, rfl⟩

/-- **What the expression finds** at the front of a text is a literal or a comment there. -/
theorem head?_cLexer {text rest : List Char} :
    (cLexer.ends text).head? = some rest ↔ ∃ l, Begins l rest ∧ text = l.text ++ rest := by
  have hother : ∀ {a b c : Char} {r : Regex} {after : List Char}, c ≠ a →
      (seq (lit [a, b]) r).ends (c :: after) = [] := by
    intro a b c r after hc
    rw [ends_seq_lit, if_neg fun h => hc (Option.some.inj h.1)]
  have hquote : ∀ {q c : Char} {after : List Char}, c ≠ q →
    (escapedLiteral q).ends (c :: after) = [] := by
    intro q c after hc
    simp [escapedLiteral, ends, hc]
  rw [cLexer_eq, head?_alt_or, head?_alt_or, head?_alt_or]
  constructor
  · intro h
    rcases Option.or_eq_some_iff.mp h with hblock | ⟨-, h⟩
    · obtain ⟨body, hbody, rfl⟩ := head?_blockComment.mp hblock
      exact ⟨_, .block hbody rest, rfl⟩
    · rcases Option.or_eq_some_iff.mp h with hline | ⟨-, h⟩
      · obtain ⟨body, hbody, hrest, rfl⟩ := head?_slashComment.mp hline
        exact ⟨_, .line hbody hrest, rfl⟩
      · rcases Option.or_eq_some_iff.mp h with hliteral | ⟨-, hliteral⟩
        · obtain ⟨body, hbody, rfl⟩ := (head?_escapedLiteral (q := '"') rfl).mp hliteral
          exact ⟨_, .literal rfl hbody rest, by simp [Lexeme.text]⟩
        · obtain ⟨body, hbody, rfl⟩ := (head?_escapedLiteral (q := '\'') rfl).mp hliteral
          exact ⟨_, .literal rfl hbody rest, by simp [Lexeme.text]⟩
  · rintro ⟨l, hl, rfl⟩
    cases hl with
    | @block body hbody => rw [head?_blockComment.mpr ⟨body, hbody, rfl⟩, Option.some_or]
    | @line body _ hbody hrest =>
        have hblock : blockComment.ends ((Lexeme.line body).text ++ rest) = [] := by
          rw [blockComment, ends_seq_lit, if_neg fun h => absurd h.2 (by simp [Lexeme.text])]
        rw [hblock, head?_slashComment.mpr ⟨body, hbody, hrest, rfl⟩]
        rfl
    | @literal q body hq hbody =>
        have hliteral : ((escapedLiteral q).ends ((Lexeme.literal q body).text ++ rest)).head? =
          some rest :=
          (head?_escapedLiteral hq).mpr ⟨body, hbody, by simp [Lexeme.text]⟩
        have hslash := quote_ne_slash hq
        rw [Lexeme.text, List.cons_append, blockComment, slashComment, hother hslash, hother hslash,
          ← List.cons_append]
        rw [Lexeme.text] at hliteral
        rcases (isQuote_iff.mp hq).symm with rfl | rfl
        · rw [hliteral]
          rfl
        · have hdouble : (escapedLiteral '"').ends ('\'' :: (body ++ ['\'']) ++ rest) = [] :=
            hquote (by decide)
          rw [hdouble, hliteral]
          rfl

/-! ## Reading a text -/

theorem text_ne_nil (l : Lexeme) : l.text ≠ [] := by
  cases l <;> exact List.cons_ne_nil _ _

/-- A lexeme is determined by its text. -/
theorem begins_injective {l l' : Lexeme} {rest : List Char} (h : Begins l rest)
    (h' : Begins l' rest)
    (heq : l.text = l'.text) : l = l' := by
  cases h with
  | literal hq _ =>
      cases h' with
      | literal hq' _ =>
          obtain ⟨rfl, hbody⟩ := List.cons.inj heq
          rw [List.append_cancel_right hbody]
      | block _ => exact absurd (List.cons.inj heq).1 (quote_ne_slash hq)
      | line _ _ => exact absurd (List.cons.inj heq).1 (quote_ne_slash hq)
  | block _ =>
      cases h' with
      | literal hq' _ => exact absurd (List.cons.inj heq).1.symm (quote_ne_slash hq')
      | block _ =>
          have hbody := (List.cons.inj (List.cons.inj heq).2).2
          rw [List.append_cancel_right hbody]
      | line _ _ => exact absurd (List.cons.inj (List.cons.inj heq).2).1 (by decide)
  | line _ _ =>
      cases h' with
      | literal hq' _ => exact absurd (List.cons.inj heq).1.symm (quote_ne_slash hq')
      | block _ => exact absurd (List.cons.inj (List.cons.inj heq).2).1 (by decide)
      | line _ _ => rw [(List.cons.inj (List.cons.inj heq).2).2]

/-- Every text is read, as the expression cuts it. -/
theorem exists_lexes (text : List Char) : ∃ ls, Lexes text ls := by
  induction hlength : text.length using Nat.strong_induction_on generalizing text with
  | _ n ih =>
      cases text with
      | nil => exact ⟨[], .nil⟩
      | cons c rest =>
          by_cases hfound : ∃ l rest', Begins l rest' ∧ c :: rest = l.text ++ rest'
          · obtain ⟨l, rest', hl, heq⟩ := hfound
            have hshorter : rest'.length < n := by
              have hne := List.length_pos_iff.mpr (text_ne_nil l)
              rw [← hlength, heq, List.length_append]
              omega
            obtain ⟨ls, hls⟩ := ih rest'.length hshorter rest' rfl
            exact ⟨l :: ls, heq ▸ .lexeme hl hls⟩
          · obtain ⟨ls, hls⟩ := ih rest.length (by simp [← hlength]) rest rfl
            refine ⟨.char c :: ls, .char (fun l rest' hl heq => ?_) hls⟩
            exact hfound ⟨l, rest', hl, heq.symm⟩

/-- There is one way to read a text. -/
theorem lexes_unique {text : List Char} {ls ls' : List Lexeme} (h : Lexes text ls)
    (h' : Lexes text ls') : ls' = ls := by
  induction h generalizing ls' with
  | nil =>
      generalize htext : ([] : List Char) = text at h'
      cases h' with
      | nil => rfl
      | lexeme _ _ => exact absurd (List.append_eq_nil_iff.mp htext.symm).1 (text_ne_nil _)
      | char _ _ => cases htext
  | @lexeme l rest ls hl _ ih =>
      generalize htext : l.text ++ rest = text at h'
      cases h' with
      | nil => exact absurd (List.append_eq_nil_iff.mp htext).1 (text_ne_nil l)
      | @lexeme l' rest' ls' hl' hrest' =>
          have hends := head?_cLexer.mpr ⟨l, hl, rfl⟩
          rw [htext, head?_cLexer.mpr ⟨l', hl', rfl⟩] at hends
          obtain rfl := Option.some.inj hends
          obtain rfl := begins_injective hl hl' (List.append_cancel_right htext)
          rw [ih hrest']
      | char hnone _ => exact absurd htext (hnone l rest hl)
  | @char c rest ls hnone _ ih =>
      generalize htext : c :: rest = text at h'
      cases h' with
      | nil => cases htext
      | @lexeme l' rest' _ hl' _ => exact absurd htext.symm (hnone l' rest' hl')
      | @char c' rest' ls' _ hrest' =>
          obtain ⟨rfl, rfl⟩ := List.cons.inj htext
          rw [ih hrest']

theorem flatMap_text {text : List Char} {ls : List Lexeme} (h : Lexes text ls) :
    ls.flatMap Lexeme.text = text := by
  induction h with
  | nil => rfl
  | lexeme _ _ ih => rw [List.flatMap_cons, ih]
  | char _ _ ih =>
      rw [List.flatMap_cons, ih]
      rfl

/-! ## What is put in place of the lexemes -/

/-- What a comment becomes. -/
def blank (c : Char) : Char := if c = '\n' then c else ' '

def Lexeme.blanked (l : Lexeme) : List Char := if l.isComment then l.text.map blank else l.text

theorem length_blanked (l : Lexeme) : l.blanked.length = l.text.length := by
  unfold Lexeme.blanked
  split
  · rw [List.length_map]
  · rfl

theorem blankComment_text {l : Lexeme} {rest : List Char} (h : Begins l rest) :
    blankComment l.text = l.blanked := by
  cases h with
  | literal hq _ =>
      have hslash := (quote_ne_slash hq).symm
      rw [blankComment, if_neg (by simp [Lexeme.text, hslash])]
      rfl
  | block _ =>
      rw [blankComment, if_pos (.inl rfl)]
      rfl
  | line _ _ =>
      rw [blankComment, if_pos (.inr rfl)]
      rfl

/-- **The stripped text** has every lexeme in its place, blanks for the comments. -/
theorem uncomment_eq {text : List Char} {ls : List Lexeme} (h : Lexes text ls) :
    uncomment text = ls.flatMap Lexeme.blanked := by
  induction h with
  | nil => rfl
  | @lexeme l rest ls hl _ ih =>
      rw [uncomment, sub_match (text_ne_nil l) (head?_cLexer.mpr ⟨l, hl, rfl⟩),
        blankComment_text hl,
        List.flatMap_cons, ← ih]
      rfl
  | @char c rest ls hnone _ ih =>
      have hends : cLexer.ends (c :: rest) = [] := by
        rw [← List.head?_eq_none_iff, Option.eq_none_iff_forall_not_mem]
        intro rest' hrest'
        obtain ⟨l, hl, heq⟩ := head?_cLexer.mp hrest'
        exact hnone l rest' hl heq.symm
      rw [uncomment, sub, scan_cons hends, List.flatMap_cons, List.flatMap_cons, ← ih]
      rfl

/-! ## Reading the stripped text -/

/-- A character that begins no lexeme and hides nothing: a blank, or the end of a line. -/
def IsBlank (c : Char) : Prop := c = ' ' ∨ c = '\n'

/-- A text and what remains of it with some characters blanked. Behind a backslash that is blanked
comes no character that is kept, a line end apart. -/
inductive Blanked : List Char → List Char → Prop
  | nil : Blanked [] []
  | same (c : Char) {text text' : List Char} (h : Blanked text text') :
      Blanked (c :: text) (c :: text')
  | blanked {c : Char} (hc : c ≠ '\n') {text text' : List Char}
      (hescape : c = '\\' → ∀ d ∈ text'.head?, IsBlank d) (h : Blanked text text') :
      Blanked (c :: text) (' ' :: text')

theorem isBlank_blank (c : Char) : IsBlank (blank c) := by
  unfold blank IsBlank
  split
  · next hc => exact .inr hc
  · exact .inl rfl

namespace Blanked

/-- A comment becomes blanks. -/
theorem comment {comment text text' : List Char} (h : Blanked text text')
    (hlast : comment.getLast? = some '\\' → ∀ d ∈ text'.head?, IsBlank d) :
    Blanked (comment ++ text) (comment.map blank ++ text') := by
  induction comment with
  | nil => exact h
  | cons c comment ih =>
      have hrest : Blanked (comment ++ text) (comment.map blank ++ text') := by
        refine ih fun hescape => hlast ?_
        rw [List.getLast?_cons, hescape]
        rfl
      by_cases hc : c = '\n'
      · have hblank : blank c = c := if_pos hc
        rw [List.map_cons, hblank, List.cons_append, List.cons_append]
        exact .same c hrest
      · have hblank : blank c = ' ' := if_neg hc
        rw [List.map_cons, hblank, List.cons_append, List.cons_append]
        refine .blanked hc (fun hescape d hd => ?_) hrest
        cases comment with
        | nil => exact hlast (congrArg some hescape) d hd
        | cons e comment =>
            obtain rfl : blank e = d := by simpa using hd
            exact isBlank_blank e

theorem append {text text' : List Char} (h : Blanked text text') (front : List Char) :
    Blanked (front ++ text) (front ++ text') := by
  induction front with
  | nil => exact h
  | cons c front ih => exact .same c ih

theorem head_newline {text text' : List Char} (h : Blanked ('\n' :: text) text') :
    text'.head? = some '\n' := by
  cases h with
  | same _ _ => rfl
  | blanked hc _ _ => exact absurd rfl hc

/-- What is there afterwards was there before. -/
theorem of_cons {c : Char} {text text' : List Char} (hc : c ≠ ' ') (h : Blanked text (c :: text')) :
    ∃ after, text = c :: after ∧ Blanked after text' := by
  cases h with
  | same _ h => exact ⟨_, rfl, h⟩
  | blanked _ _ _ => exact absurd rfl hc

theorem tail {c d : Char} {text text' : List Char} (h : Blanked (c :: text) (d :: text')) :
    Blanked text text' := by
  cases h with
  | same _ h => exact h
  | blanked _ _ h => exact h

/-- Blanks close no comment. -/
theorem closing {text text' : List Char} (h : Blanked text text')
    (hclosing : (afterClosing text').isSome = true) : (afterClosing text).isSome = true := by
  have hcons : ∀ (c : Char) {text : List Char}, (afterClosing text).isSome = true →
      (afterClosing (c :: text)).isSome = true := by
    intro c text hsome
    rw [afterClosing]
    split
    · rfl
    · exact hsome
  induction h with
  | nil => exact hclosing
  | @same c text text' h ih =>
      rw [afterClosing] at hclosing
      split at hclosing
      · next hhere =>
          obtain ⟨after', rfl⟩ := List.head?_eq_some_iff.mp hhere.2
          obtain ⟨after, rfl, -⟩ := h.of_cons (by decide)
          rw [afterClosing, if_pos ⟨hhere.1, rfl⟩]
          rfl
      · exact hcons c (ih hclosing)
  | blanked _ _ _ ih =>
      rw [afterClosing, if_neg fun hhere => absurd hhere.1 (by decide)] at hclosing
      exact hcons _ (ih hclosing)

/-- Blanks close no literal. -/
theorem literal {q : Char} (hq : isQuote q = true) {text text' : List Char}
    (h : Blanked text text') (hliteral : (literalRest q text').isSome = true) :
    (literalRest q text).isSome = true := by
  have hblank : ∀ {c : Char}, IsBlank c → c ≠ q ∧ c ≠ '\\' := by
    rintro c (rfl | rfl) <;> rcases isQuote_iff.mp hq with rfl | rfl <;> decide
  induction hlength : text'.length using Nat.strong_induction_on generalizing text text' with
  | _ n ih =>
      cases h with
      | nil => exact hliteral
      | @same c text text' h =>
          rw [literalRest_cons] at hliteral ⊢
          by_cases hc : c = q
          · rw [if_pos hc]
            rfl
          · rw [if_neg hc] at hliteral ⊢
            by_cases hescape : c = '\\'
            · rw [if_pos hescape] at hliteral ⊢
              -- The character that the backslash takes with it may be blanked.
              cases h with
              | nil => exact hliteral
              | same _ h => exact ih _ (by simp [← hlength]) h hliteral rfl
              | blanked _ _ h => exact ih _ (by simp [← hlength]) h hliteral rfl
            · rw [if_neg hescape] at hliteral ⊢
              exact ih _ (by simp [← hlength]) h hliteral rfl
      | @blanked c _ text text' hescape h =>
          have hspace := @hblank ' ' (.inl rfl)
          rw [literalRest_cons, if_neg hspace.1, if_neg hspace.2] at hliteral
          rw [literalRest_cons]
          split
          · rfl
          split
          · next heq =>
              cases text' with
              | nil => cases hliteral
              | cons d text' =>
                  -- Behind the backslash comes a blank, which was skipped and is now read.
                  have hd := hblank (hescape heq d rfl)
                  rw [literalRest_cons, if_neg hd.1, if_neg hd.2] at hliteral
                  cases text with
                  | nil => cases h
                  | cons e text => exact ih _ (by simp [← hlength]) h.tail hliteral rfl
          · exact ih _ (by simp [← hlength]) h hliteral rfl

end Blanked

theorem blanked_of_lexes {text : List Char} {ls : List Lexeme} (h : Lexes text ls) :
    Blanked text (ls.flatMap Lexeme.blanked) := by
  induction h with
  | nil => exact .nil
  | @lexeme l rest ls hl _ ih =>
      rw [List.flatMap_cons]
      cases hl with
      | literal _ _ => exact ih.append _
      | block _ =>
          refine ih.comment fun hescape => absurd hescape ?_
          rw [Lexeme.text, ← List.cons_append, ← List.cons_append, List.getLast?_append]
          simp
      | line _ hrest =>
          refine ih.comment fun _ d hd => ?_
          rcases hrest with rfl | ⟨lines, rfl⟩
          · cases hnil : ls.flatMap Lexeme.blanked with
            | nil =>
                rw [hnil] at hd
                cases hd
            | cons e after =>
                rw [hnil] at ih
                cases ih
          · rw [ih.head_newline] at hd
            exact .inr (Option.some.inj hd).symm
  | @char c rest ls _ _ ih =>
      rw [List.flatMap_cons]
      exact ih.append [c]

/-- What begins in the stripped text began in the text, if only later characters were blanked. -/
theorem begins_of_blanked {c : Char} {rest rest' tail : List Char} {l : Lexeme}
    (h : Blanked rest rest') (hl : Begins l tail) (heq : l.text ++ tail = c :: rest') :
    ∃ l' tail', Begins l' tail' ∧ l'.text ++ tail' = c :: rest := by
  cases hl with
  | @literal q body hq hbody =>
      rw [Lexeme.text, List.cons_append, List.append_assoc] at heq
      obtain ⟨rfl, rfl⟩ := List.cons.inj heq
      have hclosed : literalRest q (body ++ ([q] ++ tail)) = some tail :=
        (literalRest_eq_some (ne_escape hq)).mpr ⟨body, hbody, rfl⟩
      obtain ⟨tail', htail⟩ := Option.isSome_iff_exists.mp
        (h.literal hq (Option.isSome_of_mem hclosed))
      obtain ⟨body', hbody', rfl⟩ := (literalRest_eq_some (ne_escape hq)).mp htail
      exact ⟨_, _, .literal hq hbody' tail', by simp [Lexeme.text]⟩
  | @block body hbody =>
      rw [Lexeme.text, List.cons_append, List.cons_append, List.append_assoc] at heq
      obtain ⟨rfl, rfl⟩ := List.cons.inj heq
      obtain ⟨after, rfl, hafter⟩ := h.of_cons (by decide)
      have hclosed : afterClosing (body ++ (['*', '/'] ++ tail)) = some tail :=
        afterClosing_eq_some.mpr ⟨body, hbody, rfl⟩
      obtain ⟨tail', htail⟩ := Option.isSome_iff_exists.mp
        (hafter.closing (Option.isSome_of_mem hclosed))
      obtain ⟨body', hbody', rfl⟩ := afterClosing_eq_some.mp htail
      exact ⟨_, _, .block hbody' tail', by simp [Lexeme.text]⟩
  | line _ _ =>
      rw [Lexeme.text, List.cons_append, List.cons_append] at heq
      obtain ⟨rfl, rfl⟩ := List.cons.inj heq
      obtain ⟨after, rfl, -⟩ := h.of_cons (by decide)
      -- The comment now takes what is left of the line.
      have hends : (slashComment.ends ('/' :: '/' :: after)).head? =
          some (after.dropWhile (· != '\n')) := by
        rw [slashComment, ends_seq_lit, if_pos ⟨rfl, rfl⟩]
        exact head?_star_cls _ _
      obtain ⟨body', hbody', hrest', hbegins⟩ := head?_slashComment.mp hends
      exact ⟨_, _, .line hbody' hrest', hbegins.symm⟩

/-- The lexemes of the stripped text: the blanks of a comment one by one. -/
def Lexeme.reread (l : Lexeme) : List Lexeme :=
  if l.isComment then (l.text.map blank).map .char else [l]

theorem lexes_blanks {cs rest : List Char} {ls : List Lexeme} (h : ∀ c ∈ cs, IsBlank c)
    (hrest : Lexes rest ls) : Lexes (cs ++ rest) (cs.map .char ++ ls) := by
  induction cs with
  | nil => exact hrest
  | cons c cs ih =>
      obtain ⟨hc, hcs⟩ := List.forall_mem_cons.mp h
      refine .char (fun l tail hl heq => ?_) (ih hcs)
      have hhead : l.text.head? = some c := by
        have hfirst := congrArg List.head? heq
        rwa [List.head?_append_of_ne_nil _ (text_ne_nil l)] at hfirst
      cases hl with
      | literal hq _ =>
          obtain rfl := Option.some.inj hhead
          rcases isQuote_iff.mp hq with rfl | rfl <;> rcases hc with hc | hc <;> cases hc
      | block _ =>
          obtain rfl := Option.some.inj hhead
          rcases hc with hc | hc <;> cases hc
      | line _ _ =>
          obtain rfl := Option.some.inj hhead
          rcases hc with hc | hc <;> cases hc

theorem lexes_stripped {text : List Char} {ls : List Lexeme} (h : Lexes text ls) :
    Lexes (ls.flatMap Lexeme.blanked) (ls.flatMap Lexeme.reread) := by
  have hcomment : ∀ {l : Lexeme} {rest : List Char} {ls : List Lexeme}, l.isComment = true →
      Lexes rest ls → Lexes (l.blanked ++ rest) (l.reread ++ ls) := by
    intro l rest ls hl hrest
    rw [Lexeme.blanked, Lexeme.reread, if_pos hl, if_pos hl]
    refine lexes_blanks (fun c hc => ?_) hrest
    obtain ⟨d, -, rfl⟩ := List.mem_map.mp hc
    exact isBlank_blank d
  induction h with
  | nil => exact .nil
  | lexeme hl _ ih =>
      rw [List.flatMap_cons, List.flatMap_cons]
      cases hl with
      | literal hq hbody => exact .lexeme (.literal hq hbody _) ih
      | block _ => exact hcomment rfl ih
      | line _ _ => exact hcomment rfl ih
  | @char c rest ls hnone hrest ih =>
      rw [List.flatMap_cons, List.flatMap_cons]
      refine .char (fun l tail hl heq => ?_) ih
      obtain ⟨l', tail', hl', heq'⟩ := begins_of_blanked (blanked_of_lexes hrest) hl heq
      exact hnone l' tail' hl' heq'

theorem flatMap_reread (ls : List Lexeme) :
    (ls.flatMap Lexeme.reread).flatMap Lexeme.blanked = ls.flatMap Lexeme.blanked := by
  have hchars : ∀ cs : List Char, (cs.map Lexeme.char).flatMap Lexeme.blanked = cs := by
    intro cs
    induction cs with
    | nil => rfl
    | cons c cs ih =>
        rw [List.map_cons, List.flatMap_cons, ih]
        rfl
  induction ls with
  | nil => rfl
  | cons l ls ih =>
      rw [List.flatMap_cons, List.flatMap_append, ih, List.flatMap_cons]
      congr 1
      cases hl : l.isComment with
      | true => rw [Lexeme.reread, if_pos hl, hchars, Lexeme.blanked, if_pos hl]
      | false =>
          have hnot : ¬ l.isComment = true := by simp [hl]
          rw [Lexeme.reread, if_neg hnot, List.flatMap_singleton]

/-! ## Offsets -/

theorem length_flatMap_blanked (ls : List Lexeme) :
    (ls.flatMap Lexeme.blanked).length = (ls.flatMap Lexeme.text).length := by
  simp only [List.length_flatMap, length_blanked]

/-- What stands at a place after stripping. -/
theorem getElem?_blanked (ls : List Lexeme) (i : Nat) :
    (InComment ls i → (ls.flatMap Lexeme.blanked)[i]? = (ls.flatMap Lexeme.text)[i]?.map blank) ∧
      (¬ InComment ls i → (ls.flatMap Lexeme.blanked)[i]? = (ls.flatMap Lexeme.text)[i]?) := by
  induction ls generalizing i with
  | nil => exact ⟨fun h => h.elim, fun _ => rfl⟩
  | cons l ls ih =>
      rw [List.flatMap_cons, List.flatMap_cons, InComment]
      by_cases hi : i < l.text.length
      · rw [if_pos hi, List.getElem?_append_left (by rwa [length_blanked]),
          List.getElem?_append_left hi,
          Lexeme.blanked]
        constructor
        · intro hl
          rw [if_pos hl, List.getElem?_map]
        · intro hl
          rw [if_neg hl]
      · rw [if_neg hi, List.getElem?_append_right (by rw [length_blanked]; omega),
          List.getElem?_append_right (by omega), length_blanked]
        exact ih _

/-- **Stripping keeps every offset.** A text is read in one way, and the stripped text has the same
length, the same line ends, every character outside the comments and a space for every other
character inside them. Stripping it again changes nothing. -/
theorem uncomment_offsets (text : List Char) : ∃ ls, Lexes text ls ∧
    (∀ ls', Lexes text ls' → ls' = ls) ∧
    (uncomment text).length = text.length ∧
    (∀ i : Nat, (uncomment text)[i]? = some '\n' ↔ text[i]? = some '\n') ∧
    (∀ i, ¬ InComment ls i → (uncomment text)[i]? = text[i]?) ∧
    (∀ i c, InComment ls i → text[i]? = some c → c ≠ '\n' → (uncomment text)[i]? = some ' ') ∧
    uncomment (uncomment text) = uncomment text := by
  obtain ⟨ls, hls⟩ := exists_lexes text
  have htext := flatMap_text hls
  have hplaces := getElem?_blanked ls
  have hlength := length_flatMap_blanked ls
  rw [← uncomment_eq hls, htext] at hlength
  simp only [← uncomment_eq hls, htext] at hplaces
  refine ⟨ls, hls, fun ls' hls' => lexes_unique hls hls', hlength, fun i => ?_,
    fun i => (hplaces i).2, fun i c hcomment hc hnewline => ?_, ?_⟩
  · by_cases hcomment : InComment ls i
    · rw [(hplaces i).1 hcomment, Option.map_eq_some_iff]
      constructor
      · rintro ⟨c, hc, hblank⟩
        unfold blank at hblank
        split at hblank
        · next heq => rw [hc, heq]
        · cases hblank
      · exact fun hc => ⟨'\n', hc, rfl⟩
    · rw [(hplaces i).2 hcomment]
  · rw [(hplaces i).1 hcomment, hc, Option.map_some, blank, if_neg hnewline]
  · rw [uncomment_eq hls, uncomment_eq (lexes_stripped hls), flatMap_reread]

end FlatpakBlackbox
