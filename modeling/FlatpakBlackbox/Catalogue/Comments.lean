import FlatpakBlackbox.Catalogue.Meson

set_option autoImplicit false

/-! # Comments in the Meson sources

`meson_inputs` drops the comments by an expression that reads string literals without escapes,
while `split_c` reads them with escapes. A comment that is put before a line end is dropped exactly
where no literal of the first kind is open there.
-/

namespace FlatpakBlackbox

open PyLib Regex PyException

/-! ## Dropping comments -/

/-- What the comment lexer has read last. -/
inductive LexerMode where
  | code
  | literal (q : Char)
  | comment
  deriving DecidableEq

def LexerMode.read : LexerMode → Char → LexerMode
  | .code, c => if isQuote c then .literal c else if c = '#' then .comment else .code
  | .literal q, c => if c = q then .code else .literal q
  | .comment, c => if c = '\n' then .code else .comment

/-- The mode after a text. -/
def modeAfter (text : List Char) : LexerMode := text.foldl LexerMode.read .code

/-- A place where a line ends. -/
def AtLineEnd (rest : List Char) : Prop := rest = [] ∨ ∃ lines, rest = '\n' :: lines

theorem withoutComments_nil : withoutComments [] = [] := rfl

/-- A character that begins neither a literal nor a comment. -/
theorem withoutComments_plain {c : Char} {rest : List Char} (hquote : isQuote c = false)
    (hcomment : c ≠ '#') : withoutComments (c :: rest) = c :: withoutComments rest := by
  have hinert : commentLexer.Inert c := by
    intro rest
    have hc : c ≠ '\'' ∧ c ≠ '"' := by simpa [isQuote] using hquote
    simp [commentLexer, plainLiteral, lineComment, ends, hc, hcomment]
  have happend : commentLexer.sub dropComment ([c] ++ rest) =
      [c] ++ commentLexer.sub dropComment rest :=
    sub_append_of_inert fun d hd => List.mem_singleton.mp hd ▸ hinert
  exact happend

theorem ends_plainLiteral {q : Char} {body rest : List Char} (hbody : q ∉ body) :
    ((plainLiteral q).ends (q :: (body ++ q :: rest))).head? = some rest := by
  have hdrop : (body ++ q :: rest).dropWhile (· != q) = q :: rest := by
    rw [List.dropWhile_append_of_pos]
    · simp
    · intro c hc
      exact bne_iff_ne.mpr fun heq => hbody (heq ▸ hc)
  have hopen : ((cls (· == q)).ends (q :: (body ++ q :: rest))).head? =
    some (body ++ q :: rest) := by
    simp [ends]
  have hclose : ((cls (· == q)).ends (q :: rest)).head? = some rest := by simp [ends]
  refine head?_seq hopen (head?_seq ?_ hclose)
  rw [head?_star_cls, hdrop]

/-- A literal stays as it is. -/
theorem withoutComments_literal {q : Char} {body rest : List Char} (hq : isQuote q = true)
    (hbody : q ∉ body) :
    withoutComments (q :: (body ++ q :: rest)) = q :: (body ++ q :: withoutComments rest) := by
  have hends : (commentLexer.ends (q :: (body ++ q :: rest))).head? = some rest := by
    have hliteral : ((plainLiteral q).ends (q :: (body ++ q :: rest))).head? = some rest :=
      ends_plainLiteral hbody
    rcases isQuote_iff.mp hq with rfl | rfl
    · exact head?_alt hliteral
    · have hother : (plainLiteral '\'').ends ('"' :: (body ++ '"' :: rest)) = [] := by
        simp [plainLiteral, ends]
      rw [commentLexer, ends, hother, List.nil_append]
      exact head?_alt hliteral
  have hmatch : commentLexer.sub dropComment ((q :: (body ++ [q])) ++ rest) =
      dropComment (q :: (body ++ [q])) ++ commentLexer.sub dropComment rest :=
    sub_match (List.cons_ne_nil _ _) (by simpa using hends)
  have hkeep : dropComment (q :: (body ++ [q])) = q :: (body ++ [q]) := by
    have hne : q ≠ '#' := by
      rcases isQuote_iff.mp hq with rfl | rfl <;> decide
    simp [dropComment, hne]
  rw [hkeep] at hmatch
  simpa [withoutComments] using hmatch

/-- A comment goes, up to its line end. -/
theorem withoutComments_comment {comment rest : List Char} (hcomment : '\n' ∉ comment)
    (hrest : AtLineEnd rest) :
    withoutComments ('#' :: (comment ++ rest)) = withoutComments rest := by
  have hdrop : (comment ++ rest).dropWhile (· != '\n') = rest := by
    rw [List.dropWhile_append_of_pos]
    · rcases hrest with rfl | ⟨lines, rfl⟩ <;> simp
    · intro c hc
      exact bne_iff_ne.mpr fun heq => hcomment (heq ▸ hc)
  have hline : (lineComment.ends ('#' :: (comment ++ rest))).head? = some rest := by
    have hopen : ((cls (· == '#')).ends ('#' :: (comment ++ rest))).head? =
        some (comment ++ rest) := by simp [ends]
    refine head?_seq hopen ?_
    rw [head?_star_cls, hdrop]
  have hends : (commentLexer.ends ('#' :: (comment ++ rest))).head? = some rest := by
    have hnone : ∀ q, q = '\'' ∨ q = '"' →
      (plainLiteral q).ends ('#' :: (comment ++ rest)) = [] := by
      rintro q (rfl | rfl) <;> simp [plainLiteral, ends]
    rw [commentLexer, ends, hnone '\'' (.inl rfl), List.nil_append, ends, hnone '"' (.inr rfl),
      List.nil_append]
    exact hline
  have hmatch : commentLexer.sub dropComment (('#' :: comment) ++ rest) =
      dropComment ('#' :: comment) ++ commentLexer.sub dropComment rest :=
    sub_match (List.cons_ne_nil _ _) (by simpa using hends)
  exact hmatch

/-! ## What stands open after a text -/

theorem modeAfter_concat (text : List Char) (c : Char) :
    modeAfter (text ++ [c]) = (modeAfter text).read c := by
  rw [modeAfter, List.foldl_append]
  rfl

/-- An open literal began after code. -/
theorem of_modeAfter_literal {text : List Char} {q : Char} (h : modeAfter text = .literal q) :
    ∃ front body, text = front ++ q :: body ∧ q ∉ body ∧ isQuote q = true ∧
      modeAfter front = .code := by
  induction text using List.reverseRecOn with
  | nil => cases h
  | append_singleton text c ih =>
      rw [modeAfter_concat] at h
      cases hmode : modeAfter text with
      | code =>
          rw [hmode, LexerMode.read] at h
          split at h
          · next hquote =>
              obtain rfl := LexerMode.literal.inj h
              exact ⟨text, [], rfl, List.not_mem_nil, hquote, hmode⟩
          · split at h <;> cases h
      | literal q' =>
          rw [hmode, LexerMode.read] at h
          split at h
          · cases h
          · next hc =>
              obtain rfl := LexerMode.literal.inj h
              obtain ⟨front, body, rfl, hbody, hquote, hfront⟩ := ih hmode
              refine ⟨front, body ++ [c], by simp, ?_, hquote, hfront⟩
              simp [hbody, Ne.symm hc]
      | comment =>
          rw [hmode, LexerMode.read] at h
          split at h <;> cases h

/-- An open comment began after code. -/
theorem of_modeAfter_comment {text : List Char} (h : modeAfter text = .comment) :
    ∃ front body, text = front ++ '#' :: body ∧ '\n' ∉ body ∧ modeAfter front = .code := by
  induction text using List.reverseRecOn with
  | nil => cases h
  | append_singleton text c ih =>
      rw [modeAfter_concat] at h
      cases hmode : modeAfter text with
      | code =>
          rw [hmode, LexerMode.read] at h
          split at h
          · cases h
          · split at h
            · next hc => exact ⟨text, [], by rw [hc], List.not_mem_nil, hmode⟩
            · cases h
      | literal q =>
          rw [hmode, LexerMode.read] at h
          split at h <;> cases h
      | comment =>
          rw [hmode, LexerMode.read] at h
          split at h
          · cases h
          · next hc =>
              obtain ⟨front, body, rfl, hbody, hfront⟩ := ih hmode
              refine ⟨front, body ++ [c], by simp, ?_, hfront⟩
              simp [hbody, Ne.symm hc]

/-- **The comment lexer reads a text from its front.** Where nothing is open, what follows is read
as if it stood alone. -/
theorem withoutComments_append {text : List Char} (h : modeAfter text = .code) (rest : List Char) :
    withoutComments (text ++ rest) = withoutComments text ++ withoutComments rest := by
  -- The induction is on the length: a token that ends here began in code at a shorter text.
  induction hlength : text.length using Nat.strong_induction_on generalizing text rest with
  | _ n ih =>
      cases text using List.reverseRecOn with
      | nil => rfl
      | append_singleton text c =>
          have hshorter : ∀ {front back : List Char}, text = front ++ back → front.length < n := by
            intro front back heq
            rw [← hlength, heq]
            simp
          rw [modeAfter_concat] at h
          cases hmode : modeAfter text with
          | code =>
              rw [hmode, LexerMode.read] at h
              have hquote : isQuote c = false := by
                cases hc : isQuote c with
                | false => rfl
                | true => rw [if_pos hc] at h; cases h
              have hcomment : c ≠ '#' := by
                rintro rfl
                rw [hquote, if_neg Bool.false_ne_true, if_pos rfl] at h
                cases h
              have htext := ih text.length (hshorter (List.append_nil text).symm) hmode
              rw [List.append_assoc, htext _ rfl, htext [c] rfl, List.singleton_append,
                withoutComments_plain hquote hcomment, withoutComments_plain hquote hcomment,
                withoutComments_nil]
              simp
          | literal q =>
              rw [hmode, LexerMode.read] at h
              split at h
              · next hc =>
                  obtain ⟨front, body, htext, hbody, hquote, hfront⟩ := of_modeAfter_literal hmode
                  have hread := ih front.length (hshorter htext) hfront
                  have hboth : ∀ rest, withoutComments (text ++ [c] ++ rest) =
                      withoutComments front ++ (q :: (body ++ q :: withoutComments rest)) := by
                    intro rest
                    rw [← withoutComments_literal hquote hbody, ← hread _ rfl, htext, hc]
                    simp
                  have halone := hboth []
                  rw [List.append_nil, withoutComments_nil] at halone
                  rw [hboth, halone]
                  simp
              · cases h
          | comment =>
              rw [hmode, LexerMode.read] at h
              split at h
              · next hc =>
                  obtain ⟨front, body, htext, hbody, hfront⟩ := of_modeAfter_comment hmode
                  have hread := ih front.length (hshorter htext) hfront
                  have hboth : ∀ rest, withoutComments (text ++ [c] ++ rest) =
                      withoutComments front ++ ('\n' :: withoutComments rest) := by
                    intro rest
                    have hline : withoutComments ('\n' :: rest) = '\n' :: withoutComments rest :=
                      withoutComments_plain (by decide) (by decide)
                    rw [← hline, ← withoutComments_comment hbody (.inr ⟨rest, rfl⟩), ← hread _ rfl,
                      htext, hc]
                    simp
                  have halone := hboth []
                  rw [List.append_nil, withoutComments_nil] at halone
                  rw [hboth, halone]
                  simp
              · cases h

/-! ## A comment before a line end -/

/-- No literal of the comment lexer is open after the text. -/
def LiteralsClosed (text : List Char) : Prop := ∀ q, modeAfter text ≠ .literal q

/-- A comment that is put where no literal is open changes nothing. -/
theorem withoutComments_insert {before comment after : List Char} (h : LiteralsClosed before)
    (hafter : AtLineEnd after) (hcomment : '\n' ∉ comment) :
    withoutComments (before ++ '#' :: (comment ++ after)) = withoutComments (before ++ after) := by
  cases hmode : modeAfter before with
  | code =>
      rw [withoutComments_append hmode, withoutComments_append hmode,
        withoutComments_comment hcomment hafter]
  | literal q => exact absurd hmode (h q)
  | comment =>
      -- The line ends in a comment already, which becomes longer.
      obtain ⟨front, body, rfl, hbody, hfront⟩ := of_modeAfter_comment hmode
      have hlonger : '\n' ∉ body ++ '#' :: comment := by simp [hbody, hcomment]
      have hinserted := withoutComments_comment hlonger hafter
      have hbefore := withoutComments_comment hbody hafter
      rw [List.append_assoc, List.append_assoc, withoutComments_append hfront,
        withoutComments_append hfront]
      simp only [List.cons_append, List.append_assoc] at hinserted ⊢
      rw [hinserted, hbefore]

/-- The call that a comment hides from nobody. -/
def hiddenCall : List Char := " library(".toList

/-- Where a literal is open, its quote in a comment closes it, and the rest of the comment is
code. -/
theorem withoutComments_exposed {before : List Char} {q : Char}
    (h : modeAfter before = .literal q) (after : List Char) :
    ∃ front back, withoutComments (before ++ '#' :: ([' ', q] ++ hiddenCall ++ after)) =
      front ++ ('#' :: ([' ', q] ++ hiddenCall)) ++ back := by
  obtain ⟨front, body, rfl, hbody, hquote, hfront⟩ := of_modeAfter_literal h
  have hq : q ≠ '#' ∧ q ≠ ' ' := by
    rcases isQuote_iff.mp hquote with rfl | rfl <;> decide
  have hclosed : q ∉ body ++ ['#', ' '] := by simp [hbody, hq]
  have hcall : ∀ text : List Char, withoutComments (hiddenCall ++ text) =
      hiddenCall ++ withoutComments text := by
    intro text
    rw [show hiddenCall = [' ', 'l', 'i', 'b', 'r', 'a', 'r', 'y', '('] from rfl]
    simp only [List.cons_append, List.nil_append]
    repeat rw [withoutComments_plain (by decide) (by decide)]
  have hliteral : withoutComments (q :: ((body ++ ['#', ' ']) ++ q :: (hiddenCall ++ after))) = _ :=
    withoutComments_literal hquote hclosed
  refine ⟨withoutComments front ++ q :: body, withoutComments after, ?_⟩
  rw [List.append_assoc, withoutComments_append hfront]
  rw [hcall] at hliteral
  simp only [List.cons_append, List.append_assoc, List.nil_append] at hliteral ⊢
  rw [hliteral]

/-! ## Counting calls -/

section

variable [WordDatabase] {words : List String}

omit [WordDatabase] in
theorem opensCall_append {text : List Char} (h : opensCall words text = true) (rest : List Char) :
    opensCall words (text ++ rest) = true := by
  obtain ⟨word, hword, hopens⟩ := List.any_eq_true.mp h
  obtain ⟨hfront, hparen⟩ := Bool.and_eq_true_iff.mp hopens
  obtain ⟨tail, rfl⟩ := List.isPrefixOf_iff_prefix.mp hfront
  have hlength : word.length = word.toList.length := String.length_toList.symm
  rw [hlength, List.drop_left, beq_iff_eq] at hparen
  refine List.any_eq_true.mpr ⟨word, hword, Bool.and_eq_true_iff.mpr ⟨?_, ?_⟩⟩
  · rw [List.append_assoc]
    exact List.isPrefixOf_iff_prefix.mpr (List.prefix_append _ _)
  · rw [hlength, List.append_assoc, List.drop_left, beq_iff_eq, List.dropWhile_append]
    obtain ⟨after, hafter⟩ := List.head?_eq_some_iff.mp hparen
    rw [hafter]
    rfl

/-- Only whether a word can begin matters of the character before a text. -/
theorem callCount_boundary {before before' : Option Char} (text : List Char)
    (h : atBoundary before = atBoundary before') :
    callCount words before text = callCount words before' text := by
  cases text with
  | nil => rfl
  | cons c rest => rw [callCount, callCount, h]

/-- The calls of two parts are calls of the whole. -/
theorem callCount_append (before : Option Char) (u v : List Char) :
    callCount words before u + callCount words (u.getLast?.or before) v ≤
      callCount words before (u ++ v) := by
  induction u generalizing before with
  | nil => simp [callCount]
  | cons c u ih =>
      have hrest := ih (some c)
      have hlast : ((c :: u).getLast?).or before = u.getLast?.or (some c) := by
        rw [List.getLast?_cons]
        cases u.getLast? <;> rfl
      have hhere : (if atBoundary before && opensCall words (c :: u) then 1 else 0) ≤
          if atBoundary before && opensCall words (c :: (u ++ v)) then 1 else 0 := by
        by_cases hopens : (atBoundary before && opensCall words (c :: u)) = true
        · have hwhole : (atBoundary before && opensCall words (c :: (u ++ v))) = true := by
            obtain ⟨hbefore, hcall⟩ := Bool.and_eq_true_iff.mp hopens
            exact Bool.and_eq_true_iff.mpr ⟨hbefore, opensCall_append hcall v⟩
          rw [if_pos hopens, if_pos hwhole]
        · rw [if_neg hopens]
          exact Nat.zero_le _
      rw [hlast, List.cons_append, callCount, callCount]
      omega

/-- A call that stands at a boundary is counted. -/
theorem callCount_pos {before : Option Char} {front call : List Char}
    (hboundary : atBoundary (front.getLast?.or before) = true) (hcall : opensCall words call = true)
    (hne : call ≠ []) : 1 ≤ callCount words before (front ++ call) := by
  have hhere : 1 ≤ callCount words (front.getLast?.or before) call := by
    cases call with
    | nil => exact absurd rfl hne
    | cons c rest =>
        rw [callCount, hboundary, hcall]
        simp
  exact hhere.trans ((Nat.le_add_left _ _).trans (callCount_append before front call))

/-- The calls of the pieces are calls of the text. -/
theorem sum_callCount_le (pieces : List (List Char)) {before : Option Char}
    (hbefore : atBoundary before = true) :
    (pieces.map (callCount words none)).sum ≤
      callCount words before (['\n'].intercalate pieces) := by
  induction pieces generalizing before with
  | nil => simp
  | cons piece pieces ih =>
      have hpiece : callCount words none piece = callCount words before piece :=
        callCount_boundary piece hbefore.symm
      by_cases hpieces : pieces = []
      · subst hpieces
        simp [hpiece]
      · have hnewline : atBoundary (some '\n') = true := by simp [atBoundary, isWord]
        have hlast : (piece ++ ['\n']).getLast?.or before = some '\n' := by simp
        rw [List.intercalate_cons_of_ne_nil hpieces, List.map_cons, List.sum_cons, hpiece]
        calc callCount words before piece + (pieces.map (callCount words none)).sum
            ≤ callCount words before (piece ++ ['\n']) +
                callCount words (some '\n') (['\n'].intercalate pieces) := by
              have hfirst : callCount words before piece + _ ≤
                  callCount words before (piece ++ ['\n']) := callCount_append before piece ['\n']
              have hrest := ih hnewline
              omega
          _ ≤ callCount words before (piece ++ ['\n'] ++ ['\n'].intercalate pieces) := by
              rw [← hlast]
              exact callCount_append before (piece ++ ['\n']) (['\n'].intercalate pieces)

end

/-! ## Library statements -/

section

variable [WordDatabase]

theorem not_isWord_of_isSpace {c : Char} (h : isSpace c = true) : isWord c = false := by
  unfold isWord
  split
  · next hascii =>
      have hbound : c.toNat ≤ 32 := by
        simp only [isSpace, Bool.or_eq_true, Bool.and_eq_true, decide_eq_true_eq, beq_iff_eq] at h
        omega
      have hall : ∀ n < 33, (Char.ofNat n).isAlphanum = false ∧ Char.ofNat n ≠ '_' := by decide
      have hchar := hall c.toNat (by omega)
      rw [Char.ofNat_toNat] at hchar
      simp [hchar]
  · exact WordDatabase.space_not_alnum c h

theorem atBoundary_space {c : Char} (h : isSpace c = true) : atBoundary (some c) = true := by
  simp [atBoundary, not_isWord_of_isSpace h]

/-- After white space no word goes on. -/
theorem atBoundary_getLast {spaces : List Char} (h : ∀ c ∈ spaces, isSpace c = true)
    {before : Option Char} (hbefore : atBoundary before = true) :
    atBoundary (spaces.getLast?.or before) = true := by
  cases hlast : spaces.getLast? with
  | none => exact hbefore
  | some c => exact atBoundary_space (h c (List.mem_of_getLast? hlast))

omit [WordDatabase] in
/-- A call begins with its word, and no comment sign stands before its arguments. -/
theorem of_callArguments {word : String} {text arguments : List Char}
    (hword : word ∈ libraryFunctions) (h : callArguments? word text = some arguments) :
    ∃ opener rest, text = opener ++ rest ∧ '#' ∉ opener ∧
      opensCall libraryFunctions opener = true ∧ opener ≠ [] := by
  unfold callArguments? at h
  split at h
  · next hfront =>
      obtain ⟨after, rfl⟩ := List.isPrefixOf_iff_prefix.mp hfront
      have hlength : word.length = word.toList.length := String.length_toList.symm
      rw [hlength, List.drop_left] at h
      split at h
      · next rest hparen =>
          have hsplit : after = after.takeWhile isSpace ++ '(' :: rest := by
            rw [← hparen, List.takeWhile_append_dropWhile]
          refine ⟨word.toList ++ (after.takeWhile isSpace ++ ['(']), rest, ?_, ?_, ?_, by simp⟩
          · rw [List.append_assoc, List.append_assoc, List.singleton_append, ← hsplit]
          · simp only [List.mem_append, List.mem_singleton, not_or]
            refine ⟨?_, fun hmem => ?_, by decide⟩
            · simp only [libraryFunctions, List.mem_cons, List.not_mem_nil, or_false] at hword
              rcases hword with rfl | rfl <;> decide
            · exact absurd (List.mem_takeWhile_imp hmem) (by decide)
          · refine List.any_eq_true.mpr ⟨word, hword, Bool.and_eq_true_iff.mpr ⟨?_, ?_⟩⟩
            · exact List.isPrefixOf_iff_prefix.mpr (List.prefix_append _ _)
            · rw [hlength, List.drop_left, beq_iff_eq, List.dropWhile_append_of_pos]
              · rfl
              · exact fun c hc => List.mem_takeWhile_imp hc
      · cases h
  · cases h

/-- A library statement has its call where a word can begin, before any comment sign. -/
theorem of_libraryArguments {statement arguments : List Char}
    (h : libraryArguments? statement = some arguments) :
    ∃ front opener rest, statement = front ++ opener ++ rest ∧ '#' ∉ front ++ opener ∧
      (∀ before, atBoundary before = true → atBoundary (front.getLast?.or before) = true) ∧
      opensCall libraryFunctions opener = true ∧ opener ≠ [] := by
  have hcall : ∀ {text arguments : List Char},
      libraryFunctions.findSome? (callArguments? · text) = some arguments →
      ∃ opener rest, text = opener ++ rest ∧ '#' ∉ opener ∧
        opensCall libraryFunctions opener = true ∧ opener ≠ [] := by
    intro text arguments hfound
    obtain ⟨word, hword, harguments⟩ := List.exists_of_findSome?_eq_some hfound
    exact of_callArguments hword harguments
  rcases Option.or_eq_some_iff.mp h with htarget | ⟨_, hdirect⟩
  · obtain ⟨call, htarget, hfound⟩ := Option.bind_eq_some_iff.mp htarget
    obtain ⟨opener, rest, rfl, hopener, hopens, hne⟩ := hcall hfound
    unfold target? at htarget
    rw [List.span_eq_takeWhile_dropWhile] at htarget
    dsimp only at htarget
    split at htarget
    · next value hequals =>
        split at htarget
        · have hvalue := Option.some.inj htarget
          have hsign : isWord '#' = false := by simp [isWord]
          have hequalsSign : atBoundary (some '=') = true := by simp [atBoundary, isWord]
          refine ⟨statement.takeWhile isWord ++ ((statement.dropWhile isWord).takeWhile isSpace ++
            ('=' :: value.takeWhile isSpace)), opener, rest, ?_, ?_, fun before _ =>
              ?_, hopens, hne⟩
          · have hafter : '=' :: value.takeWhile isSpace ++ (opener ++ rest) =
                (statement.dropWhile isWord).dropWhile isSpace := by
              rw [hequals, ← hvalue, List.cons_append, List.takeWhile_append_dropWhile]
            simp only [List.append_assoc] at hafter ⊢
            rw [hafter, List.takeWhile_append_dropWhile, List.takeWhile_append_dropWhile]
          · simp only [List.mem_append, List.mem_cons, not_or]
            refine ⟨⟨fun hmem => ?_, fun hmem => ?_, by decide, fun hmem => ?_⟩, hopener⟩
            · exact absurd (List.mem_takeWhile_imp hmem) (by simp [hsign])
            · exact absurd (List.mem_takeWhile_imp hmem) (by decide)
            · exact absurd (List.mem_takeWhile_imp hmem) (by decide)
          · have hlast := atBoundary_getLast
              (fun c hc => List.mem_takeWhile_imp (l := value) hc) hequalsSign
            rw [List.getLast?_append_of_ne_nil _ (by simp),
              List.getLast?_append_of_ne_nil _ (List.cons_ne_nil _ _), List.getLast?_cons]
            cases hspaces : (value.takeWhile isSpace).getLast? with
            | none => exact hequalsSign
            | some c =>
                rw [hspaces] at hlast
                exact hlast
        · cases htarget
    · cases htarget
  · obtain ⟨opener, rest, rfl, hopener, hopens, hne⟩ := hcall hdirect
    exact ⟨[], opener, rest, rfl, hopener, fun _ hbefore => hbefore, hopens, hne⟩

omit [WordDatabase] in
/-- What a text without its delimiter is part of is part of one piece. -/
theorem exists_piece {delimiter : Char} {part : List Char} (hpart : delimiter ∉ part)
    (hne : part ≠ []) : ∀ {pieces : List (List Char)} {front back : List Char},
      [delimiter].intercalate pieces = front ++ part ++ back →
      ∃ before piece after, pieces = before ++ piece :: after ∧ part <:+: piece := by
  intro pieces
  induction pieces with
  | nil =>
      intro front back h
      simp [hne] at h
  | cons piece pieces ih =>
      intro front back h
      by_cases hpieces : pieces = []
      · subst hpieces
        rw [List.intercalate_singleton] at h
        exact ⟨[], piece, [], rfl, front, back, h.symm⟩
      · rw [List.intercalate_cons_of_ne_nil hpieces, List.append_assoc, List.singleton_append] at h
        have hinside : ∀ {rest : List Char}, piece = front ++ part ++ rest → ∃ before piece' after,
            piece :: pieces = before ++ piece' :: after ∧ part <:+: piece' := fun hpiece =>
          ⟨[], piece, pieces, rfl, front, _, hpiece.symm⟩
        rcases List.append_eq_append_iff.mp h with ⟨rest, hfront, hrest⟩ | ⟨rest, hpiece, _⟩
        · cases rest with
          | nil =>
              have hwhole : piece = front ++ part ++ [] := by simpa using hfront.symm
              exact hinside hwhole
          | cons d rest =>
              obtain ⟨rfl, htail⟩ := List.cons.inj hrest
              -- The delimiter is not in the part, so the part begins after it.
              rcases List.append_eq_append_iff.mp hfront with ⟨rest', _, hcut⟩ | ⟨rest', _, hcut⟩
              · exact absurd (by simp [hcut]) hpart
              · cases rest' with
                | nil =>
                    rw [List.nil_append] at hcut
                    exact absurd (by simp [← hcut]) hpart
                | cons d' rest' =>
                    obtain ⟨_, hafter⟩ := List.cons.inj hcut
                    have hjoined : [delimiter].intercalate pieces = rest' ++ part ++ back := by
                      rw [htail, hafter]
                      rfl
                    obtain ⟨before, piece', after, rfl, hinfix⟩ := ih hjoined
                    exact ⟨piece :: before, piece', after, rfl, hinfix⟩
        · exact hinside hpiece

end

/-! ## Exposed calls -/

section

variable [WordDatabase]

omit [WordDatabase] in
/-- A character that the first part lacks stands in the second. -/
theorem append_eq_of_not_mem {c : Char} {u v x z : List Char} (h : u ++ v = x ++ c :: z)
    (hc : c ∉ u) : ∃ t, x = u ++ t ∧ v = t ++ c :: z := by
  rcases List.append_eq_append_iff.mp h with ⟨t, hx, hv⟩ | ⟨t, hu, hz⟩
  · exact ⟨t, hx, hv⟩
  · cases t with
    | nil => exact ⟨[], by simpa using hu.symm, by simpa using hz.symm⟩
    | cons d t =>
        obtain ⟨rfl, _⟩ := List.cons.inj hz
        exact absurd (by simp [hu]) hc

/-- The statement of a piece is a library declaration. -/
def isLibrary (piece : List Char) : Bool := (libraryArguments? (strip piece)).isSome

/-- A comment sign, the quote, and the call that they hide. -/
def exposed (q : Char) : List Char := '#' :: ([' ', q] ++ hiddenCall)

theorem exposed_pos (before : Option Char) (q : Char) (front back : List Char) :
    1 ≤ callCount libraryFunctions before (front ++ exposed q ++ back) := by
  have hsplit : front ++ exposed q ++ back =
      (front ++ ['#', ' ', q, ' ']) ++ ("library(".toList ++ back) := by
    rw [exposed, show hiddenCall = [' '] ++ "library(".toList from rfl]
    simp only [List.cons_append, List.nil_append, List.append_assoc]
  have hspace : atBoundary (some ' ') = true := atBoundary_space (by decide)
  have hword : opensCall libraryFunctions "library(".toList = true := rfl
  have hcall := opensCall_append hword back
  rw [hsplit]
  refine callCount_pos ?_ hcall (by simp)
  simpa using hspace

/-- A library declaration opens with a call. -/
theorem callCount_library {piece : List Char} (h : isLibrary piece = true) :
    ∃ opener rest, piece = opener ++ rest ∧ '#' ∉ opener ∧
      1 ≤ callCount libraryFunctions none opener := by
  obtain ⟨arguments, harguments⟩ := Option.isSome_iff_exists.mp h
  obtain ⟨front, opener, rest, hstatement, hsign, hboundary, hopens, hne⟩ :=
    of_libraryArguments harguments
  obtain ⟨spaces, spaces', hpiece, hspaces, _⟩ := strip_infix piece
  refine ⟨spaces ++ front ++ opener, rest ++ spaces', ?_, ?_, ?_⟩
  · rw [hstatement] at hpiece
    simpa using hpiece
  · rw [List.append_assoc, List.mem_append, not_or]
    exact ⟨fun hmem => absurd (hspaces _ hmem) (by decide), hsign⟩
  · refine callCount_pos ?_ hopens hne
    have hspace : atBoundary (spaces.getLast?.or none) = true := atBoundary_getLast hspaces rfl
    rw [List.getLast?_append, Option.or_assoc]
    exact hboundary _ hspace

theorem isLibrary_le_callCount (piece : List Char) :
    (isLibrary piece).toNat ≤ callCount libraryFunctions none piece := by
  cases h : isLibrary piece with
  | false => exact Nat.zero_le _
  | true =>
      obtain ⟨opener, rest, rfl, _, hopener⟩ := callCount_library h
      exact (hopener.trans (Nat.le_add_right _ _)).trans (callCount_append none opener rest)

/-- The exposed call is one more. -/
theorem isLibrary_lt_callCount {q : Char} {piece : List Char} (h : exposed q <:+: piece) :
    (isLibrary piece).toNat < callCount libraryFunctions none piece := by
  obtain ⟨front, back, hpiece⟩ := h
  cases hlibrary : isLibrary piece with
  | false =>
      rw [← hpiece]
      exact exposed_pos none q front back
  | true =>
      obtain ⟨opener, rest, hsplit, hsign, hopener⟩ := callCount_library hlibrary
      have hcut : opener ++ rest = front ++ '#' :: (([' ', q] ++ hiddenCall) ++ back) := by
        rw [← hsplit, ← hpiece, exposed]
        simp
      obtain ⟨front', _, hrest⟩ := append_eq_of_not_mem hcut hsign
      have hexposed : 1 ≤ callCount libraryFunctions (opener.getLast?.or none) rest := by
        have hpos := exposed_pos (opener.getLast?.or none) q front' back
        rw [hrest]
        simpa [exposed] using hpos
      have happend : callCount libraryFunctions none opener + _ ≤
          callCount libraryFunctions none (opener ++ rest) := callCount_append none opener rest
      rw [← hsplit] at happend
      show 1 < callCount libraryFunctions none piece
      omega

omit [WordDatabase] in
theorem length_filter_eq_sum (p : List Char → Bool) (pieces : List (List Char)) :
    (pieces.filter p).length = (pieces.map fun piece => (p piece).toNat).sum := by
  induction pieces with
  | nil => rfl
  | cons piece pieces ih =>
      rw [List.map_cons, List.sum_cons, ← ih]
      cases hp : p piece with
      | false => simp [hp]
      | true => simp [hp, Nat.add_comm]

omit [WordDatabase] in
theorem hiddenCall_oneLine {q : Char} (hq : q ≠ '\n') : '\n' ∉ exposed q := by
  have hcall : '\n' ∉ hiddenCall := by decide
  simp [exposed, hcall, Ne.symm hq]

/-- The accepted texts have as many library declarations as library calls. -/
theorem libraries_of_inputsOf {clean : List Char} {result : List String × List String}
    (h : inputsOf clean = .ok result) : ∃ pieces, ['\n'].intercalate pieces = clean ∧
      splitC clean '\n' = .ok ((pieces.map strip).filter fun part => part ≠ []) ∧
      (pieces.filter isLibrary).length = callCount libraryFunctions none clean := by
  obtain ⟨statements, hstatements, h⟩ := bind_eq_ok.mp h
  obtain ⟨pieces, hjoined, hparts⟩ := splitC_eq_ok hstatements
  dsimp only at h
  obtain ⟨_, _, h⟩ := bind_eq_ok.mp h
  obtain ⟨_, _, h⟩ := bind_eq_ok.mp h
  obtain ⟨_, _, h⟩ := bind_eq_ok.mp h
  obtain ⟨_, _, h⟩ := bind_eq_ok.mp h
  obtain ⟨_, hlibraries, _⟩ := bind_eq_ok.mp h
  have hcount := (not_or.mp (raiseIf_eq_ok.mp hlibraries)).2
  rw [ne_eq, not_not] at hcount
  refine ⟨pieces, hjoined, hparts ▸ hstatements, ?_⟩
  rw [← hcount, hparts, List.filter_filter, List.filter_map, List.length_map]
  refine congrArg List.length (List.filter_congr fun piece _ => ?_)
  -- An empty statement declares nothing.
  by_cases hempty : strip piece = []
  · have hnone : isLibrary piece = false := by
      rw [isLibrary, hempty]
      rfl
    simp [hnone, hempty]
  · simp [isLibrary, hempty]

/-- **A text with an exposed call is not accepted**: it has more calls than declarations. -/
theorem inputsOf_exposed {q : Char} (hq : q ≠ '\n') {front back : List Char}
    (result : List String × List String) :
    inputsOf (front ++ exposed q ++ back) ≠ .ok result := by
  intro h
  obtain ⟨pieces, hjoined, -, hcount⟩ := libraries_of_inputsOf h
  obtain ⟨before, piece, after, rfl, hpiece⟩ :=
    exists_piece (hiddenCall_oneLine hq) (List.cons_ne_nil _ _) hjoined
  have hone := isLibrary_lt_callCount hpiece
  have hsides : ∀ pieces : List (List Char), (pieces.map fun piece => (isLibrary piece).toNat).sum ≤
      (pieces.map (callCount libraryFunctions none)).sum := fun pieces =>
    List.sum_le_sum fun piece _ => isLibrary_le_callCount piece
  have hsum : ((before ++ piece :: after).map (callCount libraryFunctions none)).sum ≤
      callCount libraryFunctions none (['\n'].intercalate (before ++ piece :: after)) :=
    sum_callCount_le _ rfl
  rw [hjoined, ← hcount, length_filter_eq_sum] at hsum
  simp only [List.map_append, List.map_cons, List.sum_append, List.sum_cons] at hsum
  have hbefore := hsides before
  have hafter := hsides after
  omega

/-- **Comments and discovery.** Before a line end of a text that is accepted with or without some
comment there, comments never matter, neither when they are put there nor when they are taken away,
exactly when no literal is open for the comment lexer. -/
theorem mesonInputs_comment_iff {before after : List Char} (hafter : AtLineEnd after)
    (haccepted : (∃ result, mesonInputs (.ofList (before ++ after)) = .ok result) ∨
      ∃ comment result, '\n' ∉ comment ∧
        mesonInputs (.ofList (before ++ '#' :: (comment ++ after))) = .ok result) :
    (∀ comment, '\n' ∉ comment → ∀ result,
      mesonInputs (.ofList (before ++ '#' :: (comment ++ after))) = .ok result ↔
        mesonInputs (.ofList (before ++ after)) = .ok result) ↔ LiteralsClosed before := by
  constructor
  · intro h q hmode
    obtain ⟨front, body, _, _, hquote, _⟩ := of_modeAfter_literal hmode
    have hq : q ≠ '\n' := by
      rcases isQuote_iff.mp hquote with rfl | rfl <;> decide
    obtain ⟨front', back, hexposed⟩ := withoutComments_exposed hmode after
    -- The comment with the hidden call is refused, so no text of the place is accepted.
    have hrefused : ∀ result, mesonInputs (.ofList (before ++ after)) ≠ .ok result := by
      intro result hbare
      have hcomment : '\n' ∉ [' ', q] ++ hiddenCall := fun hmem =>
        hiddenCall_oneLine hq (List.mem_cons_of_mem _ hmem)
      have hinserted := (h _ hcomment result).mpr hbare
      rw [mesonInputs, String.toList_ofList, hexposed] at hinserted
      exact inputsOf_exposed hq result hinserted
    rcases haccepted with ⟨result, hbare⟩ | ⟨comment, result, hcomment, hinserted⟩
    · exact hrefused result hbare
    · exact hrefused result ((h comment hcomment result).mp hinserted)
  · intro h comment hcomment result
    rw [mesonInputs, mesonInputs, String.toList_ofList, String.toList_ofList,
      withoutComments_insert h hafter hcomment]

end

/-! ## A small build file -/

section Small

/-- A database that knows nothing beyond ASCII. -/
@[reducible] def asciiWords : WordDatabase :=
  { asciiOnly with isDecimal := fun _ => false, space_not_alnum := fun _ _ => rfl }

/-- The lexer of Meson: string literals with escapes, and comments. -/
def mesonLexer : Regex := .alt (escapedLiteral '\'') (.alt (escapedLiteral '"') lineComment)

/-- The place between two texts stands in no string literal. -/
def OutsideLiteral (before after : List Char) : Prop :=
  ∃ front back, (scan mesonLexer (before ++ after)).map Prod.snd = front ++ back ∧
    front.flatten = before

/-- The lines of a small build file up to one that describes it. -/
def describedBy (description : String) : List Char :=
  ("public_headers = ['a.h']\ninstall_headers(public_headers)\nabout = " ++ description).toList

/-- The line after it. -/
def libraryLine : List Char := "\nlibrary('flatpak', 'a.c')\n".toList

theorem accepted_small {text : List Char}
    (h : ((@mesonInputs asciiWords (.ofList text)).toOption == some (["a.h"], ["a.c"])) = true) :
    @mesonInputs asciiWords (.ofList text) = .ok (["a.h"], ["a.c"]) := by
  cases hresult : @mesonInputs asciiWords (.ofList text) with
  | error e =>
      rw [hresult] at h
      cases h
  | ok result =>
      rw [hresult] at h
      exact congrArg Except.ok (Option.some.inj (beq_iff_eq.mp h))

theorem mesonInputs_comment_iff_small :
    @mesonInputs asciiWords
    (.ofList (describedBy "'flatpak'" ++ '#' :: (" it's".toList ++ libraryLine))) =
      .ok (["a.h"], ["a.c"]) := by
  have hbare : @mesonInputs asciiWords (.ofList (describedBy "'flatpak'" ++ libraryLine)) =
      .ok (["a.h"], ["a.c"]) := accepted_small (by decide +kernel)
  have hclosed : LiteralsClosed (describedBy "'flatpak'") := by
    have hmode : modeAfter (describedBy "'flatpak'") = .code := by rfl
    intro q
    rw [hmode]
    exact nofun
  exact ((@mesonInputs_comment_iff asciiWords _ _ (.inr ⟨_, rfl⟩) (.inl ⟨_, hbare⟩)).mpr hclosed
    " it's".toList (by decide) _).mpr hbare

/-- With an escaped apostrophe before it, a comment with an apostrophe makes the file refused. -/
theorem mesonInputs_escaped :
    OutsideLiteral (describedBy "'it\\'s'") libraryLine ∧
      @mesonInputs asciiWords (.ofList (describedBy "'it\\'s'" ++ libraryLine)) =
        .ok (["a.h"], ["a.c"]) ∧
      ∀ result, @mesonInputs asciiWords
        (.ofList (describedBy "'it\\'s'" ++ '#' :: (" don't".toList ++ libraryLine))) ≠
        .ok result := by
  have hrefused : (@mesonInputs asciiWords (.ofList
      (describedBy "'it\\'s'" ++ '#' :: (" don't".toList ++ libraryLine)))).isOk = false := by
    decide +kernel
  refine ⟨?_, accepted_small (by decide +kernel), fun result hresult => ?_⟩
  · -- The description is the last of the first sixty-two tokens.
    have hfront : (((scan mesonLexer (describedBy "'it\\'s'" ++ libraryLine)).map
        Prod.snd).take 62).flatten = describedBy "'it\\'s'" := by decide +kernel
    exact ⟨_, _, (List.take_append_drop 62 _).symm, hfront⟩
  · rw [hresult] at hrefused
    cases hrefused

end Small

end FlatpakBlackbox
