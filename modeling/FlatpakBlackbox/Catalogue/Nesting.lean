import FlatpakBlackbox.Catalogue.SplitC

set_option autoImplicit false

/-! # What `split_c` computes

The tokens of a text are complete string literals and single characters. A token list is well nested
when its brackets are, and `split_c` cuts a well nested text at the delimiters of its top level.
Reading tokens is local: a run of tokens of a text is read the same when it stands alone, so parts
can be split again.
-/

namespace FlatpakBlackbox

open PyLib Regex PyException

/-! ## Well nested tokens -/

/-- The tokens of a text. -/
def cTokens (text : List Char) : List (List Char) := (scan cToken text).map Prod.snd

/-- A token that neither opens nor closes brackets. -/
def PlainToken (token : List Char) : Prop :=
  ∀ c, token = [c] → closerOf c = none ∧ c ∉ [')', '}', ']']

/-- Tokens whose brackets are well nested. -/
inductive WellNested : List (List Char) → Prop where
  | nil : WellNested []
  | plain {token : List Char} {rest : List (List Char)} (htoken : PlainToken token)
      (hrest : WellNested rest) : WellNested (token :: rest)
  | group {opener close : Char} {inner rest : List (List Char)}
      (hcloser : closerOf opener = some close)
      (hinner : WellNested inner) (hrest : WellNested rest) :
      WellNested ([opener] :: (inner ++ [close] :: rest))

/-- Well nested tokens without the delimiter at the top level. -/
inductive Segment (delimiter : Char) : List (List Char) → Prop where
  | nil : Segment delimiter []
  | plain {token : List Char} {rest : List (List Char)} (htoken : PlainToken token)
      (hdelimiter : token ≠ [delimiter]) (hrest : Segment delimiter rest) :
      Segment delimiter (token :: rest)
  | group {opener close : Char} {inner rest : List (List Char)}
      (hcloser : closerOf opener = some close)
      (hinner : WellNested inner) (hrest : Segment delimiter rest) :
      Segment delimiter ([opener] :: (inner ++ [close] :: rest))

theorem WellNested.append {tokens rest : List (List Char)} (h : WellNested tokens)
    (hrest : WellNested rest) : WellNested (tokens ++ rest) := by
  induction h with
  | nil => exact hrest
  | plain htoken _ ih => exact .plain htoken ih
  | group hcloser hinner _ _ ih =>
      rw [List.cons_append, List.append_assoc, List.cons_append]
      exact .group hcloser hinner ih

theorem Segment.wellNested {delimiter : Char} {tokens : List (List Char)}
    (h : Segment delimiter tokens) : WellNested tokens := by
  induction h with
  | nil => exact .nil
  | plain htoken _ _ ih => exact .plain htoken ih
  | group hcloser hinner _ ih => exact .group hcloser hinner ih

/-- A text of several segments. -/
theorem wellNested_intercalate {delimiter : Char} (hdelimiter : PlainToken [delimiter])
    {segments : List (List (List Char))} (h : ∀ segment ∈ segments, Segment delimiter segment) :
    WellNested ([[delimiter]].intercalate segments) := by
  induction segments with
  | nil => exact .nil
  | cons segment segments ih =>
      obtain ⟨hsegment, hsegments⟩ := List.forall_mem_cons.mp h
      by_cases hrest : segments = []
      · subst hrest
        rw [List.intercalate_singleton]
        exact hsegment.wellNested
      · rw [List.intercalate_cons_of_ne_nil hrest, List.append_assoc]
        exact hsegment.wellNested.append (.plain hdelimiter (ih hsegments))

/-- The segments of well nested tokens. -/
theorem WellNested.segments {delimiter : Char} {tokens : List (List Char)} (h : WellNested tokens) :
    ∃ segments, segments ≠ [] ∧ (∀ segment ∈ segments, Segment delimiter segment) ∧
      [[delimiter]].intercalate segments = tokens := by
  -- What stands before the segments of the rest belongs to the first of them.
  have hfirst : ∀ (front : List (List Char)) {rest : List (List Char)}
    {segments : List (List (List Char))},
      segments ≠ [] → (∀ segment ∈ segments, Segment delimiter segment) →
      [[delimiter]].intercalate segments = rest →
      (∀ segment, Segment delimiter segment → Segment delimiter (front ++ segment)) →
      ∃ segments', segments' ≠ [] ∧ (∀ segment ∈ segments', Segment delimiter segment) ∧
        [[delimiter]].intercalate segments' = front ++ rest := by
    intro front rest segments hne hsegments hjoined hfront
    obtain ⟨first, others, rfl⟩ := List.exists_cons_of_ne_nil hne
    obtain ⟨hfirst, hothers⟩ := List.forall_mem_cons.mp hsegments
    refine ⟨(front ++ first) :: others, List.cons_ne_nil _ _,
      List.forall_mem_cons.mpr ⟨hfront first hfirst, hothers⟩, ?_⟩
    rw [← hjoined]
    by_cases hnil : others = []
    · subst hnil
      rw [List.intercalate_singleton, List.intercalate_singleton]
    · rw [List.intercalate_cons_of_ne_nil hnil, List.intercalate_cons_of_ne_nil hnil]
      simp only [List.append_assoc]
  induction h with
  | nil => exact ⟨[[]], List.cons_ne_nil _ _, by simp [Segment.nil], by simp⟩
  | @plain token rest htoken _ ih =>
      obtain ⟨segments, hne, hsegments, hjoined⟩ := ih
      by_cases hdelimiter : token = [delimiter]
      · refine ⟨[] :: segments, List.cons_ne_nil _ _,
          List.forall_mem_cons.mpr ⟨.nil, hsegments⟩, ?_⟩
        rw [List.intercalate_cons_of_ne_nil hne, hjoined, hdelimiter]
        rfl
      · exact hfirst [token] hne hsegments hjoined fun _ hsegment =>
          .plain htoken hdelimiter hsegment
  | @group opener close inner rest hcloser hinner _ _ ih =>
      obtain ⟨segments, hne, hsegments, hjoined⟩ := ih
      obtain ⟨segments', hne', hsegments', hjoined'⟩ :=
        hfirst ([opener] :: (inner ++ [[close]])) hne hsegments hjoined
          fun segment hsegment => by
            have hgroup : Segment delimiter ([opener] :: (inner ++ [close] :: segment)) :=
              .group hcloser hinner hsegment
            simpa using hgroup
      exact ⟨segments', hne', hsegments', by simpa using hjoined'⟩

/-! ## The stack -/

section

variable {delimiter : Char}

/-- What tokens without a delimiter at the top level do to the stack. -/
def runTokens (delimiter : Char) : List (List Char) → List Char → Option (List Char)
  | [], stack => some stack
  | token :: tokens, stack =>
      match stackAfter delimiter token stack with
      | .ok (some stack) => runTokens delimiter tokens stack
      | _ => none

theorem runTokens_append (tokens rest : List (List Char)) (stack : List Char) :
    runTokens delimiter (tokens ++ rest) stack =
      (runTokens delimiter tokens stack).bind (runTokens delimiter rest) := by
  induction tokens generalizing stack with
  | nil => rfl
  | cons token tokens ih =>
      rw [List.cons_append, runTokens, runTokens]
      split
      · exact ih _
      · rfl

/-- The loop of `split_c` over such tokens. -/
theorem splitTokens_run {tokens rest : List (List Char)} {stack stack' : List Char}
    (h : runTokens delimiter tokens stack = some stack') (piece : List Char) :
    splitTokens delimiter (tokens ++ rest) stack piece =
      splitTokens delimiter rest stack' (piece ++ tokens.flatten) := by
  induction tokens generalizing stack piece with
  | nil =>
      obtain rfl := Option.some.inj h
      simp
  | cons token tokens ih =>
      rw [runTokens] at h
      split at h
      · next after hafter =>
          rw [List.cons_append, splitTokens, hafter]
          show splitTokens delimiter (tokens ++ rest) after (piece ++ token) = _
          rw [ih h, List.flatten_cons, List.append_assoc]
      · cases h

theorem stackAfter_plain {token : List Char} (h : PlainToken token) {stack : List Char}
    (hdelimiter : token ≠ [delimiter] ∨ stack ≠ []) :
    stackAfter delimiter token stack = .ok (some stack) := by
  unfold stackAfter
  split
  · next c =>
      obtain ⟨hopen, hclose⟩ := h c rfl
      rw [hopen]
      dsimp only
      rw [if_neg hclose, if_neg]
      rintro ⟨rfl, hstack⟩
      exact hdelimiter.elim (fun hne => hne rfl) fun hne => hne hstack
  · rfl

theorem stackAfter_open {opener close : Char} (h : closerOf opener = some close)
    (stack : List Char) : stackAfter delimiter [opener] stack = .ok (some (close :: stack)) := by
  unfold stackAfter
  dsimp only
  rw [h]

theorem closerOf_close {opener close : Char} (h : closerOf opener = some close) :
    closerOf close = none ∧ close ∈ [')', '}', ']'] := by
  unfold closerOf at h
  split at h
  · obtain rfl := Option.some.inj h
    decide
  · obtain rfl := Option.some.inj h
    decide
  · obtain rfl := Option.some.inj h
    decide
  · cases h

theorem stackAfter_close {opener close : Char} (h : closerOf opener = some close)
    (stack : List Char) : stackAfter delimiter [close] (close :: stack) = .ok (some stack) := by
  obtain ⟨hnone, hmem⟩ := closerOf_close h
  unfold stackAfter
  dsimp only
  rw [hnone]
  dsimp only
  rw [if_pos hmem, if_pos rfl]

/-- Inside brackets, well nested tokens leave the stack as it is. -/
theorem runTokens_wellNested {tokens : List (List Char)} (h : WellNested tokens) {stack : List Char}
    (hstack : stack ≠ []) : runTokens delimiter tokens stack = some stack := by
  induction h generalizing stack with
  | nil => rfl
  | plain htoken _ ih =>
      rw [runTokens, stackAfter_plain htoken (.inr hstack)]
      exact ih hstack
  | group hcloser _ _ ihinner ihrest =>
      rw [runTokens, stackAfter_open hcloser]
      dsimp only
      rw [runTokens_append, ihinner (List.cons_ne_nil _ _), Option.bind_some, runTokens,
        stackAfter_close hcloser]
      exact ihrest hstack

/-- A segment leaves the empty stack empty. -/
theorem runTokens_segment {tokens : List (List Char)} (h : Segment delimiter tokens) :
    runTokens delimiter tokens [] = some [] := by
  induction h with
  | nil => rfl
  | plain htoken hdelimiter _ ih =>
      rw [runTokens, stackAfter_plain htoken (.inl hdelimiter)]
      exact ih
  | group hcloser hinner _ ih =>
      rw [runTokens, stackAfter_open hcloser]
      dsimp only
      rw [runTokens_append, runTokens_wellNested hinner (List.cons_ne_nil _ _), Option.bind_some,
        runTokens, stackAfter_close hcloser]
      exact ih

theorem stackAfter_delimiter (h : PlainToken [delimiter]) :
    stackAfter delimiter [delimiter] [] = .ok none := by
  obtain ⟨hopen, hclose⟩ := h delimiter rfl
  unfold stackAfter
  dsimp only
  rw [hopen]
  dsimp only
  rw [if_neg hclose, if_pos ⟨rfl, rfl⟩]

/-- What an accepted token is, and what it does to the stack. -/
theorem stackAfter_cases {token stack stack' : List Char}
    (h : stackAfter delimiter token stack = .ok (some stack')) :
    (PlainToken token ∧ (token ≠ [delimiter] ∨ stack ≠ []) ∧ stack' = stack) ∨
      (∃ opener close, token = [opener] ∧ closerOf opener = some close ∧ stack' = close :: stack) ∨
      ∃ close, token = [close] ∧ stack = close :: stack' := by
  unfold stackAfter at h
  split at h
  · next c =>
      split at h
      · next close hclose =>
          exact .inr (.inl ⟨c, close, rfl, hclose, (Option.some.inj (Except.ok.inj h)).symm⟩)
      · next hopen =>
          split at h
          · split at h
            · split at h
              · next htop =>
                  rw [← Option.some.inj (Except.ok.inj h), htop]
                  exact .inr (.inr ⟨c, rfl, rfl⟩)
              · cases h
            · cases h
          · next hclose =>
              split at h
              · cases h
              · next hdelimiter =>
                  refine .inl ⟨fun d hd => ?_, ?_, (Option.some.inj (Except.ok.inj h)).symm⟩
                  · obtain rfl := (List.cons.inj hd).1
                    exact ⟨hopen, hclose⟩
                  · by_cases hc : c = delimiter
                    · exact .inr fun hstack => hdelimiter ⟨hc, hstack⟩
                    · exact .inl fun heq => hc (List.cons.inj heq).1
  · next hlong =>
      refine .inl ⟨fun c hc => absurd hc (hlong c), .inl (hlong delimiter), ?_⟩
      exact (Option.some.inj (Except.ok.inj h)).symm

/-- Tokens that bring in the brackets that are due, and end a segment. -/
def Closing (delimiter : Char) : List Char → List (List Char) → Prop
  | [], tokens => Segment delimiter tokens
  | close :: stack, tokens => ∃ inner rest, WellNested inner ∧ tokens = inner ++ [close] :: rest ∧
      Closing delimiter stack rest

/-- Tokens that empty the stack. -/
theorem closing_of_runTokens {tokens : List (List Char)} {stack : List Char}
    (h : runTokens delimiter tokens stack = some []) : Closing delimiter stack tokens := by
  induction tokens generalizing stack with
  | nil =>
      obtain rfl := Option.some.inj h
      exact .nil
  | cons token tokens ih =>
      rw [runTokens] at h
      split at h
      · next stack' hafter =>
          have hrest := ih h
          rcases stackAfter_cases hafter with ⟨hplain, hne, rfl⟩ | ⟨opener, close, rfl,
            hcloser, rfl⟩ |
            ⟨close, rfl, rfl⟩
          · cases stack' with
            | nil => exact .plain hplain (hne.resolve_right fun hnil => hnil rfl) hrest
            | cons close stack =>
                obtain ⟨inner, rest, hinner, rfl, hclosing⟩ := hrest
                exact ⟨token :: inner, rest, .plain hplain hinner, rfl, hclosing⟩
          · obtain ⟨inner, rest, hinner, rfl, hclosing⟩ := hrest
            cases stack with
            | nil => exact .group hcloser hinner hclosing
            | cons due stack =>
                -- The group is part of what stands before the bracket that is due.
                obtain ⟨inner', rest', hinner', rfl, hclosing'⟩ := hclosing
                refine ⟨[opener] :: (inner ++ [close] :: inner'), rest',
                  .group hcloser hinner hinner', by simp, hclosing'⟩
          · exact ⟨[], tokens, .nil, rfl, hrest⟩
      · cases h

/-- **A segment is what leaves the empty stack empty.** -/
theorem segment_iff_runTokens {tokens : List (List Char)} :
    Segment delimiter tokens ↔ runTokens delimiter tokens [] = some [] :=
  ⟨runTokens_segment, closing_of_runTokens⟩

/-- The pieces of segments. -/
theorem splitTokens_segments {segments : List (List (List Char))} (hne : segments ≠ [])
    (h : ∀ segment ∈ segments, Segment delimiter segment) (hplain : PlainToken [delimiter]) :
    splitTokens delimiter ([[delimiter]].intercalate segments) [] [] =
      .ok (segments.map List.flatten) := by
  induction segments with
  | nil => exact absurd rfl hne
  | cons segment segments ih =>
      obtain ⟨hsegment, hsegments⟩ := List.forall_mem_cons.mp h
      have hrun := runTokens_segment hsegment
      by_cases hrest : segments = []
      · subst hrest
        have hend : splitTokens delimiter (segment ++ []) [] [] =
            splitTokens delimiter [] [] ([] ++ segment.flatten) := splitTokens_run hrun []
        rw [List.append_nil] at hend
        rw [List.intercalate_singleton, hend]
        rfl
      · rw [List.intercalate_cons_of_ne_nil hrest, List.append_assoc, splitTokens_run hrun,
          List.singleton_append, splitTokens, stackAfter_delimiter hplain]
        show (splitTokens delimiter _ [] [] >>= fun pieces => pure (_ :: pieces)) = _
        rw [ih hrest hsegments]
        rfl

/-- The segments of accepted tokens. -/
theorem segments_of_splitTokens {tokens : List (List Char)} {stack piece : List Char}
    {pieces : List (List Char)} (h : splitTokens delimiter tokens stack piece = .ok pieces) :
    ∃ first segments, runTokens delimiter first stack = some [] ∧
      (∀ segment ∈ segments, Segment delimiter segment) ∧
      [[delimiter]].intercalate (first :: segments) = tokens ∧
      pieces = (piece ++ first.flatten) :: segments.map List.flatten := by
  induction tokens generalizing stack piece pieces with
  | nil =>
      rw [splitTokens] at h
      split at h
      · next hstack =>
          refine ⟨[], [], congrArg some hstack, by simp, by simp, ?_⟩
          rw [← Except.ok.inj h]
          simp
      · cases h
  | cons token tokens ih =>
      obtain ⟨after, hafter, h⟩ := bind_eq_ok.mp h
      cases after with
      | some stack' =>
          obtain ⟨first, segments, hrun, hsegments, hjoined, rfl⟩ := ih h
          refine ⟨token :: first, segments, ?_, hsegments, ?_, by simp⟩
          · rw [runTokens, hafter]
            exact hrun
          · rw [← hjoined]
            by_cases hnil : segments = []
            · subst hnil
              rw [List.intercalate_singleton, List.intercalate_singleton]
            · rw [List.intercalate_cons_of_ne_nil hnil, List.intercalate_cons_of_ne_nil hnil]
              rfl
      | none =>
          obtain ⟨rest, hrest, h⟩ := bind_eq_ok.mp h
          obtain ⟨first, segments, hrun, hsegments, hjoined, rfl⟩ := ih hrest
          obtain ⟨htoken, hstack⟩ := eq_of_stackAfter hafter
          refine ⟨[], first :: segments, ?_, ?_, ?_, ?_⟩
          · rw [hstack]
            rfl
          · exact List.forall_mem_cons.mpr ⟨segment_iff_runTokens.mpr hrun, hsegments⟩
          · rw [List.intercalate_cons_of_ne_nil (List.cons_ne_nil _ _), hjoined, htoken]
            rfl
          · rw [← Except.ok.inj h]
            simp

end

/-! ## Reading literals -/

/-- What follows a literal whose opening quote has been read. -/
def literalRest (q : Char) : List Char → Option (List Char)
  | [] => none
  | [c] => if c = q then some [] else none
  | c :: d :: rest =>
      if c = q then some (d :: rest)
      else if c = '\\' then literalRest q rest
      else literalRest q (d :: rest)

/-- The steps of the repetition in a literal. -/
def literalStep (q : Char) : Regex :=
  .alt (.seq (.cls (· == '\\')) (.cls fun _ => true)) (.cls fun c => c != q && c != '\\')

/-- The repetition goes on at every character that is neither the quote nor a last backslash. -/
theorem ends_literalStep {q c : Char} (hq : q ≠ '\\') (rest : List Char) :
    (literalStep q).ends (c :: rest) =
      if c = q then [] else if c = '\\' then rest.tail?.toList else [rest] := by
  by_cases hc : c = q
  · simp [literalStep, ends, hc, hq]
  · by_cases hescape : c = '\\'
    · cases rest with
      | nil => simp [literalStep, ends, hescape, Ne.symm hq]
      | cons d after => simp [literalStep, ends, hescape, Ne.symm hq]
    · simp [literalStep, ends, hc, hescape]

/-- **The one match of a literal** ends at its first quote that is not escaped. -/
theorem ends_escapedLiteral {q : Char} (hq : q ≠ '\\') (text : List Char) :
    (escapedLiteral q).ends (q :: text) = (literalRest q text).toList := by
  have hother : ∀ {c : Char} {rest : List Char}, c ≠ q → (cls (· == q)).ends (c :: rest) = [] := by
    intro c rest hc
    simp [ends, hc]
  -- The induction is on the text, as `literalRest` reads it; the fuel only has to suffice.
  have hiterate : ∀ n text, text.length ≤ n →
      (iterate (literalStep q).ends n text).flatMap (cls (· == q)).ends =
        (literalRest q text).toList := by
    intro n text
    induction text using literalRest.induct q generalizing n with
    | case1 =>
        intro _
        rw [iterate_stop rfl]
        rfl
    | case2 =>
        intro _
        rw [iterate_stop (by simp [ends_literalStep hq])]
        simp [ends, literalRest]
    | case3 c hc =>
        intro hlength
        have hnone : literalRest q [c] = none := by simp [literalRest, hc]
        rw [hnone]
        by_cases hescape : c = '\\'
        · rw [iterate_stop (by simp [ends_literalStep hq, hescape])]
          simp [hother hc]
        · obtain ⟨n, rfl⟩ := Nat.exists_eq_succ_of_ne_zero (n := n) (by simp at hlength; omega)
          have hstep : (literalStep q).ends [c] = [[]] := by simp [ends_literalStep hq, hc, hescape]
          have hstop : (literalStep q).ends [] = [] := rfl
          rw [iterate_step hstep (by simp), iterate_stop hstop]
          simp [ends, hc]
    | case4 d rest =>
        intro _
        rw [iterate_stop (by simp [ends_literalStep hq])]
        simp [ends, literalRest]
    | case5 d rest hc ih =>
        intro hlength
        simp only [List.length_cons] at hlength
        obtain ⟨n, rfl⟩ := Nat.exists_eq_succ_of_ne_zero (n := n) (by omega)
        have hstep : (literalStep q).ends ('\\' :: d :: rest) = [rest] := by
          simp [ends_literalStep hq, hc]
        rw [iterate_step hstep (by simp), List.flatMap_append, ih n (by omega),
          List.flatMap_singleton, hother hc, List.append_nil, literalRest, if_neg hc, if_pos rfl]
    | case6 c d rest hc hescape ih =>
        intro hlength
        simp only [List.length_cons] at hlength
        obtain ⟨n, rfl⟩ := Nat.exists_eq_succ_of_ne_zero (n := n) (by omega)
        have hstep : (literalStep q).ends (c :: d :: rest) = [d :: rest] := by
          simp [ends_literalStep hq, hc, hescape]
        rw [iterate_step hstep (by simp), List.flatMap_append, ih n (by simp; omega),
          List.flatMap_singleton, hother hc, List.append_nil, literalRest, if_neg hc,
            if_neg hescape]
  show ((cls (· == q)).ends (q :: text)).flatMap _ = _
  simp only [ends, beq_self_eq_true, if_true, List.flatMap_cons, List.flatMap_nil, List.append_nil]
  exact hiterate text.length text le_rfl

theorem literalRest_append_quote {q : Char} {text rest : List Char}
    (h : literalRest q text = some rest) :
    ∃ body, text = body ++ q :: rest ∧
      ∀ rest', literalRest q (body ++ q :: rest') = some rest' := by
  have hquote : ∀ rest', literalRest q (q :: rest') = some rest' := by
    intro rest'
    cases rest' <;> simp [literalRest]
  induction text using literalRest.induct q with
  | case1 => cases h
  | case2 =>
      rw [hquote] at h
      exact ⟨[], by rw [← Option.some.inj h]; rfl, hquote⟩
  | case3 c hc => simp [literalRest, hc] at h
  | case4 d after =>
      rw [hquote] at h
      exact ⟨[], by rw [← Option.some.inj h]; rfl, hquote⟩
  | case5 d after hc ih =>
      rw [literalRest, if_neg hc, if_pos rfl] at h
      obtain ⟨body, rfl, hbody⟩ := ih h
      refine ⟨'\\' :: d :: body, rfl, fun rest' => ?_⟩
      rw [List.cons_append, List.cons_append, literalRest, if_neg hc, if_pos rfl]
      exact hbody rest'
  | case6 c d after hc hescape ih =>
      rw [literalRest, if_neg hc, if_neg hescape] at h
      obtain ⟨body, hbody, hany⟩ := ih h
      refine ⟨c :: body, by rw [hbody]; rfl, fun rest' => ?_⟩
      cases body with
      | nil =>
          rw [List.cons_append, List.nil_append, literalRest, if_neg hc, if_neg hescape]
          exact hany rest'
      | cons e body =>
          rw [List.cons_append, List.cons_append, literalRest, if_neg hc, if_neg hescape]
          exact hany rest'

/-- A literal that is not closed in a text is not closed in the beginning of the text. -/
theorem literalRest_prefix {q : Char} {text more : List Char}
    (h : literalRest q (text ++ more) = none) : literalRest q text = none := by
  cases htext : literalRest q text with
  | none => rfl
  | some rest =>
      obtain ⟨body, rfl, hany⟩ := literalRest_append_quote htext
      rw [List.append_assoc, List.cons_append, hany] at h
      cases h

/-- What has no quote closes no literal. -/
theorem literalRest_append {q : Char} {text back : List Char} (hback : q ∉ back) :
    literalRest q (text ++ back) = (literalRest q text).map (· ++ back) := by
  have hnone : ∀ back : List Char, q ∉ back → literalRest q back = none := by
    intro back
    induction back using literalRest.induct q with
    | case1 => exact fun _ => rfl
    | case2 => exact fun h => absurd (List.mem_cons_self ..) h
    | case3 c hc => exact fun _ => by simp [literalRest, hc]
    | case4 d rest => exact fun h => absurd (List.mem_cons_self ..) h
    | case5 d rest hc ih =>
        intro h
        rw [literalRest, if_neg hc, if_pos rfl]
        exact ih fun hmem => h (List.mem_cons_of_mem _ (List.mem_cons_of_mem _ hmem))
    | case6 c d rest hc hescape ih =>
        intro h
        rw [literalRest, if_neg hc, if_neg hescape]
        exact ih fun hmem => h (List.mem_cons_of_mem _ hmem)
  cases htext : literalRest q text with
  | some rest =>
      obtain ⟨body, rfl, hany⟩ := literalRest_append_quote htext
      rw [List.append_assoc, List.cons_append, hany]
      rfl
  | none =>
      induction text using literalRest.induct q with
      | case1 => exact hnone back hback
      | case2 => simp [literalRest] at htext
      | case3 c hc =>
          cases back with
          | nil => exact htext
          | cons d back =>
              have htail : q ∉ back := fun hmem => hback (List.mem_cons_of_mem _ hmem)
              rw [List.cons_append, List.nil_append, literalRest, if_neg hc]
              split
              · rw [hnone back htail]
                rfl
              · rw [hnone _ hback]
                rfl
      | case4 d rest => simp [literalRest] at htext
      | case5 d rest hc ih =>
          rw [literalRest, if_neg hc, if_pos rfl] at htext
          rw [List.cons_append, List.cons_append, literalRest, if_neg hc, if_pos rfl]
          exact ih htext
      | case6 c d rest hc hescape ih =>
          rw [literalRest, if_neg hc, if_neg hescape] at htext
          rw [List.cons_append, List.cons_append, literalRest, if_neg hc, if_neg hescape]
          exact ih htext

/-! ## Reading tokens -/

theorem cTokens_nil : cTokens [] = [] := rfl

/-- A complete literal is one token. -/
theorem cTokens_literal {q : Char} {body rest : List Char} (hq : isQuote q = true)
    (hbody : literalRest q (body ++ q :: rest) = some rest) :
    cTokens (q :: (body ++ q :: rest)) = (q :: (body ++ [q])) :: cTokens rest := by
  have hescape : q ≠ '\\' := by
    rcases isQuote_iff.mp hq with rfl | rfl <;> decide
  have hliteral : (escapedLiteral q).ends (q :: (body ++ q :: rest)) = [rest] := by
    rw [ends_escapedLiteral hescape, hbody]
    rfl
  have hends : (cToken.ends (q :: (body ++ q :: rest))).head? = some rest := by
    rcases (isQuote_iff.mp hq).symm with rfl | rfl
    · exact head?_alt (by rw [hliteral]; rfl)
    · have hother : (escapedLiteral '"').ends ('\'' :: (body ++ '\'' :: rest)) = [] := by
        simp [escapedLiteral, ends]
      rw [cToken, ends, hother, List.nil_append]
      exact head?_alt (by rw [hliteral]; rfl)
  have htext : q :: (body ++ q :: rest) = (q :: (body ++ [q])) ++ rest := by simp
  rw [htext] at hends ⊢
  rw [cTokens, scan_match (List.cons_ne_nil _ _) hends]
  rfl

/-- Any other character is a token of its own. -/
theorem cTokens_single {c : Char} {rest : List Char}
    (h : isQuote c = true → literalRest c rest = none) :
    cTokens (c :: rest) = [c] :: cTokens rest := by
  have hnone : ∀ q, q = '"' ∨ q = '\'' → (escapedLiteral q).ends (c :: rest) = [] := by
    intro q hq
    by_cases hc : c = q
    · have hescape : q ≠ '\\' := by
        rcases hq with rfl | rfl <;> decide
      subst hc
      rw [ends_escapedLiteral hescape, h (isQuote_iff.mpr hq.symm)]
      rfl
    · simp [escapedLiteral, ends, hc]
  have hends : (cToken.ends ([c] ++ rest)).head? = some rest := by
    rw [List.singleton_append, cToken, ends, hnone '"' (.inl rfl), List.nil_append, ends,
      hnone '\'' (.inr rfl), List.nil_append]
    rfl
  have hscan := scan_match (List.cons_ne_nil _ _) hends
  rw [List.singleton_append] at hscan
  rw [cTokens, hscan]
  rfl

/-- Induction along the tokens of a text. -/
theorem cTokens_induction {P : List Char → Prop} (nil : P [])
    (literal : ∀ q body rest, isQuote q = true →
      (∀ rest', literalRest q (body ++ q :: rest') = some rest') → P rest →
      P (q :: (body ++ q :: rest)))
    (single : ∀ c rest, (isQuote c = true → literalRest c rest = none) → P rest →
      P (c :: rest)) (text : List Char) : P text := by
  induction hlength : text.length using Nat.strong_induction_on generalizing text with
  | _ n ih =>
      cases text with
      | nil => exact nil
      | cons c rest =>
          have hsingle : (isQuote c = true → literalRest c rest = none) → P (c :: rest) :=
            fun hnone => single c rest hnone (ih rest.length (by simp [← hlength]) rest rfl)
          cases hquote : isQuote c with
          | false => exact hsingle fun htrue => absurd (hquote.symm.trans htrue) (by decide)
          | true =>
              cases hrest : literalRest c rest with
              | none => exact hsingle fun _ => hrest
              | some after =>
                  obtain ⟨body, rfl, hbody⟩ := literalRest_append_quote hrest
                  refine literal c body after hquote hbody (ih after.length ?_ after rfl)
                  rw [← hlength]
                  simp
                  omega

theorem flatten_cTokens (text : List Char) : (cTokens text).flatten = text := flatten_scan _ _

/-- A run of tokens at the end of a text. -/
theorem cTokens_back {text : List Char} {front back : List (List Char)}
    (h : cTokens text = front ++ back) : cTokens back.flatten = back := by
  induction text using cTokens_induction generalizing front with
  | nil =>
      rw [cTokens_nil] at h
      rw [(List.append_eq_nil_iff.mp h.symm).2]
      rfl
  | literal q body rest hq hbody ih =>
      cases front with
      | nil =>
          rw [← List.nil_append back, ← h, flatten_cTokens]
      | cons token front =>
          rw [cTokens_literal hq (hbody rest)] at h
          exact ih (List.cons.inj h).2
  | single c rest hnone ih =>
      cases front with
      | nil => rw [← List.nil_append back, ← h, flatten_cTokens]
      | cons token front =>
          rw [cTokens_single hnone] at h
          exact ih (List.cons.inj h).2

/-- A run of tokens at the beginning of a text. -/
theorem cTokens_front {text : List Char} {front back : List (List Char)}
    (h : cTokens text = front ++ back) : cTokens front.flatten = front := by
  induction text using cTokens_induction generalizing front with
  | nil =>
      rw [cTokens_nil] at h
      rw [(List.append_eq_nil_iff.mp h.symm).1]
      rfl
  | literal q body rest hq hbody ih =>
      rw [cTokens_literal hq (hbody rest)] at h
      cases front with
      | nil => rfl
      | cons token front =>
          obtain ⟨rfl, htail⟩ := List.cons.inj h
          have hread := cTokens_literal hq (hbody front.flatten)
          rw [ih htail] at hread
          rw [List.flatten_cons, ← hread]
          simp
  | single c rest hnone ih =>
      rw [cTokens_single hnone] at h
      cases front with
      | nil => rfl
      | cons token front =>
          obtain ⟨rfl, htail⟩ := List.cons.inj h
          -- A quote that nothing closes in the text is not closed in its beginning.
          have hrest : rest = front.flatten ++ back.flatten := by
            have hjoined : (front ++ back).flatten = rest := by
              have hall := flatten_cTokens rest
              rwa [htail] at hall
            rw [← hjoined, List.flatten_append]
          have hread : cTokens (c :: front.flatten) = [c] :: cTokens front.flatten :=
            cTokens_single fun hc => literalRest_prefix (hrest ▸ hnone hc)
          rw [ih htail] at hread
          rw [List.flatten_cons]
          exact hread

/-- **Reading is local.** A run of tokens of a text is read the same when it stands alone. -/
theorem cTokens_infix {text : List Char} {front tokens back : List (List Char)}
    (h : cTokens text = front ++ tokens ++ back) : cTokens tokens.flatten = tokens := by
  rw [List.append_assoc] at h
  exact cTokens_front (cTokens_back h)

/-- Text without quotes in front. -/
theorem cTokens_plain_append {front : List Char} (h : ∀ c ∈ front, isQuote c = false)
    (rest : List Char) : cTokens (front ++ rest) = front.map ([·]) ++ cTokens rest := by
  induction front with
  | nil => rfl
  | cons c front ih =>
      obtain ⟨hc, hfront⟩ := List.forall_mem_cons.mp h
      rw [List.cons_append, cTokens_single (fun htrue => absurd (hc.symm.trans htrue) (by decide)),
        ih hfront]
      rfl

/-- Text without quotes at the end. -/
theorem cTokens_append_plain (text : List Char) {back : List Char}
    (h : ∀ c ∈ back, isQuote c = false) :
    cTokens (text ++ back) = cTokens text ++ back.map ([·]) := by
  have hnot : ∀ {q}, isQuote q = true → q ∉ back := fun hq hmem =>
    absurd ((h _ hmem).symm.trans hq) (by decide)
  induction text using cTokens_induction with
  | nil =>
      have hback := cTokens_plain_append h []
      rw [List.append_nil, cTokens_nil, List.append_nil] at hback
      exact hback
  | literal q body rest hq hbody ih =>
      rw [cTokens_literal hq (hbody rest), List.cons_append, List.append_assoc, List.cons_append,
        cTokens_literal hq (hbody (rest ++ back)), ih]
      rfl
  | single c rest hnone ih =>
      have hlonger : isQuote c = true → literalRest c (rest ++ back) = none := fun hc => by
        rw [literalRest_append (hnot hc), hnone hc]
        rfl
      rw [cTokens_single hnone, List.cons_append, cTokens_single hlonger, ih, List.cons_append]

/-- Every quote of the text belongs to a complete literal. -/
def LiteralsComplete (text : List Char) : Prop :=
  ∀ token ∈ cTokens text, ∀ q, isQuote q = true → token ≠ [q]

theorem cTokens_append {text : List Char} (h : LiteralsComplete text) (rest : List Char) :
    cTokens (text ++ rest) = cTokens text ++ cTokens rest := by
  induction text using cTokens_induction with
  | nil => rfl
  | literal q body after hq hbody ih =>
      have hread := cTokens_literal hq (hbody after)
      have hafter : LiteralsComplete after := fun token htoken =>
        h token (hread ▸ List.mem_cons_of_mem _ htoken)
      rw [hread, List.cons_append, List.cons_append, List.append_assoc, List.cons_append,
        cTokens_literal hq (hbody (after ++ rest)), ih hafter]
  | single c after hnone ih =>
      have hread := cTokens_single hnone
      have hafter : LiteralsComplete after := fun token htoken =>
        h token (hread ▸ List.mem_cons_of_mem _ htoken)
      have hquote : isQuote c = false := by
        by_contra hc
        exact h [c] (hread ▸ List.mem_cons_self ..) c (Bool.not_eq_false _ |>.mp hc) rfl
      rw [hread, List.cons_append, List.cons_append,
        cTokens_single (fun htrue => absurd (hquote.symm.trans htrue) (by decide)), ih hafter]

/-! ## White space -/

theorem isQuote_of_isSpace {c : Char} (h : isSpace c = true) : isQuote c = false := by
  cases hquote : isQuote c with
  | false => rfl
  | true =>
      rcases isQuote_iff.mp hquote with rfl | rfl
      · exact absurd h (by decide)
      · exact absurd h (by decide)

theorem plainToken_of_isSpace {c : Char} (h : isSpace c = true) : PlainToken [c] := by
  rintro d hd
  obtain rfl := (List.cons.inj hd).1
  have hne : ∀ {bracket : Char}, isSpace bracket = false → c ≠ bracket := by
    rintro bracket hbracket rfl
    exact absurd (hbracket.symm.trans h) (by decide)
  constructor
  · unfold closerOf
    split
    · exact absurd rfl (hne (by decide))
    · exact absurd rfl (hne (by decide))
    · exact absurd rfl (hne (by decide))
    · rfl
  · simp only [List.mem_cons, List.not_mem_nil, or_false, not_or]
    exact ⟨hne (by decide), hne (by decide), hne (by decide)⟩

/-- The tokens of a text are those of the stripped text, between white space. -/
theorem cTokens_strip (text : List Char) : ∃ front back,
    cTokens text = front ++ cTokens (strip text) ++ back ∧
      (∀ token ∈ front, PlainToken token) ∧ ∀ token ∈ back, PlainToken token := by
  have hplain : ∀ {spaces : List Char}, (∀ c ∈ spaces, isSpace c = true) →
      ∀ token ∈ spaces.map ([·]), PlainToken token := by
    intro spaces hspaces token htoken
    obtain ⟨c, hc, rfl⟩ := List.mem_map.mp htoken
    exact plainToken_of_isSpace (hspaces c hc)
  obtain ⟨front, back, htext, hfront, hback⟩ := strip_infix text
  refine ⟨front.map ([·]), back.map ([·]), ?_, hplain hfront, hplain hback⟩
  calc cTokens text = cTokens (front ++ (strip text ++ back)) := by
        rw [← List.append_assoc, ← htext]
    _ = front.map ([·]) ++ (cTokens (strip text) ++ back.map ([·])) := by
        rw [cTokens_plain_append fun c hc => isQuote_of_isSpace (hfront c hc),
          cTokens_append_plain _ fun c hc => isQuote_of_isSpace (hback c hc)]
    _ = _ := (List.append_assoc _ _ _).symm

section

variable {delimiter : Char}

/-- Tokens that neither open nor close brackets leave the stack as it is. -/
theorem eq_of_runTokens_plain {tokens : List (List Char)} {stack stack' : List Char}
    (hplain : ∀ token ∈ tokens, PlainToken token)
    (h : runTokens delimiter tokens stack = some stack') : stack' = stack := by
  induction tokens generalizing stack with
  | nil => exact (Option.some.inj h).symm
  | cons token tokens ih =>
      obtain ⟨htoken, htokens⟩ := List.forall_mem_cons.mp hplain
      rw [runTokens] at h
      split at h
      · next after hafter =>
          rw [ih htokens h]
          by_cases hcut : token = [delimiter] ∧ stack = []
          · rw [hcut.1, hcut.2, stackAfter_delimiter (hcut.1 ▸ htoken)] at hafter
            cases hafter
          · have hkept := stackAfter_plain htoken (not_and_or.mp hcut)
            exact Option.some.inj (Except.ok.inj (hafter.symm.trans hkept))
      · cases h

/-- Stripping a segment leaves a segment. -/
theorem Segment.strip {text : List Char} (h : Segment delimiter (cTokens text)) :
    Segment delimiter (cTokens (strip text)) := by
  obtain ⟨front, back, htokens, hfront, hback⟩ := cTokens_strip text
  rw [htokens, segment_iff_runTokens, List.append_assoc, runTokens_append] at h
  obtain ⟨stack, hrun, h⟩ := Option.bind_eq_some_iff.mp h
  rw [eq_of_runTokens_plain hfront hrun, runTokens_append] at h
  obtain ⟨stack', hrun', h⟩ := Option.bind_eq_some_iff.mp h
  rw [segment_iff_runTokens, hrun', eq_of_runTokens_plain hback h]

/-! ## Splitting -/

/-- The parts of a text that consists of segments. -/
theorem splitC_segments (hplain : PlainToken [delimiter]) {text : List Char}
    {segments : List (List (List Char))} (hne : segments ≠ [])
    (hsegments : ∀ segment ∈ segments, Segment delimiter segment)
    (hjoined : [[delimiter]].intercalate segments = cTokens text) :
    splitC text delimiter =
      .ok ((segments.map fun segment => strip segment.flatten).filter fun part => part ≠ []) := by
  have hpieces := splitTokens_segments hne hsegments hplain
  rw [hjoined, cTokens] at hpieces
  rw [splitC, hpieces]
  show Except.ok _ = _
  rw [List.map_map]
  rfl

/-- Accepted texts consist of segments. -/
theorem segments_of_splitC {text : List Char} {parts : List (List Char)}
    (h : splitC text delimiter = .ok parts) :
    ∃ segments, segments ≠ [] ∧ (∀ segment ∈ segments, Segment delimiter segment) ∧
      [[delimiter]].intercalate segments = cTokens text ∧
      parts = (segments.map fun segment => strip segment.flatten).filter fun part => part ≠ [] := by
  obtain ⟨pieces, hpieces, h⟩ := bind_eq_ok.mp h
  obtain ⟨first, segments, hrun, hsegments, hjoined, rfl⟩ := segments_of_splitTokens hpieces
  refine ⟨first :: segments, List.cons_ne_nil _ _,
    List.forall_mem_cons.mpr ⟨segment_iff_runTokens.mpr hrun, hsegments⟩, hjoined, ?_⟩
  rw [← Except.ok.inj h, List.nil_append, List.map_cons, List.map_map, List.map_cons]
  rfl

theorem splitC_isOk_iff (hplain : PlainToken [delimiter]) {text : List Char} :
    (∃ parts, splitC text delimiter = .ok parts) ↔ WellNested (cTokens text) := by
  constructor
  · rintro ⟨parts, h⟩
    obtain ⟨segments, -, hsegments, hjoined, -⟩ := segments_of_splitC h
    rw [← hjoined]
    exact wellNested_intercalate hplain hsegments
  · intro h
    obtain ⟨segments, hne, hsegments, hjoined⟩ := h.segments
    exact ⟨_, splitC_segments hplain hne hsegments hjoined⟩

/-- A stripped segment is a part of its own. -/
theorem splitC_single (hplain : PlainToken [delimiter]) {part : List Char} (hne : part ≠ [])
    (hstrip : strip part = part) (hsegment : Segment delimiter (cTokens part)) :
    splitC part delimiter = .ok [part] := by
  have hsplit := splitC_segments hplain (List.cons_ne_nil (cTokens part) [])
    (by simpa using hsegment) (List.intercalate_singleton ..)
  simpa [flatten_cTokens, hstrip, hne] using hsplit

/-- A segment of a text is read the same when it stands alone. -/
theorem cTokens_segment {text : List Char} {segments : List (List (List Char))}
    (hjoined : [[delimiter]].intercalate segments = cTokens text) {segment : List (List Char)}
    (hmem : segment ∈ segments) : cTokens segment.flatten = segment := by
  obtain ⟨front, back, rfl⟩ := List.append_of_mem hmem
  obtain ⟨before, after, hsplit⟩ : ∃ before after,
      [[delimiter]].intercalate (front ++ segment :: back) = before ++ segment ++ after := by
    clear hjoined hmem
    induction front with
    | nil =>
        by_cases hback : back = []
        · subst hback
          exact ⟨[], [], by simp⟩
        · exact ⟨[], [[delimiter]] ++ [[delimiter]].intercalate back, by
            rw [List.nil_append, List.intercalate_cons_of_ne_nil hback]
            simp⟩
    | cons first front ih =>
        obtain ⟨before, after, hsplit⟩ := ih
        refine ⟨first ++ [[delimiter]] ++ before, after, ?_⟩
        rw [List.cons_append, List.intercalate_cons_of_ne_nil (by simp), hsplit]
        simp
  exact cTokens_infix (hjoined.symm.trans hsplit)

/-- The tokens of joined texts. -/
theorem cTokens_intercalate (hquote : isQuote delimiter = false) {parts : List (List Char)}
    (h : ∀ part ∈ parts, LiteralsComplete part) :
    cTokens ([delimiter].intercalate parts) = [[delimiter]].intercalate (parts.map cTokens) := by
  induction parts with
  | nil => rfl
  | cons part parts ih =>
      obtain ⟨hpart, hparts⟩ := List.forall_mem_cons.mp h
      by_cases hnil : parts = []
      · subst hnil
        simp
      · have hne : parts.map cTokens ≠ [] := fun heq => hnil (List.map_eq_nil_iff.mp heq)
        rw [List.intercalate_cons_of_ne_nil hnil, List.map_cons,
          List.intercalate_cons_of_ne_nil hne, List.append_assoc, cTokens_append hpart,
          List.singleton_append,
          cTokens_single fun htrue => absurd (hquote.symm.trans htrue) (by decide), ih hparts,
          List.append_assoc, List.singleton_append]

/-- Splitting undoes joining. -/
theorem splitC_intercalate (hplain : PlainToken [delimiter])
    (hquote : isQuote delimiter = false) {parts : List (List Char)}
    (h : ∀ part ∈ parts, part ≠ [] ∧ strip part = part ∧ Segment delimiter (cTokens part) ∧
      LiteralsComplete part) :
    splitC ([delimiter].intercalate parts) delimiter = .ok parts := by
  by_cases hnil : parts = []
  · subst hnil
    exact splitC_segments hplain (List.cons_ne_nil [] []) (by simp [Segment.nil]) rfl
  · have hread := cTokens_intercalate hquote fun part hpart => (h part hpart).2.2.2
    have hne : parts.map cTokens ≠ [] := fun heq => hnil (List.map_eq_nil_iff.mp heq)
    have hsegments : ∀ segment ∈ parts.map cTokens, Segment delimiter segment := by
      intro segment hsegment
      obtain ⟨part, hpart, rfl⟩ := List.mem_map.mp hsegment
      exact (h part hpart).2.2.1
    have hstripped : (parts.map cTokens).map (fun segment => strip segment.flatten) = parts := by
      rw [List.map_map]
      refine (List.map_congr_left fun part hpart => ?_).trans (List.map_id parts)
      show strip (cTokens part).flatten = part
      rw [flatten_cTokens, (h part hpart).2.1]
    rw [splitC_segments hplain hne hsegments hread.symm, hstripped, List.filter_eq_self.mpr]
    intro part hpart
    exact decide_eq_true (h part hpart).1

end

/-- **`split_c` is exact.** It fails exactly on texts that are not well nested outside complete
literals. Its parts are the maximal segments between the delimiters of the top level, stripped and
without the empty ones; each is a part of its own. Joining parts and splitting again gives the parts
back, where every quote belongs to a literal. -/
theorem splitC_exact (text : List Char) {delimiter : Char}
    (hdelimiter : delimiter ∈ [',', ';', '+', '\n']) :
    ((∃ error, splitC text delimiter = .error error) ↔ ¬ WellNested (cTokens text)) ∧
      (∀ parts, splitC text delimiter = .ok parts →
        (∃ segments, [[delimiter]].intercalate segments = cTokens text ∧
          (∀ segment ∈ segments, Segment delimiter segment) ∧
          parts = (segments.map fun segment => strip segment.flatten).filter
            fun part => part ≠ []) ∧
        ∀ part ∈ parts, WellNested (cTokens part) ∧ splitC part delimiter = .ok [part]) ∧
      ∀ parts : List (List Char),
        (∀ part ∈ parts, part ≠ [] ∧ strip part = part ∧ Segment delimiter (cTokens part) ∧
          LiteralsComplete part) →
        splitC ([delimiter].intercalate parts) delimiter = .ok parts := by
  have hplain : PlainToken [delimiter] := by
    rintro c hc
    obtain rfl := (List.cons.inj hc).1
    simp only [List.mem_cons, List.not_mem_nil, or_false] at hdelimiter
    rcases hdelimiter with rfl | rfl | rfl | rfl <;> decide
  have hquote : isQuote delimiter = false := by
    simp only [List.mem_cons, List.not_mem_nil, or_false] at hdelimiter
    rcases hdelimiter with rfl | rfl | rfl | rfl <;> decide
  refine ⟨?_, ?_, fun parts => splitC_intercalate hplain hquote⟩
  · rw [← splitC_isOk_iff hplain]
    cases splitC text delimiter with
    | ok parts => simp
    | error error => simp
  · intro parts h
    obtain ⟨segments, -, hsegments, hjoined, rfl⟩ := segments_of_splitC h
    refine ⟨⟨segments, hjoined, hsegments, rfl⟩, fun part hpart => ?_⟩
    obtain ⟨hmem, hne⟩ := List.mem_filter.mp hpart
    obtain ⟨segment, hsegment, rfl⟩ := List.mem_map.mp hmem
    have hpart : Segment delimiter (cTokens (strip segment.flatten)) := by
      have hread : Segment delimiter (cTokens segment.flatten) := by
        rw [cTokens_segment hjoined hsegment]
        exact hsegments segment hsegment
      exact hread.strip
    exact ⟨hpart.wellNested,
      splitC_single hplain (of_decide_eq_true hne) (strip_strip _) hpart⟩

/-- A bracket that is not closed. -/
theorem splitC_exact_open : ¬ WellNested (cTokens ['(', 'a', ';', '"', ')', '"']) := by
  have hdelimiter : ';' ∈ [',', ';', '+', '\n'] := by decide
  have hfails : ∃ error, splitC ['(', 'a', ';', '"', ')', '"'] ';' = .error error :=
    ⟨unbalanced, rfl⟩
  exact (splitC_exact _ hdelimiter).1.mp hfails

end FlatpakBlackbox
