import FlatpakBlackbox.Catalogue.Nesting

set_option autoImplicit false

/-! # Tables in the C sources

`array` of `catalogue.py` reads the rows of an initializer `name[] = { {…}, … };`. The end of the
initializer is found by an expression that knows nothing of literals, and only what it cuts out is
read by `split_c`.
-/

namespace FlatpakBlackbox

open PyLib Regex PyException

/-! ## Comments -/

/-- The expression that finds the comments and the literals of a C text. -/
def cLexer : Regex :=
  .alt (.seq (lit ['/', '*']) (.seq (.lazy (.cls fun _ => true)) (lit ['*', '/'])))
    (.alt (.seq (lit ['/', '/']) (.star (.cls (· != '\n'))))
      (.alt (escapedLiteral '"') (escapedLiteral '\'')))

/-- Blanks in the place of a comment. -/
def blankComment (found : List Char) : List Char :=
  if ['/', '*'].isPrefixOf found ∨ ['/', '/'].isPrefixOf found then
    found.map fun c => if c = '\n' then c else ' '
  else found

/-- `uncomment(text)`. -/
def uncomment (text : List Char) : List Char := cLexer.sub blankComment text

/-! ## Finding the initializer -/

/-- `\b` between a character and a text. -/
def wordBoundary [UnicodeDatabase] (before : Option Char) (text : List Char) : Bool :=
  before.any isWord != text.head?.any isWord

/-- What follows these marks, each after white space, at the front of a text. -/
def afterMarks? : List Char → List Char → Option (List Char)
  | [], text => some text
  | mark :: marks, text =>
      match text.dropWhile isSpace with
      | c :: rest => if c = mark then afterMarks? marks rest else none
      | [] => none

/-- What follows `name\s*\[\s*\]\s*=\s*\{` at the front of a text. -/
def afterHeader? (name text : List Char) : Option (List Char) :=
  if name.isPrefixOf text then afterMarks? ['[', ']', '=', '{'] (text.drop name.length) else none

/-- `(.*?)\}\s*;`: the text up to the first brace that a semicolon follows. -/
def untilClosing? : List Char → Option (List Char)
  | [] => none
  | c :: rest =>
      if c = '}' ∧ (afterMarks? [';'] rest).isSome = true then some []
      else (untilClosing? rest).map (c :: ·)

/-- One row of the table. -/
def arrayRow (name row : List Char) : Except PyException (List (List Char)) :=
  if row.head? = some '{' ∧ row.getLast? = some '}' then splitC row.tail.dropLast
  else .error (catalogueError s!"Unrecognized row in {String.ofList name}[]: {String.ofList row}")

section

variable [UnicodeDatabase]

/-- The expression at one place of the text, behind a character. -/
def bodyAt? (name : List Char) (before : Option Char) (text : List Char) : Option (List Char) :=
  if wordBoundary before text then (afterHeader? name text).bind untilClosing? else none

/-- The group of the first match in a text. -/
def initializerBody? (name : List Char) : Option Char → List Char → Option (List Char)
  | before, [] => bodyAt? name before []
  | before, c :: rest =>
      (bodyAt? name before (c :: rest)).or (initializerBody? name (some c) rest)

/-- `array(text, name)`. -/
def Catalogue.array (text name : List Char) : Except PyException (List (List (List Char))) :=
  match initializerBody? name none text with
  | none => .error (catalogueError s!"Missing literal C array {String.ofList name}[]")
  | some body => do
      let rows ← splitC body
      rows.mapM (arrayRow name)

end

/-! ## What is cut out -/

/-- These marks, each after white space. -/
def IsSpaced : List Char → List Char → Prop
  | [], text => text = []
  | mark :: marks, text => ∃ spaces rest, (∀ c ∈ spaces, isSpace c = true) ∧ IsSpaced marks rest ∧
      text = spaces ++ mark :: rest

/-- `name[] = {`. -/
def IsHeader (name header : List Char) : Prop :=
  ∃ marks, IsSpaced ['[', ']', '=', '{'] marks ∧ header = name ++ marks

/-- `};`. -/
def IsClosing (closing : List Char) : Prop := ∃ marks, IsSpaced [';'] marks ∧ closing = '}' :: marks

/-- Behind `start`, and a character in front of the text, stands `name[] = {`, and what follows up
to a `};` is `body`. -/
def InitializerAt [UnicodeDatabase] (name : List Char) (before : Option Char)
    (text start body : List Char) : Prop :=
  ∃ header closing rest, IsHeader name header ∧ IsClosing closing ∧
    wordBoundary (start.getLast?.or before) header = true ∧
    text = start ++ (header ++ (body ++ (closing ++ rest)))

theorem isSpaced_append {marks : List Char} (hmarks : ∀ c ∈ marks, isSpace c = false)
    {front : List Char} (h : IsSpaced marks front) (rest : List Char) :
    afterMarks? marks (front ++ rest) = some rest := by
  induction marks generalizing front with
  | nil =>
      obtain rfl := h
      rfl
  | cons mark marks ih =>
      obtain ⟨hmark, hmarks⟩ := List.forall_mem_cons.mp hmarks
      obtain ⟨spaces, front, hspaces, hfront, rfl⟩ := h
      have hdrop : (spaces ++ (mark :: front) ++ rest).dropWhile isSpace =
        mark :: (front ++ rest) := by
        rw [List.append_assoc, List.dropWhile_append_of_pos hspaces, List.cons_append,
          List.dropWhile_cons_of_neg (by simp [hmark])]
      rw [afterMarks?, hdrop]
      show (if mark = mark then afterMarks? marks (front ++ rest) else none) = _
      rw [if_pos rfl, ih hmarks hfront]

theorem of_afterMarks? {marks text rest : List Char} (h : afterMarks? marks text = some rest) :
    ∃ front, IsSpaced marks front ∧ text = front ++ rest := by
  induction marks generalizing text with
  | nil => exact ⟨[], rfl, Option.some.inj h⟩
  | cons mark marks ih =>
      rw [afterMarks?] at h
      split at h
      · next c after hdrop =>
          split at h
          · next hc =>
              obtain ⟨front, hfront, rfl⟩ := ih h
              refine ⟨text.takeWhile isSpace ++ mark :: front,
                ⟨_, front, fun c hc => List.mem_takeWhile_imp hc, hfront, rfl⟩, ?_⟩
              rw [List.append_assoc, List.cons_append, ← hc, ← hdrop,
                List.takeWhile_append_dropWhile]
          · cases h
      · cases h

theorem afterHeader?_eq_some {name text rest : List Char} :
    afterHeader? name text = some rest ↔ ∃ header, IsHeader name header ∧
    text = header ++ rest := by
  have hmarks : ∀ c ∈ ['[', ']', '=', '{'], isSpace c = false := forall_mem_chars (by decide)
  unfold afterHeader?
  constructor
  · intro h
    split at h
    · next hname =>
        obtain ⟨after, rfl⟩ := List.isPrefixOf_iff_prefix.mp hname
        rw [List.drop_left] at h
        obtain ⟨front, hfront, rfl⟩ := of_afterMarks? h
        exact ⟨name ++ front, ⟨front, hfront, rfl⟩, (List.append_assoc _ _ _).symm⟩
    · cases h
  · rintro ⟨header, ⟨marks, hspaced, rfl⟩, rfl⟩
    have hname : name.isPrefixOf (name ++ marks ++ rest) = true := by
      rw [List.append_assoc]
      exact List.isPrefixOf_iff_prefix.mpr (List.prefix_append _ _)
    rw [if_pos hname, List.append_assoc, List.drop_left]
    exact isSpaced_append hmarks hspaced rest

theorem isClosing_iff {c : Char} {rest : List Char} :
    (c = '}' ∧ (afterMarks? [';'] rest).isSome = true) ↔
      ∃ closing after, IsClosing closing ∧ c :: rest = closing ++ after := by
  constructor
  · rintro ⟨rfl, hsome⟩
    obtain ⟨after, hafter⟩ := Option.isSome_iff_exists.mp hsome
    obtain ⟨marks, hmarks, rfl⟩ := of_afterMarks? hafter
    exact ⟨'}' :: marks, after, ⟨marks, hmarks, rfl⟩, rfl⟩
  · rintro ⟨closing, after, ⟨marks, hmarks, rfl⟩, htext⟩
    obtain ⟨rfl, rfl⟩ := List.cons.inj htext
    have hread : afterMarks? [';'] (marks ++ after) = some after :=
      isSpaced_append (forall_mem_chars (by decide)) hmarks after
    exact ⟨rfl, Option.isSome_iff_exists.mpr ⟨after, hread⟩⟩

/-- What stands in front of a `};`, unless it is at the front. -/
theorem exists_cons_of_closing {c : Char} {text body closing rest : List Char}
    (hclose : ¬ (c = '}' ∧ (afterMarks? [';'] text).isSome = true)) (hclosing : IsClosing closing)
    (htext : c :: text = body ++ (closing ++ rest)) :
    ∃ body', body = c :: body' ∧ text = body' ++ (closing ++ rest) := by
  cases body with
  | nil => exact absurd (isClosing_iff.mpr ⟨closing, rest, hclosing, htext⟩) hclose
  | cons d body =>
      obtain ⟨rfl, hrest⟩ := List.cons.inj htext
      exact ⟨body, rfl, hrest⟩

theorem exists_untilClosing {text body closing rest : List Char} (hclosing : IsClosing closing)
    (htext : text = body ++ (closing ++ rest)) : ∃ cut, untilClosing? text = some cut := by
  induction text generalizing body with
  | nil =>
      obtain ⟨marks, -, rfl⟩ := hclosing
      simp at htext
  | cons c text ih =>
      rw [untilClosing?]
      by_cases hclose : c = '}' ∧ (afterMarks? [';'] text).isSome = true
      · rw [if_pos hclose]
        exact ⟨[], rfl⟩
      · obtain ⟨body, -, hrest⟩ := exists_cons_of_closing hclose hclosing htext
        obtain ⟨cut, hcut⟩ := ih hrest
        rw [if_neg hclose, hcut]
        exact ⟨c :: cut, rfl⟩

/-- The shortest text in front of a `};`. -/
def ClosesFirst (text body : List Char) : Prop :=
  (∃ closing rest, IsClosing closing ∧ text = body ++ (closing ++ rest)) ∧
    ∀ body' closing rest, IsClosing closing → text = body' ++ (closing ++ rest) →
      body.length ≤ body'.length

theorem untilClosing?_eq_some {text body : List Char} :
    untilClosing? text = some body ↔ ClosesFirst text body := by
  induction text generalizing body with
  | nil =>
      constructor
      · intro h
        cases h
      · rintro ⟨⟨closing, rest, ⟨marks, -, rfl⟩, htext⟩, -⟩
        simp at htext
  | cons c text ih =>
      rw [untilClosing?]
      by_cases hclose : c = '}' ∧ (afterMarks? [';'] text).isSome = true
      · obtain ⟨closing, rest, hclosing, htext⟩ := isClosing_iff.mp hclose
        rw [if_pos hclose]
        constructor
        · intro h
          obtain rfl := Option.some.inj h
          exact ⟨⟨closing, rest, hclosing, htext⟩, fun _ _ _ _ _ => Nat.zero_le _⟩
        · rintro ⟨-, hshortest⟩
          have hzero := hshortest [] closing rest hclosing htext
          rw [List.eq_nil_of_length_eq_zero (Nat.le_zero.mp hzero)]
      · rw [if_neg hclose]
        constructor
        · intro h
          obtain ⟨body, hbody, rfl⟩ := Option.map_eq_some_iff.mp h
          obtain ⟨⟨closing, rest, hclosing, htext⟩, hshortest⟩ := ih.mp hbody
          refine ⟨⟨closing, rest, hclosing, congrArg (c :: ·) htext⟩, ?_⟩
          intro body' closing' rest' hclosing' htext'
          obtain ⟨body', rfl, hrest'⟩ := exists_cons_of_closing hclose hclosing' htext'
          exact Nat.succ_le_succ (hshortest body' closing' rest' hclosing' hrest')
        · rintro ⟨⟨closing, rest, hclosing, htext⟩, hshortest⟩
          obtain ⟨body, rfl, hrest⟩ := exists_cons_of_closing hclose hclosing htext
          refine Option.map_eq_some_iff.mpr ⟨body, ih.mpr ⟨⟨closing, rest, hclosing, hrest⟩, ?_⟩,
            rfl⟩
          intro body' closing' rest' hclosing' hrest'
          have hlength := hshortest (c :: body') closing' rest' hclosing' (congrArg (c :: ·) hrest')
          exact Nat.le_of_succ_le_succ hlength

section

variable [UnicodeDatabase] {name : List Char} {before : Option Char} {text start body : List Char}

/-- The first place where the text has such an initializer, up to its first end. -/
def FirstInitializer (name : List Char) (before : Option Char) (text start body : List Char) :
    Prop :=
  InitializerAt name before text start body ∧
    ∀ start' body', InitializerAt name before text start' body' →
      start.length < start'.length ∨ start.length = start'.length ∧ body.length ≤ body'.length

omit [UnicodeDatabase] in
theorem IsHeader.ne_nil {header : List Char} (h : IsHeader name header) : header ≠ [] := by
  obtain ⟨_, ⟨spaces, rest, -, -, rfl⟩, rfl⟩ := h
  simp

theorem wordBoundary_append {header rest : List Char} (hne : header ≠ []) :
    wordBoundary before (header ++ rest) = wordBoundary before header := by
  obtain ⟨c, header, rfl⟩ := List.exists_cons_of_ne_nil hne
  rfl

/-- An initializer at the front of a text. -/
theorem initializerAt_nil {body : List Char} : InitializerAt name before text [] body ↔
    wordBoundary before text = true ∧ ∃ rest, afterHeader? name text = some rest ∧
      ∃ closing after, IsClosing closing ∧ rest = body ++ (closing ++ after) := by
  constructor
  · rintro ⟨header, closing, after, hheader, hclosing, hboundary, rfl⟩
    refine ⟨(wordBoundary_append hheader.ne_nil).trans hboundary, _,
      afterHeader?_eq_some.mpr ⟨header, hheader, rfl⟩, closing, after, hclosing, rfl⟩
  · rintro ⟨hboundary, rest, hrest, closing, after, hclosing, rfl⟩
    obtain ⟨header, hheader, rfl⟩ := afterHeader?_eq_some.mp hrest
    exact ⟨header, closing, after, hheader, hclosing,
      (wordBoundary_append hheader.ne_nil).symm.trans hboundary, rfl⟩

theorem initializerAt_cons {c d : Char} : InitializerAt name before (c :: text) (d :: start) body ↔
    d = c ∧ InitializerAt name (some c) text start body := by
  have hlast : ((c :: start).getLast?.or before) = start.getLast?.or (some c) := by
    rw [List.getLast?_cons]
    cases start.getLast? <;> rfl
  constructor
  · rintro ⟨header, closing, rest, hheader, hclosing, hboundary, htext⟩
    obtain ⟨rfl, hrest⟩ := List.cons.inj htext
    rw [hlast] at hboundary
    exact ⟨rfl, header, closing, rest, hheader, hclosing, hboundary, hrest⟩
  · rintro ⟨rfl, header, closing, rest, hheader, hclosing, hboundary, htext⟩
    rw [← hlast] at hboundary
    exact ⟨header, closing, rest, hheader, hclosing, hboundary, congrArg (d :: ·) htext⟩

theorem bodyAt?_eq_some : bodyAt? name before text = some body ↔
    FirstInitializer name before text [] body := by
  unfold bodyAt?
  constructor
  · intro h
    split at h
    · next hboundary =>
        obtain ⟨rest, hrest, hbody⟩ := Option.bind_eq_some_iff.mp h
        obtain ⟨hclosing, hshortest⟩ := untilClosing?_eq_some.mp hbody
        refine ⟨initializerAt_nil.mpr ⟨hboundary, rest, hrest, hclosing⟩, ?_⟩
        intro start' body' hother
        cases start' with
        | cons c start' => exact .inl (Nat.succ_pos _)
        | nil =>
            obtain ⟨-, rest', hrest', closing, after, hclosing, htext⟩ :=
              initializerAt_nil.mp hother
            rw [← Option.some.inj (hrest.symm.trans hrest')] at htext
            exact .inr ⟨rfl, hshortest body' closing after hclosing htext⟩
    · cases h
  · rintro ⟨hat, hfirst⟩
    obtain ⟨hboundary, rest, hrest, hclosing⟩ := initializerAt_nil.mp hat
    rw [if_pos hboundary, hrest]
    refine untilClosing?_eq_some.mpr ⟨hclosing, fun body' closing after hclosing' htext => ?_⟩
    have hother := initializerAt_nil.mpr ⟨hboundary, rest, hrest, closing, after, hclosing', htext⟩
    exact (hfirst [] body' hother).elim (fun hlt => absurd hlt (Nat.lt_irrefl 0)) And.right

theorem exists_bodyAt (h : InitializerAt name before text [] body) :
    ∃ cut, bodyAt? name before text = some cut := by
  obtain ⟨hboundary, rest, hrest, closing, after, hclosing, htext⟩ := initializerAt_nil.mp h
  obtain ⟨cut, hcut⟩ := exists_untilClosing hclosing htext
  refine ⟨cut, ?_⟩
  rw [bodyAt?, if_pos hboundary, hrest, Option.bind_some, hcut]

/-- **The search finds the first initializer.** -/
theorem initializerBody?_eq_some : initializerBody? name before text = some body ↔
    ∃ start, FirstInitializer name before text start body := by
  induction text generalizing before with
  | nil =>
      rw [initializerBody?, bodyAt?_eq_some]
      refine ⟨fun h => ⟨[], h⟩, ?_⟩
      rintro ⟨start, hfirst⟩
      obtain ⟨header, closing, rest, hheader, -, -, htext⟩ := hfirst.1
      obtain rfl := (List.append_eq_nil_iff.mp htext.symm).1
      exact hfirst
  | cons c text ih =>
      rw [initializerBody?]
      cases hhere : bodyAt? name before (c :: text) with
      | some body' =>
          have hfirst' := bodyAt?_eq_some.mp hhere
          rw [Option.some_or]
          constructor
          · intro h
            obtain rfl := Option.some.inj h
            exact ⟨[], hfirst'⟩
          · rintro ⟨start, hfirst⟩
            have hstart : start = [] := by
              rcases hfirst.2 [] body' hfirst'.1 with hlt | ⟨heq, -⟩
              · exact absurd hlt (Nat.not_lt_zero _)
              · exact List.eq_nil_of_length_eq_zero heq
            subst hstart
            exact hhere.symm.trans (bodyAt?_eq_some.mpr hfirst)
      | none =>
          rw [Option.none_or, ih]
          have hcons : ∀ {start body}, InitializerAt name before (c :: text) start body →
              ∃ start', start = c :: start' ∧ InitializerAt name (some c) text start' body := by
            intro start body hat
            cases start with
            | cons d start =>
                obtain ⟨rfl, hat⟩ := initializerAt_cons.mp hat
                exact ⟨start, rfl, hat⟩
            | nil =>
                obtain ⟨cut, hcut⟩ := exists_bodyAt hat
                rw [hcut] at hhere
                cases hhere
          constructor
          · rintro ⟨start, hat, hfirst⟩
            refine ⟨c :: start, initializerAt_cons.mpr ⟨rfl, hat⟩, fun start' body' hother => ?_⟩
            obtain ⟨rest, rfl, hrest⟩ := hcons hother
            simpa using hfirst rest body' hrest
          · rintro ⟨start, hat, hfirst⟩
            obtain ⟨rest, rfl, hrest⟩ := hcons hat
            refine ⟨rest, hrest, fun start' body' hother => ?_⟩
            simpa using hfirst (c :: start') body' (initializerAt_cons.mpr ⟨rfl, hother⟩)

theorem exists_initializerBody (h : InitializerAt name before text start body) :
    ∃ cut, initializerBody? name before text = some cut := by
  induction start generalizing before text with
  | nil =>
      obtain ⟨cut, hcut⟩ := exists_bodyAt h
      cases text with
      | nil => exact ⟨cut, hcut⟩
      | cons c text =>
          rw [initializerBody?, hcut]
          exact ⟨cut, rfl⟩
  | cons d start ih =>
      cases text with
      | nil =>
          obtain ⟨_, _, _, -, -, -, htext⟩ := h
          cases htext
      | cons c text =>
          obtain ⟨cut, hcut⟩ := ih (initializerAt_cons.mp h).2
          rw [initializerBody?, hcut]
          cases bodyAt? name before (c :: text) with
          | none => exact ⟨cut, rfl⟩
          | some found => exact ⟨found, rfl⟩

end

/-! ## Tables -/

/-- The parts of a text between the commas at its top level. -/
def PartsOf (text : List Char) (parts : List (List Char)) : Prop :=
  ∃ segments, [[',']].intercalate segments = cTokens text ∧
    (∀ segment ∈ segments, Segment ',' segment) ∧
    parts = (segments.map fun segment => strip segment.flatten).filter fun part => part ≠ []

/-- A text that consists of brace groups, with the fields of each. -/
def IsTable (text : List Char) (rows : List (List (List Char))) : Prop :=
  ∃ parts, PartsOf text parts ∧
    List.Forall₂ (fun part fields => ∃ inner, part = '{' :: (inner ++ ['}']) ∧ PartsOf inner fields)
      parts rows

theorem plainToken_comma : PlainToken [','] := by
  rintro c hc
  obtain rfl := (List.cons.inj hc).1
  decide

theorem splitC_eq_ok_iff {text : List Char} {parts : List (List Char)} :
    splitC text = .ok parts ↔ PartsOf text parts := by
  constructor
  · intro h
    obtain ⟨segments, -, hsegments, hjoined, hparts⟩ := segments_of_splitC h
    exact ⟨segments, hjoined, hsegments, hparts⟩
  · rintro ⟨segments, hjoined, hsegments, rfl⟩
    by_cases hnil : segments = []
    · subst hnil
      have hsplit := splitC_segments plainToken_comma (List.cons_ne_nil ([] : List (List Char)) [])
        (by simp [Segment.nil]) hjoined
      exact hsplit
    · exact splitC_segments plainToken_comma hnil hsegments hjoined

theorem tableRow_eq_ok {name row : List Char} {fields : List (List Char)} :
    arrayRow name row = .ok fields ↔
      ∃ inner, row = '{' :: (inner ++ ['}']) ∧ PartsOf inner fields := by
  have hne : '{' ≠ '}' := by decide
  unfold arrayRow
  constructor
  · intro h
    split at h
    · next hrow => exact ⟨_, (enclosed_iff hne).mp hrow, splitC_eq_ok_iff.mp h⟩
    · cases h
  · rintro ⟨inner, rfl, hfields⟩
    rw [if_pos ((enclosed_iff hne).mpr (by simp)), List.tail_cons, List.dropLast_concat]
    exact splitC_eq_ok_iff.mpr hfields

/-- The rows that `split_c` reads. -/
theorem isTable_iff {name text : List Char} {rows : List (List (List Char))} :
    (do let parts ← splitC text; parts.mapM (arrayRow name)) = .ok rows ↔ IsTable text rows := by
  rw [bind_eq_ok]
  refine exists_congr fun parts => and_congr splitC_eq_ok_iff ?_
  rw [mapM_eq_ok]
  constructor
  · exact fun h => h.imp fun _ _ => tableRow_eq_ok.mp
  · exact fun h => h.imp fun _ _ => tableRow_eq_ok.mpr

/-! ## Counting semicolons -/

theorem count_intercalate {c d : Char} (hne : c ≠ d) (pieces : List (List Char)) :
    ([d].intercalate pieces).count c = (pieces.map (List.count c)).sum := by
  induction pieces with
  | nil => rfl
  | cons piece pieces ih =>
      by_cases hnil : pieces = []
      · subst hnil
        simp
      · rw [List.intercalate_cons_of_ne_nil hnil, List.count_append, List.count_append, ih,
          List.map_cons, List.sum_cons, List.count_singleton, if_neg (by simpa using Ne.symm hne)]
        omega

theorem sum_count_filter (c : Char) (parts : List (List Char)) :
    ((parts.filter fun part => part ≠ []).map (List.count c)).sum =
    (parts.map (List.count c)).sum := by
  induction parts with
  | nil => rfl
  | cons part parts ih =>
      by_cases hnil : part = []
      · subst hnil
        simpa using ih
      · rw [List.filter_cons_of_pos (by simpa using hnil), List.map_cons, List.sum_cons, ih,
          List.map_cons, List.sum_cons]

/-- No semicolon of a text is lost between its parts. -/
theorem PartsOf.count {text : List Char} {parts : List (List Char)} (h : PartsOf text parts) :
    text.count ';' = (parts.map (List.count ';')).sum := by
  obtain ⟨pieces, rfl, rfl⟩ := splitC_eq_ok (splitC_eq_ok_iff.mpr h)
  rw [count_intercalate (by decide), sum_count_filter, List.map_map]
  refine congrArg List.sum (List.map_congr_left fun piece _ => ?_)
  exact (count_strip (by decide) piece).symm

/-- No semicolon of a table is lost between its fields. -/
theorem IsTable.count {text : List Char} {rows : List (List (List Char))} (h : IsTable text rows) :
    text.count ';' = (rows.map fun fields => (fields.map (List.count ';')).sum).sum := by
  obtain ⟨parts, hparts, hrows⟩ := h
  rw [hparts.count]
  clear hparts
  induction hrows with
  | nil => rfl
  | cons hrow _ ih =>
      obtain ⟨inner, rfl, hfields⟩ := hrow
      rw [List.map_cons, List.sum_cons, List.map_cons, List.sum_cons, ih, ← hfields.count]
      simp

/-! ## What `array` returns -/

section

variable [UnicodeDatabase] {name text start cut : List Char}

theorem catalogueArray_eq_ok {rows : List (List (List Char))} :
    Catalogue.array text name = .ok rows ↔
    ∃ start cut, FirstInitializer name none text start cut ∧ IsTable cut rows := by
  unfold Catalogue.array
  cases hbody : initializerBody? name none text with
  | none =>
      constructor
      · intro h
        cases h
      · rintro ⟨start, cut, hfirst, -⟩
        rw [initializerBody?_eq_some.mpr ⟨start, hfirst⟩] at hbody
        cases hbody
  | some body =>
      dsimp only
      rw [isTable_iff]
      constructor
      · intro h
        obtain ⟨start, hfirst⟩ := initializerBody?_eq_some.mp hbody
        exact ⟨start, body, hfirst, h⟩
      · rintro ⟨start, cut, hfirst, h⟩
        rw [initializerBody?_eq_some.mpr ⟨start, hfirst⟩] at hbody
        rwa [Option.some.inj hbody] at h

omit [UnicodeDatabase] in
theorem stackAfter_failsWith (delimiter : Char) (token stack : List Char) :
    FailsWith (· = unbalanced) (stackAfter delimiter token stack) := by
  unfold stackAfter
  repeat' split
  all_goals first | exact .ok _ | exact .error rfl

omit [UnicodeDatabase] in
theorem splitTokens_failsWith (delimiter : Char) (tokens : List (List Char))
    (stack piece : List Char) :
    FailsWith (· = unbalanced) (splitTokens delimiter tokens stack piece) := by
  induction tokens generalizing stack piece with
  | nil =>
      rw [splitTokens]
      split
      · exact .ok _
      · exact .error rfl
  | cons token tokens ih =>
      rw [splitTokens]
      refine (stackAfter_failsWith _ _ _).bind fun after => ?_
      cases after with
      | some stack => exact ih _ _
      | none => exact (ih _ _).bind fun _ => .ok _

theorem catalogueArray_failsWith (text name : List Char) :
    FailsWith (fun e => ∃ message, e = catalogueError message) (Catalogue.array text name) := by
  have hsplit : ∀ part, FailsWith (fun e => ∃ message, e = catalogueError message) (splitC part) :=
    fun part => .bind (fun e h => ⟨_, splitTokens_failsWith _ _ _ _ e h⟩) fun _ => .ok _
  unfold Catalogue.array
  split
  · exact .error ⟨_, rfl⟩
  · refine (hsplit _).bind fun rows => .mapM fun row _ => ?_
    unfold arrayRow
    split
    · exact hsplit _
    · exact .error ⟨_, rfl⟩

/-- Where an initializer begins, what follows its header is determined. -/
theorem InitializerAt.tail {before : Option Char} {body : List Char}
    (h : InitializerAt name before text start body) :
    text.take start.length = start ∧ ∃ closing rest, IsClosing closing ∧
      afterHeader? name (text.drop start.length) = some (body ++ (closing ++ rest)) := by
  obtain ⟨header, closing, rest, hheader, hclosing, -, rfl⟩ := h
  refine ⟨List.take_left, closing, rest, hclosing, ?_⟩
  rw [List.drop_left]
  exact afterHeader?_eq_some.mpr ⟨header, hheader, rfl⟩

/-- The first initializer of a text is at one place, and has one end. -/
theorem FirstInitializer.unique {start' cut' : List Char}
    (h : FirstInitializer name none text start cut)
    (h' : FirstInitializer name none text start' cut') : start = start' ∧ cut = cut' := by
  have hlengths : start.length = start'.length ∧ cut.length = cut'.length := by
    have hle := h.2 _ _ h'.1
    have hge := h'.2 _ _ h.1
    omega
  obtain ⟨hstart, closing, rest, -, htail⟩ := h.1.tail
  obtain ⟨hstart', closing', rest', -, htail'⟩ := h'.1.tail
  rw [← hlengths.1] at hstart' htail'
  have hrest := Option.some.inj (htail.symm.trans htail')
  exact ⟨hstart.symm.trans hstart', (List.append_inj hrest hlengths.2).1⟩

omit [UnicodeDatabase] in
/-- White space and a semicolon that begin in a text in front of a brace end in it. -/
theorem semicolon_mem {front spaces rest rest' : List Char}
    (hspaces : ∀ c ∈ spaces, isSpace c = true)
    (h : front ++ '}' :: rest = spaces ++ ';' :: rest') : ';' ∈ front := by
  induction front generalizing spaces with
  | nil =>
      cases spaces with
      | nil => exact absurd (List.cons.inj h).1 (by decide)
      | cons c spaces =>
          have hc := hspaces c (List.mem_cons_self ..)
          rw [← (List.cons.inj h).1] at hc
          exact absurd hc (by decide)
  | cons d front ih =>
      cases spaces with
      | nil =>
          rw [(List.cons.inj h).1]
          exact List.mem_cons_self ..
      | cons c spaces =>
          have hrest := ih (fun d hd => hspaces d (List.mem_cons_of_mem _ hd)) (List.cons.inj h).2
          exact List.mem_cons_of_mem _ hrest

omit [UnicodeDatabase] in
/-- **A table that is cut short is not the table**: the semicolon at the cut is in no field. -/
theorem eq_of_isTable {body closing rest closing' rest' : List Char}
    {rows : List (List (List Char))} (hclosing : IsClosing closing) (hclosing' : IsClosing closing')
    (htext : body ++ (closing ++ rest) = cut ++ (closing' ++ rest'))
    (hle : cut.length ≤ body.length)
    (hbody : IsTable body rows) (hcut : IsTable cut rows) : cut = body := by
  obtain ⟨more, rfl⟩ : ∃ more, body = cut ++ more :=
    (List.prefix_of_prefix_length_le (htext ▸ List.prefix_append cut _)
      (List.prefix_append body (closing ++ rest)) hle).imp fun _ h => h.symm
  cases more with
  | nil => exact (List.append_nil cut).symm
  | cons c more =>
      obtain ⟨marks, -, rfl⟩ := hclosing
      obtain ⟨marks', ⟨spaces, end', hspaces, hend, rfl⟩, rfl⟩ := hclosing'
      have hend : end' = [] := hend
      subst hend
      have hmore : c = '}' ∧ more ++ '}' :: (marks ++ rest) = spaces ++ ';' :: rest' := by
        simpa using htext
      have hcount := hbody.count.trans hcut.count.symm
      have hpos := List.count_pos_iff.mpr (List.mem_cons_of_mem c (semicolon_mem hspaces hmore.2))
      rw [List.count_append] at hcount
      omega

/-- **When a table is read whole.** The text, behind its comments, has an initializer of the table
with these rows. Reading it gives all rows with all fields, or fails, if and only if what the search
cuts out is the body of that initializer, or is no table, or belongs to an initializer in front of
it and is a table with the same rows. -/
theorem array_whole_iff {source name start body : List Char} {rows : List (List (List Char))}
    (hinitializer : InitializerAt name none (uncomment source) start body)
    (hrows : IsTable body rows) :
    (Catalogue.array (uncomment source) name = .ok rows ∨
        ∃ message, Catalogue.array (uncomment source) name = .error (catalogueError message)) ↔
      ∃ start' cut, FirstInitializer name none (uncomment source) start' cut ∧
        (start' = start ∧ cut = body ∨ (¬ ∃ rows', IsTable cut rows') ∨
          start'.length < start.length ∧ IsTable cut rows) := by
  obtain ⟨hstart, closing, rest, hclosing, htail⟩ := hinitializer.tail
  obtain ⟨cut, hsearch⟩ := exists_initializerBody hinitializer
  obtain ⟨start', hfirst⟩ := initializerBody?_eq_some.mp hsearch
  constructor
  · rintro (hok | ⟨message, herror⟩)
    · obtain ⟨start', cut, hfirst, hcut⟩ := catalogueArray_eq_ok.mp hok
      refine ⟨start', cut, hfirst, ?_⟩
      rcases hfirst.2 _ _ hinitializer with hlt | ⟨heq, hle⟩
      · exact .inr (.inr ⟨hlt, hcut⟩)
      · obtain ⟨hstart', closing', rest', hclosing', htail'⟩ := hfirst.1.tail
        rw [heq] at hstart' htail'
        have htext := Option.some.inj (htail.symm.trans htail')
        exact .inl ⟨hstart'.symm.trans hstart,
          eq_of_isTable hclosing hclosing' htext hle hrows hcut⟩
    · refine ⟨start', cut, hfirst, .inr (.inl ?_)⟩
      rintro ⟨rows', hcut⟩
      have hok := catalogueArray_eq_ok.mpr ⟨start', cut, hfirst, hcut⟩
      rw [herror] at hok
      cases hok
  · rintro ⟨start'', cut'', hfirst'', hcases⟩
    obtain ⟨rfl, rfl⟩ := hfirst.unique hfirst''
    have hread : IsTable cut rows ∨ ¬ ∃ rows', IsTable cut rows' := by
      rcases hcases with ⟨-, rfl⟩ | hnone | ⟨-, hcut⟩
      · exact .inl hrows
      · exact .inr hnone
      · exact .inl hcut
    rcases hread with hcut | hnone
    · exact .inl (catalogueArray_eq_ok.mpr ⟨start', cut, hfirst, hcut⟩)
    · cases hresult : Catalogue.array (uncomment source) name with
      | ok rows' =>
          obtain ⟨start'', cut'', hfirst'', hcut⟩ := catalogueArray_eq_ok.mp hresult
          obtain ⟨-, rfl⟩ := hfirst.unique hfirst''
          exact absurd ⟨rows', hcut⟩ hnone
      | error e =>
          obtain ⟨message, rfl⟩ := catalogueArray_failsWith _ _ e hresult
          exact .inr ⟨message, rfl⟩

end

/-! ## Small tables -/

section Small

/-- A table with this body. -/
def tableText (body : List Char) : List Char := ['x', '[', ']', '=', '{'] ++ body ++ ['}', ';']

theorem initializerAt_tableText (body : List Char) :
    @InitializerAt asciiOnly ['x'] none (tableText body) [] body := by
  have hspaced : IsSpaced ['[', ']', '=', '{'] ['[', ']', '=', '{'] :=
    ⟨[], _, by simp, ⟨[], _, by simp, ⟨[], _, by simp, ⟨[], _, by simp, rfl, rfl⟩, rfl⟩, rfl⟩, rfl⟩
  have hclosing : IsSpaced [';'] [';'] := ⟨[], _, by simp, rfl, rfl⟩
  refine ⟨['x', '[', ']', '=', '{'], ['}', ';'], [], ⟨_, hspaced, rfl⟩, ⟨_, hclosing, rfl⟩, rfl, ?_⟩
  simp [tableText]

def wholeBody : List Char := "\x7b\"a\",f(1)\x7d".toList

/-- The theorem on a table without semicolons in it. -/
theorem array_whole_iff_small : ∃ start cut,
    @FirstInitializer asciiOnly ['x'] none (uncomment (tableText wholeBody)) start cut ∧
      (start = [] ∧ cut = wholeBody ∨ (¬ ∃ rows, IsTable cut rows) ∨
        start.length < 0 ∧ IsTable cut [["\"a\"".toList, "f(1)".toList]]) := by
  have huncomment : uncomment (tableText wholeBody) = tableText wholeBody := by rfl
  have hinitializer : @InitializerAt asciiOnly ['x'] none (uncomment (tableText wholeBody)) []
      wholeBody := huncomment ▸ initializerAt_tableText wholeBody
  have hrows : IsTable wholeBody [["\"a\"".toList, "f(1)".toList]] :=
    isTable_iff.mp (show (do let parts ← splitC wholeBody; parts.mapM (arrayRow ['x'])) = _ by rfl)
  exact (@array_whole_iff asciiOnly _ _ _ _ _ hinitializer hrows).mp (.inl (by rfl))

/-- The body of a table with the text `b } };` in it. -/
def cutBody : List Char := "\x7b\"a\", \"b \x7d \x7d;\"\x7d,\x7b\"c\"\x7d".toList

def cutRows : List (List (List Char)) :=
  [["\"a\"".toList, "\"b \x7d \x7d;\"".toList], ["\"c\"".toList]]

/-- **A truncated table.** A brace and a semicolon in a literal end the search, and what is cut out
reads as a table of its own. -/
theorem array_truncated :
    @InitializerAt asciiOnly ['x'] none (uncomment (tableText cutBody)) [] cutBody ∧
      IsTable cutBody cutRows ∧
      @Catalogue.array asciiOnly (uncomment (tableText cutBody)) ['x'] =
        .ok [["\"a\"".toList, "\"b".toList]] ∧
      ¬ (@Catalogue.array asciiOnly (uncomment (tableText cutBody)) ['x'] = .ok cutRows ∨
        ∃ message, @Catalogue.array asciiOnly (uncomment (tableText cutBody)) ['x'] =
          .error (catalogueError message)) := by
  have huncomment : uncomment (tableText cutBody) = tableText cutBody := by rfl
  have hrows : IsTable cutBody cutRows :=
    isTable_iff.mp (show (do let parts ← splitC cutBody; parts.mapM (arrayRow ['x'])) = _ by rfl)
  have hresult : @Catalogue.array asciiOnly (uncomment (tableText cutBody)) ['x'] =
      .ok [["\"a\"".toList, "\"b".toList]] := by rfl
  refine ⟨huncomment ▸ initializerAt_tableText cutBody, hrows, hresult, ?_⟩
  rw [hresult]
  rintro (hok | ⟨message, herror⟩)
  · have hlength := congrArg List.length (Except.ok.inj hok)
    cases hlength
  · cases herror

end Small

end FlatpakBlackbox
