import FlatpakBlackbox.Basic.Text

set_option autoImplicit false

/-! # Lines of a text stream

`str.splitlines` and the newline translation of a file read in text mode. Python splits a string
at more characters than the newline an encoder writes: a form feed or U+2028 ends a line too. A
stream made of pieces that each end in a newline is split piece by piece.
-/

namespace PyLib

/-- The characters at which `str.splitlines` ends a line. -/
def isLineBreak (c : Char) : Bool :=
  let n := c.toNat
  (10 ≤ n && n ≤ 13) || (28 ≤ n && n ≤ 30) || n == 0x85 || n == 0x2028 || n == 0x2029

/-- The lines of the rest of a text when `line` is what has been read of the current one. -/
def splitLinesFrom (line : List Char) : List Char → List (List Char)
  | [] => if line.isEmpty then [] else [line]
  | '\r' :: '\n' :: rest => line :: splitLinesFrom [] rest
  | c :: rest =>
      if isLineBreak c then line :: splitLinesFrom [] rest else splitLinesFrom (line ++ [c]) rest

/-- `s.splitlines()`. -/
def splitLines (s : String) : List String := (splitLinesFrom [] s.toList).map String.ofList

/-- Reading in text mode: `\r\n` and a lone `\r` become `\n`. -/
def translateNewlines : List Char → List Char
  | [] => []
  | '\r' :: '\n' :: rest => '\n' :: translateNewlines rest
  | '\r' :: rest => '\n' :: translateNewlines rest
  | c :: rest => c :: translateNewlines rest

/-- The text that a file opened with `newline=None` gives for the characters it holds. -/
def readText (s : String) : String := String.ofList (translateNewlines s.toList)

/-- Without a `\r\n` in front, a character either ends the line or extends it. -/
theorem splitLinesFrom_cons {line rest : List Char} {c : Char}
    (h : ∀ rest', c = '\r' → rest = '\n' :: rest' → False) :
    splitLinesFrom line (c :: rest) =
      if isLineBreak c then line :: splitLinesFrom [] rest
      else splitLinesFrom (line ++ [c]) rest := by
  rw [splitLinesFrom]
  intro rest' hc hrest
  exact h rest' hc hrest

theorem splitLinesFrom_newline (line rest : List Char) :
    splitLinesFrom line ('\n' :: rest) = line :: splitLinesFrom [] rest := by
  rw [splitLinesFrom_cons fun _ hc _ => absurd hc (by decide)]
  exact if_pos (by decide)

/-- Translating the newlines does not move a line break. -/
theorem splitLinesFrom_translateNewlines (line cs : List Char) :
    splitLinesFrom line (translateNewlines cs) = splitLinesFrom line cs := by
  induction cs using translateNewlines.induct generalizing line with
  | case1 => rfl
  | case2 rest ih =>
      rw [translateNewlines, splitLinesFrom_newline, splitLinesFrom, ih]
  | case3 rest hrest ih =>
      have hcons : splitLinesFrom line ('\r' :: rest) = _ :=
        splitLinesFrom_cons fun rest' _ h => hrest rest' h
      rw [translateNewlines, splitLinesFrom_newline, hcons, if_pos (by decide), ih]
      exact fun rest' h => hrest rest' h
  | case4 c rest hcrlf hcr ih =>
      have hne : c ≠ '\r' := fun h => hcr h
      rw [translateNewlines, splitLinesFrom_cons fun _ h _ => hne h,
        splitLinesFrom_cons fun _ h _ => hne h, ih, ih]
      · exact fun rest' h => absurd h hne
      · exact hne

theorem splitLines_readText (s : String) : splitLines (readText s) = splitLines s := by
  rw [splitLines, readText, String.toList_ofList, splitLinesFrom_translateNewlines, splitLines]

/-- A newline separates the lines before it from the lines after it. -/
theorem splitLinesFrom_append (line x y : List Char) :
    splitLinesFrom line (x ++ '\n' :: y) =
      splitLinesFrom line (x ++ ['\n']) ++ splitLinesFrom [] y := by
  -- The newline may complete a `\r\n`; otherwise it leaves how `x` is read as it is.
  have extend : ∀ (c : Char) (rest y : List Char),
      (∀ rest', c = '\r' → rest = '\n' :: rest' → False) → ¬ (c = '\r' ∧ rest = []) →
      ∀ rest', c = '\r' → rest ++ '\n' :: y = '\n' :: rest' → False := by
    intro c rest y hcrlf hlast rest' hc hrest
    cases rest with
    | nil => exact hlast ⟨hc, rfl⟩
    | cons d rest =>
        have hd : d = '\n' := (List.cons.inj hrest).1
        exact hcrlf rest hc (by rw [hd])
  induction line, x using splitLinesFrom.induct with
  | case1 line =>
      rw [List.nil_append, List.nil_append, splitLinesFrom_newline, splitLinesFrom_newline]
      rfl
  | case2 line =>
      rw [List.nil_append, List.nil_append, splitLinesFrom_newline, splitLinesFrom_newline]
      rfl
  | case3 line rest ih =>
      show splitLinesFrom line ('\r' :: '\n' :: (rest ++ '\n' :: y)) =
        splitLinesFrom line ('\r' :: '\n' :: (rest ++ ['\n'])) ++ splitLinesFrom [] y
      rw [splitLinesFrom, splitLinesFrom, ih, List.cons_append]
  | case4 line c rest hcrlf hbreak ih =>
      by_cases hlast : c = '\r' ∧ rest = []
      · obtain ⟨rfl, rfl⟩ := hlast
        rfl
      · rw [List.cons_append, List.cons_append, splitLinesFrom_cons (extend c rest y hcrlf hlast),
          splitLinesFrom_cons (extend c rest [] hcrlf hlast), if_pos hbreak, if_pos hbreak, ih,
          List.cons_append]
  | case5 line c rest hcrlf hbreak ih =>
      have hlast : ¬ (c = '\r' ∧ rest = []) := fun h => hbreak (h.1 ▸ by decide)
      rw [List.cons_append, List.cons_append, splitLinesFrom_cons (extend c rest y hcrlf hlast),
        splitLinesFrom_cons (extend c rest [] hcrlf hlast), if_neg hbreak, if_neg hbreak, ih]

/-- A text that ends in a newline is split on its own. -/
theorem splitLines_append {s : String} (hs : ∃ x, s.toList = x ++ ['\n']) (t : String) :
    splitLines (s ++ t) = splitLines s ++ splitLines t := by
  obtain ⟨x, hx⟩ := hs
  have hlist : (s ++ t).toList = x ++ '\n' :: t.toList := by
    rw [String.toList_append, hx, List.append_assoc]
    rfl
  rw [splitLines, hlist, splitLinesFrom_append, List.map_append, ← hx]
  rfl

/-- A stream of pieces that each end in a newline, and what follows it. -/
theorem splitLines_join_append {pieces : List String}
    (h : ∀ piece ∈ pieces, ∃ x, piece.toList = x ++ ['\n']) (t : String) :
    splitLines (String.join pieces ++ t) = pieces.flatMap splitLines ++ splitLines t := by
  induction pieces with
  | nil => rw [String.join_nil, String.empty_append, List.flatMap_nil, List.nil_append]
  | cons piece pieces ih =>
      have hrest := ih fun p hp => h p (List.mem_cons_of_mem _ hp)
      rw [String.join_cons, String.append_assoc,
        splitLines_append (h piece (List.mem_cons_self ..)), hrest, List.flatMap_cons,
        List.append_assoc]

theorem splitLines_join {pieces : List String}
    (h : ∀ piece ∈ pieces, ∃ x, piece.toList = x ++ ['\n']) :
    splitLines (String.join pieces) = pieces.flatMap splitLines := by
  have hempty := splitLines_join_append h ""
  rwa [String.append_empty, show splitLines "" = [] from rfl, List.append_nil] at hempty

/-- Characters that break no line extend the current one. -/
theorem splitLinesFrom_append_of_not_break {cs : List Char} (h : ∀ c ∈ cs, isLineBreak c = false)
    (line rest : List Char) : splitLinesFrom line (cs ++ rest) =
    splitLinesFrom (line ++ cs) rest := by
  induction cs generalizing line with
  | nil => rw [List.nil_append, List.append_nil]
  | cons c cs ih =>
      have hc := h c (List.mem_cons_self ..)
      have hne : c ≠ '\r' := fun heq => by
        rw [heq] at hc
        exact absurd hc (by decide)
      rw [List.cons_append, splitLinesFrom_cons fun _ heq _ => hne heq, hc,
        if_neg Bool.false_ne_true, ih fun d hd => h d (List.mem_cons_of_mem _ hd),
          List.append_assoc]
      rfl

/-- A text without line breaks, ended by a newline, is one line. -/
theorem splitLines_line {s : String} (h : ∀ c ∈ s.toList, isLineBreak c = false) :
    splitLines (s ++ "\n") = [s] := by
  rw [splitLines, String.toList_append, splitLinesFrom_append_of_not_break h]
  show (splitLinesFrom s.toList ['\n']).map String.ofList = [s]
  rw [splitLinesFrom_newline, List.map_cons, String.ofList_toList]
  rfl

/-- The last line of a text needs no newline. -/
theorem splitLines_unterminated {s : String} (hne : s ≠ "")
    (h : ∀ c ∈ s.toList, isLineBreak c = false) : splitLines s = [s] := by
  have hlist := splitLinesFrom_append_of_not_break h [] []
  rw [List.append_nil, List.nil_append] at hlist
  have hempty : s.toList.isEmpty = false := by simpa using hne
  rw [splitLines, hlist, splitLinesFrom, hempty, if_neg Bool.false_ne_true, List.map_singleton,
    String.ofList_toList]

/-- A text without carriage returns is read as it is. -/
theorem readText_eq_self {s : String} (h : '\r' ∉ s.toList) : readText s = s := by
  have htranslate : ∀ cs : List Char, '\r' ∉ cs → translateNewlines cs = cs := by
    intro cs hcs
    induction cs using translateNewlines.induct with
    | case1 => rfl
    | case2 rest ih => simp at hcs
    | case3 rest hrest ih => simp at hcs
    | case4 c rest hcrlf hcr ih =>
        simp only [List.mem_cons, not_or] at hcs
        rw [translateNewlines, ih hcs.2]
        · exact fun rest' hc _ => hcr hc
        · exact hcr
  rw [readText, htranslate _ h, String.ofList_toList]

theorem isSpace_of_isLineBreak {c : Char} (h : isLineBreak c = true) : isSpace c = true := by
  simp only [isLineBreak, Bool.or_eq_true, Bool.and_eq_true, decide_eq_true_eq, beq_iff_eq] at h
  simp only [isSpace, Bool.or_eq_true, Bool.and_eq_true, decide_eq_true_eq, beq_iff_eq]
  omega

theorem not_isLineBreak_of_not_isSpace {c : Char} (h : isSpace c = false) :
    isLineBreak c = false := by
  by_contra hbreak
  rw [isSpace_of_isLineBreak (Bool.not_eq_false _ |>.mp hbreak)] at h
  cases h

/-- The lines of a text hold characters of the text, and no line break. -/
theorem forall_mem_splitLines {p : Char → Prop} {s line : String}
    (h : ∀ c ∈ s.toList, isLineBreak c = false → p c) (hline : line ∈ splitLines s) :
    ∀ c ∈ line.toList, p c := by
  have hfrom : ∀ current cs : List Char, (∀ c ∈ current, p c) →
      (∀ c ∈ cs, isLineBreak c = false → p c) →
      ∀ line ∈ splitLinesFrom current cs, ∀ c ∈ line, p c := by
    intro current cs
    induction current, cs using splitLinesFrom.induct with
    | case1 current hempty => simp [splitLinesFrom, hempty]
    | case2 current hempty =>
        intro hcurrent _ line hline
        rw [splitLinesFrom, if_neg hempty, List.mem_singleton] at hline
        rwa [hline]
    | case3 current rest ih =>
        intro hcurrent hcs line hline
        rw [splitLinesFrom] at hline
        rcases List.mem_cons.mp hline with rfl | hline
        · exact hcurrent
        · exact ih (by simp) (fun c hc => hcs c (by simp [hc])) line hline
    | case4 current c rest hcrlf hbreak ih =>
        intro hcurrent hcs line hline
        rw [splitLinesFrom_cons hcrlf, if_pos hbreak] at hline
        rcases List.mem_cons.mp hline with rfl | hline
        · exact hcurrent
        · exact ih (by simp) (fun d hd => hcs d (List.mem_cons_of_mem c hd)) line hline
    | case5 current c rest hcrlf hbreak ih =>
        intro hcurrent hcs line hline
        rw [splitLinesFrom_cons hcrlf, if_neg hbreak] at hline
        refine ih (fun d hd => ?_) (fun d hd => hcs d (List.mem_cons_of_mem c hd)) line hline
        rcases List.mem_append.mp hd with hd | hd
        · exact hcurrent d hd
        · rw [List.mem_singleton.mp hd]
          exact hcs c List.mem_cons_self (Bool.eq_false_iff.mpr hbreak)
  obtain ⟨cs, hcs, rfl⟩ := List.mem_map.mp hline
  rw [String.toList_ofList]
  exact hfrom [] s.toList (by simp) h cs hcs

/-- A text begins as its first line does, unless that line is empty. -/
theorem splitLines_head {s line : String} {lines : List String} {c : Char} {cs : List Char}
    (hs : s.toList = c :: cs) (hc : isLineBreak c = false) (h : splitLines s = line :: lines) :
    line.toList.head? = some c := by
  have hfrom : ∀ current cs : List Char, current.head? = some c →
      ∀ line lines, splitLinesFrom current cs = line :: lines → line.head? = some c := by
    intro current cs
    induction current, cs using splitLinesFrom.induct with
    | case1 current hempty => simp [splitLinesFrom, hempty]
    | case2 current hempty =>
        intro hcurrent line lines hlines
        rw [splitLinesFrom, if_neg hempty] at hlines
        rwa [← (List.cons.inj hlines).1]
    | case3 current rest ih =>
        intro hcurrent line lines hlines
        rw [splitLinesFrom] at hlines
        rwa [← (List.cons.inj hlines).1]
    | case4 current c rest hcrlf hbreak ih =>
        intro hcurrent line lines hlines
        rw [splitLinesFrom_cons hcrlf, if_pos hbreak] at hlines
        rwa [← (List.cons.inj hlines).1]
    | case5 current c rest hcrlf hbreak ih =>
        intro hcurrent line lines hlines
        rw [splitLinesFrom_cons hcrlf, if_neg hbreak] at hlines
        exact ih (by simp [hcurrent]) line lines hlines
  have hne : c ≠ '\r' := fun heq => by
    rw [heq] at hc
    exact absurd hc (by decide)
  rw [splitLines, hs, splitLinesFrom_cons fun _ heq _ => hne heq, if_neg (by simp [hc])] at h
  cases hlines : splitLinesFrom [c] cs with
  | nil =>
      rw [List.nil_append, hlines] at h
      cases h
  | cons first rest =>
      rw [List.nil_append, hlines, List.map_cons] at h
      rw [← (List.cons.inj h).1, String.toList_ofList]
      exact hfrom [c] cs rfl first rest hlines

/-- Lines that were joined and stripped are the lines again, when no space is at either end. -/
theorem splitLines_strip_join {texts : List String}
    (hbreak : ∀ text ∈ texts, ∀ c ∈ text.toList, isLineBreak c = false)
    (hhead : ∀ text, texts.head? = some text →
      ∃ c cs, text.toList = c :: cs ∧ isSpace c = false)
    (hlast : ∀ text, texts.getLast? = some text →
      ∃ c cs, text.toList = cs ++ [c] ∧ isSpace c = false) :
    splitLines (String.ofList (strip (String.join (texts.map (· ++ "\n"))).toList)) = texts := by
  rcases List.eq_nil_or_concat' texts with rfl | ⟨init, last, rfl⟩
  · rfl
  · obtain ⟨c, cs, hc, hspace⟩ := hlast last (by simp)
    have hjoin : String.join ((init ++ [last]).map (· ++ "\n")) =
        String.join (init.map (· ++ "\n")) ++ last ++ "\n" := by
      simp [String.join_append, String.append_assoc]
    have hstrip : strip (String.join ((init ++ [last]).map (· ++ "\n"))).toList =
        (String.join (init.map (· ++ "\n")) ++ last).toList := by
      rw [hjoin, String.toList_append]
      apply strip_append
      · intro d hd
        cases init with
        | nil =>
            obtain ⟨e, es, he, hspace'⟩ := hhead last rfl
            simp only [List.map_nil, String.join_nil, String.empty_append, he, List.head?_cons,
              Option.some.injEq] at hd
            rwa [← hd]
        | cons first rest =>
            obtain ⟨e, es, he, hspace'⟩ := hhead first rfl
            simp only [List.map_cons, String.join_cons, String.toList_append, he, List.cons_append,
              List.head?_cons, Option.some.injEq] at hd
            rwa [← hd]
      · intro d hd
        rw [String.toList_append, hc, ← List.append_assoc, List.getLast?_append] at hd
        simp at hd
        rwa [← hd]
      · simp [isSpace]
    have hpieces : ∀ piece ∈ init.map (· ++ "\n"), ∃ x, piece.toList = x ++ ['\n'] := by
      intro piece hpiece
      obtain ⟨text, _, rfl⟩ := List.mem_map.mp hpiece
      exact ⟨text.toList, String.toList_append⟩
    have hinit : ∀ text ∈ init, splitLines (text ++ "\n") = [text] := fun text htext =>
      splitLines_line (hbreak text (by simp [htext]))
    have hne : last ≠ "" := by
      rintro rfl
      simp at hc
    rw [hstrip, String.ofList_toList, splitLines_join_append hpieces,
      splitLines_unterminated hne (hbreak last (by simp)), List.flatMap_map,
      List.flatMap_congr hinit]
    simp

/-- `"\n".join(lines) + "\n"` is split into the lines again. -/
theorem splitLines_intercalate {lines : List String} (hne : lines ≠ [])
    (h : ∀ line ∈ lines, ∀ c ∈ line.toList, isLineBreak c = false) :
    splitLines ("\n".intercalate lines ++ "\n") = lines := by
  have hjoin : ∀ lines : List String, lines ≠ [] →
      "\n".intercalate lines ++ "\n" = String.join (lines.map (· ++ "\n")) := by
    intro lines
    induction lines with
    | nil => exact fun hnil => absurd rfl hnil
    | cons line rest ih =>
        intro _
        by_cases hrest : rest = []
        · subst hrest
          simp [String.join_cons]
        · rw [String.intercalate_cons_of_ne_nil hrest, String.append_assoc, ih hrest,
            List.map_cons, String.join_cons]
  have hpieces : ∀ piece ∈ lines.map (· ++ "\n"), ∃ x, piece.toList = x ++ ['\n'] := by
    intro piece hpiece
    obtain ⟨line, _, rfl⟩ := List.mem_map.mp hpiece
    exact ⟨line.toList, String.toList_append⟩
  rw [hjoin lines hne, splitLines_join hpieces, List.flatMap_map,
    List.flatMap_congr fun line hline => splitLines_line (h line hline)]
  simp

end PyLib
