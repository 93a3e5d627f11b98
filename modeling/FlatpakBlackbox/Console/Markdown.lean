import FlatpakBlackbox.Basic.Entities
import FlatpakBlackbox.Console.Summary

set_option autoImplicit false

/-! # Reading Markdown cells back

`markdown_cell` escapes a text twice: for HTML, and with numeric references for Markdown. Both
passes together are one code for each character, so a browser that replaces the references once
shows the text, whatever it looks like.
-/

namespace FlatpakBlackbox

open PyLib Regex

/-! ## One code for each character -/

/-- A numeric reference to a character. -/
def numericCode (c : Char) : List Char := '&' :: '#' :: (c.toNat.repr.toList ++ [';'])

/-- The second pass of `markdown_cell`. -/
def markdownCode (c : Char) : List Char :=
  if markdownSyntax.contains c then numericCode c else [c]

/-- The code of a character in a Markdown cell. -/
def cellCode (c : Char) : List Char :=
  if c = '&' then ['&', 'a', 'm', 'p', ';']
  else if c = '<' then ['&', 'l', 't', ';']
  else if c = '>' then ['&', 'g', 't', ';']
  else markdownCode c

theorem markdownCode_of_not_mem {c : Char} (h : c ∉ markdownSyntax) : markdownCode c = [c] := by
  rw [markdownCode, if_neg]
  simpa using h

/-- Replacing a character of other codes. -/
theorem replaceChar_flatMap (c : Char) (new : String) (code : Char → List Char) (text : List Char) :
    replaceChar c new (text.flatMap code) = text.flatMap fun d => replaceChar c new (code d) :=
  List.flatMap_assoc

/-- The two passes are one. -/
theorem toList_markdownCell [CategoryDatabase] (text : String) :
    (markdownCell text).toList = (safeText text).toList.flatMap cellCode := by
  have hpass : ∀ c, (if markdownSyntax.contains c then
      ("&#" ++ (([c] : List Char).headD ' ').toNat.repr ++ ";").toList else [c]) =
      markdownCode c := by
    intro c
    simp [markdownCode, numericCode]
  have hcode : ∀ c, (replaceChar '>' "&gt;" (replaceChar '<' "&lt;"
      (if c = '&' then "&amp;".toList else [c]))).flatMap markdownCode = cellCode c := by
    intro c
    rw [cellCode]
    by_cases hamp : c = '&'
    · rw [if_pos hamp, if_pos hamp]
      rfl
    by_cases hlt : c = '<'
    · rw [if_neg hamp, if_neg hamp, if_pos hlt, hlt]
      rfl
    by_cases hgt : c = '>'
    · rw [if_neg hamp, if_neg hamp, if_neg hlt, if_pos hgt, hgt]
      rfl
    simp [hamp, hlt, hgt, replaceChar]
  rw [markdownCell, String.toList_ofList, oneOf, Regex.sub_cls]
  simp only [hpass]
  calc (escapeHtml (safeText text).toList).flatMap markdownCode
      = ((safeText text).toList.flatMap fun c => replaceChar '>' "&gt;" (replaceChar '<' "&lt;"
          (if c = '&' then "&amp;".toList else [c]))).flatMap markdownCode := by
        rw [escapeHtml, ← replaceChar_flatMap, ← replaceChar_flatMap]
        rfl
    _ = (safeText text).toList.flatMap cellCode := by
        rw [List.flatMap_assoc]
        simp only [hcode]

/-! ## Replacing the references -/

theorem replaceCharref_named [EntityTable] {name value : List Char} (hname : name.head? ≠ some '#')
    (h : EntityTable.named name = some value) : replaceCharref ('&' :: name) = value := by
  unfold replaceCharref
  split
  · next digits hdigits =>
      rw [List.tail_cons] at hdigits
      exact absurd (by rw [hdigits]; rfl) hname
  · rw [List.tail_cons]
    dsimp only
    rw [List.findSome?_cons, List.take_length, h]
    simp

/-- The numeric references of a Markdown cell: their digits, and the characters they stand for. -/
theorem numericCode_syntax {c : Char} (h : c ∈ markdownSyntax) :
    ∃ d digits, c.toNat.repr.toList = d :: digits ∧ d.isDigit = true ∧
      (∀ e ∈ digits, e.isDigit = true) ∧
      numericReference (referenceNumber 10 (d :: (digits ++ [';']))) = [c] := by
  have hall : ∀ c ∈ markdownSyntax, Nat.toDigits 10 c.toNat ≠ [] ∧
      (Nat.toDigits 10 c.toNat).all Char.isDigit = true ∧
      numericReference (referenceNumber 10 (Nat.toDigits 10 c.toNat ++ [';'])) = [c] :=
    forall_mem_chars (by decide)
  obtain ⟨hne, hdigits, hvalue⟩ := hall c h
  obtain ⟨d, digits, hrepr⟩ := List.exists_cons_of_ne_nil hne
  rw [hrepr] at hdigits hvalue
  obtain ⟨hdigit, hrest⟩ := List.forall_mem_cons.mp (List.all_eq_true.mp hdigits)
  exact ⟨d, digits, by rw [Nat.toList_repr, hrepr], hdigit, hrest, hvalue⟩

/-- Reading a named reference to a single character. -/
theorem sub_named [EntityTable] (c : Char) (name : List Char) (d : Char) (rest : List Char)
    (hc : isReferenceName c = true) (hname : ∀ e ∈ name, isReferenceName e = true)
    (hlength : name.length ≤ 31) (hvalue : EntityTable.named (c :: (name ++ [';'])) = some [d]) :
    charref.sub replaceCharref ('&' :: c :: (name ++ [';']) ++ rest) =
      d :: charref.sub replaceCharref rest := by
  have hmatch : (charref.ends ('&' :: c :: (name ++ [';']) ++ rest)).head? = some rest := by
    have hends : (charref.ends ('&' :: c :: (name ++ ';' :: rest))).head? = some rest :=
      charref_named hc hname hlength
    simpa using hends
  have hsign : (c :: (name ++ [';'])).head? ≠ some '#' := by
    intro hsign
    rw [Option.some.inj hsign] at hc
    cases hc
  rw [sub_match (List.cons_ne_nil _ _) hmatch, replaceCharref_named hsign hvalue]
  rfl

/-- Reading a numeric reference of a Markdown cell. -/
theorem sub_numericCode [EntityTable] {c : Char} (h : c ∈ markdownSyntax) (rest : List Char) :
    charref.sub replaceCharref (numericCode c ++ rest) = c :: charref.sub replaceCharref rest := by
  obtain ⟨d, digits, hrepr, hdigit, hdigits, hvalue⟩ := numericCode_syntax h
  have hmatch : (charref.ends (numericCode c ++ rest)).head? = some rest := by
    have hends : (charref.ends ('&' :: '#' :: d :: (digits ++ ';' :: rest))).head? = some rest :=
      charref_numeric hdigit hdigits
    simpa [numericCode, hrepr] using hends
  have hread : replaceCharref (numericCode c) = [c] := by
    rw [← hvalue, numericCode, hrepr]
    -- A digit is none of the signs of a hexadecimal reference.
    unfold replaceCharref
    split
    · next found hfound =>
        obtain rfl : d :: (digits ++ [';']) = found := (List.cons.inj hfound).2
        split
        · next hex hhex =>
            rw [(List.cons.inj hhex).1] at hdigit
            exact absurd hdigit (by decide)
        · next hex hhex =>
            rw [(List.cons.inj hhex).1] at hdigit
            exact absurd hdigit (by decide)
        · rfl
    · next hname => exact (hname _ rfl).elim
  have hne : numericCode c ≠ [] := List.cons_ne_nil _ _
  rw [sub_match hne hmatch, hread]
  rfl

/-- Reading the code of a character gives the character, whatever follows. -/
theorem sub_cellCode [EntityTable] (c : Char) (rest : List Char) :
    charref.sub replaceCharref (cellCode c ++ rest) = c :: charref.sub replaceCharref rest := by
  unfold cellCode
  split
  · next hc =>
      rw [hc]
      exact sub_named 'a' ['m', 'p'] '&' rest rfl (forall_mem_chars (by decide)) (by decide)
        EntityTable.named_amp
  split
  · next hc =>
      rw [hc]
      exact sub_named 'l' ['t'] '<' rest rfl (forall_mem_chars (by decide)) (by decide)
        EntityTable.named_lt
  split
  · next hc =>
      rw [hc]
      exact sub_named 'g' ['t'] '>' rest rfl (forall_mem_chars (by decide)) (by decide)
        EntityTable.named_gt
  · next hamp _ _ =>
      by_cases hmem : c ∈ markdownSyntax
      · rw [markdownCode, if_pos (by simpa using hmem)]
        exact sub_numericCode hmem rest
      · have hinert : ∀ d ∈ [c], charref.Inert d := by
          intro d hd
          rw [List.mem_singleton.mp hd]
          exact charref_inert hamp
        rw [markdownCode_of_not_mem hmem, sub_append_of_inert hinert]
        rfl

/-! ## Inert output -/

/-- The digits of a numeric reference are no Markdown syntax, and nothing in it is a bracket or
breaks the line. -/
theorem of_mem_numericCode {c : Char} (hc : c ∈ markdownSyntax) :
    (∀ d ∈ c.toNat.repr.toList ++ [';'], d ∉ markdownSyntax) ∧
      ∀ d ∈ numericCode c, d ≠ '<' ∧ d ≠ '>' ∧ isLineBreak d = false := by
  have hall : ∀ c ∈ markdownSyntax,
      (Nat.toDigits 10 c.toNat ++ [';']).all (fun d => d ∉ markdownSyntax) = true ∧
      ('&' :: '#' :: (Nat.toDigits 10 c.toNat ++ [';'])).all
        (fun d => d ≠ '<' ∧ d ≠ '>' ∧ isLineBreak d = false) = true :=
    forall_mem_chars (by decide)
  obtain ⟨hdigits, hplain⟩ := hall c hc
  rw [numericCode, Nat.toList_repr]
  exact ⟨forall_mem_chars hdigits, forall_mem_chars hplain⟩

/-- What a code of a cell consists of. -/
theorem of_mem_cellCode {c d : Char} (hc : isLineBreak c = false) (h : d ∈ cellCode c) :
    d ≠ '<' ∧ d ≠ '>' ∧ isLineBreak d = false := by
  have hentity : ∀ code ∈ [['&', 'a', 'm', 'p', ';'], ['&', 'l', 't', ';'], ['&', 'g', 't', ';']],
      code.all (fun d => d ≠ '<' ∧ d ≠ '>' ∧ isLineBreak d = false) = true := by
    decide
  unfold cellCode at h
  split at h
  · exact forall_mem_chars (hentity _ (by simp)) d h
  split at h
  · exact forall_mem_chars (hentity _ (by simp)) d h
  split at h
  · exact forall_mem_chars (hentity _ (by simp)) d h
  · next hlt hgt =>
      by_cases hmem : c ∈ markdownSyntax
      · rw [markdownCode, if_pos (by simpa using hmem)] at h
        exact (of_mem_numericCode hmem).2 d h
      · rw [markdownCode_of_not_mem hmem, List.mem_singleton] at h
        rw [h]
        exact ⟨hlt, hgt, hc⟩

/-- Where Markdown syntax stands in a code: as the sign of a numeric reference. -/
theorem syntax_cellCode {c d : Char} {front back : List Char} (h : cellCode c = front ++ d :: back)
    (hd : d ∈ markdownSyntax) :
    d = '#' ∧ front = ['&'] ∧ c ∈ markdownSyntax ∧ back = c.toNat.repr.toList ++ [';'] := by
  have hmem : d ∈ cellCode c := by simp [h]
  have hentity : ∀ code ∈ [['&', 'a', 'm', 'p', ';'], ['&', 'l', 't', ';'], ['&', 'g', 't', ';']],
      code.all (fun d => d ∉ markdownSyntax) = true := by
    decide
  unfold cellCode at h hmem
  split at h
  · next hc =>
      rw [if_pos hc] at hmem
      exact absurd hd (forall_mem_chars (hentity _ (by simp)) d hmem)
  split at h
  · next hamp hc =>
      rw [if_neg hamp, if_pos hc] at hmem
      exact absurd hd (forall_mem_chars (hentity _ (by simp)) d hmem)
  split at h
  · next hamp hlt hc =>
      rw [if_neg hamp, if_neg hlt, if_pos hc] at hmem
      exact absurd hd (forall_mem_chars (hentity _ (by simp)) d hmem)
  · next hamp hlt hgt =>
      rw [if_neg hamp, if_neg hlt, if_neg hgt] at hmem
      by_cases hc : c ∈ markdownSyntax
      · rw [markdownCode, if_pos (by simpa using hc), numericCode] at h
        cases front with
        | nil =>
            rw [← (List.cons.inj h).1] at hd
            exact absurd hd (by decide)
        | cons first front =>
            obtain ⟨rfl, htail⟩ := List.cons.inj h
            cases front with
            | nil =>
                obtain ⟨rfl, rfl⟩ := List.cons.inj htail
                exact ⟨rfl, rfl, hc, rfl⟩
            | cons second front =>
                have hdigit : d ∈ c.toNat.repr.toList ++ [';'] := by
                  rw [(List.cons.inj htail).2]
                  simp
                exact absurd hd ((of_mem_numericCode hc).1 d hdigit)
      · rw [markdownCode_of_not_mem hc, List.mem_singleton] at hmem
        exact absurd (hmem ▸ hd) hc

/-- A character of joined codes stands in one of them. -/
theorem exists_code {code : Char → List Char} {cs front back : List Char} {d : Char}
    (h : cs.flatMap code = front ++ d :: back) :
    ∃ c ∈ cs, ∃ before left right after, code c = left ++ d :: right ∧ front = before ++ left ∧
      back = right ++ after := by
  rw [List.flatMap_def, List.flatten_eq_append_iff] at h
  rcases h with ⟨fronts, backs, hcodes, rfl, hback⟩ | ⟨fronts, left, e, right, backs,
    hcodes, rfl, hback⟩
  · obtain ⟨empty, right, rest, rfl, -, rfl⟩ := List.flatten_eq_cons_iff.mp hback.symm
    have hmem : d :: right ∈ cs.map code := by simp [hcodes]
    obtain ⟨c, hc, hcode⟩ := List.mem_map.mp hmem
    exact ⟨c, hc, fronts.flatten, [], right, rest.flatten, hcode, by simp, rfl⟩
  · obtain ⟨rfl, rfl⟩ := List.cons.inj hback
    have hmem : left ++ d :: right ∈ cs.map code := by simp [hcodes]
    obtain ⟨c, hc, hcode⟩ := List.mem_map.mp hmem
    exact ⟨c, hc, fronts.flatten, left, right, backs.flatten, hcode, rfl, rfl⟩

/-- **Markdown cells are reversible and inert.** Replacing the character references of a cell once
gives the safe text. A cell has no angle bracket and no line break, and the only Markdown syntax in
it is the sign of its own numeric references. -/
theorem markdownCell_reversible [CategoryDatabase] [EntityTable] (text : String) :
    unescape (markdownCell text) = safeText text ∧
      (∀ c ∈ (markdownCell text).toList, c ≠ '<' ∧ c ≠ '>' ∧ isLineBreak c = false) ∧
      ∀ front c back, (markdownCell text).toList = front ++ c :: back → c ∈ markdownSyntax →
        c = '#' ∧ ∃ before, front = before ++ ['&'] ∧ ∃ d ∈ markdownSyntax, ∃ after,
          back = d.toNat.repr.toList ++ ';' :: after := by
  refine ⟨?_, ?_, ?_⟩
  · have hread : ∀ cs : List Char, charref.sub replaceCharref (cs.flatMap cellCode) = cs := by
      intro cs
      induction cs with
      | nil => rfl
      | cons c cs ih => rw [List.flatMap_cons, sub_cellCode, ih]
    rw [unescape, toList_markdownCell, hread, String.ofList_toList]
  · have hinert : InertText 240 (safeText text) := inertText_safeText text (by decide)
    intro d hd
    rw [toList_markdownCell] at hd
    obtain ⟨c, hc, hd⟩ := List.mem_flatMap.mp hd
    exact of_mem_cellCode (hinert.unbroken c hc) hd
  · intro front d back h hd
    rw [toList_markdownCell] at h
    obtain ⟨c, -, before, left, right, after, hcode, rfl, rfl⟩ := exists_code h
    obtain ⟨rfl, rfl, hc, rfl⟩ := syntax_cellCode hcode hd
    exact ⟨rfl, before, rfl, c, hc, after, by simp⟩

/-- A cell that shows a reference shows it as text. -/
example : @unescape escapedEntities (.ofList ("&amp;lt&#59;".toList)) = "&lt;" := by
  decide +kernel

end FlatpakBlackbox
