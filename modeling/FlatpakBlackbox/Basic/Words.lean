import FlatpakBlackbox.Basic.Text

set_option autoImplicit false

/-! # Words

`" ".join(text.split())`: the words of a text with one space between them. The result is
characterised without words: it neither begins nor ends with a space and no two spaces are
adjacent (`Collapsed`), and every such text with plain spaces is its own result.
-/

namespace PyLib

/-- `text.split()`. -/
def splitWords (cs : List Char) : List (List Char) :=
  (cs.splitOnP isSpace).filter fun word => word ≠ []

/-- `" ".join(words)`. -/
def joinWords : List (List Char) → List Char
  | [] => []
  | [word] => word
  | word :: words => word ++ ' ' :: joinWords words

/-- `" ".join(text.split())`. -/
def collapse (cs : List Char) : List Char := joinWords (splitWords cs)

/-- No space at either end, and no two in a row. -/
structure Collapsed (cs : List Char) : Prop where
  head : ∀ c, cs.head? = some c → isSpace c = false
  last : ∀ c, cs.getLast? = some c → isSpace c = false
  apart : cs.IsChain fun c d => ¬ (isSpace c = true ∧ isSpace d = true)

theorem isSpace_of_mem_splitOnP {cs word : List Char} (h : word ∈ cs.splitOnP isSpace) {c : Char}
    (hc : c ∈ word) : c ∈ cs ∧ isSpace c = false := by
  induction cs generalizing word with
  | nil =>
      rw [List.splitOnP_nil, List.mem_singleton] at h
      rw [h] at hc
      cases hc
  | cons d cs ih =>
      rw [List.splitOnP_cons_eq_if_modifyHead] at h
      by_cases hd : isSpace d = true
      · rw [if_pos hd] at h
        rcases List.mem_cons.mp h with rfl | h
        · cases hc
        · exact ⟨List.mem_cons_of_mem d (ih h hc).1, (ih h hc).2⟩
      · rw [if_neg hd] at h
        cases hpieces : cs.splitOnP isSpace with
        | nil => exact absurd hpieces (List.splitOnP_ne_nil isSpace cs)
        | cons first pieces =>
            rw [hpieces] at ih
            rw [hpieces, List.modifyHead_cons] at h
            rcases List.mem_cons.mp h with rfl | h
            · rcases List.mem_cons.mp hc with rfl | hc
              · exact ⟨List.mem_cons_self, Bool.eq_false_iff.mpr hd⟩
              · have hfirst := ih List.mem_cons_self hc
                exact ⟨List.mem_cons_of_mem d hfirst.1, hfirst.2⟩
            · have hrest := ih (List.mem_cons_of_mem first h) hc
              exact ⟨List.mem_cons_of_mem d hrest.1, hrest.2⟩

/-- Words are not empty and hold no space. -/
theorem of_mem_splitWords {cs word : List Char} (h : word ∈ splitWords cs) :
    word ≠ [] ∧ ∀ c ∈ word, c ∈ cs ∧ isSpace c = false := by
  obtain ⟨hword, hne⟩ := List.mem_filter.mp h
  exact ⟨by simpa using hne, fun c hc => isSpace_of_mem_splitOnP hword hc⟩

/-! ## What joining gives -/

section

variable {words : List (List Char)}

theorem joinWords_cons {word : List Char} (h : words ≠ []) :
    joinWords (word :: words) = word ++ ' ' :: joinWords words := by
  cases words with
  | nil => exact absurd rfl h
  | cons next words => rfl

theorem joinWords_eq_nil (h : ∀ word ∈ words, word ≠ []) (hnil : joinWords words = []) :
    words = [] := by
  cases words with
  | nil => rfl
  | cons word rest =>
      have hword := h word List.mem_cons_self
      cases rest with
      | nil => exact absurd hnil hword
      | cons next rest =>
          rw [joinWords_cons (List.cons_ne_nil _ _)] at hnil
          simp at hnil

theorem mem_joinWords {c : Char} (h : c ∈ joinWords words) :
    c = ' ' ∨ ∃ word ∈ words, c ∈ word := by
  induction words with
  | nil => cases h
  | cons word rest ih =>
      cases rest with
      | nil => exact .inr ⟨word, List.mem_cons_self, h⟩
      | cons next rest =>
          rw [joinWords_cons (List.cons_ne_nil _ _)] at h
          rcases List.mem_append.mp h with h | h
          · exact .inr ⟨word, List.mem_cons_self, h⟩
          · rcases List.mem_cons.mp h with h | h
            · exact .inl h
            · rcases ih h with h | ⟨other, hother, hc⟩
              · exact .inl h
              · exact .inr ⟨other, List.mem_cons_of_mem word hother, hc⟩

theorem Collapsed.of_word {word : List Char} (h : ∀ c ∈ word, isSpace c = false) :
    Collapsed word where
  head c hc := h c (List.mem_of_head? hc)
  last c hc := h c (List.mem_of_getLast? hc)
  apart := by
    apply List.Pairwise.isChain
    apply List.pairwise_of_forall_mem_list
    intro c hc d _ hboth
    rw [h c hc] at hboth
    cases hboth.1

/-- A word, a space, and a collapsed text that is not empty. -/
theorem Collapsed.cons_word {word cs : List Char} (hne : word ≠ [])
    (hword : ∀ c ∈ word, isSpace c = false) (hcs : cs ≠ []) (h : Collapsed cs) :
    Collapsed (word ++ ' ' :: cs) := by
  have hfirst := Collapsed.of_word hword
  constructor
  · intro c hc
    rw [List.head?_append_of_ne_nil _ hne] at hc
    exact hfirst.head c hc
  · intro c hc
    rw [List.getLast?_append_of_ne_nil _ (List.cons_ne_nil _ _), List.getLast?_cons_of_ne_nil hcs]
      at hc
    exact h.last c hc
  · rw [List.isChain_append]
    refine ⟨hfirst.apart, ?_, ?_⟩
    · rw [List.isChain_cons]
      refine ⟨fun d hd hboth => ?_, h.apart⟩
      rw [h.head d hd] at hboth
      cases hboth.2
    · intro c hc d _ hboth
      rw [hfirst.last c hc] at hboth
      cases hboth.1

theorem collapsed_joinWords (h : ∀ word ∈ words, word ≠ [] ∧ ∀ c ∈ word, isSpace c = false) :
    Collapsed (joinWords words) := by
  induction words with
  | nil => exact ⟨by simp [joinWords], by simp [joinWords], List.isChain_nil⟩
  | cons word rest ih =>
      have hword := h word List.mem_cons_self
      have hrest : ∀ other ∈ rest, other ≠ [] ∧ ∀ c ∈ other, isSpace c = false :=
        fun other hother => h other (List.mem_cons_of_mem word hother)
      cases rest with
      | nil => exact Collapsed.of_word hword.2
      | cons next rest =>
          rw [joinWords_cons (List.cons_ne_nil _ _)]
          apply Collapsed.cons_word hword.1 hword.2 _ (ih hrest)
          intro hnil
          have := joinWords_eq_nil (fun other hother => (hrest other hother).1) hnil
          cases this

end

theorem collapsed_collapse (cs : List Char) : Collapsed (collapse cs) :=
  collapsed_joinWords fun _ hword =>
    ⟨(of_mem_splitWords hword).1, fun c hc => ((of_mem_splitWords hword).2 c hc).2⟩

/-- What collapsing leaves was there, apart from the spaces. -/
theorem mem_collapse {cs : List Char} {c : Char} (h : c ∈ collapse cs) :
    c = ' ' ∨ c ∈ cs ∧ isSpace c = false := by
  rcases mem_joinWords h with h | ⟨word, hword, hc⟩
  · exact .inl h
  · exact .inr ((of_mem_splitWords hword).2 c hc)

/-! ## What collapsing keeps -/

/-- A character that is none extends the word after it, or is one. -/
theorem collapse_cons {c : Char} (h : isSpace c = false) (cs : List Char) :
    collapse (c :: cs) = c :: match cs with
      | [] => []
      | d :: rest =>
          if isSpace d = true then
            if collapse rest = [] then [] else ' ' :: collapse rest
          else collapse (d :: rest) := by
  have hcons : ∀ cs, (c :: cs).splitOnP isSpace = (cs.splitOnP isSpace).modifyHead
    (List.cons c) := by
    intro cs
    rw [List.splitOnP_cons_eq_if_modifyHead, h]
    rfl
  cases cs with
  | nil => simp [collapse, splitWords, hcons, joinWords]
  | cons d rest =>
      by_cases hd : isSpace d = true
      · have hsplit : splitWords (c :: d :: rest) = [c] :: splitWords rest := by
          rw [splitWords, hcons, List.splitOnP_cons_eq_if_modifyHead, if_pos hd]
          simp [splitWords]
        simp only [if_pos hd]
        rw [collapse, hsplit]
        by_cases hnil : collapse rest = []
        · have hwords := joinWords_eq_nil (fun word hword => (of_mem_splitWords hword).1) hnil
          rw [if_pos hnil, hwords]
          rfl
        · have hwords : splitWords rest ≠ [] := fun heq => hnil (by rw [collapse, heq]; rfl)
          rw [if_neg hnil, joinWords_cons hwords]
          rfl
      · have hd' : isSpace d = false := Bool.eq_false_iff.mpr hd
        simp only [if_neg hd]
        cases hpieces : rest.splitOnP isSpace with
        | nil => exact absurd hpieces (List.splitOnP_ne_nil isSpace rest)
        | cons first pieces =>
            have hrest : (d :: rest).splitOnP isSpace = (d :: first) :: pieces := by
              rw [List.splitOnP_cons_eq_if_modifyHead, hd', hpieces]
              rfl
            have hsplit : splitWords (d :: rest) = (d :: first) :: pieces.filter (· ≠ []) := by
              rw [splitWords, hrest, List.filter_cons_of_pos (by simp)]
            have hsplit' : splitWords (c :: d :: rest) =
                (c :: d :: first) :: pieces.filter (· ≠ []) := by
              rw [splitWords, hcons, hrest, List.modifyHead_cons, List.filter_cons_of_pos (by simp)]
            rw [collapse, hsplit', collapse, hsplit]
            cases pieces.filter (· ≠ []) with
            | nil => rfl
            | cons next words => rfl

/-- **A collapsed text with plain spaces collapses to itself.** -/
theorem collapse_eq_self {cs : List Char} (h : Collapsed cs)
    (hplain : ∀ c ∈ cs, isSpace c = true → c = ' ') : collapse cs = cs := by
  -- A space is taken together with the character before it.
  induction hn : cs.length using Nat.strong_induction_on generalizing cs with
  | _ n ih =>
      cases cs with
      | nil => rfl
      | cons c rest =>
          have hc := h.head c rfl
          rw [collapse_cons hc]
          cases rest with
          | nil => rfl
          | cons d rest =>
              have happ := List.isChain_cons_cons.mp h.apart
              have hlast : ∀ e, (d :: rest).getLast? = some e → isSpace e = false := by
                intro e he
                exact h.last e (by rwa [List.getLast?_cons_cons])
              by_cases hd : isSpace d = true
              · obtain rfl := hplain d (by simp) hd
                cases rest with
                | nil => exact absurd (hlast ' ' rfl) (by decide)
                | cons e rest =>
                    have happ' := List.isChain_cons_cons.mp happ.2
                    have he : isSpace e = false := by
                      by_contra hspace
                      exact happ'.1 ⟨hd, Bool.not_eq_false _ |>.mp hspace⟩
                    have hrest : Collapsed (e :: rest) := by
                      refine ⟨fun x hx => ?_, fun x hx => ?_, happ'.2⟩
                      · rwa [← Option.some.inj hx]
                      · exact hlast x (by rwa [List.getLast?_cons_cons])
                    have hself := ih (e :: rest).length (by simp at hn ⊢; omega) hrest
                      (fun x hx => hplain x (by simp [List.mem_cons.mp hx])) rfl
                    simp [hd, hself]
              · have hd' : isSpace d = false := Bool.eq_false_iff.mpr hd
                have hrest : Collapsed (d :: rest) := by
                  refine ⟨fun x hx => ?_, hlast, happ.2⟩
                  rwa [← Option.some.inj hx]
                have hself := ih (d :: rest).length (by simp at hn ⊢; omega) hrest
                  (fun x hx => hplain x (List.mem_cons_of_mem c hx)) rfl
                simp [hd, hself]

/-- Replacing spaces by spaces leaves the words as they are. -/
theorem splitWords_map {f : Char → Char} (hspace : ∀ c, isSpace (f c) = isSpace c)
    (hself : ∀ c, isSpace c = false → f c = c) (cs : List Char) :
    splitWords (cs.map f) = splitWords cs := by
  have hsplit : (cs.map f).splitOnP isSpace = cs.splitOnP isSpace := by
    induction cs with
    | nil => rfl
    | cons c cs ih =>
        rw [List.map_cons, List.splitOnP_cons_eq_if_modifyHead, List.splitOnP_cons_eq_if_modifyHead,
          hspace, ih]
        by_cases hc : isSpace c = true
        · rw [if_pos hc, if_pos hc]
        · rw [if_neg hc, if_neg hc, hself c (Bool.eq_false_iff.mpr hc)]
  rw [splitWords, hsplit, splitWords]

end PyLib
