import FlatpakBlackbox.Basic.Lines
import FlatpakBlackbox.Basic.Regex
import FlatpakBlackbox.Basic.Words

set_option autoImplicit false

/-! # Inert console text

`safe_text` of `console_output.py`: the one way in which texts of a target or of an exception
reach the log of a run. It removes terminal commands, drops control characters, puts the words on
one line and bounds its length.
-/

namespace FlatpakBlackbox

open PyLib Regex

/-- What Python asks the Unicode database about characters beyond the C1 controls. -/
class CategoryDatabase where
  /-- `unicodedata.category(char).startswith("C")`. -/
  isOther : Char → Bool

/-- `unicodedata.category(char).startswith("C")`. Below U+00A0 these are the control characters. -/
def isOther [CategoryDatabase] (c : Char) : Bool :=
  if c.toNat < 0xA0 then c.toNat < 0x20 || 0x7F ≤ c.toNat else CategoryDatabase.isOther c

/-! ## Terminal commands -/

def bel : Char := '\x07'
def esc : Char := '\x1b'
/-- ST, the string terminator. -/
def stringTerminator : Char := '\u009c'

/-- A character among these. -/
def oneOf (cs : List Char) : Regex := .cls fun c => cs.contains c

/-- A character between two. -/
def between (first last : Char) : Regex := .cls fun c => first ≤ c && c ≤ last

/-- `(?:\x1b\]|\x9d)[^\x07\x1b\x9c]*(?:\x07|\x1b\\|\x9c|$)`. -/
def operatingSystemCommand : Regex :=
  .seq (.alt (.lit [esc, ']']) (oneOf ['\u009d']))
    (.seq (.star (.cls fun c => !([bel, esc, stringTerminator].contains c)))
      (.alt (oneOf [bel])
        (.alt (.lit [esc, '\\']) (.alt (oneOf [stringTerminator]) .atEnd))))

/-- `(?:\x1b[P^_X]|[\x90\x98\x9e\x9f])[^\x1b\x9c]*(?:\x1b\\|\x9c|$)`. -/
def controlString : Regex :=
  .seq (.alt (.seq (oneOf [esc]) (oneOf ['P', '^', '_', 'X']))
      (oneOf ['\u0090', '\u0098', '\u009e', '\u009f']))
    (.seq (.star (.cls fun c => !([esc, stringTerminator].contains c)))
      (.alt (.lit [esc, '\\']) (.alt (oneOf [stringTerminator]) .atEnd)))

/-- `(?:\x1b\[|\x9b)[0-?]*`, then any of the characters from the space to the slash, then
`[@-~]`. -/
def controlSequence : Regex :=
  .seq (.alt (.lit [esc, '[']) (oneOf ['\u009b']))
    (.seq (.star (between '0' '?')) (.seq (.star (between ' ' '/')) (between '@' '~')))

/-- `\x1b`, then any of the characters from the space to the slash, then `[@-~]`. -/
def escapeSequence : Regex :=
  .seq (oneOf [esc]) (.seq (.star (between ' ' '/')) (between '@' '~'))

/-- `_ESCAPES`. -/
def escapes : Regex :=
  .alt operatingSystemCommand (.alt controlString (.alt controlSequence escapeSequence))

/-! ## The function -/

/-- `text[:n]`. -/
def sliceTo (n : Int) (cs : List Char) : List Char :=
  if 0 ≤ n then cs.take n.toNat else cs.take (cs.length - (-n).toNat)

/-- `text if len(text) <= limit else text[:limit - 3] + "..."`. -/
def cut (limit : Int) (cs : List Char) : List Char :=
  if cs.length ≤ limit then cs else sliceTo (limit - 3) cs ++ ['.', '.', '.']

section

variable [CategoryDatabase]

/-- `char.isspace() or not unicodedata.category(char).startswith("C")`. -/
def isPrinted (c : Char) : Bool := isSpace c || !isOther c

/-- `" " if char.isspace() else char`. -/
def plainSpace (c : Char) : Char := if isSpace c then ' ' else c

/-- `safe_text(text, limit)`. -/
def safeText (text : String) (limit : Int := 240) : String :=
  let text := escapes.sub (fun _ => []) text.toList
  let text := (text.filter isPrinted).map plainSpace
  let text := collapse text
  String.ofList (cut limit text)

/-- No ESC and no C1 control character. -/
def Uncommanded (cs : List Char) : Prop := ∀ c ∈ cs, c ≠ esc ∧ (c.toNat < 0x80 ∨ 0x9F < c.toNat)

/-- Text that can be put on a line of a terminal as it is. -/
structure InertText (limit : Int) (text : String) : Prop where
  length : text.toList.length ≤ limit
  printed : ∀ c ∈ text.toList, isOther c = false
  unbroken : ∀ c ∈ text.toList, isLineBreak c = false
  collapsed : Collapsed text.toList
  plain : ∀ c ∈ text.toList, isSpace c = true → c = ' '

/-! ## Removing commands -/

omit [CategoryDatabase] in
/-- Every command begins with ESC or with a C1 control character. -/
theorem escapes_inert {c : Char} (h : c ≠ esc ∧ (c.toNat < 0x80 ∨ 0x9F < c.toNat)) :
    escapes.Inert c := by
  have hne : ∀ d : Char, d.toNat ∈ [0x90, 0x98, 0x9b, 0x9d, 0x9e, 0x9f] → c ≠ d := by
    rintro d hd rfl
    simp only [List.mem_cons, List.not_mem_nil, or_false] at hd
    have hbounds := h.2
    omega
  have hesc : (c == esc) = false := beq_eq_false_iff_ne.mpr h.1
  intro rest
  simp [escapes, operatingSystemCommand, controlString, controlSequence, escapeSequence, oneOf, lit,
    ends, h.1, hesc, hne '\u0090' (by decide), hne '\u0098' (by decide), hne '\u009b' (by decide),
    hne '\u009d' (by decide), hne '\u009e' (by decide), hne '\u009f' (by decide)]

omit [CategoryDatabase] in
/-- A complete operating system command is the first match at its front. -/
theorem escapes_command {payload : List Char}
    (h : ∀ c ∈ payload, c ≠ bel ∧ c ≠ esc ∧ c ≠ stringTerminator) (rest : List Char) :
    (escapes.ends (([esc, ']'] ++ payload ++ [bel]) ++ rest)).head? = some rest := by
  have hopen : ((alt (lit [esc, ']']) (oneOf ['\u009d'])).ends
      ([esc, ']'] ++ (payload ++ bel :: rest))).head? = some (payload ++ bel :: rest) := by
    apply head?_alt
    rw [ends_lit, List.head?_cons]
  have hpayload : (payload ++ bel :: rest).dropWhile
      (fun c => !([bel, esc, stringTerminator].contains c)) = bel :: rest := by
    rw [List.dropWhile_append_of_pos]
    · exact List.dropWhile_cons_of_neg (by decide)
    · intro c hc
      obtain ⟨hbel, hesc, hst⟩ := h c hc
      simp [hbel, hesc, hst]
  have hclose : ((oneOf [bel]).ends (bel :: rest)).head? = some rest := by
    simp [oneOf, ends]
  rw [List.append_assoc, List.append_assoc]
  apply head?_alt
  apply head?_seq hopen
  apply head?_seq (head?_star_cls _ _)
  rw [hpayload]
  exact head?_alt hclose

omit [CategoryDatabase] in
theorem sub_escapes {cs : List Char} (h : Uncommanded cs) : escapes.sub (fun _ => []) cs = cs :=
  sub_of_inert fun c hc => escapes_inert (h c hc)

omit [CategoryDatabase] in
theorem sub_escapes_command {a payload b : List Char} (ha : Uncommanded a) (hb : Uncommanded b)
    (h : ∀ c ∈ payload, c ≠ bel ∧ c ≠ esc ∧ c ≠ stringTerminator) :
    escapes.sub (fun _ => []) (a ++ ([esc, ']'] ++ payload ++ [bel] ++ b)) = a ++ b := by
  rw [sub_append_of_inert fun c hc => escapes_inert (ha c hc),
    sub_match (by simp) (escapes_command h b), sub_escapes hb, List.nil_append]

/-! ## Cutting -/

section

omit [CategoryDatabase]

variable {limit : Int} {cs : List Char}

theorem cut_of_le (h : cs.length ≤ limit) : cut limit cs = cs := if_pos h

theorem cut_of_lt (hlimit : 3 ≤ limit) (h : limit < cs.length) :
    cut limit cs = cs.take (limit - 3).toNat ++ ['.', '.', '.'] := by
  rw [cut, if_neg (by omega), sliceTo, if_pos (by omega)]

theorem length_cut (hlimit : 3 ≤ limit) : (cut limit cs).length ≤ limit := by
  by_cases h : cs.length ≤ limit
  · rwa [cut_of_le h]
  · have htake : (cs.take (limit - 3).toNat).length ≤ (limit - 3).toNat := List.length_take_le _ _
    rw [cut_of_lt hlimit (by omega), List.length_append]
    simp only [List.length_cons, List.length_nil]
    omega

theorem mem_cut (hlimit : 3 ≤ limit) {c : Char} (h : c ∈ cut limit cs) : c ∈ cs ∨ c = '.' := by
  by_cases hle : cs.length ≤ limit
  · exact .inl (by rwa [cut_of_le hle] at h)
  · rw [cut_of_lt hlimit (by omega)] at h
    rcases List.mem_append.mp h with h | h
    · exact .inl (List.mem_of_mem_take h)
    · exact .inr (by simpa using h)

/-- Cutting may leave a space before the dots, but only one. -/
theorem collapsed_cut (hlimit : 3 ≤ limit) (h : Collapsed cs) : Collapsed (cut limit cs) := by
  by_cases hle : cs.length ≤ limit
  · rwa [cut_of_le hle]
  · have hdots : ∀ c ∈ ['.', '.', '.'], isSpace c = false := by
      intro c hc
      rw [show c = '.' by simpa using hc]
      decide
    rw [cut_of_lt hlimit (by omega)]
    constructor
    · intro c hc
      cases htake : cs.take (limit - 3).toNat with
      | nil =>
          rw [htake, List.nil_append] at hc
          exact hdots c (List.mem_of_head? hc)
      | cons d ds =>
          rw [htake, List.cons_append, List.head?_cons] at hc
          apply h.head c
          rw [← hc, ← List.take_append_drop (limit - 3).toNat cs, htake]
          rfl
    · intro c hc
      rw [List.getLast?_append_of_ne_nil _ (by simp)] at hc
      exact hdots c (List.mem_of_getLast? hc)
    · rw [List.isChain_append]
      refine ⟨h.apart.take _, (Collapsed.of_word hdots).apart, fun c _ d hd hboth => ?_⟩
      rw [hdots d (List.mem_of_head? hd)] at hboth
      cases hboth.2

end

/-! ## Safe text -/

omit [CategoryDatabase] in
theorem isSpace_plainSpace (c : Char) : isSpace (plainSpace c) = isSpace c := by
  by_cases h : isSpace c = true
  · rw [plainSpace, if_pos h, h]
    decide
  · rw [plainSpace, if_neg h]

omit [CategoryDatabase] in
theorem plainSpace_of_not_isSpace {c : Char} (h : isSpace c = false) : plainSpace c = c := by
  rw [plainSpace, h]
  rfl

omit [CategoryDatabase] in
theorem collapse_map_plainSpace (cs : List Char) : collapse (cs.map plainSpace) = collapse cs := by
  rw [collapse, splitWords_map isSpace_plainSpace fun _ => plainSpace_of_not_isSpace, collapse]

theorem toList_safeText (text : String) (limit : Int) : (safeText text limit).toList =
    cut limit (collapse ((escapes.sub (fun _ => []) text.toList).filter isPrinted)) := by
  rw [safeText, String.toList_ofList, collapse_map_plainSpace]

variable {limit : Int}

/-- A collapsed text holds no spaces but plain ones, and no control character. -/
theorem of_mem_collapse_filter {cs : List Char} {c : Char}
    (h : c ∈ collapse (cs.filter isPrinted)) :
    isOther c = false ∧ (isSpace c = true → c = ' ') := by
  rcases mem_collapse h with rfl | ⟨hmem, hspace⟩
  · exact ⟨rfl, fun _ => rfl⟩
  · have hprinted := (List.mem_filter.mp hmem).2
    rw [isPrinted, hspace, Bool.false_or, Bool.not_eq_true'] at hprinted
    refine ⟨hprinted, fun htrue => ?_⟩
    rw [hspace] at htrue
    cases htrue

theorem inertText_safeText (text : String) (hlimit : 3 ≤ limit) :
    InertText limit (safeText text limit) := by
  have hmem : ∀ c ∈ (safeText text limit).toList,
      isOther c = false ∧ (isSpace c = true → c = ' ') := by
    intro c hc
    rw [toList_safeText] at hc
    rcases mem_cut hlimit hc with hc | rfl
    · exact of_mem_collapse_filter hc
    · exact ⟨rfl, fun hspace => absurd hspace (by decide)⟩
  constructor
  · rw [toList_safeText]
    exact length_cut hlimit
  · exact fun c hc => (hmem c hc).1
  · intro c hc
    by_contra hbreak
    have hspace := isSpace_of_isLineBreak (Bool.not_eq_false _ |>.mp hbreak)
    rw [(hmem c hc).2 hspace] at hbreak
    exact hbreak (by decide)
  · rw [toList_safeText]
    exact collapsed_cut hlimit (collapsed_collapse _)
  · exact fun c hc => (hmem c hc).2

theorem InertText.uncommanded {text : String} (h : InertText limit text) :
    Uncommanded text.toList := by
  intro c hc
  have hother := h.printed c hc
  constructor
  · rintro rfl
    rw [show isOther esc = true from rfl] at hother
    cases hother
  · by_contra hcontrol
    rw [isOther, if_pos (by omega)] at hother
    simp only [Bool.or_eq_false_iff, decide_eq_false_iff_not] at hother
    omega

/-- **Inert text is left as it is.** -/
theorem InertText.safeText_eq {text : String} (h : InertText limit text) :
    safeText text limit = text := by
  have hprinted : ∀ c ∈ text.toList, isPrinted c = true := by
    intro c hc
    rw [isPrinted, h.printed c hc, Bool.not_false, Bool.or_true]
  apply String.toList_injective
  rw [toList_safeText, sub_escapes h.uncommanded, List.filter_eq_self.mpr hprinted,
    collapse_eq_self h.collapsed h.plain, cut_of_le h.length]

/-- What `safe_text` does to text without commands. -/
theorem safeText_of_uncommanded {text : String} (h : Uncommanded text.toList) :
    safeText text limit = String.ofList (cut limit (collapse (text.toList.filter isPrinted))) := by
  apply String.toList_injective
  rw [toList_safeText, sub_escapes h, String.toList_ofList]

/-- A complete operating system command leaves no trace. -/
theorem safeText_command {a payload b : String} (ha : Uncommanded a.toList)
    (hb : Uncommanded b.toList)
    (h : ∀ c ∈ payload.toList, c ≠ bel ∧ c ≠ esc ∧ c ≠ stringTerminator) :
    safeText (a ++ String.ofList [esc, ']'] ++ payload ++ String.ofList [bel] ++ b) limit =
      safeText (a ++ b) limit := by
  have hlist : (a ++ String.ofList [esc, ']'] ++ payload ++ String.ofList [bel] ++ b).toList =
      a.toList ++ ([esc, ']'] ++ payload.toList ++ [bel] ++ b.toList) := by
    simp [String.toList_append]
  have hjoined : Uncommanded (a ++ b).toList := by
    rw [String.toList_append]
    exact fun c hc => (List.mem_append.mp hc).elim (ha c) (hb c)
  apply String.toList_injective
  rw [toList_safeText, toList_safeText, hlist, sub_escapes_command ha hb h, sub_escapes hjoined,
    String.toList_append]

/-- **Console text is inert.** -/
theorem safeText_inert (text : String) (limit : Int) (hlimit : 3 ≤ limit) :
    InertText limit (safeText text limit) ∧
      safeText (safeText text limit) limit = safeText text limit ∧
      (Uncommanded text.toList → (safeText text limit).toList =
        if (collapse (text.toList.filter isPrinted)).length ≤ limit
        then collapse (text.toList.filter isPrinted)
        else (collapse (text.toList.filter isPrinted)).take (limit - 3).toNat ++ "...".toList) ∧
      ∀ a payload b : String, Uncommanded a.toList → Uncommanded b.toList →
        (∀ c ∈ payload.toList, c ≠ bel ∧ c ≠ esc ∧ c ≠ stringTerminator) →
        safeText (a ++ String.ofList [esc, ']'] ++ payload ++ String.ofList [bel] ++ b) limit =
          safeText (a ++ b) limit := by
  have hinert := inertText_safeText text hlimit
  refine ⟨hinert, hinert.safeText_eq, fun huncommanded => ?_,
    fun a payload b ha hb hpayload => safeText_command ha hb hpayload⟩
  rw [safeText_of_uncommanded huncommanded, String.toList_ofList]
  split
  · next hle => exact cut_of_le hle
  · next hlt => exact cut_of_lt hlimit (by omega)

end

/-- A Unicode database that knows the directional override. -/
@[reducible] def overrideOnly : CategoryDatabase := ⟨fun c => c.toNat == 0x202E⟩

theorem safeText_inert_small :
    letI := overrideOnly
    InertText 8 (safeText "\x1b[31mBad\x1b[0m\r\n\tvalue\x00\u202e" 8) ∧
      safeText (safeText "\x1b[31mBad\x1b[0m\r\n\tvalue\x00\u202e" 8) 8 =
        safeText "\x1b[31mBad\x1b[0m\r\n\tvalue\x00\u202e" 8 :=
  letI := overrideOnly
  ⟨(safeText_inert "\x1b[31mBad\x1b[0m\r\n\tvalue\x00\u202e" 8 (by decide)).1,
    (safeText_inert "\x1b[31mBad\x1b[0m\r\n\tvalue\x00\u202e" 8 (by decide)).2.1⟩

end FlatpakBlackbox
