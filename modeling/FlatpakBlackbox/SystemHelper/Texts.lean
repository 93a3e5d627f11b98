import FlatpakBlackbox.SystemHelper.Recorded

set_option autoImplicit false

/-! # The texts in the state directory

What `stop` reads back of the two lists and of the process id while `start` is still writing them.
A whole line is recognised, with or without its newline; any other nonempty part of a line makes
`stop` raise. Part of a number is a number, but a smaller one.
-/

namespace FlatpakBlackbox.SystemHelper

open PyLib PyException

/-- A list of names, one on each line. -/
def namesText {α : Type} (name : α → String) (items : List α) : String :=
  String.join (items.map fun item => name item ++ "\n")

/-- The files that `stop` knows. -/
abbrev provisioned : List Provisioned := [.config, .busPolicy, .polkitPolicy, .rules]

theorem mem_provisioned (file : Provisioned) : file ∈ provisioned := by cases file <;> simp

/-- What is written of a path names a file only when it is the whole path. -/
theorem pieces_path_iff {file other : Provisioned} {written : List Char}
    (h : written <+: file.path.toList) :
    PurePath.pieces written = PurePath.pieces other.path.toList ↔
      written = file.path.toList ∧ other = file := by
  have hall : ∀ written ∈ file.path.toList.inits, ∀ other ∈ provisioned,
      (PurePath.pieces written = PurePath.pieces other.path.toList ↔
        written = file.path.toList ∧ other = file) := by
    simp only [provisioned, List.forall_mem_cons, Provisioned.path]
    -- The literals become lists of characters before anything is computed.
    cases file <;> (repeat rw [String.toList_ofList]) <;> decide +kernel
  exact hall written ((List.mem_inits _ _).mpr h) other (mem_provisioned other)

theorem ofString_path_iff {file other : Provisioned} :
    PurePath.ofString file.path = PurePath.ofString other.path ↔ other = file := by
  constructor
  · intro h
    exact ((pieces_path_iff (List.prefix_refl _)).mp (PurePath.pieces_eq h)).2
  · intro h
    rw [h]

theorem provisionedFile_path (file : Provisioned) : provisionedFile file.path = .ok file := by
  have hfind : (provisioned.find? fun other =>
      PurePath.ofString file.path = PurePath.ofString other.path) = some file := by
    simp only [ofString_path_iff]
    cases file <;> rfl
  rw [provisionedFile, hfind]

theorem testUser_name (user : TestUser) : testUser user.name = .ok user := by
  cases user <;> rfl

theorem path_not_break (file : Provisioned) : ∀ c ∈ file.path.toList, isLineBreak c = false := by
  cases file <;> exact forall_mem_toList (by decide)

theorem name_not_break (user : TestUser) : ∀ c ∈ user.name.toList, isLineBreak c = false := by
  cases user <;> exact forall_mem_toList (by decide)

theorem path_ne_nil (file : Provisioned) : file.path.toList ≠ [] := by
  cases file <;> (rw [Provisioned.path, String.toList_ofList]; decide)

theorem name_ne_nil (user : TestUser) : user.name.toList ≠ [] := by
  cases user <;> (rw [TestUser.name, String.toList_ofList]; decide)

/-- A part of a line that is neither empty nor whole is itself one line. -/
theorem splitLines_partial {text : String} (h : ∀ c ∈ text.toList, isLineBreak c = false)
    {written : List Char} (hstart : written <+: (text ++ "\n").toList) :
    written = [] ∨ (written = text.toList ∨ written = (text ++ "\n").toList) ∧
        splitLines (String.ofList written) = [text] ∨
      (written <+: text.toList ∧ written ≠ [] ∧ written ≠ text.toList) ∧
        splitLines (String.ofList written) = [String.ofList written] := by
  have hlist : (text ++ "\n").toList = text.toList ++ ['\n'] := String.toList_append
  by_cases hempty : written = []
  · exact .inl hempty
  by_cases hwhole : written = (text ++ "\n").toList
  · rw [hwhole, String.ofList_toList]
    exact .inr (.inl ⟨.inr rfl, splitLines_line h⟩)
  have hshort : written <+: text.toList := by
    rw [hlist] at hstart hwhole
    rcases List.prefix_concat_iff.mp hstart with heq | hshort
    · exact absurd heq hwhole
    · exact hshort
  have hnot : splitLines (String.ofList written) = [String.ofList written] := by
    refine splitLines_unterminated (fun heq => hempty ?_) fun c hc => ?_
    · rw [← String.toList_ofList (l := written), heq]
      rfl
    · rw [String.toList_ofList] at hc
      exact h c (hshort.subset hc)
  by_cases htext : written = text.toList
  · refine .inr (.inl ⟨.inl htext, ?_⟩)
    rw [hnot, htext, String.ofList_toList]
  · exact .inr (.inr ⟨⟨hshort, hempty, htext⟩, hnot⟩)

/-- No path of the list is part of another one's text. -/
theorem provisionedFile_partial (file : Provisioned) {written : List Char}
    (h : written <+: file.path.toList) (hwhole : written ≠ file.path.toList)
    (other : Provisioned) : provisionedFile (String.ofList written) ≠ .ok other := by
  intro hother
  unfold provisionedFile at hother
  split at hother
  · next found hfound =>
      have hpath : PurePath.ofString (String.ofList written) = PurePath.ofString found.path := by
        simpa using List.find?_some hfound
      have hpieces := PurePath.pieces_eq hpath
      rw [String.toList_ofList] at hpieces
      exact hwhole ((pieces_path_iff h).mp hpieces).1
  · cases hother

theorem testUser_partial (user : TestUser) {written : List Char}
    (h : written <+: user.name.toList) (hne : written ≠ []) (hwhole : written ≠ user.name.toList)
    (other : TestUser) : testUser (String.ofList written) ≠ .ok other := by
  have hinits : ∀ written ∈ user.name.toList.inits, written ≠ [] → written ≠ user.name.toList →
      ∀ other ∈ [TestUser.writer, .reader], written ≠ other.name.toList := by
    simp only [List.forall_mem_cons, TestUser.name]
    cases user <;> (repeat rw [String.toList_ofList]) <;> decide
  intro hother
  unfold testUser at hother
  split at hother
  · next found hfound =>
      have hname : String.ofList written = found.name := by simpa using List.find?_some hfound
      have hchars := congrArg String.toList hname
      rw [String.toList_ofList] at hchars
      exact hinits written ((List.mem_inits _ _).mpr h) hne hwhole found
        (List.mem_of_find?_eq_some hfound) hchars
  · cases hother

section

variable {α : Type} {name : α → String} {parse : String → Except PyException α}

/-- **What `stop` reads while a name is being appended**: the names before it, or those and the
name itself once all of it is written; anything else is refused. -/
theorem mapM_appending (hparse : ∀ item, parse (name item) = .ok item)
    (hname : ∀ item, (name item).toList ≠ [])
    (hbreak : ∀ item, ∀ c ∈ (name item).toList, isLineBreak c = false)
    (hcut : ∀ item written, written <+: (name item).toList → written ≠ [] →
      written ≠ (name item).toList → ∀ other, parse (String.ofList written) ≠ .ok other)
    {items read : List α} {item : α} {written : List Char}
    (h : written <+: (name item ++ "\n").toList) :
    (splitLines (namesText name items ++ String.ofList written)).mapM parse = .ok read ↔
      written = [] ∧ read = items ∨
        (written = (name item).toList ∨ written = (name item ++ "\n").toList) ∧
          read = items ++ [item] := by
  have hlines : splitLines (namesText name items ++ String.ofList written) =
      items.map name ++ splitLines (String.ofList written) := by
    rw [namesText, splitLines_join_append, List.flatMap_map]
    · simp only [splitLines_line (hbreak _)]
      rw [← List.map_eq_flatMap]
    · intro piece hpiece
      obtain ⟨other, _, rfl⟩ := List.mem_map.mp hpiece
      exact ⟨_, String.toList_append⟩
  have hnames : ∀ items : List α, (items.map name).mapM parse = .ok items := fun items =>
    mapM_eq_ok.mpr (List.forall₂_map_left_iff.mpr (List.forall₂_same.mpr fun other _ =>
      hparse other))
  have hread : ∀ items : List α, (items.map name).mapM parse = .ok read ↔ read = items :=
    fun items => ⟨fun h => Except.ok.inj (h.symm.trans (hnames items)), fun h => h ▸ hnames items⟩
  rw [hlines]
  rcases splitLines_partial (hbreak item) h with
    hempty | ⟨hwhole, hsplit⟩ | ⟨⟨hshort, hsome, hnot⟩, hsplit⟩
  · have hline : (name item ++ "\n").toList ≠ [] := by
      rw [String.toList_append]
      exact List.append_ne_nil_of_right_ne_nil _ (by decide)
    rw [hempty, show splitLines (String.ofList []) = [] from rfl, List.append_nil, hread]
    refine ⟨fun h => .inl ⟨rfl, h⟩, ?_⟩
    rintro (⟨_, h⟩ | ⟨hempty | hempty, _⟩)
    · exact h
    · exact absurd hempty.symm (hname item)
    · exact absurd hempty.symm hline
  · have hsome : written ≠ [] := by
      rintro rfl
      rw [show splitLines (String.ofList []) = [] from rfl] at hsplit
      cases hsplit
    have hmap : items.map name ++ [name item] = (items ++ [item]).map name := by
      rw [List.map_append, List.map_singleton]
    rw [hsplit, hmap, hread]
    refine ⟨fun h => .inr ⟨hwhole, h⟩, ?_⟩
    rintro (⟨hempty, _⟩ | ⟨_, h⟩)
    · exact absurd hempty hsome
    · exact h
  · rw [hsplit]
    constructor
    · intro hok
      obtain ⟨other, _, hother⟩ := exists_mem_of_mapM hok
        (List.mem_append_right _ (List.mem_singleton_self (String.ofList written)))
      exact absurd hother (hcut item written hshort hsome hnot other)
    · rintro (⟨hempty, _⟩ | ⟨hwhole | hwhole, _⟩)
      · exact absurd hempty hsome
      · exact absurd hwhole hnot
      · have hlength := hshort.length_le
        rw [hwhole, String.toList_append, List.length_append] at hlength
        have hone : ("\n" : String).toList.length = 1 := rfl
        omega

end

/-- The content of `created-files`. -/
abbrev filesText (files : List Provisioned) : String := namesText Provisioned.path files

/-- The content of `created-users`. -/
abbrev usersText (users : List TestUser) : String := namesText TestUser.name users

theorem readFiles_appending {files read : List Provisioned} {file : Provisioned}
    {written : List Char} (h : written <+: (file.path ++ "\n").toList) :
    (splitLines (filesText files ++ String.ofList written)).mapM provisionedFile = .ok read ↔
      written = [] ∧ read = files ∨
        (written = file.path.toList ∨ written = (file.path ++ "\n").toList) ∧
          read = files ++ [file] :=
  mapM_appending provisionedFile_path path_ne_nil path_not_break
    (fun file _ h _ hwhole => provisionedFile_partial file h hwhole) h

theorem readUsers_appending {users read : List TestUser} {user : TestUser}
    {written : List Char} (h : written <+: (user.name ++ "\n").toList) :
    (splitLines (usersText users ++ String.ofList written)).mapM testUser = .ok read ↔
      written = [] ∧ read = users ∨
        (written = user.name.toList ∨ written = (user.name ++ "\n").toList) ∧
          read = users ++ [user] :=
  mapM_appending testUser_name name_ne_nil name_not_break
    (fun user _ h hne hwhole => testUser_partial user h hne hwhole) h

/-- Between two appends every line is whole. -/
theorem readFiles (files : List Provisioned) :
    (splitLines (filesText files)).mapM provisionedFile = .ok files := by
  have hempty : [] <+: (Provisioned.config.path ++ "\n").toList := List.nil_prefix
  have hread :
      (splitLines (filesText files ++ String.ofList [])).mapM provisionedFile = .ok files :=
    (readFiles_appending hempty).mpr (.inl ⟨rfl, rfl⟩)
  rwa [show String.ofList [] = "" from rfl, String.append_empty] at hread

theorem readUsers (users : List TestUser) :
    (splitLines (usersText users)).mapM testUser = .ok users := by
  have hempty : [] <+: (TestUser.writer.name ++ "\n").toList := List.nil_prefix
  have hread :
      (splitLines (usersText users ++ String.ofList [])).mapM testUser = .ok users :=
    (readUsers_appending hempty).mpr (.inl ⟨rfl, rfl⟩)
  rwa [show String.ofList [] = "" from rfl, String.append_empty] at hread

theorem filesText_concat (files : List Provisioned) (file : Provisioned) :
    filesText files ++ (file.path ++ "\n") = filesText (files ++ [file]) := by
  simp [namesText, String.join_append]

theorem usersText_concat (users : List TestUser) (user : TestUser) :
    usersText users ++ (user.name ++ "\n") = usersText (users ++ [user]) := by
  simp [namesText, String.join_append]

/-! ## The process id -/

theorem decimalValue_append_ge (cs ds : List Char) (hds : ds ≠ []) :
    10 * decimalValue cs ≤ decimalValue (cs ++ ds) := by
  have hgrow : ∀ (ds : List Char) (n : Nat),
      n ≤ ds.foldl (fun n c => 10 * n + (c.toNat - 48)) n := by
    intro ds
    induction ds with
    | nil => exact fun n => le_rfl
    | cons d ds ih =>
        intro n
        have hrest := ih (10 * n + (d.toNat - 48))
        rw [List.foldl_cons]
        omega
  obtain ⟨d, ds, rfl⟩ := List.exists_cons_of_ne_nil hds
  have hrest := hgrow ds (10 * decimalValue cs + (d.toNat - 48))
  show _ ≤ (cs ++ d :: ds).foldl (fun n c => 10 * n + (c.toNat - 48)) 0
  rw [List.foldl_append, List.foldl_cons]
  exact le_trans (Nat.le_add_right _ _) hrest

theorem decimalValue_decimal (n : Nat) : decimalValue (decimal n) = n := by
  have hlist : ∀ l : List Nat, (∀ d ∈ l, d < 10) →
      decimalValue (l.reverse.map fun d => Char.ofNat (48 + d)) = Nat.ofDigits 10 l := by
    intro l hl
    induction l with
    | nil => rfl
    | cons d l ih =>
        have hd : (Char.ofNat (48 + d)).toNat - 48 = d := by
          have hlt := hl d (List.mem_cons_self ..)
          interval_cases d <;> rfl
        have hrest := ih fun x hx => hl x (List.mem_cons_of_mem _ hx)
        rw [List.reverse_cons, List.map_append, decimalValue, List.foldl_append]
        show 10 * decimalValue _ + ((Char.ofNat (48 + d)).toNat - 48) = _
        rw [hd, hrest, Nat.ofDigits_cons]
        ring
  rw [decimal, hlist _ fun d hd => Nat.digits_lt_base (by decide) hd, Nat.ofDigits_digits]

theorem isDigit_of_mem_decimal {n : Nat} {c : Char} (h : c ∈ decimal n) : c.isDigit = true := by
  obtain ⟨d, hd, rfl⟩ := List.mem_map.mp h
  have hlt : d < 10 := Nat.digits_lt_base (by decide) (List.mem_reverse.mp hd)
  interval_cases d <;> decide

theorem int_ofList {cs : List Char} (hne : cs ≠ []) (hdigits : ∀ c ∈ cs, c.isDigit = true) :
    int (String.ofList cs) = .ok (decimalValue cs) := by
  rw [int, String.toList_ofList]
  exact if_pos ⟨hne, List.all_eq_true.mpr hdigits⟩

theorem decimal_ne_nil {n : Nat} (h : 0 < n) : decimal n ≠ [] := by
  intro hnil
  have hvalue := decimalValue_decimal n
  rw [hnil] at hvalue
  exact h.ne hvalue

theorem int_decimal {n : Nat} (h : 0 < n) : int (String.ofList (decimal n)) = .ok n := by
  rw [int_ofList (decimal_ne_nil h) fun c hc => isDigit_of_mem_decimal hc, decimalValue_decimal]

/-- Part of a process id is not that process id. -/
theorem int_writtenPart {n k : Nat} {written : List Char} (hpos : 0 < n) (h : written <+: decimal n)
    (hint : int (String.ofList written) = .ok k) (hk : k = n) : written = decimal n := by
  obtain ⟨rest, hrest⟩ := h
  by_contra hne
  have hrestNe : rest ≠ [] := fun hnil => hne (by rw [← hrest, hnil, List.append_nil])
  have hge := decimalValue_append_ge written rest hrestNe
  rw [hrest, decimalValue_decimal] at hge
  have hvalue : decimalValue written = k := by
    rw [int, String.toList_ofList] at hint
    split at hint
    · exact Except.ok.inj hint
    · cases hint
  omega

end FlatpakBlackbox.SystemHelper
