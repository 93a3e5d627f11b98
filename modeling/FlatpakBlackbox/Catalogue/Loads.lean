import FlatpakBlackbox.Catalogue.Listing
import FlatpakBlackbox.Coverage.Reports
import FlatpakBlackbox.Schema.Documents

set_option autoImplicit false

/-! # The catalogue is loaded

What `generate` writes, `parse_catalogue` accepts as it is (`generate_loads`): the fields have the
declared types, the identifiers and the names are texts without NUL characters, and the command of
an option is listed. The typed view of the surfaces loses nothing.
-/

namespace FlatpakBlackbox

namespace Catalogue

open PyLib PyException

/-! ## Valid names -/

/-- A name of characters of a class, to which NUL does not belong. -/
theorem validId_of_chars {chars : List Char} {p : Char → Bool} (hne : chars ≠ [])
    (hall : ∀ c ∈ chars, p c = true) (hnul : p '\x00' = false) : ValidId (String.ofList chars) := by
  refine ⟨fun hmem => ?_, fun hempty => hne ?_⟩
  · rw [String.toList_ofList] at hmem
    rw [hall _ hmem] at hnul
    cases hnul
  · rw [← String.toList_ofList (l := chars), hempty]
    rfl

/-- The names that an identifier is made of. -/
def Interface.words : Interface → List String
  | command name => [name]
  | option owner name => [owner, name]
  | function name => [name]
  | signal owner name => [owner, name]

theorem Interface.name_mem_words (i : Interface) : i.name ∈ i.words := by
  cases i <;> simp [name, words]

theorem Interface.mem_rest {i : Interface} {c : Char} (h : c ∈ i.rest) :
    c = '.' ∨ ∃ word ∈ i.words, c ∈ word.toList := by
  cases i <;> simp [rest, words] at h ⊢ <;> tauto

theorem Interface.validId {i : Interface} (h : ∀ word ∈ i.words, ValidId word) :
    ValidId i.id ∧ ValidId i.name := by
  have hfront : ∀ kind, '\x00' ∉ (front kind).toList ∧ (front kind).toList ≠ [] := by
    rintro (_ | _ | _ | _) <;> simp [front]
  have hrest : '\x00' ∉ i.rest := by
    intro hmem
    rcases mem_rest hmem with hdot | ⟨word, hword, hnul⟩
    · exact absurd hdot (by decide)
    · exact (h word hword).1 hnul
  refine ⟨⟨?_, fun hempty => ?_⟩, h i.name i.name_mem_words⟩
  · rw [toList_id, List.mem_append]
    exact fun hmem => hmem.elim (hfront i.kind).1 hrest
  · have hlist := congrArg String.toList hempty
    rw [toList_id] at hlist
    exact (hfront i.kind).2 (List.append_eq_nil_iff.mp hlist).1

/-! ## The names of the target -/

theorem validId_of_stringLiteral {value name : String} (h : stringLiteral value = .ok name) :
    ValidId name := by
  obtain ⟨hne, hall⟩ := stringLiteral_spec h
  rw [← String.ofList_toList (s := name)]
  exact validId_of_chars hne hall (by decide)

theorem validId_of_optionName? {value : List Char} {name : String}
    (h : Manual.optionName? value = some name) : ValidId name := by
  unfold Manual.optionName? at h
  extract_lets dashes at h
  -- The name begins with one dash or two; what follows are characters of options, or `?`.
  have hdashes : ∀ c ∈ dashes, (Manual.isOptionChar c || c == '?') = true := by
    intro c hc
    have hdash : c = '-' := by
      simp only [dashes] at hc
      split at hc <;> simpa using hc
    rw [hdash]
    decide
  split at h
  · split at h
    · next c rest _ =>
        dsimp only at h
        split at h
        · next hstart =>
            rw [← Option.some.inj h]
            refine validId_of_chars (p := fun c => Manual.isOptionChar c || c == '?') (by simp) ?_
              (by decide)
            intro d hd
            rcases List.mem_append.mp hd with hd | hd
            · exact hdashes d hd
            · rcases List.mem_cons.mp hd with rfl | hd
              · unfold Manual.isOptionChar
                rcases Bool.or_eq_true_iff.mp (Bool.and_eq_true_iff.mp hstart).1 with hc | hc
                · rw [hc]
                  rfl
                · rw [hc, Bool.or_true]
              · exact Bool.or_eq_true_iff.mpr (.inl (List.mem_takeWhile_imp hd))
        · cases h
    · cases h
  · cases h

theorem validId_of_entryNames {path : String} {entry : Manual.Element} {names : List String}
    (h : Manual.entryNames path entry = .ok names) : ∀ name ∈ names, ValidId name := by
  refine foldlM_invariant (P := fun names : List String => ∀ name ∈ names, ValidId name)
    (fun _ hname => absurd hname List.not_mem_nil) (fun names term names' _ hnames hterm => ?_) h
  obtain ⟨_, -, hoptions⟩ := bind_eq_ok.mp hterm
  refine foldlM_invariant (P := fun names : List String => ∀ name ∈ names, ValidId name) hnames
    (fun names option names' _ hnames hoption => ?_) hoptions
  unfold Manual.addName at hoption
  dsimp only at hoption
  split at hoption
  · split at hoption
    · cases hoption
    · obtain rfl := Except.ok.inj hoption
      exact hnames
  · next found hfound =>
      obtain rfl := Except.ok.inj hoption
      split
      · exact hnames
      · intro name hname
        rcases List.mem_append.mp hname with hname | hname
        · exact hnames name hname
        · exact List.mem_singleton.mp hname ▸ validId_of_optionName? hfound

section

variable [UnicodeDatabase] {repo : Manual.Repository}

theorem validId_of_isActive {name : String} (h : IsActive repo name) : ValidId name := by
  obtain ⟨handler, rows, -, fields, -, hnames⟩ := h
  obtain ⟨literal, flag, -, hname, -⟩ := hnames.row
  exact validId_of_stringLiteral hname

theorem validId_of_defines {document name : String} (h : Defines repo document name) :
    ValidId name := by
  obtain ⟨tree, entry, names, -, -, hnames, hname, -⟩ := h
  exact validId_of_entryNames hnames name hname

/-- A group of a match takes a valid name, if its texts are made of the characters of names. -/
theorem validId_of_isMatch {r : Pattern} {m : Pattern.Match} (h : r.IsMatch m)
    (hbinds : r.binds 1 = true) (hchars : ∀ chars, r.Captures 1 chars →
      chars ≠ [] ∧ ∀ c ∈ chars, (isWord c || c == '-') = true) : ValidId (m.group 1) := by
  obtain ⟨chars, hgroup, hcaptures⟩ := h.group_spec hbinds
  obtain ⟨hne, hall⟩ := hchars chars hcaptures
  rw [hgroup]
  exact validId_of_chars hne hall rfl

theorem nameChars_of_accepts_word {chars : List Char} (h : word.Accepts chars) :
    chars ≠ [] ∧ ∀ c ∈ chars, (isWord c || c == '-') = true := by
  obtain ⟨hne, hall⟩ := Pattern.accepts_plus_cls h
  exact ⟨hne, fun c hc => Bool.or_eq_true_iff.mpr (.inl (hall c hc))⟩

theorem validId_of_functionPattern {m : Pattern.Match} (h : functionPattern.IsMatch m) :
    ValidId (m.group 1) := by
  refine validId_of_isMatch h rfl fun chars hcaptures => ?_
  have hname : functionName.Accepts chars := by
    simpa [functionPattern, functionName, Pattern.seqs, Pattern.Captures,
      Pattern.not_captures_lit, edge, spaces, word, Pattern.plus] using hcaptures
  obtain ⟨first, rest, rfl, hfirst, hrest⟩ := Pattern.accepts_seq.mp hname
  obtain ⟨hne, hall⟩ := nameChars_of_accepts_word hrest
  refine ⟨fun hempty => hne (List.append_eq_nil_iff.mp hempty).2, fun c hc => ?_⟩
  rcases List.mem_append.mp hc with hc | hc
  · rw [Pattern.accepts_lit hfirst] at hc
    have hall : ("flatpak_".toList.all fun c =>
        decide (c.toNat < 128) && (c.isAlphanum || c == '_')) = true := rfl
    obtain ⟨hascii, hchar⟩ := Bool.and_eq_true_iff.mp (List.all_eq_true.mp hall c hc)
    refine Bool.or_eq_true_iff.mpr (.inl ?_)
    unfold isWord
    rw [if_pos (of_decide_eq_true hascii), hchar]
  · exact hall c hc

theorem validId_of_exportOf {path : String} {m : Pattern.Match} {surface : Surface}
    (h : exportOf path m = .ok (.function surface)) : ValidId surface.name := by
  unfold exportOf at h
  dsimp only at h
  split at h
  · cases h
  · split at h
    · cases h
    · next found hfound =>
        obtain ⟨_, -, h⟩ := bind_eq_ok.mp h
        obtain ⟨_, -, h⟩ := bind_eq_ok.mp h
        split at h
        · cases h
        · cases h
          exact validId_of_functionPattern (Pattern.isMatch_of_search? hfound)

theorem validId_of_registrationOf {path : String} {clean : List Char} {m : Pattern.Match}
    {found : Registration} (h : registrationOf path clean m = .ok found) :
    ValidId found.owner ∧ ValidId found.name := by
  unfold registrationOf at h
  obtain ⟨_, -, h⟩ := bind_eq_ok.mp h
  split at h
  · cases h
  · next name hname =>
      dsimp only at h
      split at h
      · cases h
      · next owner howner =>
          obtain ⟨_, -, h⟩ := bind_eq_ok.mp h
          obtain rfl := Except.ok.inj h
          have hclass := (List.mem_filter.mp (List.mem_of_getLast? howner)).1
          constructor
          · have hmatch := (Pattern.of_mem_finditer hclass).2.2
            refine validId_of_isMatch hmatch rfl fun chars hcaptures => ?_
            apply nameChars_of_accepts_word
            simpa [classPattern, Pattern.seqs, Pattern.Captures, Pattern.not_captures_lit, edge,
              spaces, word, Pattern.plus] using hcaptures
          · have hmatch := Pattern.isMatch_of_matchAt hname
            refine validId_of_isMatch hmatch rfl fun chars hcaptures => ?_
            apply Pattern.accepts_plus_cls
            simpa [namePattern, signalName, Pattern.seqs, Pattern.Captures,
              Pattern.not_captures_lit, spaces, Pattern.plus] using hcaptures

end

/-- The interfaces of the target have valid names. -/
theorem Belongs.validId [WordDatabase] {repo : Manual.Repository} {i : Interface}
    (h : Belongs repo i) : ValidId i.id ∧ ValidId i.name := by
  apply Interface.validId
  cases i with
  | command name => exact List.forall_mem_singleton.mpr (validId_of_isActive h)
  | option owner name =>
      refine List.forall_mem_cons.mpr ⟨?_, List.forall_mem_singleton.mpr ?_⟩
      · rcases h with ⟨hactive, -⟩ | ⟨rfl, -⟩
        · exact validId_of_isActive hactive
        · exact ⟨by decide, by decide⟩
      · rcases h with ⟨-, document, -, hdefines⟩ | ⟨-, hdefines⟩
        · exact validId_of_defines hdefines
        · exact validId_of_defines hdefines
  | function name =>
      obtain ⟨path, surface, ⟨source, -, m, -, hexport⟩, rfl⟩ := h
      exact List.forall_mem_singleton.mpr (validId_of_exportOf hexport)
  | signal owner name =>
      obtain ⟨-, path, source, -, m, -, hregistration⟩ := h
      obtain ⟨howner, hname⟩ := validId_of_registrationOf hregistration
      exact List.forall_mem_cons.mpr ⟨howner, List.forall_mem_singleton.mpr hname⟩

/-! ## The surfaces as values -/

/-- The fields that are present are found under their names. -/
theorem lookup_present {fields : List (String × Option Value)} (h : (fields.map Prod.fst).Nodup)
    (key : String) : (present fields).lookup key = (fields.lookup key).join := by
  induction fields with
  | nil => rfl
  | cons field fields ih =>
      obtain ⟨name, item⟩ := field
      obtain ⟨hnew, hnodup⟩ := List.nodup_cons.mp h
      rw [List.lookup_cons]
      by_cases hkey : key = name
      · subst hkey
        rw [beq_self_eq_true]
        cases item with
        | some item => exact List.lookup_cons_self
        | none =>
            -- The field is absent, and no other one has its name.
            have hnone : fields.lookup key = none := by
              refine List.lookup_eq_none_iff.mpr fun entry hentry => ?_
              refine bne_iff_ne.mpr ?_
              rintro rfl
              exact hnew (List.mem_map.mpr ⟨entry, hentry, rfl⟩)
            show (present fields).lookup key = _
            rw [ih hnodup, hnone]
            rfl
      · rw [beq_eq_false_iff_ne.mpr hkey]
        cases item with
        | some item =>
            show List.lookup key ((name, item) :: present fields) = _
            rw [List.lookup_cons, beq_eq_false_iff_ne.mpr hkey]
            exact ih hnodup
        | none => exact ih hnodup

theorem Surface.lookup_fields (s : Surface) (key : String) :
    (present s.fields).lookup key = (s.fields.lookup key).join := by
  apply lookup_present
  show ["id", "kind", "name", "command", "owner", "sources", "aliases", "documented_with",
    "deprecated", "replacement"].Nodup
  decide

theorem accepts_kind (kind : Kind) : TypeHint.kind.Accepts (.str kind.text) := by
  cases kind <;> exact fun _ => rfl

theorem accepts_sourceValue (source : Manual.Source) :
    TypeHint.source.Accepts (sourceValue source) := by
  refine accepts_typedDict rfl ?_ fun _ => rfl
  show ∀ declared ∈ [(TypeHint.str, Value.str source.path), (.str, .str source.anchor)], _
  simp only [List.forall_mem_cons]
  exact ⟨accepts_str _, accepts_str _, fun declared hdeclared => (by cases hdeclared)⟩

/-- A field that is accepted wherever it is present. -/
theorem accepts_of_map {α : Type} {a : TypeHint} {f : α → Value} (hf : ∀ x, a.Accepts (f x))
    {field : Option α} {item : Value} (h : field.map f = some item) : a.Accepts item := by
  obtain ⟨x, -, rfl⟩ := Option.map_eq_some_iff.mp h
  exact hf x

theorem Surface.accepts_toValue {s : Surface} {kind : Kind} (hkind : s.kind = kind.text) :
    TypeHint.surface.Accepts s.toValue := by
  refine accepts_typedDict ?_ (fun declared hdeclared => ?_) fun _ => rfl
  · simp only [hasRequired, s.lookup_fields]
    rfl
  · obtain ⟨field, hfield, hpresent⟩ := List.mem_filterMap.mp hdeclared
    rw [s.lookup_fields] at hpresent
    obtain ⟨item, hitem, rfl⟩ := Option.map_eq_some_iff.mp hpresent
    simp only [List.mem_cons, List.not_mem_nil, or_false] at hfield
    rcases hfield with rfl | rfl | rfl | rfl | rfl | rfl | rfl | rfl | rfl | rfl
    · exact Option.some.inj hitem ▸ accepts_str s.id
    · exact Option.some.inj hitem ▸ hkind ▸ accepts_kind kind
    · exact Option.some.inj hitem ▸ accepts_str s.name
    · obtain rfl := Option.some.inj hitem
      refine accepts_list fun item hitem => ?_
      obtain ⟨source, -, rfl⟩ := List.mem_map.mp hitem
      exact accepts_sourceValue source
    · exact accepts_of_map accepts_texts hitem
    · exact accepts_of_map accepts_texts hitem
    · exact accepts_of_map accepts_str hitem
    · exact accepts_of_map accepts_str hitem
    · exact accepts_of_map (fun _ _ => rfl) hitem
    · exact accepts_of_map accepts_str hitem

theorem isJson_of_map {α : Type} {f : α → Value} (hf : ∀ x, (f x).IsJson) {field : Option α}
    {item : Value} (h : field.map f = some item) : item.IsJson := by
  obtain ⟨x, -, rfl⟩ := Option.map_eq_some_iff.mp h
  exact hf x

theorem Surface.isJson_toValue (s : Surface) : s.toValue.IsJson := by
  refine isJson_dict fun entry hentry => ?_
  obtain ⟨field, hfield, hpresent⟩ := List.mem_filterMap.mp hentry
  obtain ⟨item, hitem, rfl⟩ := Option.map_eq_some_iff.mp hpresent
  unfold Surface.fields at hfield
  simp only [List.mem_cons, List.not_mem_nil, or_false] at hfield
  rcases hfield with rfl | rfl | rfl | rfl | rfl | rfl | rfl | rfl | rfl | rfl
  · exact Option.some.inj hitem ▸ isJson_str s.id
  · exact Option.some.inj hitem ▸ isJson_str s.kind
  · exact Option.some.inj hitem ▸ isJson_str s.name
  · exact isJson_of_map isJson_str hitem
  · exact isJson_of_map isJson_str hitem
  · obtain rfl := Option.some.inj hitem
    refine isJson_list fun item hitem => ?_
    obtain ⟨source, -, rfl⟩ := List.mem_map.mp hitem
    exact fun _ => rfl
  · exact isJson_of_map isJson_texts hitem
  · exact isJson_of_map isJson_texts hitem
  · exact isJson_of_map (fun _ _ => rfl) hitem
  · exact isJson_of_map isJson_str hitem

/-! ## The typed view -/

/-- The surface that the rest of the program reads. -/
def Surface.view (s : Surface) (kind : Kind) : FlatpakBlackbox.Surface where
  id := s.id
  kind := kind
  name := s.name
  sources := s.sources.map fun source => ⟨source.path, source.anchor⟩
  aliases := s.aliases.getD []
  documentedWith := s.documentedWith.getD []
  command := s.command
  owner := s.owner
  deprecated := s.deprecated.getD false
  replacement := s.replacement

theorem Surface.ofValue_toValue {s : Surface} {kind : Kind} (hkind : s.kind = kind.text) :
    FlatpakBlackbox.Surface.ofValue s.toValue = .ok (s.view kind) := by
  -- Every field is read back from its own entry.
  have hfield : ∀ key, s.toValue.field? key = (s.fields.lookup key).join := s.lookup_fields
  have hkindOf : Kind.ofText s.kind = .ok kind := by
    rw [hkind]
    cases kind <;> rfl
  have htexts : ∀ texts : Option (List String),
      ((texts.map textList).bind Value.asList?).map (fun items => items.filterMap Value.asStr?)
        = texts := by
    intro texts
    cases texts with
    | none => rfl
    | some texts => exact congrArg some (filterMap_asStr? texts)
  have hstr : ∀ text : Option String, (text.map Value.str).bind Value.asStr? = text := by
    intro text
    cases text <;> rfl
  have hbool : ∀ b : Option Bool, (b.map Value.bool).bind Value.asBool? = b := by
    intro b
    cases b <;> rfl
  have hsources : (s.sources.map sourceValue).map Source.ofValue
      = s.sources.map fun source => ⟨source.path, source.anchor⟩ := by
    rw [List.map_map]
    rfl
  unfold FlatpakBlackbox.Surface.ofValue Value.ident Value.str? Value.strs? Value.list? Value.bool?
  simp only [hfield]
  show (Kind.ofText s.kind >>= fun kind => Except.ok ({
    id := s.id, kind, name := s.name, sources := (s.sources.map sourceValue).map Source.ofValue
    aliases := (((s.aliases.map textList).bind Value.asList?).map
      fun items => items.filterMap Value.asStr?).getD []
    documentedWith := (((s.documentedWith.map textList).bind Value.asList?).map
      fun items => items.filterMap Value.asStr?).getD []
    command := (s.command.map Value.str).bind Value.asStr?
    owner := (s.owner.map Value.str).bind Value.asStr?
    deprecated := ((s.deprecated.map Value.bool).bind Value.asBool?).getD false
    replacement := (s.replacement.map Value.str).bind Value.asStr? } : FlatpakBlackbox.Surface)) = _
  rw [hkindOf, htexts, htexts, hstr, hstr, hstr, hbool, hsources]
  rfl

/-! ## The document as a value -/

/-- What `parse_catalogue` asks of the surfaces. -/
structure Document.Loadable (d : Document) : Prop where
  kinds : ∀ s ∈ d.surfaces, ∃ kind : Kind, s.kind = kind.text
  ids : DistinctIds (fun s : Surface => s.id) d.surfaces
  names : ∀ s ∈ d.surfaces, ValidId s.name
  commands : ∀ s ∈ d.surfaces, ∀ command, s.command = some command → command = "global"
    ∨ ∃ other ∈ d.surfaces, other.kind = Kind.cliCommand.text ∧ other.name = command

theorem Surface.str?_toValue (s : Surface) (key : String) :
    s.toValue.str? key = ((s.fields.lookup key).join).bind Value.asStr? :=
  congrArg (fun item : Option Value => item.bind Value.asStr?) (s.lookup_fields key)

theorem Surface.str?_command (s : Surface) : s.toValue.str? "command" = s.command := by
  rw [s.str?_toValue]
  show (s.command.map Value.str).bind Value.asStr? = s.command
  cases s.command <;> rfl

theorem isJson_reference (r : Reference) : r.toValue.IsJson := by
  refine isJson_dict ?_
  simp only [List.forall_mem_cons]
  refine ⟨isJson_str _, isJson_dict fun entry hentry => ?_, fun entry hentry => (by cases hentry)⟩
  obtain ⟨source, -, rfl⟩ := List.mem_map.mp hentry
  exact isJson_str source.2

theorem accepts_reference (r : Reference) :
    (TypeHint.typedDict [TypeHint.req "commit" .str,
      TypeHint.req "sources" (.strDict .str)]).Accepts r.toValue := by
  refine accepts_typedDict rfl ?_ fun _ => rfl
  show ∀ declared ∈ [(TypeHint.str, Value.str r.commit),
    (.strDict .str, .dict (r.sources.map fun entry => (entry.1, .str entry.2)))], _
  simp only [List.forall_mem_cons]
  refine ⟨accepts_str _, accepts_strDict fun entry hentry => ?_,
    fun declared hdeclared => (by cases hdeclared)⟩
  obtain ⟨source, -, rfl⟩ := List.mem_map.mp hentry
  rfl

section

variable {d : Document}

theorem Document.isJson_toValue (d : Document) : d.toValue.IsJson := by
  refine isJson_dict ?_
  simp only [List.forall_mem_cons]
  refine ⟨fun _ => rfl, isJson_reference _, isJson_texts _, isJson_list fun item hitem => ?_,
    fun entry hentry => (by cases hentry)⟩
  obtain ⟨s, -, rfl⟩ := List.mem_map.mp hitem
  exact s.isJson_toValue

namespace Document.Loadable

theorem accepts_toValue (h : d.Loadable) : TypeHint.catalogue.Accepts d.toValue := by
  refine accepts_typedDict rfl ?_ fun _ => rfl
  show ∀ declared ∈ [(TypeHint.int, Value.int 1), (_, d.reference.toValue),
    (.list .str, textList d.limitations),
    (.list .surface, .list (d.surfaces.map Surface.toValue))], _
  simp only [List.forall_mem_cons]
  refine ⟨fun _ => rfl, accepts_reference _, accepts_texts _, accepts_list fun item hitem => ?_,
    fun declared hdeclared => (by cases hdeclared)⟩
  obtain ⟨s, hs, rfl⟩ := List.mem_map.mp hitem
  obtain ⟨kind, hkind⟩ := h.kinds s hs
  exact Surface.accepts_toValue hkind

/-- The sources of the surfaces are there. -/
theorem keeps_sources (path : String) :
    ((d.surfaces.map Surface.toValue).zipIdx.mapM fun entry => do
      let raw ← objectMap entry.1 s!"{path}.surfaces[{entry.2}]"
      return Value.dict (setDefault "sources" (.list []) raw))
      = .ok (d.surfaces.map Surface.toValue) := by
  have hagree : Agree ((d.surfaces.map Surface.toValue).zipIdx.mapM fun entry => do
      let raw ← objectMap entry.1 s!"{path}.surfaces[{entry.2}]"
      return Value.dict (setDefault "sources" (.list []) raw))
      ((d.surfaces.map Surface.toValue).mapM Except.ok) := by
    refine Agree.mapM_zipIdx (fun item hitem index => ?_) 0
    obtain ⟨s, -, rfl⟩ := List.mem_map.mp hitem
    show Agree (Except.ok (Value.dict (setDefault "sources" (.list []) (present s.fields)))) _
    -- The default of old catalogues is not used.
    have hthere : ((present s.fields).lookup "sources").isSome = true := by
      rw [s.lookup_fields]
      rfl
    rw [setDefault, if_pos hthere]
    exact Agree.refl _
  exact (hagree _).mpr (mapM_eq_ok.mpr (List.forall₂_same.mpr fun _ _ => rfl))

/-- **The document is accepted as it is.** -/
theorem parse_toValue (h : d.Loadable) (path : String) :
    parseCatalogue d.toValue path = .ok d.toValue := by
  have hlist : d.toValue.list? "surfaces" = some (d.surfaces.map Surface.toValue) := rfl
  obtain ⟨index, hindex⟩ : ∃ index, indexed "surface" Value.ident
      (d.surfaces.map Surface.toValue) = .ok index :=
    indexed_isOk_iff.mpr (distinctIds_map.mpr h.ids)
  have hparsed : parseTyped .catalogue d.toValue path = .ok d.toValue :=
    (parseTyped_eq_ok d.isJson_toValue).mpr ⟨rfl, h.accepts_toValue⟩
  refine bind_eq_ok.mpr ⟨_, rfl, bind_eq_ok.mpr ⟨_, rfl, bind_eq_ok.mpr ⟨_, rfl,
    bind_eq_ok.mpr ⟨_, keeps_sources path, bind_eq_ok.mpr ⟨_, hparsed, ?_⟩⟩⟩⟩⟩
  rw [hlist]
  refine bind_eq_ok.mpr ⟨index, hindex, bind_eq_ok.mpr ⟨(), forM_eq_ok.mpr ?_, rfl⟩⟩
  rintro ⟨item, i⟩ hitem
  obtain ⟨s, hs, hsame⟩ := List.mem_map.mp (List.fst_mem_of_mem_zipIdx hitem)
  obtain rfl : s.toValue = item := hsame
  refine bind_eq_ok.mpr ⟨s.name, string_isOk_iff.mpr (h.names s hs), ?_⟩
  rw [s.str?_command]
  -- The command of an option has to be `global` or a listed command.
  cases hcommand : s.command with
  | none => rfl
  | some command =>
      refine raiseIf_of_not ?_
      rintro ⟨hlisted, hglobal⟩
      rcases h.commands s hs command hcommand with hsame | ⟨other, hother, hkind, hname⟩
      · exact hglobal hsame
      · refine hlisted (List.mem_map.mpr ⟨other.toValue, List.mem_filter.mpr ⟨?_, ?_⟩, ?_⟩)
        · exact List.mem_map_of_mem hother
        · exact decide_eq_true (congrArg some hkind)
        · exact hname

end Document.Loadable

end

/-! ## Generated documents -/

/-- A generated document is loadable. -/
theorem loadable_of_describes [WordDatabase] {repo : Manual.Repository} {d : Document}
    {interfaces : List Interface}
    (hdescribes : List.Forall₂ (fun s (i : Interface) => i.Describes s) d.surfaces interfaces)
    (hmem : ∀ i, i ∈ interfaces ↔ Belongs repo i)
    (hids : (d.surfaces.map fun s => s.id).Nodup) : d.Loadable := by
  have hinterface : ∀ s ∈ d.surfaces, ∃ i : Interface, Belongs repo i ∧ i.Describes s := by
    intro s hs
    obtain ⟨i, hi, hdescribed⟩ := exists_of_forall₂ hdescribes hs
    exact ⟨i, (hmem i).mp hi, hdescribed⟩
  refine ⟨fun s hs => ?_, ⟨fun s hs => ?_, hids⟩, fun s hs => ?_, fun s hs command hcommand => ?_⟩
  · obtain ⟨i, -, hi⟩ := hinterface s hs
    exact ⟨i.kind, hi.kind_eq⟩
  · obtain ⟨i, hbelongs, hi⟩ := hinterface s hs
    show ValidId s.id
    exact hi.id_eq ▸ hbelongs.validId.1
  · obtain ⟨i, hbelongs, hi⟩ := hinterface s hs
    exact hi.name_eq ▸ hbelongs.validId.2
  · obtain ⟨i, hbelongs, hi⟩ := hinterface s hs
    have howner := hi.command_eq.symm.trans hcommand
    cases i with
    | option owner name =>
        obtain rfl := Option.some.inj howner
        rcases hbelongs with ⟨hactive, -⟩ | ⟨hglobal, -⟩
        · obtain ⟨other, hother, hdescribed⟩ :=
            exists_of_forall₂ hdescribes.flip ((hmem (.command owner)).mpr hactive)
          exact Or.inr ⟨other, hother, hdescribed.kind_eq, hdescribed.name_eq⟩
        · exact Or.inl hglobal
    | command name => cases howner
    | function name => cases howner
    | signal owner name => cases howner

/-- **A generated catalogue is loaded.** `parse_catalogue` accepts the document as it is, and its
typed view has every surface with all its fields. -/
theorem generate_loads [WordDatabase] {texts : Texts} {repo : Manual.Repository}
    {reference : Except PyException Reference} {d : Document}
    (h : (generate texts repo reference).Returns d) (path : String) :
    parseCatalogue d.toValue path = .ok d.toValue
      ∧ ∀ s ∈ d.surfaces, ∃ kind : Kind, s.kind = kind.text
        ∧ FlatpakBlackbox.Surface.ofValue s.toValue = .ok (s.view kind) := by
  obtain ⟨publicTypes, headers, sources, g, g', hd⟩ := generated_of_generate h
  obtain ⟨interfaces, hdescribes, -, hmem⟩ := hd.describes
  have hnodup : (d.surfaces.map fun s => s.id).Nodup :=
    hd.ids ▸ (sorted_perm _).nodup_iff.mpr g'.surfaces.keys_nodup
  have hloadable := loadable_of_describes hdescribes hmem hnodup
  refine ⟨hloadable.parse_toValue path, fun s hs => ?_⟩
  obtain ⟨kind, hkind⟩ := hloadable.kinds s hs
  exact ⟨kind, hkind, Surface.ofValue_toValue hkind⟩

theorem generate_loads_small : ∃ d, smallDocument.Returns d
    ∧ parseCatalogue d.toValue "catalogue" = .ok d.toValue := by
  obtain ⟨d, hd⟩ := small_returns
  exact ⟨d, hd, (@generate_loads asciiWords smallTexts smallTree _ d hd "catalogue").1⟩

end Catalogue

end FlatpakBlackbox
