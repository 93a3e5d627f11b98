import FlatpakBlackbox.Schema.Groups

set_option autoImplicit false

/-! # The fixture manifest loses nothing

The manifest as a whole is a group like those it is made of. What `parseFixture` returns is what it
was given, so an unknown field has no place in an accepted manifest, and a member of a conditional
group never stands without the others.
-/

namespace FlatpakBlackbox

open PyLib PyException

/-! ## The manifest -/

/-- `schema_one`, as a reader of the field. -/
def schemaReader : Reader := fun value path => do
  let i ← integer none value path
  raiseIf (i ≠ 1) (validationError s!"{path}: expected supported schema 1")
  return .int 1

theorem schemaReader_exact {v : Value} {path : String} {w : Value}
    (h : schemaReader v path = .ok w) : w = v := by
  obtain ⟨i, hi, h⟩ := bind_eq_ok.mp h
  obtain ⟨_, hone, h⟩ := bind_eq_ok.mp h
  obtain rfl := Except.ok.inj h
  have hone := not_not.mp (raiseIf_eq_ok.mp hone)
  cases v with
  | int n =>
      obtain rfl := Except.ok.inj hi
      rw [hone]
  | _ => cases hi

theorem schemaReader_faithful : Faithful schemaReader .int :=
  .of_exact schemaReader_exact (fun _ h => by cases h) fun h => by
    obtain ⟨_, _, h⟩ := bind_eq_ok.mp h
    obtain ⟨_, _, h⟩ := bind_eq_ok.mp h
    obtain rfl := Except.ok.inj h
    exact ⟨fun _ => rfl, fun _ => rfl⟩

def manifestFields : List (String × Reader) := [
  ("arch", textReader true), ("app", textReader true), ("runtime", textReader true),
  ("branch", textReader true), ("commits", textMapReader true),
  ("runtime_commit", textReader false), ("sha256", textMapReader false)]

def manifestOptional (arch : String) : List (String × Reader) := [
  ("directory", textReader false), ("reference_version", textReader false),
  ("compiler", textReader false), ("assets", parseAssets), ("sizes", parseSizes),
  ("build", parseBuild), ("build_options", parseBuildOptions),
  ("queries", parseQueries arch), ("extras", parseExtras),
  ("lifecycle_extra", parseLifecycleExtra), ("contracts", parseContracts)]

/-- The architecture that the refs of the selection are for. -/
def manifestArch (data : List (String × Value)) : String :=
  ((data.lookup "arch").bind Value.asStr?).getD ""

def manifestGroup : GroupSpec where
  fields data := [("schema", schemaReader)] ++ manifestFields
    ++ present data (manifestOptional (manifestArch data))
  check result := ∀ commits, result.lookup "commits" = some commits →
    ∀ version ∈ ["A", "B"], (commits.field? version).isSome = true

theorem manifestFields_nodup (arch : String) :
    (([("schema", schemaReader)] ++ manifestFields ++ manifestOptional arch).map
    Prod.fst).Nodup := by
  unfold manifestFields manifestOptional
  simp only [List.cons_append, List.nil_append, List.map_cons, List.map_nil]
  decide

theorem readSchema_eq_ok {data part : List (String × Value)} {path : String} :
    readRequired data path [("schema", schemaReader)] = .ok part ↔
      schemaOne data path = .ok () ∧ part = [("schema", .int 1)] := by
  rw [schemaOne_eq_ok, readRequired_eq_ok]
  constructor
  · intro h
    cases h with
    | @cons _ out _ _ hout hrest =>
        cases hrest
        obtain ⟨key, x⟩ := out
        obtain ⟨rfl, hread⟩ := hout
        obtain ⟨v, hv, hread⟩ := bind_eq_ok.mp hread
        obtain ⟨_, _, hone⟩ := bind_eq_ok.mp hread
        obtain ⟨_, _, hone⟩ := bind_eq_ok.mp hone
        obtain rfl := Except.ok.inj hone
        have hv := required_eq_ok.mp hv
        rw [← schemaReader_exact hread] at hv
        exact ⟨hv, rfl⟩
  · rintro ⟨hschema, rfl⟩
    exact .cons ⟨rfl, bind_eq_ok.mpr ⟨_, required_eq_ok.mpr hschema, rfl⟩⟩ .nil

/-- An object of texts, read as one. -/
theorem stringMap_eq {nonempty : Bool} {v : Value} {path : String} {texts : List (String × String)}
    (h : stringMap nonempty v path = .ok texts) :
    v = .dict (texts.map fun entry => (entry.1, .str entry.2)) := by
  have hread : textMapReader nonempty v path
      = .ok (.dict (texts.map fun entry => (entry.1, .str entry.2))) :=
    bind_eq_ok.mpr ⟨texts, h, rfl⟩
  exact (textMapReader_exact hread).symm

theorem isSome_lookup_texts (texts : List (String × String)) (key : String) :
    ((Value.dict (texts.map fun entry => (entry.1, .str entry.2))).field? key).isSome
      = (texts.lookup key).isSome := by
  show (List.lookup key (List.map _ texts)).isSome = _
  induction texts with
  | nil => rfl
  | cons entry texts ih =>
      rw [List.map_cons, List.lookup_cons, List.lookup_cons]
      cases key == entry.1 with
      | true => rfl
      | false => exact ih

theorem mem_commits : ("commits", textMapReader true) ∈ manifestFields :=
  .tail _ (.tail _ (.tail _ (.tail _ (.head _))))

theorem mem_arch : ("arch", textReader true) ∈ manifestFields := .head _

/-- The architecture is read as it is. -/
theorem manifestArch_eq {data result : List (String × Value)} {path : String}
    {fields : List (String × Reader)} (h : readRequired data path fields = .ok result)
    (hnodup : (fields.map Prod.fst).Nodup) (hmem : ("arch", textReader true) ∈ fields) :
    manifestArch result = manifestArch data := by
  obtain ⟨y, x, hy, hread, hx⟩ := readRequired_lookup h hnodup hmem
  unfold manifestArch
  rw [hx, hy, textReader_exact hread]

/-- The fields of a manifest are among these, each once. -/
theorem manifestGroup_sublist (data : List (String × Value)) :
    (manifestGroup.fields data).Sublist
      ([("schema", schemaReader)] ++ manifestFields ++ manifestOptional (manifestArch data)) :=
  present_sublist.append_left _

theorem manifestGroup_nodup (data : List (String × Value)) :
    ((manifestGroup.fields data).map Prod.fst).Nodup :=
  (manifestFields_nodup _).sublist ((manifestGroup_sublist data).map Prod.fst)

theorem mem_manifestGroup {field : String × Reader} (h : field ∈ manifestFields)
    (data : List (String × Value)) : field ∈ manifestGroup.fields data :=
  List.mem_append_left _ (List.mem_append_right _ h)

theorem parseFixture_follows : Follows parseFixture manifestGroup := by
  intro v path w
  constructor
  · intro h
    obtain ⟨data, hdata, h⟩ := bind_eq_ok.mp h
    obtain ⟨_, hschema, h⟩ := bind_eq_ok.mp h
    obtain ⟨value, hvalue, h⟩ := bind_eq_ok.mp h
    obtain ⟨commits, hcommits, h⟩ := bind_eq_ok.mp h
    obtain ⟨_, hversions, h⟩ := bind_eq_ok.mp h
    obtain ⟨base, hbase, h⟩ := bind_eq_ok.mp h
    obtain ⟨groups, hgroups, h⟩ := bind_eq_ok.mp h
    obtain ⟨_, hknown, h⟩ := bind_eq_ok.mp h
    have hgroups : readRequired data path (present data (manifestOptional (manifestArch base)))
        = .ok groups := hgroups
    rw [manifestArch_eq hbase (by decide) mem_arch] at hgroups
    have hread := readRequired_append.mpr ⟨_, groups, readRequired_append.mpr ⟨_, base,
      readSchema_eq_ok.mpr ⟨hschema, rfl⟩, hbase, rfl⟩, hgroups, rfl⟩
    refine ⟨data, _, objectMap_eq_ok.mp hdata, (Except.ok.inj h).symm, hread,
      fun x hx version hversion => ?_, hknown⟩
    obtain ⟨y, x', hy, hx', hfound⟩ := readRequired_lookup hread
      (manifestGroup_nodup data) (mem_manifestGroup mem_commits data)
    obtain rfl := Option.some.inj (hx.symm.trans hfound)
    obtain rfl := Option.some.inj (hy.symm.trans (required_eq_ok.mp hvalue))
    rw [textMapReader_exact hx', stringMap_eq hcommits, isSome_lookup_texts]
    have hthere := raiseIf_eq_ok.mp (forM_eq_ok.mp hversions version hversion)
    exact Option.isSome_iff_ne_none.mpr fun hnone => hthere (Option.isNone_iff_eq_none.mpr hnone)
  · rintro ⟨data, result, rfl, rfl, hreads⟩
    obtain ⟨_, groups, hread, hgroups, hresult⟩ := readRequired_append.mp hreads.read
    obtain ⟨_, base, hfirst, hbase, rfl⟩ := readRequired_append.mp hread
    obtain ⟨hschema, rfl⟩ := readSchema_eq_ok.mp hfirst
    subst hresult
    obtain ⟨y, x, hy, hx, hfound⟩ := readRequired_lookup hreads.read
      (manifestGroup_nodup data) (mem_manifestGroup mem_commits data)
    have hcheck := hreads.check x hfound
    rw [textMapReader_exact hx] at hcheck
    obtain ⟨texts, htexts, _⟩ := bind_eq_ok.mp hx
    rw [stringMap_eq htexts] at hcheck
    have hgroups : readOptional data path (manifestOptional (manifestArch base)) = .ok groups := by
      rw [manifestArch_eq hbase (by decide) mem_arch]
      exact hgroups
    refine bind_eq_ok.mpr ⟨data, rfl, bind_eq_ok.mpr ⟨(), hschema, bind_eq_ok.mpr
      ⟨y, required_eq_ok.mpr hy, bind_eq_ok.mpr ⟨texts, stringMap_path _ htexts, bind_eq_ok.mpr
      ⟨(), forM_eq_ok.mpr fun version hversion => raiseIf_of_not ?_, bind_eq_ok.mpr
      ⟨base, hbase, bind_eq_ok.mpr ⟨groups, hgroups, bind_eq_ok.mpr ⟨(), hreads.known, rfl⟩⟩⟩⟩⟩⟩⟩⟩
    have hthere := hcheck version hversion
    rw [isSome_lookup_texts] at hthere
    exact fun hnone => Option.isSome_iff_ne_none.mp hthere (Option.isNone_iff_eq_none.mp hnone)

theorem parseFixture_faithful : Faithful parseFixture TypeHint.fixtureManifest := by
  refine .of_follows parseFixture_follows (fun data => ?_) manifestGroup_nodup (by decide)
    (fun data field hfield hthere => ?_) (fun {data path result} hreads _ => ?_)
    fun {data path result} hreads => ?_
  · refine fun field hfield => (?_ : ∀ field ∈ [("schema", schemaReader)] ++ manifestFields
      ++ manifestOptional (manifestArch data), Declares _ field) field
        ((manifestGroup_sublist data).subset hfield)
    unfold manifestFields manifestOptional
    simp only [List.cons_append, List.nil_append, List.forall_mem_cons, List.not_mem_nil,
      false_implies, implies_true, and_true]
    exact ⟨⟨_, rfl, schemaReader_faithful⟩, .text rfl, .text rfl, .text rfl,
      .text rfl, .textMap rfl,
      .text rfl, .textMap rfl, .text rfl, .text rfl, .text rfl, ⟨_, rfl, parseAssets_faithful⟩,
      ⟨_, rfl, mapReader_faithful (mapReader_faithful parseSize_faithful)⟩,
      ⟨_, rfl, parseBuild_faithful⟩, ⟨_, rfl, parseBuildOptions_faithful⟩,
      ⟨_, rfl, parseQueries_faithful _⟩, ⟨_, rfl, parseExtras_faithful⟩,
      ⟨_, rfl, parseLifecycleExtra_faithful⟩, ⟨_, rfl, parseContracts_faithful⟩⟩
  · refine ((List.sublist_append_left _ _).map Prod.fst).subset
      ((?_ : ∀ field ∈ (_ : List (String × Bool × TypeHint)), field.2.1 = true →
        field.1 ∈ ([("schema", schemaReader)] ++ manifestFields).map Prod.fst) field hfield hthere)
    decide
  · obtain ⟨y, x, hy, hread, hx⟩ := readRequired_lookup hreads.read (manifestGroup_nodup data)
      (List.mem_append_left _ (List.mem_append_left _ (List.mem_singleton_self _)))
    obtain ⟨_, _, hone⟩ := bind_eq_ok.mp hread
    obtain ⟨_, _, hone⟩ := bind_eq_ok.mp hone
    rw [hx, ← Except.ok.inj hone]
  · show _ ++ present result (manifestOptional (manifestArch result)) = _
    rw [hreads.present_eq, manifestArch_eq hreads.read (manifestGroup_nodup data)
      (mem_manifestGroup mem_arch data)]
    rfl

/-! ## Members of conditional groups -/

/-- The object has the field. -/
def Value.Has (v : Value) (key : String) : Prop := (v.field? key).isSome = true

/-- The fields stand together: all of them are there, or none is. -/
def Together (v : Value) (keys : List String) : Prop :=
  (∀ key ∈ keys, v.Has key) ∨ ∀ key ∈ keys, ¬ v.Has key

/-- **The conditional groups of a manifest stand as a whole or not at all.** -/
structure GroupsComplete (v : Value) : Prop where
  authenticator : ∀ extras, v.field? "extras" = some extras →
    ∀ auth, extras.field? "auth" = some auth →
      Together auth ["authenticator_ref", "authenticator_commit"]
      ∧ Together auth ["authenticator_binary", "authenticator_runtime_ref",
        "authenticator_runtime_commit"]
      ∧ (auth.Has "authenticator_binary" → auth.Has "authenticator_ref")
  selection : ∀ queries, v.field? "queries" = some queries →
    Together queries ["selection_repo", "selection_commits"]
  sideload : ∀ lifecycle, v.field? "lifecycle_extra" = some lifecycle →
    Together lifecycle ["sideload_update_repo", "sideload_update", "sideload_update_commit"]

/-- An object has the fields that were read, and no others. -/
theorem GroupSpec.Reads.isSome_iff {g : GroupSpec} {data result : List (String × Value)}
    {path : String} (h : g.Reads data path result) (key : String) :
    (data.lookup key).isSome = true ↔ key ∈ (g.fields data).map Prod.fst := by
  rw [← h.isSome_lookup, ← keys_readRequired h.read]
  constructor
  · intro hkey
    obtain ⟨x, hx⟩ := Option.isSome_iff_exists.mp hkey
    exact List.mem_map_of_mem (f := Prod.fst) (mem_of_lookup hx)
  · intro hkey
    obtain ⟨entry, hentry, rfl⟩ := List.mem_map.mp hkey
    exact isSome_lookup_of_mem hentry

/-- The fields of a conditional group are read with its head only. -/
theorem GroupSpec.Reads.together {g : GroupSpec} {data result : List (String × Value)}
    {path : String} (h : g.Reads data path result) (head : String)
    (fields others : List (String × Reader))
    (hfields : ∀ field, field ∈ withHead head data fields → field ∈ g.fields data)
    (hothers : ∀ field ∈ g.fields data, field ∈ withHead head data fields ∨ field ∈ others)
    (hdisjoint : ∀ key ∈ fields.map Prod.fst, key ∉ others.map Prod.fst) :
    Together (.dict data) (fields.map Prod.fst) := by
  have hiff : ∀ key ∈ fields.map Prod.fst, (data.lookup key).isSome = true ↔
      key ∈ (withHead head data fields).map Prod.fst := by
    intro key hkey
    rw [h.isSome_iff]
    constructor
    · intro hmem
      obtain ⟨field, hfield, rfl⟩ := List.mem_map.mp hmem
      rcases hothers field hfield with hfield | hfield
      · exact List.mem_map_of_mem hfield
      · exact absurd (List.mem_map_of_mem hfield) (hdisjoint _ hkey)
    · intro hmem
      obtain ⟨field, hfield, rfl⟩ := List.mem_map.mp hmem
      exact List.mem_map_of_mem (hfields field hfield)
  by_cases hhead : (data.lookup head).isSome = true
  · refine .inl fun key hkey => (hiff key hkey).mpr ?_
    rwa [withHead, if_pos hhead]
  · refine .inr fun key hkey hthere => ?_
    have hmem := (hiff key hkey).mp hthere
    rw [withHead, if_neg hhead] at hmem
    cases hmem

theorem auth_together {v w : Value} {path : String} (h : parseAuth v path = .ok w) :
    Together v ["authenticator_ref", "authenticator_commit"]
      ∧ Together v ["authenticator_binary", "authenticator_runtime_ref",
        "authenticator_runtime_commit"]
      ∧ (v.Has "authenticator_binary" → v.Has "authenticator_ref") := by
  obtain ⟨data, result, rfl, rfl, hreads⟩ := parseAuth_follows.mp h
  have hsplit : ∀ field, field ∈ authGroup.fields data ↔ field ∈ authFields
      ∨ field ∈ withHead "authenticator_ref" data authenticatorFields
      ∨ field ∈ withHead "authenticator_binary" data authenticatorBinaryFields := by
    intro field
    simp only [authGroup, List.mem_append, or_assoc]
  have hrest : ∀ {head field : _} {fields : List (String × Reader)},
      field ∈ withHead head data fields → field ∈ fields := fun hfield =>
    withHead_sublist.subset hfield
  refine ⟨?_, ?_, ?_⟩
  · refine hreads.together "authenticator_ref" authenticatorFields
      (authFields ++ authenticatorBinaryFields) ?_ ?_ ?_
    · exact fun field hfield => (hsplit field).mpr (.inr (.inl hfield))
    · intro field hfield
      rcases (hsplit field).mp hfield with hfield | hfield | hfield
      · exact .inr (List.mem_append_left _ hfield)
      · exact .inl hfield
      · exact .inr (List.mem_append_right _ (hrest hfield))
    · decide
  · refine hreads.together "authenticator_binary" authenticatorBinaryFields
      (authFields ++ authenticatorFields) ?_ ?_ ?_
    · exact fun field hfield => (hsplit field).mpr (.inr (.inr hfield))
    · intro field hfield
      rcases (hsplit field).mp hfield with hfield | hfield | hfield
      · exact .inr (List.mem_append_left _ hfield)
      · exact .inr (List.mem_append_right _ (hrest hfield))
      · exact .inl hfield
    · decide
  · intro hbinary
    have hcheck := hreads.check
    dsimp only [authGroup] at hcheck
    rw [hreads.isSome_lookup, hreads.isSome_lookup] at hcheck
    exact hcheck hbinary

theorem queries_together {arch : String} {v w : Value} {path : String}
    (h : parseQueries arch v path = .ok w) :
    Together v ["selection_repo", "selection_commits"] := by
  obtain ⟨data, result, rfl, rfl, hreads⟩ := (parseQueries_follows arch).mp h
  refine hreads.together "selection_repo" selectionFields
    (queriesFields ++ searchFields ++ mountsFields) (fun field hfield => ?_)
    (fun field hfield => ?_) (by decide)
  · exact List.mem_append_left _ (List.mem_append_right _ hfield)
  · rcases List.mem_append.mp hfield with hfield | hfield
    · rcases List.mem_append.mp hfield with hfield | hfield
      · rcases List.mem_append.mp hfield with hfield | hfield
        · exact .inr (List.mem_append_left _ (List.mem_append_left _ hfield))
        · exact .inr (List.mem_append_left _ (List.mem_append_right _
            (present_sublist.subset hfield)))
      · exact .inl hfield
    · exact .inr (List.mem_append_right _ (present_sublist.subset hfield))

theorem lifecycle_together {v w : Value} {path : String} (h : parseLifecycleExtra v path = .ok w) :
    Together v ["sideload_update_repo", "sideload_update", "sideload_update_commit"] := by
  obtain ⟨data, result, rfl, rfl, hreads⟩ := parseLifecycleExtra_follows.mp h
  refine hreads.together "sideload_update_repo" sideloadUpdateFields
    (lifecycleFields ++ foreignFields) (fun field hfield => ?_)
    (fun field hfield => ?_) (by decide)
  · exact List.mem_append_right _ hfield
  · rcases List.mem_append.mp hfield with hfield | hfield
    · rcases List.mem_append.mp hfield with hfield | hfield
      · exact .inr (List.mem_append_left _ hfield)
      · exact .inr (List.mem_append_right _ (present_sublist.subset hfield))
    · exact .inl hfield

/-- A group of an accepted manifest was accepted by its reader. -/
theorem GroupSpec.Reads.read_field {g : GroupSpec} {data result : List (String × Value)}
    {path key : String} {r : Reader} {item : Value} (h : g.Reads data path result)
    (hitem : data.lookup key = some item)
    (honly : ∀ field ∈ g.fields data, field.1 = key → field.2 = r) :
    ∃ w, r item s!"{path}.{key}" = .ok w := by
  obtain ⟨r', x, hmem, _, hread⟩ := h.exists_reader hitem
  obtain rfl : r' = r := honly _ hmem rfl
  exact ⟨x, hread⟩

theorem groupsComplete_of_accepted {v w : Value} {path : String}
    (h : parseFixture v path = .ok w) : GroupsComplete v := by
  obtain ⟨data, result, rfl, rfl, hreads⟩ := parseFixture_follows.mp h
  have honly : ∀ {key : String} {r : Reader},
      (∀ field ∈ [("schema", schemaReader)] ++ manifestFields
        ++ manifestOptional (manifestArch data), field.1 = key → field.2 = r) →
      ∀ field ∈ manifestGroup.fields data, field.1 = key → field.2 = r :=
    fun h field hfield => h field ((manifestGroup_sublist data).subset hfield)
  refine ⟨fun extras hextras auth hauth => ?_, fun queries hqueries => ?_,
    fun lifecycle hlifecycle => ?_⟩
  · obtain ⟨_, hread⟩ := hreads.read_field (r := parseExtras) hextras
      (honly (by simp [manifestFields, manifestOptional]))
    obtain ⟨data', result', rfl, rfl, hreads'⟩ := parseExtras_follows.mp hread
    obtain ⟨_, hread'⟩ := hreads'.read_field (r := parseAuth) hauth fun field hfield hkey => by
      have hmem := present_sublist.subset hfield
      unfold extrasFields at hmem
      simp only [List.mem_cons, List.not_mem_nil, or_false] at hmem
      rcases hmem with rfl | rfl
      · exact absurd hkey (by decide)
      · rfl
    exact auth_together hread'
  · obtain ⟨_, hread⟩ := hreads.read_field (r := parseQueries (manifestArch data)) hqueries
      (honly (by simp [manifestFields, manifestOptional]))
    exact queries_together hread
  · obtain ⟨_, hread⟩ := hreads.read_field (r := parseLifecycleExtra) hlifecycle
      (honly (by simp [manifestFields, manifestOptional]))
    exact lifecycle_together hread

/-- **`parse_fixture` loses nothing it accepts**: the manifest it returns is the one it was given,
and it rejects every manifest with an unknown field at some depth or with a part of a conditional
group. -/
theorem parseFixture_lossless {v : Value} {path : String} :
    (∀ w, parseFixture v path = .ok w → w.Same v)
      ∧ (HasUnknown TypeHint.fixtureManifest v → ∃ e, parseFixture v path = .error e)
      ∧ (¬ GroupsComplete v → ∃ e, parseFixture v path = .error e) := by
  refine ⟨fun w hw => parseFixture_faithful.same hw, fun hunknown => ?_, fun hparts => ?_⟩
  · cases hw : parseFixture v path with
    | ok w => exact absurd hunknown (parseFixture_faithful.closed hw)
    | error e => exact ⟨e, rfl⟩
  · cases hw : parseFixture v path with
    | ok w => exact absurd (groupsComplete_of_accepted hw) hparts
    | error e => exact ⟨e, rfl⟩

end FlatpakBlackbox
