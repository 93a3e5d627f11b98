import FlatpakBlackbox.Schema.Readers

set_option autoImplicit false

/-! # The groups of the fixture manifest

Each group of the manifest is a `GroupSpec`: the fields it reads of an object, the conditional ones
where the object has them, and what it checks of them. From this the groups are faithful to their
classes, from the leaves up.
-/

namespace FlatpakBlackbox

open PyLib PyException

/-! ## Plain groups -/

/-- The group of `groupReader`. -/
def plainGroup (fields : List (String × Reader)) : GroupSpec := ⟨fun _ => fields, fun _ => True⟩

theorem groupReader_follows (fields : List (String × Reader)) :
    Follows (groupReader fields) (plainGroup fields) := by
  intro v path w
  constructor
  · intro h
    obtain ⟨data, hdata, h⟩ := bind_eq_ok.mp h
    obtain ⟨result, hresult, h⟩ := bind_eq_ok.mp h
    obtain ⟨_, hknown, h⟩ := bind_eq_ok.mp h
    exact ⟨data, result, objectMap_eq_ok.mp hdata, (Except.ok.inj h).symm, hresult, trivial, hknown⟩
  · rintro ⟨data, result, rfl, rfl, hresult, _, hknown⟩
    exact bind_eq_ok.mpr ⟨data, rfl, bind_eq_ok.mpr ⟨result, hresult, bind_eq_ok.mpr
      ⟨(), hknown, rfl⟩⟩⟩

section Declared

variable {declared : List (String × Bool × TypeHint)} {key : String}

theorem Declares.text {nonempty : Bool} (h : annotationOf declared key = some .str) :
    Declares declared (key, textReader nonempty) := ⟨_, h, textReader_faithful nonempty⟩

theorem Declares.texts (h : annotationOf declared key = some (.list .str)) :
    Declares declared (key, textsReader) := ⟨_, h, textsReader_faithful⟩

theorem Declares.textMap {nonempty : Bool}
    (h : annotationOf declared key = some (.dict .str .str)) :
    Declares declared (key, textMapReader nonempty) := ⟨_, h, textMapReader_faithful nonempty⟩

theorem Declares.size (h : annotationOf declared key = some .int) :
    Declares declared (key, sizeReader) := ⟨_, h, sizeReader_faithful⟩

theorem Declares.flag (h : annotationOf declared key = some .bool) :
    Declares declared (key, flagReader) := ⟨_, h, flagReader_faithful⟩

end Declared

theorem groupReader_faithful {fields : List (String × Reader)}
    {declared : List (String × Bool × TypeHint)}
    (hfields : ∀ field ∈ fields, Declares declared field)
    (hnodup : (fields.map Prod.fst).Nodup) (hdeclared : (declared.map Prod.fst).Nodup)
    (hrequired : ∀ field ∈ declared, field.1 ∈ fields.map Prod.fst)
    (hschema : "schema" ∉ declared.map Prod.fst) :
    Faithful (groupReader fields) (.typedDict declared) :=
  .of_follows (groupReader_follows fields) (fun _ => hfields) (fun _ => hnodup) hdeclared
    (fun _ field hfield _ => hrequired field hfield) (fun _ hname => absurd hname hschema)
    fun _ => rfl

theorem parseAssets_faithful : Faithful parseAssets TypeHint.fixtureAssets := by
  refine groupReader_faithful ?_ (by decide) (by decide) (by decide) (by decide)
  simp only [List.forall_mem_cons, List.not_mem_nil, false_implies, implies_true, and_true]
  exact ⟨.text rfl, .text rfl⟩

theorem parseSize_faithful : Faithful parseSize (.typedDict TypeHint.fixtureSizeFields) := by
  refine groupReader_faithful ?_ (by decide) (by decide) (by decide) (by decide)
  simp only [List.forall_mem_cons, List.not_mem_nil, false_implies, implies_true, and_true]
  exact ⟨.size rfl, .size rfl⟩

theorem parseBuild_faithful : Faithful parseBuild TypeHint.fixtureBuild := by
  refine groupReader_faithful ?_ (by decide) (by decide) (by decide) (by decide)
  simp only [List.forall_mem_cons, List.not_mem_nil, false_implies, implies_true, and_true]
  exact ⟨.text rfl, .text rfl, .text rfl, .text rfl, .text rfl, .text rfl, .text rfl, .textMap rfl,
    .text rfl, .text rfl⟩

theorem parseQueryRef_faithful : Faithful parseQueryRef TypeHint.fixtureQueryRef := by
  refine groupReader_faithful ?_ (by decide) (by decide) (by decide) (by decide)
  simp only [List.forall_mem_cons, List.not_mem_nil, false_implies, implies_true, and_true]
  exact ⟨.text rfl, .text rfl, .size rfl, .size rfl⟩

theorem parseQueryVersion_faithful :
    Faithful parseQueryVersion TypeHint.fixtureQueryVersion := by
  refine groupReader_faithful ?_ (by decide) (by decide) (by decide) (by decide)
  simp only [List.forall_mem_cons, List.not_mem_nil, false_implies, implies_true, and_true]
  exact ⟨.text rfl, .text rfl, ⟨_, rfl, mapReader_faithful parseQueryRef_faithful⟩⟩

theorem parsePolicyExtension_faithful :
    Faithful parsePolicyExtension TypeHint.fixturePolicyExtension := by
  refine groupReader_faithful ?_ (by decide) (by decide) (by decide) (by decide)
  simp only [List.forall_mem_cons, List.not_mem_nil, false_implies, implies_true, and_true]
  exact ⟨.text rfl, .text rfl, .flag rfl, .flag rfl, .flag rfl, .flag rfl⟩

theorem parseExtensionMounts_faithful :
    Faithful parseExtensionMounts TypeHint.fixtureExtensionMounts := by
  refine groupReader_faithful ?_ (by decide) (by decide) (by decide) (by decide)
  simp only [List.forall_mem_cons, List.not_mem_nil, false_implies, implies_true, and_true]
  exact ⟨.text rfl, .text rfl, .text rfl, .text rfl, .text rfl, .text rfl, .text rfl, .text rfl,
    .text rfl, .text rfl, .text rfl⟩

theorem parseTrigger_faithful : Faithful parseTrigger TypeHint.fixtureTrigger := by
  refine groupReader_faithful ?_ (by decide) (by decide) (by decide) (by decide)
  simp only [List.forall_mem_cons, List.not_mem_nil, false_implies, implies_true, and_true]
  exact ⟨.text rfl, .text rfl⟩

/-! ## Conditional groups -/

/-- The fields that the object has. -/
def present (data : List (String × Value)) (fields : List (String × Reader)) :
    List (String × Reader) := fields.filter fun field => (data.lookup field.1).isSome

/-- The fields of a conditional group, where the object has its head. -/
def withHead (head : String) (data : List (String × Value)) (fields : List (String × Reader)) :
    List (String × Reader) := if (data.lookup head).isSome then fields else []

section Conditional

variable {data result part : List (String × Value)} {path key head : String}
  {fields : List (String × Reader)} {g : GroupSpec}

theorem GroupSpec.Reads.present_eq (h : g.Reads data path result) :
    present result fields = present data fields := by
  unfold present
  simp only [h.isSome_lookup]

theorem GroupSpec.Reads.withHead_eq (h : g.Reads data path result) :
    withHead head result fields = withHead head data fields := by
  unfold withHead
  rw [h.isSome_lookup]

theorem readWithHead (fields : List (String × Reader)) :
    (if (data.lookup head).isSome then readRequired data path fields else .ok []) =
      readRequired data path (withHead head data fields) := by
  unfold withHead
  split <;> rfl

/-- The conditional fields are among all of them, in their order. -/
theorem present_sublist : (present data fields).Sublist fields := List.filter_sublist

theorem withHead_sublist : (withHead head data fields).Sublist fields := by
  unfold withHead
  split
  · exact .refl _
  · exact List.nil_sublist _

/-- A group that always reads a list of fields, and some more of another one. -/
theorem Faithful.of_all {r : Reader} {declared : List (String × Bool × TypeHint)}
    (base all : List (String × Reader)) (hr : Follows r g)
    (hbase : ∀ data, base.Sublist (g.fields data)) (hsub : ∀ data, (g.fields data).Sublist all)
    (hfields : ∀ field ∈ all, Declares declared field) (hnodup : (all.map Prod.fst).Nodup)
    (hdeclared : (declared.map Prod.fst).Nodup)
    (hrequired : ∀ field ∈ declared, field.2.1 = true → field.1 ∈ base.map Prod.fst)
    (hschema : "schema" ∉ declared.map Prod.fst)
    (hstable : ∀ {data path result}, g.Reads data path result → g.fields result = g.fields data) :
    Faithful r (.typedDict declared) :=
  .of_follows hr (fun data field hfield => hfields field ((hsub data).subset hfield))
    (fun data => hnodup.sublist ((hsub data).map Prod.fst)) hdeclared
    (fun data field hfield hthere => ((hbase data).map Prod.fst).subset
      (hrequired field hfield hthere))
    (fun _ hname => absurd hname hschema) hstable

/-- A part of the fields says nothing about the others. -/
theorem lookup_part (h : readRequired data path fields = .ok part)
    (hkey : key ∉ fields.map Prod.fst) : part.lookup key = none := by
  cases hx : part.lookup key with
  | none => rfl
  | some x =>
      obtain ⟨r, _, hmem, _⟩ := lookup_readRequired h hx
      exact absurd (List.mem_map_of_mem (f := Prod.fst) hmem) hkey

end Conditional

/-! ### `parse_build_options` -/

def buildOptionsFields : List (String × Reader) :=
  [("oci", textReader false), ("oci_ref", textReader false)]

def buildOptionsOptional : List (String × Reader) := [
  ("arch", textReader false), ("arch_repo", textReader false),
  ("arch_commits", textMapReader false), ("oci_updates", textMapReader false)]

def buildOptionsGroup : GroupSpec where
  fields data := buildOptionsFields ++ present data buildOptionsOptional
  check result := ∀ updates, result.lookup "oci_updates" = some updates →
    hasExactKeys ["app_A", "app_B", "runtime"] updates = true

theorem parseBuildOptions_follows : Follows parseBuildOptions buildOptionsGroup := by
  intro v path w
  constructor
  · intro h
    obtain ⟨data, hdata, h⟩ := bind_eq_ok.mp h
    obtain ⟨base, hbase, h⟩ := bind_eq_ok.mp h
    obtain ⟨optional, hoptional, h⟩ := bind_eq_ok.mp h
    obtain ⟨hcheck, hknown, rfl⟩ : (∀ updates, optional.lookup "oci_updates" = some updates →
        hasExactKeys ["app_A", "app_B", "runtime"] updates = true)
          ∧ known data (base ++ optional) path = .ok () ∧ Value.dict (base ++ optional) = w := by
      dsimp only at h
      cases hlookup : optional.lookup "oci_updates" with
      | none =>
          rw [hlookup] at h
          obtain ⟨_, _, h⟩ := bind_eq_ok.mp h
          obtain ⟨_, hknown, h⟩ := bind_eq_ok.mp h
          exact ⟨fun _ hnone => (nomatch hnone), hknown, Except.ok.inj h⟩
      | some updates =>
          rw [hlookup] at h
          obtain ⟨_, hkeys, h⟩ := bind_eq_ok.mp h
          obtain ⟨_, hknown, h⟩ := bind_eq_ok.mp h
          refine ⟨fun other hother => ?_, hknown, Except.ok.inj h⟩
          obtain rfl := Option.some.inj hother
          exact Bool.not_eq_false _ ▸ raiseIf_eq_ok.mp hkeys
    refine ⟨data, base ++ optional, objectMap_eq_ok.mp hdata, rfl,
      readRequired_append.mpr ⟨base, optional, hbase, hoptional, rfl⟩, fun updates hupdates => ?_,
      hknown⟩
    rw [List.lookup_append, lookup_part hbase (by decide), Option.none_or] at hupdates
    exact hcheck updates hupdates
  · rintro ⟨data, result, rfl, rfl, hread, hcheck, hknown⟩
    obtain ⟨base, optional, hbase, hoptional, rfl⟩ := readRequired_append.mp hread
    refine bind_eq_ok.mpr ⟨data, rfl,
      bind_eq_ok.mpr ⟨base, hbase, bind_eq_ok.mpr ⟨optional, hoptional,
      ?_⟩⟩⟩
    dsimp only
    cases hlookup : optional.lookup "oci_updates" with
    | none => exact bind_eq_ok.mpr ⟨(), rfl, bind_eq_ok.mpr ⟨(), hknown, rfl⟩⟩
    | some updates =>
        have hkeys := hcheck updates (by
          rw [List.lookup_append, lookup_part hbase (by decide), Option.none_or, hlookup])
        exact bind_eq_ok.mpr ⟨(), raiseIf_of_not (by rw [hkeys]; decide),
          bind_eq_ok.mpr ⟨(), hknown, rfl⟩⟩

theorem parseBuildOptions_faithful :
    Faithful parseBuildOptions TypeHint.fixtureBuildOptions := by
  refine .of_all buildOptionsFields (buildOptionsFields ++ buildOptionsOptional)
    parseBuildOptions_follows (fun data => List.sublist_append_left _ _)
    (fun data => present_sublist.append_left _) ?_ (by decide) (by decide) (by decide) (by decide)
    fun hreads => congrArg (buildOptionsFields ++ ·) hreads.present_eq
  unfold buildOptionsFields buildOptionsOptional
  simp only [List.cons_append, List.nil_append, List.forall_mem_cons, List.not_mem_nil,
    false_implies, implies_true, and_true]
  exact ⟨.text rfl, .text rfl, .text rfl, .text rfl, .textMap rfl, .textMap rfl⟩

/-! ### `parse_auth` -/

def authFields : List (String × Reader) := [
  ("directory", textReader false), ("ref", textReader false), ("commit", textReader false),
  ("payloads", textsReader)]

def authenticatorFields : List (String × Reader) :=
  [("authenticator_ref", textReader false), ("authenticator_commit", textReader false)]

def authenticatorBinaryFields : List (String × Reader) := [
  ("authenticator_binary", textReader false), ("authenticator_runtime_ref", textReader false),
  ("authenticator_runtime_commit", textReader false)]

def authGroup : GroupSpec where
  fields data := authFields ++ withHead "authenticator_ref" data authenticatorFields
    ++ withHead "authenticator_binary" data authenticatorBinaryFields
  check result := (result.lookup "authenticator_binary").isSome = true →
    (result.lookup "authenticator_ref").isSome = true

theorem authBinary_eq_ok {data binary : List (String × Value)} {path : String} :
    (if (data.lookup "authenticator_binary").isSome then do
        let _ ← required data "authenticator_ref" path
        readRequired data path authenticatorBinaryFields
      else .ok []) = .ok binary ↔
      readRequired data path (withHead "authenticator_binary" data authenticatorBinaryFields)
          = .ok binary
        ∧ ((data.lookup "authenticator_binary").isSome = true →
          (data.lookup "authenticator_ref").isSome = true) := by
  unfold withHead
  by_cases hhead : (data.lookup "authenticator_binary").isSome = true
  · rw [if_pos hhead, if_pos hhead, bind_eq_ok]
    simp only [required_eq_ok, hhead, forall_const, Option.isSome_iff_exists]
    exact ⟨fun ⟨a, ha, h⟩ => ⟨h, a, ha⟩, fun ⟨h, a, ha⟩ => ⟨a, ha, h⟩⟩
  · rw [if_neg hhead, if_neg hhead]
    exact ⟨fun h => ⟨h, fun hthere => absurd hthere hhead⟩, fun h => h.1⟩

theorem parseAuth_follows : Follows parseAuth authGroup := by
  intro v path w
  constructor
  · intro h
    obtain ⟨data, hdata, h⟩ := bind_eq_ok.mp h
    obtain ⟨base, hbase, h⟩ := bind_eq_ok.mp h
    obtain ⟨authenticator, hauthenticator, h⟩ := ite_bind_eq_ok.mp h
    dsimp only at h
    obtain ⟨binary, hbinary, hknown, rfl⟩ : ∃ binary,
      (if (data.lookup "authenticator_binary").isSome
        then do
          let _ ← required data "authenticator_ref" path
          readRequired data path authenticatorBinaryFields
        else .ok []) = .ok binary ∧ known data (base ++ authenticator ++ binary) path = .ok ()
          ∧ Value.dict (base ++ authenticator ++ binary) = w := by
      by_cases hhead : (data.lookup "authenticator_binary").isSome = true
      · rw [if_pos hhead] at h
        obtain ⟨_, hrequired, h⟩ := bind_eq_ok.mp h
        obtain ⟨binary, hbinary, h⟩ := bind_eq_ok.mp h
        obtain ⟨_, hknown, h⟩ := bind_eq_ok.mp h
        rw [if_pos hhead]
        exact ⟨binary, bind_eq_ok.mpr ⟨_, hrequired, hbinary⟩, hknown, Except.ok.inj h⟩
      · rw [if_neg hhead] at h
        obtain ⟨binary, hbinary, h⟩ := bind_eq_ok.mp h
        obtain ⟨_, hknown, h⟩ := bind_eq_ok.mp h
        rw [if_neg hhead]
        exact ⟨binary, hbinary, hknown, Except.ok.inj h⟩
    obtain ⟨hbinary, hhead⟩ := authBinary_eq_ok.mp hbinary
    have hread := readRequired_append.mpr ⟨_, binary, readRequired_append.mpr
      ⟨base, authenticator, hbase, (readWithHead authenticatorFields).symm.trans
        hauthenticator, rfl⟩, hbinary, rfl⟩
    refine ⟨data, _, objectMap_eq_ok.mp hdata, rfl, hread, fun hsome => ?_, hknown⟩
    obtain ⟨x, hx⟩ := Option.isSome_iff_exists.mp hsome
    obtain ⟨_, y, _, hy, _⟩ := lookup_readRequired hread hx
    exact known_eq_ok.mp hknown _ (hhead (Option.isSome_iff_exists.mpr ⟨y, hy⟩))
  · rintro ⟨data, result, rfl, rfl, hreads⟩
    have hhead := hreads.check
    dsimp only [authGroup] at hhead
    rw [hreads.isSome_lookup, hreads.isSome_lookup] at hhead
    obtain ⟨_, binary, hread, hbinary, rfl⟩ := readRequired_append.mp hreads.read
    obtain ⟨base, authenticator, hbase, hauthenticator, rfl⟩ := readRequired_append.mp hread
    have hbinary := authBinary_eq_ok.mpr ⟨hbinary, hhead⟩
    refine bind_eq_ok.mpr ⟨data, rfl, bind_eq_ok.mpr ⟨base, hbase, ite_bind_eq_ok.mpr
      ⟨authenticator, (readWithHead _).trans hauthenticator, ?_⟩⟩⟩
    dsimp only
    by_cases hhead : (data.lookup "authenticator_binary").isSome = true
    · rw [if_pos hhead] at hbinary ⊢
      obtain ⟨_, hrequired, hbinary⟩ := bind_eq_ok.mp hbinary
      exact bind_eq_ok.mpr ⟨_, hrequired, bind_eq_ok.mpr ⟨binary, hbinary, bind_eq_ok.mpr
        ⟨(), hreads.known, rfl⟩⟩⟩
    · rw [if_neg hhead] at hbinary ⊢
      exact bind_eq_ok.mpr ⟨binary, hbinary, bind_eq_ok.mpr ⟨(), hreads.known, rfl⟩⟩

theorem parseAuth_faithful : Faithful parseAuth TypeHint.fixtureAuth := by
  refine .of_all authFields (authFields ++ authenticatorFields ++ authenticatorBinaryFields)
    parseAuth_follows
    (fun data => (List.sublist_append_left _ _).trans (List.sublist_append_left _ _))
    (fun data => (withHead_sublist.append_left _).append withHead_sublist) ?_ (by
      decide) (by decide)
    (by decide) (by decide)
    fun hreads => congrArg₂ (authFields ++ · ++ ·) hreads.withHead_eq hreads.withHead_eq
  unfold authFields authenticatorFields authenticatorBinaryFields
  simp only [List.cons_append, List.nil_append, List.forall_mem_cons, List.not_mem_nil,
    false_implies, implies_true, and_true]
  exact ⟨.text rfl, .text rfl, .text rfl, .texts rfl, .text rfl, .text rfl, .text rfl, .text rfl,
    .text rfl⟩

/-! ### `parse_transactions` -/

def transactionsFields : List (String × Reader) := [
  ("directory", textReader false), ("apps", textsReader),
  ("commits", mapReader (textMapReader false)), ("payloads", mapReader (mapReader textsReader)),
  ("metadata", textMapReader false), ("eol_reason", textReader false)]

def transactionsGroup : GroupSpec where
  fields _ := transactionsFields
  check result := ∀ apps, result.lookup "apps" = some apps → 2 ≤ (apps.asList?.getD []).length

theorem strings_length {nonempty : Bool} {v : Value} {path : String} {texts : List String}
    (h : strings nonempty v path = .ok texts) : texts.length = (v.asList?.getD []).length := by
  obtain ⟨items, hitems, h⟩ := bind_eq_ok.mp h
  cases v with
  | list data =>
      obtain rfl := Except.ok.inj hitems
      rw [← (mapM_eq_ok.mp h).length_eq, List.length_zipIdx]
      rfl
  | _ => cases hitems

theorem mem_apps : ("apps", textsReader) ∈ transactionsFields := .tail _ (.head _)

theorem parseTransactions_follows : Follows parseTransactions transactionsGroup := by
  intro v path w
  constructor
  · intro h
    obtain ⟨data, hdata, h⟩ := bind_eq_ok.mp h
    obtain ⟨value, hvalue, h⟩ := bind_eq_ok.mp h
    obtain ⟨apps, happs, h⟩ := bind_eq_ok.mp h
    obtain ⟨_, hlength, h⟩ := bind_eq_ok.mp h
    obtain ⟨result, hresult, h⟩ := bind_eq_ok.mp h
    obtain ⟨_, hknown, h⟩ := bind_eq_ok.mp h
    refine ⟨data, result, objectMap_eq_ok.mp hdata, (Except.ok.inj h).symm, hresult,
      fun x hx => ?_, hknown⟩
    obtain ⟨y, x', hy, hread, hx'⟩ := readRequired_lookup hresult (by decide) mem_apps
    obtain rfl := Option.some.inj (hx.symm.trans hx')
    obtain rfl := Option.some.inj (hy.symm.trans (required_eq_ok.mp hvalue))
    rw [textsReader_exact hread, ← strings_length happs]
    exact Nat.le_of_not_lt (raiseIf_eq_ok.mp hlength)
  · rintro ⟨data, result, rfl, rfl, hreads⟩
    obtain ⟨y, x, hy, hread, hx⟩ := readRequired_lookup hreads.read
      (show (transactionsFields.map Prod.fst).Nodup by decide) mem_apps
    have hlength := hreads.check x hx
    rw [textsReader_exact hread] at hlength
    obtain ⟨apps, happs, _⟩ := bind_eq_ok.mp hread
    rw [← strings_length happs] at hlength
    exact bind_eq_ok.mpr ⟨data, rfl, bind_eq_ok.mpr ⟨y, required_eq_ok.mpr hy, bind_eq_ok.mpr
      ⟨apps, strings_path _ happs, bind_eq_ok.mpr ⟨(), raiseIf_of_not hlength.not_gt, bind_eq_ok.mpr
      ⟨result, hreads.read, bind_eq_ok.mpr ⟨(), hreads.known, rfl⟩⟩⟩⟩⟩⟩

theorem parseTransactions_faithful :
    Faithful parseTransactions TypeHint.fixtureTransactions := by
  refine .of_all transactionsFields transactionsFields parseTransactions_follows
    (fun data => .refl _) (fun data => .refl _) ?_ (by decide) (by decide) (by decide) (by decide)
    fun _ => rfl
  unfold transactionsFields
  simp only [List.forall_mem_cons, List.not_mem_nil, false_implies, implies_true, and_true]
  exact ⟨.text rfl, .texts rfl, ⟨_, rfl, mapReader_faithful (textMapReader_faithful _)⟩,
    ⟨_, rfl, mapReader_faithful (mapReader_faithful textsReader_faithful)⟩, .textMap rfl, .text rfl⟩

/-! ### `parse_extras` -/

def extrasFields : List (String × Reader) :=
  [("transactions", parseTransactions), ("auth", parseAuth)]

def extrasGroup : GroupSpec := ⟨fun data => present data extrasFields, fun _ => True⟩

theorem parseExtras_follows : Follows parseExtras extrasGroup := by
  intro v path w
  constructor
  · intro h
    obtain ⟨data, hdata, h⟩ := bind_eq_ok.mp h
    obtain ⟨result, hresult, h⟩ := bind_eq_ok.mp h
    obtain ⟨_, hknown, h⟩ := bind_eq_ok.mp h
    exact ⟨data, result, objectMap_eq_ok.mp hdata, (Except.ok.inj h).symm, hresult, trivial, hknown⟩
  · rintro ⟨data, result, rfl, rfl, hresult, _, hknown⟩
    exact bind_eq_ok.mpr ⟨data, rfl, bind_eq_ok.mpr ⟨result, hresult, bind_eq_ok.mpr
      ⟨(), hknown, rfl⟩⟩⟩

theorem parseExtras_faithful : Faithful parseExtras TypeHint.fixtureExtras := by
  refine .of_all [] extrasFields parseExtras_follows (fun data => List.nil_sublist _)
    (fun data => present_sublist) ?_ (by decide) (by decide) (by decide) (by decide)
    fun hreads => hreads.present_eq
  unfold extrasFields
  simp only [List.forall_mem_cons, List.not_mem_nil, false_implies, implies_true, and_true]
  exact ⟨⟨_, rfl, parseTransactions_faithful⟩, ⟨_, rfl, parseAuth_faithful⟩⟩

/-! ### `parse_lifecycle_extra` -/

def lifecycleFields : List (String × Reader) := [
  ("reference_version", textReader false), ("image_A", textReader false),
  ("payload_A", textReader false), ("image_B", textReader false),
  ("payload_B", textReader false), ("signed_bundle", textReader false),
  ("sideload_native", textReader false), ("sideload", textReader false),
  ("usage_repo", textReader false), ("usage_app", textReader false),
  ("usage_sdk", textReader false), ("usage_metadata", textReader false),
  ("usage_app_commit", textReader false), ("usage_sdk_commit", textReader false),
  ("trigger_app", textReader false), ("triggers", mapReader parseTrigger)]

def foreignFields : List (String × Reader) := [("foreign_bundle", textReader false)]

def sideloadUpdateFields : List (String × Reader) := [
  ("sideload_update_repo", textReader false), ("sideload_update", textReader false),
  ("sideload_update_commit", textReader false)]

def lifecycleGroup : GroupSpec where
  fields data := lifecycleFields ++ present data foreignFields
    ++ withHead "sideload_update_repo" data sideloadUpdateFields
  check _ := True

theorem parseLifecycleExtra_follows : Follows parseLifecycleExtra lifecycleGroup := by
  intro v path w
  constructor
  · intro h
    obtain ⟨data, hdata, h⟩ := bind_eq_ok.mp h
    obtain ⟨base, hbase, h⟩ := bind_eq_ok.mp h
    obtain ⟨foreign, hforeign, h⟩ := bind_eq_ok.mp h
    obtain ⟨sideload, hsideload, h⟩ := ite_bind_eq_ok.mp h
    obtain ⟨_, hknown, h⟩ := bind_eq_ok.mp h
    exact ⟨data, _, objectMap_eq_ok.mp hdata, (Except.ok.inj h).symm, readRequired_append.mpr
      ⟨_, sideload, readRequired_append.mpr ⟨base, foreign, hbase, hforeign, rfl⟩,
        (readWithHead sideloadUpdateFields).symm.trans hsideload, rfl⟩, trivial, hknown⟩
  · rintro ⟨data, result, rfl, rfl, hreads⟩
    obtain ⟨_, sideload, hread, hsideload, hresult⟩ := readRequired_append.mp hreads.read
    obtain ⟨base, foreign, hbase, hforeign, rfl⟩ := readRequired_append.mp hread
    subst hresult
    exact bind_eq_ok.mpr ⟨data, rfl, bind_eq_ok.mpr ⟨base, hbase, bind_eq_ok.mpr ⟨foreign, hforeign,
      ite_bind_eq_ok.mpr ⟨sideload, (readWithHead _).trans hsideload, bind_eq_ok.mpr
      ⟨(), hreads.known, rfl⟩⟩⟩⟩⟩

theorem parseLifecycleExtra_faithful :
    Faithful parseLifecycleExtra TypeHint.fixtureLifecycleExtra := by
  refine .of_all lifecycleFields (lifecycleFields ++ foreignFields ++ sideloadUpdateFields)
    parseLifecycleExtra_follows
    (fun data => (List.sublist_append_left _ _).trans (List.sublist_append_left _ _))
    (fun data => (present_sublist.append_left _).append withHead_sublist) ?_ (by decide) (by decide)
    (by decide) (by decide)
    fun hreads => congrArg₂ (lifecycleFields ++ · ++ ·) hreads.present_eq hreads.withHead_eq
  unfold lifecycleFields foreignFields sideloadUpdateFields
  simp only [List.cons_append, List.nil_append, List.forall_mem_cons, List.not_mem_nil,
    false_implies, implies_true, and_true]
  exact ⟨.text rfl, .text rfl, .text rfl, .text rfl, .text rfl, .text rfl, .text rfl, .text rfl,
    .text rfl, .text rfl, .text rfl, .text rfl, .text rfl, .text rfl, .text rfl,
    ⟨_, rfl, mapReader_faithful parseTrigger_faithful⟩, .text rfl, .text rfl, .text rfl, .text rfl⟩

/-! ### `parse_queries` -/

def queriesFields : List (String × Reader) := [
  ("app", textReader false), ("second", textReader false), ("extension", textReader false),
  ("foreign_arch", textReader false), ("versions", mapReader parseQueryVersion),
  ("bundle_urls", textReader false), ("bundle_urls_size", sizeReader),
  ("bundle_plain", textReader false), ("bundle_plain_size", sizeReader),
  ("policy_repo", textReader false), ("policy_ref", textReader false),
  ("policy_commit", textReader false), ("policy_metadata", textReader false),
  ("policy_extensions", listReader parsePolicyExtension), ("appstream", textReader false),
  ("icons", textMapReader false)]

def searchFields : List (String × Reader) := [("search_kind_repo", textReader false)]

def selectionFields : List (String × Reader) :=
  [("selection_repo", textReader false), ("selection_commits", textMapReader false)]

def mountsFields : List (String × Reader) := [("extension_mounts", parseExtensionMounts)]

/-- The selection fixture has a commit for each of its refs. -/
def SelectionComplete (arch : String) (commits : Value) : Prop :=
  ∀ ref ∈ selectionRefs arch, ∃ commit, commits.field? ref = some commit
    ∧ ∃ s, string true commit "" = .ok s

def queriesGroup (arch : String) : GroupSpec where
  fields data := queriesFields ++ present data searchFields
    ++ withHead "selection_repo" data selectionFields ++ present data mountsFields
  check result := ∀ commits, result.lookup "selection_commits" = some commits →
    SelectionComplete arch commits

theorem selection_eq_ok {arch path : String} {commits : Value} :
    ((selectionRefs arch).forM fun ref => do
      match commits.field? ref with
      | some commit => do
          let _ ← string true commit s!"{path}.selection_commits.{ref}"
      | none => .error (validationError
          s!"{path}.selection_commits.{ref}: required field is missing")) = .ok () ↔
      SelectionComplete arch commits := by
  rw [forM_eq_ok]
  refine forall₂_congr fun ref _ => ?_
  cases commits.field? ref with
  | none => simp
  | some commit =>
      constructor
      · intro h
        obtain ⟨s, hs, _⟩ := bind_eq_ok.mp h
        exact ⟨commit, rfl, s, string_path _ hs⟩
      · rintro ⟨_, hfound, s, hs⟩
        obtain rfl := Option.some.inj hfound
        exact bind_eq_ok.mpr ⟨s, string_path _ hs, rfl⟩

theorem parseQueries_follows (arch : String) : Follows (parseQueries arch) (queriesGroup arch) := by
  intro v path w
  -- the commits of the selection are looked up in its own fields
  have hcommits : ∀ {data base search selection mounts : List (String × Value)},
      readRequired data path queriesFields = .ok base →
      readRequired data path (present data searchFields) = .ok search →
      readRequired data path (present data mountsFields) = .ok mounts →
      (base ++ search ++ selection ++ mounts).lookup "selection_commits"
        = selection.lookup "selection_commits" := by
    intro data base search selection mounts hbase hsearch hmounts
    have hsearch : search.lookup "selection_commits" = none := lookup_part hsearch fun hmem =>
      absurd ((present_sublist.map Prod.fst).subset hmem) (by decide)
    have hmounts : mounts.lookup "selection_commits" = none := lookup_part hmounts fun hmem =>
      absurd ((present_sublist.map Prod.fst).subset hmem) (by decide)
    rw [List.lookup_append, List.lookup_append, List.lookup_append,
      lookup_part hbase (by decide), hsearch, hmounts, Option.none_or, Option.none_or,
        Option.or_none]
  constructor
  · intro h
    obtain ⟨data, hdata, h⟩ := bind_eq_ok.mp h
    obtain ⟨base, hbase, h⟩ := bind_eq_ok.mp h
    obtain ⟨search, hsearch, h⟩ := bind_eq_ok.mp h
    obtain ⟨selection, hselection, h⟩ := ite_bind_eq_ok.mp h
    dsimp only at h
    obtain ⟨mounts, hcheck, hmounts, hknown, rfl⟩ : ∃ mounts,
        (∀ commits, selection.lookup "selection_commits" = some commits →
          SelectionComplete arch commits)
        ∧ readRequired data path (present data mountsFields) = .ok mounts
        ∧ known data (base ++ search ++ selection ++ mounts) path = .ok ()
        ∧ Value.dict (base ++ search ++ selection ++ mounts) = w := by
      cases hlookup : selection.lookup "selection_commits" with
      | none =>
          rw [hlookup] at h
          obtain ⟨_, _, h⟩ := bind_eq_ok.mp h
          obtain ⟨mounts, hmounts, h⟩ := bind_eq_ok.mp h
          obtain ⟨_, hknown, h⟩ := bind_eq_ok.mp h
          exact ⟨mounts, fun _ hnone => (nomatch hnone), hmounts, hknown, Except.ok.inj h⟩
      | some commits =>
          rw [hlookup] at h
          obtain ⟨_, hrefs, h⟩ := bind_eq_ok.mp h
          obtain ⟨mounts, hmounts, h⟩ := bind_eq_ok.mp h
          obtain ⟨_, hknown, h⟩ := bind_eq_ok.mp h
          refine ⟨mounts, fun other hother => ?_, hmounts, hknown, Except.ok.inj h⟩
          obtain rfl := Option.some.inj hother
          exact selection_eq_ok.mp hrefs
    have hread := readRequired_append.mpr ⟨_, mounts, readRequired_append.mpr ⟨_, selection,
      readRequired_append.mpr ⟨base, search, hbase, hsearch, rfl⟩,
      (readWithHead selectionFields).symm.trans hselection, rfl⟩, hmounts, rfl⟩
    refine ⟨data, _, objectMap_eq_ok.mp hdata, rfl, hread, fun commits hsome => ?_, hknown⟩
    exact hcheck commits ((hcommits hbase hsearch hmounts).symm.trans hsome)
  · rintro ⟨data, result, rfl, rfl, hreads⟩
    obtain ⟨_, mounts, hread, hmounts, hresult⟩ := readRequired_append.mp hreads.read
    obtain ⟨_, selection, hread', hselection, rfl⟩ := readRequired_append.mp hread
    obtain ⟨base, search, hbase, hsearch, rfl⟩ := readRequired_append.mp hread'
    subst hresult
    refine bind_eq_ok.mpr ⟨data, rfl, bind_eq_ok.mpr ⟨base, hbase, bind_eq_ok.mpr ⟨search, hsearch,
      ite_bind_eq_ok.mpr ⟨selection, (readWithHead _).trans hselection, ?_⟩⟩⟩⟩
    dsimp only
    cases hlookup : selection.lookup "selection_commits" with
    | none =>
        exact bind_eq_ok.mpr ⟨(), rfl, bind_eq_ok.mpr ⟨mounts, hmounts, bind_eq_ok.mpr
          ⟨(), hreads.known, rfl⟩⟩⟩
    | some commits =>
        have hcomplete := hreads.check commits
          ((hcommits hbase hsearch hmounts).trans hlookup)
        exact bind_eq_ok.mpr ⟨(), selection_eq_ok.mpr hcomplete, bind_eq_ok.mpr
          ⟨mounts, hmounts, bind_eq_ok.mpr ⟨(), hreads.known, rfl⟩⟩⟩

theorem parseQueries_faithful (arch : String) :
    Faithful (parseQueries arch) TypeHint.fixtureQueries := by
  refine .of_all queriesFields (queriesFields ++ searchFields ++ selectionFields ++ mountsFields)
    (parseQueries_follows arch) (fun data => ?_) (fun data => ?_) ?_ (by decide) (by decide)
    (by decide) (by decide) fun {data path result} hreads => ?_
  · exact ((List.sublist_append_left _ _).trans (List.sublist_append_left _ _)).trans
      (List.sublist_append_left _ _)
  · exact ((present_sublist.append_left _).append withHead_sublist).append present_sublist
  · unfold queriesFields searchFields selectionFields mountsFields
    simp only [List.cons_append, List.nil_append, List.forall_mem_cons, List.not_mem_nil,
      false_implies, implies_true, and_true]
    exact ⟨.text rfl, .text rfl, .text rfl, .text rfl,
      ⟨_, rfl, mapReader_faithful parseQueryVersion_faithful⟩, .text rfl, .size rfl, .text rfl,
      .size rfl, .text rfl, .text rfl, .text rfl, .text rfl,
      ⟨_, rfl, listReader_faithful parsePolicyExtension_faithful⟩, .text rfl,
        .textMap rfl, .text rfl,
      .text rfl, .textMap rfl, ⟨_, rfl, parseExtensionMounts_faithful⟩⟩
  · show _ ++ _ ++ _ ++ _ = _ ++ _ ++ _ ++ _
    rw [hreads.present_eq, hreads.withHead_eq, hreads.present_eq]

/-! ### `parse_contracts` -/

def contractsFields : List (String × Reader) := [
  ("repos", textMapReader true), ("refs", textMapReader true),
  ("commits", mapReader (textMapReader true))]

/-- Each version has its repository and a commit for each ref. -/
structure ContractsComplete (repos refs commits : List (String × Value)) : Prop where
  aliases : ∀ name ∈ contractAliases, ∃ ref, refs.lookup name = some ref
    ∧ ∃ s, string true ref "" = .ok s
  versions : ∀ version ∈ contractVersions, (∃ repo, repos.lookup version = some repo)
    ∧ ∃ versionCommits, commits.lookup version = some (.dict versionCommits)
      ∧ ∀ entry ∈ refs, ∃ commit, versionCommits.lookup (entry.2.asStr?.getD "") = some commit

def contractsGroup : GroupSpec where
  fields _ := contractsFields
  check result := ∃ repos refs commits, result.lookup "repos" = some (.dict repos)
    ∧ result.lookup "refs" = some (.dict refs) ∧ result.lookup "commits" = some (.dict commits)
    ∧ ContractsComplete repos refs commits

theorem aliases_eq_ok {refs : List (String × Value)} {path : String} :
    (contractAliases.forM fun name => do
      let _ ← string true (← required refs name s!"{path}.refs") s!"{path}.refs.{name}") = .ok () ↔
      ∀ name ∈ contractAliases, ∃ ref, refs.lookup name = some ref
        ∧ ∃ s, string true ref "" = .ok s := by
  rw [forM_eq_ok]
  refine forall₂_congr fun name _ => ?_
  constructor
  · intro h
    obtain ⟨ref, href, h⟩ := bind_eq_ok.mp h
    obtain ⟨s, hs, _⟩ := bind_eq_ok.mp h
    exact ⟨ref, required_eq_ok.mp href, s, string_path _ hs⟩
  · rintro ⟨ref, href, s, hs⟩
    exact bind_eq_ok.mpr ⟨ref, required_eq_ok.mpr href, bind_eq_ok.mpr ⟨s, string_path _ hs, rfl⟩⟩

theorem versions_eq_ok {repos refs commits : List (String × Value)} {path : String} :
    (contractVersions.forM fun version => do
      let _ ← required repos version s!"{path}.repos"
      let versionCommits ← objectMap (← required commits version s!"{path}.commits")
        s!"{path}.commits.{version}"
      refs.forM fun (_, ref) => do
        let _ ← required versionCommits (ref.asStr?.getD "") s!"{path}.commits.{version}") =
        .ok () ↔
      ∀ version ∈ contractVersions, (∃ repo, repos.lookup version = some repo)
        ∧ ∃ versionCommits, commits.lookup version = some (.dict versionCommits)
          ∧ ∀ entry ∈ refs, ∃ commit,
            versionCommits.lookup (entry.2.asStr?.getD "") = some commit := by
  rw [forM_eq_ok]
  refine forall₂_congr fun version _ => ?_
  constructor
  · intro h
    obtain ⟨repo, hrepo, h⟩ := bind_eq_ok.mp h
    obtain ⟨value, hvalue, h⟩ := bind_eq_ok.mp h
    obtain ⟨versionCommits, hcommits, h⟩ := bind_eq_ok.mp h
    obtain rfl := objectMap_eq_ok.mp hcommits
    refine ⟨⟨repo, required_eq_ok.mp hrepo⟩, versionCommits, required_eq_ok.mp hvalue,
      fun entry hentry => ?_⟩
    obtain ⟨commit, hcommit, _⟩ := bind_eq_ok.mp (forM_eq_ok.mp h entry hentry)
    exact ⟨commit, required_eq_ok.mp hcommit⟩
  · rintro ⟨⟨repo, hrepo⟩, versionCommits, hcommits, hall⟩
    refine bind_eq_ok.mpr ⟨repo, required_eq_ok.mpr hrepo, bind_eq_ok.mpr
      ⟨_, required_eq_ok.mpr hcommits, bind_eq_ok.mpr ⟨versionCommits, rfl,
      forM_eq_ok.mpr fun entry hentry => ?_⟩⟩⟩
    obtain ⟨commit, hcommit⟩ := hall entry hentry
    exact bind_eq_ok.mpr ⟨commit, required_eq_ok.mpr hcommit, rfl⟩

/-- An object under a key of what was read. -/
theorem objectMap_lookup {result entries : List (String × Value)} {key path : String}
    (h : objectMap ((result.lookup key).getD .none) path = .ok entries) :
    result.lookup key = some (.dict entries) := by
  have hdict := objectMap_eq_ok.mp h
  cases hlookup : result.lookup key with
  | some item =>
      rw [hlookup] at hdict
      exact congrArg some hdict
  | none =>
      rw [hlookup] at hdict
      cases hdict

theorem parseContracts_follows : Follows parseContracts contractsGroup := by
  intro v path w
  constructor
  · intro h
    obtain ⟨data, hdata, h⟩ := bind_eq_ok.mp h
    obtain ⟨result, hresult, h⟩ := bind_eq_ok.mp h
    obtain ⟨repos, hrepos, h⟩ := bind_eq_ok.mp h
    obtain ⟨refs, hrefs, h⟩ := bind_eq_ok.mp h
    obtain ⟨commits, hcommits, h⟩ := bind_eq_ok.mp h
    obtain ⟨_, haliases, h⟩ := bind_eq_ok.mp h
    obtain ⟨_, hversions, h⟩ := bind_eq_ok.mp h
    obtain ⟨_, hknown, h⟩ := bind_eq_ok.mp h
    exact ⟨data, result, objectMap_eq_ok.mp hdata, (Except.ok.inj h).symm, hresult,
      ⟨repos, refs, commits, objectMap_lookup hrepos, objectMap_lookup hrefs,
        objectMap_lookup hcommits, aliases_eq_ok.mp haliases, versions_eq_ok.mp hversions⟩, hknown⟩
  · rintro ⟨data, result, rfl, rfl, hread, ⟨repos, refs, commits, hrepos, hrefs, hcommits, hall⟩,
      hknown⟩
    have hobject : ∀ {key : String} {entries : List (String × Value)} (path : String),
        result.lookup key = some (.dict entries) →
          objectMap ((result.lookup key).getD .none) path = .ok entries := by
      intro key entries path hsome
      rw [hsome]
      rfl
    exact bind_eq_ok.mpr ⟨data, rfl, bind_eq_ok.mpr ⟨result, hread, bind_eq_ok.mpr
      ⟨repos, hobject _ hrepos, bind_eq_ok.mpr ⟨refs, hobject _ hrefs, bind_eq_ok.mpr
      ⟨commits, hobject _ hcommits, bind_eq_ok.mpr ⟨(), aliases_eq_ok.mpr hall.aliases,
      bind_eq_ok.mpr ⟨(), versions_eq_ok.mpr hall.versions, bind_eq_ok.mpr
      ⟨(), hknown, rfl⟩⟩⟩⟩⟩⟩⟩⟩

theorem parseContracts_faithful : Faithful parseContracts TypeHint.fixtureContracts := by
  refine .of_all contractsFields contractsFields parseContracts_follows (fun data => .refl _)
    (fun data => .refl _) ?_ (by decide) (by decide) (by decide) (by decide) fun _ => rfl
  unfold contractsFields
  simp only [List.forall_mem_cons, List.not_mem_nil, false_implies, implies_true, and_true]
  exact ⟨.textMap rfl, .textMap rfl,
    ⟨_, rfl, mapReader_faithful (textMapReader_faithful _)⟩⟩

end FlatpakBlackbox
