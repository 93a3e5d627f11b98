import Mathlib.Logic.Relation
import FlatpakBlackbox.Json.Typed

set_option autoImplicit false

/-! # The typing judgement of annotations

What an annotation means, apart from the checker: `HasType` is the inductive judgement that a value
has the type an annotation names. `parseTyped` decides it for every JSON value, returns the value
with its tuples as lists, and goes on accepting an object that gains fields the annotation does not
declare.

A union has the alternatives that the checker meets. In a class `JSONValue` is one of them; outside
of a class `JSONValue | X` has the alternatives of the alias itself, whose name is not resolved in
them and is thus an unsupported form.
-/

namespace FlatpakBlackbox

open PyLib PyException

/-! ## JSON values -/

/-- A value JSON can express: its numbers are finite. -/
inductive Value.JsonCompatible : Value → Prop where
  | none : JsonCompatible .none
  | bool (b : Bool) : JsonCompatible (.bool b)
  | int (i : Int) : JsonCompatible (.int i)
  | float {x : PyFloat} (h : x.isFinite = true) : JsonCompatible (.float x)
  | str (s : String) : JsonCompatible (.str s)
  | list {items : List Value} (h : ∀ item ∈ items, JsonCompatible item) :
      JsonCompatible (.list items)
  | tuple {items : List Value} (h : ∀ item ∈ items, JsonCompatible item) :
      JsonCompatible (.tuple items)
  | dict {entries : List (String × Value)} (h : ∀ entry ∈ entries, JsonCompatible entry.2) :
      JsonCompatible (.dict entries)

mutual

/-- The value with its tuples as lists. -/
def Value.listed : Value → Value
  | .list items => .list (listedItems items)
  | .tuple items => .list (listedItems items)
  | .dict entries => .dict (listedEntries entries)
  | .none => .none
  | .bool b => .bool b
  | .int i => .int i
  | .float x => .float x
  | .str s => .str s

def Value.listedItems : List Value → List Value
  | [] => []
  | item :: items => item.listed :: listedItems items

def Value.listedEntries : List (String × Value) → List (String × Value)
  | [] => []
  | (key, item) :: entries => (key, item.listed) :: listedEntries entries

end

theorem listedItems_eq_map (items : List Value) :
    Value.listedItems items = items.map Value.listed := by
  induction items with
  | nil => rfl
  | cons item items ih => rw [Value.listedItems, ih, List.map_cons]

theorem listedEntries_eq_map (entries : List (String × Value)) :
    Value.listedEntries entries = entries.map fun entry => (entry.1, entry.2.listed) := by
  induction entries with
  | nil => rfl
  | cons entry entries ih =>
      obtain ⟨key, item⟩ := entry
      rw [Value.listedEntries, ih, List.map_cons]

theorem lookup_listedEntries (key : String) (entries : List (String × Value)) :
    (Value.listedEntries entries).lookup key = (entries.lookup key).map Value.listed := by
  induction entries with
  | nil => rfl
  | cons entry entries ih =>
      obtain ⟨k, item⟩ := entry
      rw [Value.listedEntries, List.lookup_cons, List.lookup_cons, ih]
      cases key == k with
      | true => rfl
      | false => rfl

mutual

theorem jsonValue_of_compatible : ∀ (v : Value) (path : String), v.JsonCompatible →
    jsonValue v path = .ok v.listed
  | .none, _, _ => rfl
  | .bool _, _, _ => rfl
  | .int _, _, _ => rfl
  | .str _, _, _ => rfl
  | .float x, path, h => by
      cases h with
      | float hfinite => rw [jsonValue, if_pos hfinite, Value.listed]
  | .list items, path, h => by
      cases h with
      | list hitems =>
          rw [jsonValue, jsonItems_of_compatible items path 0 hitems, Value.listed]
          rfl
  | .tuple items, path, h => by
      cases h with
      | tuple hitems =>
          rw [jsonValue, jsonItems_of_compatible items path 0 hitems, Value.listed]
          rfl
  | .dict entries, path, h => by
      cases h with
      | dict hentries =>
          rw [jsonValue, jsonEntries_of_compatible entries path hentries, Value.listed]
          rfl

theorem jsonItems_of_compatible : ∀ (items : List Value) (path : String) (index : Nat),
    (∀ item ∈ items, item.JsonCompatible) →
      jsonItems items path index = .ok (Value.listedItems items)
  | [], _, _, _ => rfl
  | item :: items, path, index, h => by
      obtain ⟨hitem, hitems⟩ := List.forall_mem_cons.mp h
      rw [jsonItems, jsonValue_of_compatible item _ hitem,
        jsonItems_of_compatible items path _ hitems, Value.listedItems]
      rfl

theorem jsonEntries_of_compatible : ∀ (entries : List (String × Value)) (path : String),
    (∀ entry ∈ entries, entry.2.JsonCompatible) →
      jsonEntries entries path = .ok (Value.listedEntries entries)
  | [], _, _ => rfl
  | (key, item) :: entries, path, h => by
      obtain ⟨hitem, hentries⟩ := List.forall_mem_cons.mp h
      rw [jsonEntries, jsonValue_of_compatible item _ hitem,
        jsonEntries_of_compatible entries path hentries, Value.listedEntries]
      rfl

end

/-! ## The judgement -/

/-- The values a `Literal` can list. -/
def Value.isScalar : Value → Bool
  | .none | .bool _ | .int _ | .float _ | .str _ => true
  | _ => false

/-- **The value has the type that the annotation names.** Nothing has an unsupported type. -/
inductive HasType : TypeHint → Value → Prop where
  | jsonValue {v : Value} (h : v.JsonCompatible) : HasType .jsonValue v
  | str (s : String) : HasType .str (.str s)
  | bool (b : Bool) : HasType .bool (.bool b)
  | int (i : Int) : HasType .int (.int i)
  | float (x : PyFloat) : HasType .float (.float x)
  | floatOfInt (i : Int) : HasType .float (.int i)
  | none : HasType .none .none
  | literal {choices : List Value} {v : Value} (hmem : v ∈ choices) (hscalar : v.isScalar = true) :
      HasType (.literal choices) v
  | list {element : TypeHint} {items : List Value} (h : ∀ item ∈ items, HasType element item) :
      HasType (.list element) (.list items)
  | tuple {element : TypeHint} {items : List Value} (h : ∀ item ∈ items, HasType element item) :
      HasType (.list element) (.tuple items)
  | dict {key element : TypeHint} {entries : List (String × Value)}
      (hkeys : ∀ entry ∈ entries, HasType key (.str entry.1))
      (hitems : ∀ entry ∈ entries, HasType element entry.2) :
      HasType (.dict key element) (.dict entries)
  | union {alternatives : List TypeHint} {a : TypeHint} {v : Value} (hmem : a ∈ alternatives)
      (h : HasType a v) : HasType (.union alternatives) v
  | typedDict {fields : List (String × Bool × TypeHint)} {data : List (String × Value)}
      (hrequired : ∀ field ∈ fields, field.2.1 = true → ∃ item, data.lookup field.1 = some item)
      (hfields : ∀ field ∈ fields, ∀ item, data.lookup field.1 = some item →
        HasType field.2.2 item)
      (hschema : "schema" ∈ fields.map Prod.fst → ∀ item, data.lookup "schema" = some item →
        item = .int 1) : HasType (.typedDict fields) (.dict data)

theorem isChoice_iff {v choice : Value} (hv : v.JsonCompatible) :
    v.listed.isChoice choice = true ↔ v = choice ∧ v.isScalar = true := by
  constructor
  · intro h
    cases v <;> cases choice <;> simp_all [Value.listed, Value.isChoice, Value.isScalar]
  · rintro ⟨rfl, hscalar⟩
    cases hv with
    | float hfinite =>
        rename_i x
        cases x with
        | finite q => simp [Value.listed, Value.isChoice]
        | infinite negative => cases hfinite
        | nan => cases hfinite
    | list h => cases hscalar
    | tuple h => cases hscalar
    | dict h => cases hscalar
    | _ => simp [Value.listed, Value.isChoice]

/-- The checks of an object, one by one. -/
theorem validateTyped_dict_eq_ok {fields : List (String × Bool × TypeHint)}
    {data : List (String × Value)} {path : String} :
    validateTyped (.typedDict fields) (.dict data) path = .ok () ↔
      (∀ field ∈ fields, field.2.1 = true → ∃ item, data.lookup field.1 = some item)
        ∧ validateFields fields data path = .ok () ∧
        checkSchemaField fields data path = .ok () := by
  have hrequired : (fields.forM fun field =>
      if field.2.1 then do let _ ← required data field.1 path else .ok ()) = .ok () ↔
        ∀ field ∈ fields, field.2.1 = true → ∃ item, data.lookup field.1 = some item := by
    rw [forM_eq_ok]
    refine forall₂_congr fun field _ => ?_
    obtain ⟨key, isRequired, a⟩ := field
    cases isRequired with
    | false => simp
    | true =>
        show (required data key path >>= fun _ => .ok ()) = .ok () ↔ _
        rw [bind_eq_ok]
        simp only [required_eq_ok, and_true, forall_const]
  rw [validateTyped]
  constructor
  · intro h
    obtain ⟨_, hdata, h⟩ := bind_eq_ok.mp h
    obtain rfl := Except.ok.inj hdata
    obtain ⟨_, hall, h⟩ := bind_eq_ok.mp h
    obtain ⟨_, hfields, hschema⟩ := bind_eq_ok.mp h
    exact ⟨hrequired.mp hall, hfields, hschema⟩
  · rintro ⟨hall, hfields, hschema⟩
    exact bind_eq_ok.mpr ⟨data, rfl, bind_eq_ok.mpr ⟨(), hrequired.mpr hall,
      bind_eq_ok.mpr ⟨(), hfields, hschema⟩⟩⟩

/-- A declared `schema` field that is present is the number 1. -/
theorem checkSchemaField_eq_ok {fields : List (String × Bool × TypeHint)}
    {data : List (String × Value)} {path : String} :
    checkSchemaField fields data path = .ok () ↔
      ("schema" ∈ fields.map Prod.fst → ∀ item, data.lookup "schema" = some item →
        item = .int 1) := by
  unfold checkSchemaField
  by_cases hdeclared : "schema" ∈ fields.map Prod.fst
  · cases hlookup : data.lookup "schema" with
    | none => simp
    | some item =>
        rw [if_pos ⟨List.contains_iff_mem.mpr hdeclared, rfl⟩, schemaOne_eq_ok, hlookup]
        exact ⟨fun h _ other hother => Option.some.inj (hother.symm.trans h),
          fun h => congrArg some (h hdeclared item rfl)⟩
  · rw [if_neg fun h => hdeclared (List.contains_iff_mem.mp h.1)]
    exact ⟨fun _ h => absurd h hdeclared, fun _ => rfl⟩

/-! ## The checker is sound -/

mutual

theorem hasType_of_valid : ∀ (a : TypeHint) {v : Value} {path : String}, v.JsonCompatible →
    validateTyped a v.listed path = .ok () → HasType a v
  | .jsonValue, v, path, hv, h => .jsonValue hv
  | .typedDict fields, v, path, hv, h => by
      cases v with
      | dict data =>
          rw [Value.listed] at h
          obtain ⟨hrequired, hfields, hschema⟩ := validateTyped_dict_eq_ok.mp h
          simp only [lookup_listedEntries, Option.map_eq_some_iff] at hrequired
          refine .typedDict (fun field hfield hthere => ?_) ?_ fun hdeclared item hitem => ?_
          · obtain ⟨_, item, hitem, _⟩ := hrequired field hfield hthere
            exact ⟨item, hitem⟩
          · exact hasType_of_validFields fields (fun entry hentry => by
              cases hv with
              | dict hentries => exact hentries entry hentry) hfields
          · have hone := checkSchemaField_eq_ok.mp hschema hdeclared item.listed
              (by rw [lookup_listedEntries, hitem]; rfl)
            cases item with
            | int i => exact hone
            | _ => cases hone
      | _ => rw [validateTyped] at h; cases h
  | .str, v, path, hv, h => by
      cases v with
      | str s => exact .str s
      | _ => rw [validateTyped] at h; exact absurd rfl (raiseIf_eq_ok.mp h)
  | .bool, v, path, hv, h => by
      cases v with
      | bool b => exact .bool b
      | _ => rw [validateTyped] at h; cases h
  | .int, v, path, hv, h => by
      cases v with
      | int i => exact .int i
      | _ => rw [validateTyped] at h; cases h
  | .float, v, path, hv, h => by
      cases v with
      | int i => exact .floatOfInt i
      | float x => exact .float x
      | _ => simp [Value.listed, validateTyped] at h
  | .none, v, path, hv, h => by
      cases v with
      | none => exact .none
      | _ => simp [Value.listed, validateTyped] at h
  | .literal choices, v, path, hv, h => by
      rw [validateTyped] at h
      -- A choice that equals the value has its type, too.
      have hsome := raiseIf_eq_ok.mp h
      rw [Bool.not_eq_false, List.any_eq_true] at hsome
      obtain ⟨choice, hmem, hchoice⟩ := hsome
      obtain ⟨rfl, hscalar⟩ := (isChoice_iff hv).mp hchoice
      exact .literal hmem hscalar
  | .list element, v, path, hv, h => by
      rw [validateTyped] at h
      obtain ⟨listed, hlisted, h⟩ := bind_eq_ok.mp h
      -- A tuple is checked as the list of its items.
      have hall : ∀ items : List Value, listed = Value.listedItems items →
          (∀ item ∈ items, item.JsonCompatible) → ∀ item ∈ items, HasType element item := by
        intro items heq hitems item hitem
        have hmem : item.listed ∈ listed := by
          rw [heq, listedItems_eq_map]
          exact List.mem_map_of_mem hitem
        have hvalid := (forM_zipIdx_eq_ok fun other index =>
          (accepts_iff s!"{path}[{index}]").symm).mp h item.listed hmem
        exact hasType_of_valid element (hitems item hitem) (hvalid "")
      cases v with
      | list items =>
          cases hv with
          | list hitems => exact .list (hall items (Except.ok.inj hlisted).symm hitems)
      | tuple items =>
          cases hv with
          | tuple hitems => exact .tuple (hall items (Except.ok.inj hlisted).symm hitems)
      | _ => cases hlisted
  | .dict key element, v, path, hv, h => by
      rw [validateTyped] at h
      obtain ⟨data, hdata, h⟩ := bind_eq_ok.mp h
      cases v with
      | dict entries =>
          cases hv with
          | dict hentries =>
              obtain rfl := Except.ok.inj hdata
              rw [listedEntries_eq_map] at h
              have hentry := fun (entry : String × Value) hmem => bind_eq_ok.mp
                (forM_eq_ok.mp h (entry.1, entry.2.listed) (List.mem_map_of_mem hmem))
              refine .dict (fun entry hmem => ?_) fun entry hmem => ?_
              · obtain ⟨_, hkey, _⟩ := hentry entry hmem
                exact hasType_of_valid key (.str _) hkey
              · obtain ⟨_, _, hitem⟩ := hentry entry hmem
                exact hasType_of_valid element (hentries entry hmem) hitem
      | _ => cases hdata
  | .union alternatives, v, path, hv, h => by
      rw [validateTyped] at h
      split at h
      · next hsome =>
          obtain ⟨a, hmem, ha⟩ := hasType_of_validSome alternatives hv hsome
          exact .union hmem ha
      · cases h
  | .unsupported text, v, path, hv, h => by
      rw [validateTyped] at h
      cases h

theorem hasType_of_validFields : ∀ (fields : List (String × Bool × TypeHint))
    {data : List (String × Value)} {path : String}, (∀ entry ∈ data, entry.2.JsonCompatible) →
    validateFields fields (Value.listedEntries data) path = .ok () →
      ∀ field ∈ fields, ∀ item, data.lookup field.1 = some item → HasType field.2.2 item
  | [], _, _, _, _ => fun _ hfield => absurd hfield List.not_mem_nil
  | (key, isRequired, a) :: fields, data, path, hdata, h => by
      rw [validateFields, lookup_listedEntries] at h
      cases hlookup : data.lookup key with
      | none =>
          rw [hlookup] at h
          refine List.forall_mem_cons.mpr ⟨fun item hitem => ?_,
            hasType_of_validFields fields hdata h⟩
          rw [hlookup] at hitem
          cases hitem
      | some found =>
          rw [hlookup] at h
          obtain ⟨_, hfound, hrest⟩ := bind_eq_ok.mp h
          refine List.forall_mem_cons.mpr ⟨fun item hitem => ?_,
            hasType_of_validFields fields hdata hrest⟩
          rw [hlookup] at hitem
          obtain rfl := Option.some.inj hitem
          exact hasType_of_valid a (hdata _ (mem_of_lookup hlookup)) hfound

theorem hasType_of_validSome : ∀ (alternatives : List TypeHint) {v : Value} {path : String},
    v.JsonCompatible → validateSome alternatives v.listed path = true →
      ∃ a ∈ alternatives, HasType a v
  | [], _, _, _, h => by cases h
  | a :: alternatives, v, path, hv, h => by
      rw [validateSome] at h
      cases hfirst : validateTyped a v.listed path with
      | ok u => exact ⟨a, List.mem_cons_self .., hasType_of_valid a hv hfirst⟩
      | error e =>
          rw [hfirst] at h
          obtain ⟨b, hmem, hb⟩ := hasType_of_validSome alternatives hv h
          exact ⟨b, List.mem_cons_of_mem _ hmem, hb⟩

end

/-! ## The checker is complete -/

theorem validateSome_of_mem {alternatives : List TypeHint} {a : TypeHint} {v : Value}
    {path : String} (hmem : a ∈ alternatives) (h : validateTyped a v path = .ok ()) :
    validateSome alternatives v path = true := by
  induction alternatives with
  | nil => cases hmem
  | cons b alternatives ih =>
      rw [validateSome]
      rcases List.mem_cons.mp hmem with rfl | hmem
      · rw [h]
      · cases validateTyped b v path with
        | ok u => rfl
        | error e => exact ih hmem

theorem valid_of_hasType {a : TypeHint} {v : Value} (h : HasType a v) :
    v.JsonCompatible → ∀ path, validateTyped a v.listed path = .ok () := by
  induction h with
  | jsonValue h =>
      intro hv path
      have hjson := isJson_of_jsonValue _ (jsonValue_of_compatible _ path hv)
      rw [validateTyped, hjson]
      rfl
  | str s => exact fun _ path => rfl
  | bool b => exact fun _ path => rfl
  | int i => exact fun _ path => rfl
  | float x => exact fun _ path => rfl
  | floatOfInt i => exact fun _ path => rfl
  | none => exact fun _ path => rfl
  | literal hmem hscalar =>
      intro hv path
      rw [validateTyped]
      refine raiseIf_of_not ?_
      rw [Bool.not_eq_false, List.any_eq_true]
      exact ⟨_, hmem, (isChoice_iff hv).mpr ⟨rfl, hscalar⟩⟩
  | list h ih =>
      intro hv path
      cases hv with
      | list hitems =>
          rw [Value.listed, listedItems_eq_map]
          refine accepts_list (List.forall_mem_map.mpr fun item hitem => ?_) path
          exact ih item hitem (hitems item hitem)
  | tuple h ih =>
      intro hv path
      cases hv with
      | tuple hitems =>
          rw [Value.listed, listedItems_eq_map]
          refine accepts_list (List.forall_mem_map.mpr fun item hitem => ?_) path
          exact ih item hitem (hitems item hitem)
  | dict hkeys hitems ihkeys ihitems =>
      intro hv path
      cases hv with
      | dict hentries =>
          rw [Value.listed, listedEntries_eq_map, validateTyped]
          refine bind_eq_ok.mpr ⟨_, rfl,
            forM_eq_ok.mpr (List.forall_mem_map.mpr fun entry hentry => ?_)⟩
          exact bind_eq_ok.mpr ⟨(), ihkeys entry hentry (.str _) _,
            ihitems entry hentry (hentries entry hentry) _⟩
  | union hmem h ih =>
      intro hv path
      rw [validateTyped, if_pos (validateSome_of_mem hmem (ih hv path))]
  | typedDict hrequired hfields hschema ih =>
      intro hv path
      cases hv with
      | dict hentries =>
          rw [Value.listed]
          refine validateTyped_dict_eq_ok.mpr ⟨fun field hfield hthere => ?_,
            validateFields_eq_ok.mpr fun field hfield item hitem => ?_,
            checkSchemaField_eq_ok.mpr fun hdeclared item hitem => ?_⟩
          · obtain ⟨item, hitem⟩ := hrequired field hfield hthere
            exact ⟨item.listed, by rw [lookup_listedEntries, hitem]; rfl⟩
          · rw [lookup_listedEntries] at hitem
            obtain ⟨found, hfound, rfl⟩ := Option.map_eq_some_iff.mp hitem
            exact ih field hfield found hfound (hentries _ (mem_of_lookup hfound)) _
          · rw [lookup_listedEntries] at hitem
            obtain ⟨found, hfound, rfl⟩ := Option.map_eq_some_iff.mp hitem
            rw [hschema hdeclared found hfound, Value.listed]

/-- What `parseTyped` does with a JSON value. -/
theorem parseTyped_eq_ok_listed {a : TypeHint} {v w : Value} {path : String}
    (hv : v.JsonCompatible) :
    parseTyped a v path = .ok w ↔ HasType a v ∧ w = v.listed := by
  unfold parseTyped
  rw [jsonValue_of_compatible v path hv]
  constructor
  · intro h
    obtain ⟨_, hjson, h⟩ := bind_eq_ok.mp h
    obtain rfl := Except.ok.inj hjson
    obtain ⟨_, hvalid, h⟩ := bind_eq_ok.mp h
    exact ⟨hasType_of_valid a hv hvalid, (Except.ok.inj h).symm⟩
  · rintro ⟨htype, rfl⟩
    exact bind_eq_ok.mpr ⟨_, rfl, bind_eq_ok.mpr ⟨(), valid_of_hasType htype hv path, rfl⟩⟩

/-! ## Unsupported forms -/

/-- The checker has to compare the value, or a part of it, with an unsupported form. In a union it
has to where every alternative leads there. -/
inductive Reaches : TypeHint → Value → Prop where
  | here (text : String) (v : Value) : Reaches (.unsupported text) v
  | item {element : TypeHint} {items : List Value} {item : Value} (hmem : item ∈ items)
      (h : Reaches element item) : Reaches (.list element) (.list items)
  | tupleItem {element : TypeHint} {items : List Value} {item : Value} (hmem : item ∈ items)
      (h : Reaches element item) : Reaches (.list element) (.tuple items)
  | key {key element : TypeHint} {entries : List (String × Value)} {entry : String × Value}
      (hmem : entry ∈ entries) (h : Reaches key (.str entry.1)) :
      Reaches (.dict key element) (.dict entries)
  | entry {key element : TypeHint} {entries : List (String × Value)} {entry : String × Value}
      (hmem : entry ∈ entries) (h : Reaches element entry.2) :
      Reaches (.dict key element) (.dict entries)
  | alternatives {alternatives : List TypeHint} {v : Value}
      (h : ∀ a ∈ alternatives, Reaches a v) : Reaches (.union alternatives) v
  | field {fields : List (String × Bool × TypeHint)} {data : List (String × Value)}
      {field : String × Bool × TypeHint} {item : Value} (hfield : field ∈ fields)
      (hitem : data.lookup field.1 = some item) (h : Reaches field.2.2 item) :
      Reaches (.typedDict fields) (.dict data)

theorem Reaches.not_hasType {a : TypeHint} {v : Value} (h : Reaches a v) : ¬ HasType a v := by
  induction h with
  | here text v =>
      intro htype
      cases htype
  | item hmem h ih =>
      intro htype
      cases htype with
      | list hitems => exact ih (hitems _ hmem)
  | tupleItem hmem h ih =>
      intro htype
      cases htype with
      | tuple hitems => exact ih (hitems _ hmem)
  | key hmem h ih =>
      intro htype
      cases htype with
      | dict hkeys hitems => exact ih (hkeys _ hmem)
  | entry hmem h ih =>
      intro htype
      cases htype with
      | dict hkeys hitems => exact ih (hitems _ hmem)
  | alternatives h ih =>
      intro htype
      cases htype with
      | union hmem htype => exact ih _ hmem htype
  | field hfield hitem h ih =>
      intro htype
      cases htype with
      | typedDict hrequired hfields hschema => exact ih (hfields _ hfield _ hitem)

/-! ## Rejection -/

/-- The only error that the checker of a union expects of its alternatives. -/
def PyException.IsValidation (e : PyException) : Prop := ∃ message, e = validationError message

theorem isValidation (message : String) : (validationError message).IsValidation := ⟨message, rfl⟩

theorem objectMap_failsWith (v : Value) (path : String) :
    FailsWith PyException.IsValidation (objectMap v path) := by
  cases v with
  | dict entries => exact .ok entries
  | _ => exact .error (isValidation _)

theorem array_failsWith (v : Value) (path : String) :
    FailsWith PyException.IsValidation (array v path) := by
  cases v with
  | list items => exact .ok items
  | _ => exact .error (isValidation _)

theorem boolean_failsWith (v : Value) (path : String) :
    FailsWith PyException.IsValidation (boolean v path) := by
  cases v with
  | bool b => exact .ok b
  | _ => exact .error (isValidation _)

theorem integer_failsWith (minimum : Option Int) (v : Value) (path : String) :
    FailsWith PyException.IsValidation (integer minimum v path) := by
  cases v with
  | int i =>
      unfold integer
      dsimp only
      split
      · exact .error (isValidation _)
      · exact .ok i
  | _ => exact .error (isValidation _)

theorem required_failsWith (data : List (String × Value)) (key path : String) :
    FailsWith PyException.IsValidation (required data key path) := by
  unfold required
  cases data.lookup key with
  | some item => exact .ok item
  | none => exact .error (isValidation _)

mutual

theorem jsonValue_failsWith : ∀ (v : Value) (path : String),
    FailsWith PyException.IsValidation (jsonValue v path)
  | .none, _ => .ok _
  | .bool _, _ => .ok _
  | .int _, _ => .ok _
  | .str _, _ => .ok _
  | .float x, path => by
      rw [jsonValue]
      split
      · exact .ok _
      · exact .error (isValidation _)
  | .list items, path => by
      rw [jsonValue]
      exact (jsonItems_failsWith items path 0).bind fun _ => .ok _
  | .tuple items, path => by
      rw [jsonValue]
      exact (jsonItems_failsWith items path 0).bind fun _ => .ok _
  | .dict entries, path => by
      rw [jsonValue]
      exact (jsonEntries_failsWith entries path).bind fun _ => .ok _

theorem jsonItems_failsWith : ∀ (items : List Value) (path : String) (index : Nat),
    FailsWith PyException.IsValidation (jsonItems items path index)
  | [], _, _ => .ok _
  | item :: items, path, index => by
      rw [jsonItems]
      exact (jsonValue_failsWith item _).bind fun _ =>
        (jsonItems_failsWith items path _).bind fun _ => .ok _

theorem jsonEntries_failsWith : ∀ (entries : List (String × Value)) (path : String),
    FailsWith PyException.IsValidation (jsonEntries entries path)
  | [], _ => .ok _
  | (key, item) :: entries, path => by
      rw [jsonEntries]
      exact (jsonValue_failsWith item _).bind fun _ =>
        (jsonEntries_failsWith entries path).bind fun _ => .ok _

end

theorem checkSchemaField_failsWith (fields : List (String × Bool × TypeHint))
    (data : List (String × Value)) (path : String) :
    FailsWith PyException.IsValidation (checkSchemaField fields data path) := by
  unfold checkSchemaField schemaOne
  split
  · exact (required_failsWith data _ _).bind fun v => (integer_failsWith _ v _).bind fun _ =>
      .raiseIf (isValidation _)
  · exact .ok ()

mutual

theorem validateTyped_failsWith : ∀ (a : TypeHint) (v : Value) (path : String),
    FailsWith PyException.IsValidation (validateTyped a v path)
  | .jsonValue, v, path => by
      rw [validateTyped]
      exact (jsonValue_failsWith v path).bind fun _ => .ok ()
  | .typedDict fields, v, path => by
      rw [validateTyped]
      refine (objectMap_failsWith v path).bind fun data => FailsWith.bind (.forM fun field _ => ?_)
        fun _ => (validateFields_failsWith fields data path).bind fun _ =>
          checkSchemaField_failsWith fields data path
      dsimp only
      split
      · exact (required_failsWith data _ path).bind fun _ => .ok ()
      · exact .ok ()
  | .str, v, path => by
      rw [validateTyped]
      exact .raiseIf (isValidation _)
  | .bool, v, path => by
      rw [validateTyped]
      exact (boolean_failsWith v path).bind fun _ => .ok ()
  | .int, v, path => by
      rw [validateTyped]
      exact (integer_failsWith _ v path).bind fun _ => .ok ()
  | .float, v, path => by
      cases v with
      | int i => exact .ok ()
      | float x => exact .ok ()
      | _ => exact .error (isValidation _)
  | .none, v, path => by
      cases v with
      | none => exact .ok ()
      | _ => exact .error (isValidation _)
  | .literal choices, v, path => by
      rw [validateTyped]
      exact .raiseIf (isValidation _)
  | .list element, v, path => by
      rw [validateTyped]
      exact (array_failsWith v path).bind fun _ => .forM fun entry _ =>
        validateTyped_failsWith element entry.1 _
  | .dict key element, v, path => by
      rw [validateTyped]
      exact (objectMap_failsWith v path).bind fun _ => .forM fun entry _ =>
        (validateTyped_failsWith key _ _).bind fun _ => validateTyped_failsWith element entry.2 _
  | .union alternatives, v, path => by
      rw [validateTyped]
      split
      · exact .ok ()
      · exact .error (isValidation _)
  | .unsupported text, v, path => by
      rw [validateTyped]
      exact .error (isValidation _)

theorem validateFields_failsWith : ∀ (fields : List (String × Bool × TypeHint))
    (data : List (String × Value)) (path : String),
    FailsWith PyException.IsValidation (validateFields fields data path)
  | [], _, _ => .ok ()
  | (key, isRequired, a) :: fields, data, path => by
      rw [validateFields]
      cases data.lookup key with
      | none => exact validateFields_failsWith fields data path
      | some item =>
          exact (validateTyped_failsWith a item _).bind fun _ =>
            validateFields_failsWith fields data path

end

/-- `parseTyped` raises nothing but a `ValidationError`. -/
theorem parseTyped_failsWith (a : TypeHint) (v : Value) (path : String) :
    FailsWith PyException.IsValidation (parseTyped a v path) :=
  (jsonValue_failsWith v path).bind fun w => (validateTyped_failsWith a w path).bind fun _ => .ok w

/-! ## Further fields -/

/-- **One field more.** An object gains a field that its `TypedDict` does not declare: the value
itself, or an object at some depth. Inside a union the class is an alternative the value has. -/
inductive AddsField : TypeHint → Value → Value → Prop where
  | here {fields : List (String × Bool × TypeHint)} {data : List (String × Value)} {key : String}
      {item : Value} (hundeclared : key ∉ fields.map Prod.fst) (hnew : data.lookup key = none)
      (hitem : item.JsonCompatible) :
      AddsField (.typedDict fields) (.dict data) (.dict (data ++ [(key, item)]))
  | field {fields : List (String × Bool × TypeHint)} {data : List (String × Value)}
      {key : String} {isRequired : Bool} {a : TypeHint} {item item' : Value}
      (hdeclared : fields.filter (fun field => field.1 = key) = [(key, isRequired, a)])
      (hitem : data.lookup key = some item) (h : AddsField a item item') :
      AddsField (.typedDict fields) (.dict data) (.dict (Dict.setEntries key item' data))
  | item {element : TypeHint} {before after : List Value} {item item' : Value}
      (h : AddsField element item item') : AddsField (.list element)
        (.list (before ++ item :: after)) (.list (before ++ item' :: after))
  | tupleItem {element : TypeHint} {before after : List Value} {item item' : Value}
      (h : AddsField element item item') : AddsField (.list element)
        (.tuple (before ++ item :: after)) (.tuple (before ++ item' :: after))
  | entry {key element : TypeHint} {before after : List (String × Value)} {name : String}
      {item item' : Value} (h : AddsField element item item') : AddsField (.dict key element)
        (.dict (before ++ (name, item) :: after)) (.dict (before ++ (name, item') :: after))
  | alternative {alternatives : List TypeHint} {a : TypeHint} {v v' : Value}
      (hmem : a ∈ alternatives) (htype : HasType a v) (h : AddsField a v v') :
      AddsField (.union alternatives) v v'

/-- An added field is a field of an object, at the value or below it. -/
theorem AddsField.not_scalar {a : TypeHint} {v v' : Value} (h : AddsField a v v') :
    v.isScalar = false := by
  induction h with
  | alternative hmem htype h ih => exact ih
  | _ => rfl

theorem lookup_append_new {data : List (String × Value)} {key key' : String} {item : Value}
    (hne : key ≠ key') : (data ++ [(key, item)]).lookup key' = data.lookup key' := by
  rw [List.lookup_append]
  cases data.lookup key' with
  | some other => rfl
  | none => simp [List.lookup_cons, beq_eq_false_iff_ne.mpr hne.symm]

/-- What holds of the members of a list holds when one of them is replaced. -/
theorem forall_mem_replace {α : Type} {P : α → Prop} {before after : List α} {x x' : α}
    (h : ∀ y ∈ before ++ x :: after, P y) (hx : P x → P x') :
    ∀ y ∈ before ++ x' :: after, P y := by
  obtain ⟨hbefore, hrest⟩ := List.forall_mem_append.mp h
  obtain ⟨hold, hafter⟩ := List.forall_mem_cons.mp hrest
  exact List.forall_mem_append.mpr ⟨hbefore, List.forall_mem_cons.mpr ⟨hx hold, hafter⟩⟩

/-- A field more does not make a value lose its type. -/
theorem AddsField.hasType {a : TypeHint} {v v' : Value} (h : AddsField a v v') :
    HasType a v → HasType a v' := by
  induction h with
  | @here fields data key item hundeclared hnew hitem =>
      intro htype
      cases htype with
      | typedDict hrequired hfields hschema =>
          -- the declared fields are looked up as before
          have hsame : ∀ name ∈ fields.map Prod.fst,
              (data ++ [(key, item)]).lookup name = data.lookup name := fun name hname =>
            lookup_append_new fun heq => hundeclared (heq ▸ hname)
          refine .typedDict (fun field hfield hthere => ?_) (fun field hfield other hother => ?_)
            fun hdeclared other hother => ?_
          · rw [hsame _ (List.mem_map_of_mem hfield)]
            exact hrequired field hfield hthere
          · rw [hsame _ (List.mem_map_of_mem hfield)] at hother
            exact hfields field hfield other hother
          · rw [hsame _ hdeclared] at hother
            exact hschema hdeclared other hother
  | @field fields data key isRequired a item item' hdeclared hitem h ih =>
      intro htype
      cases htype with
      | typedDict hrequired hfields hschema =>
          have hitem' := ih (hfields _ (mem_of_declared hdeclared) item hitem)
          refine .typedDict (fun field hfield hthere => ?_) (fun field hfield other hother => ?_)
            fun hschemas other hother => ?_
          · rw [lookup_setEntries]
            split
            · exact ⟨_, rfl⟩
            · exact hrequired field hfield hthere
          · rw [lookup_setEntries] at hother
            split at hother
            · next hkey =>
                obtain rfl := Option.some.inj hother
                rw [eq_of_declared hdeclared hfield hkey.symm]
                exact hitem'
            · exact hfields field hfield other hother
          · rw [lookup_setEntries] at hother
            split at hother
            · next hkey =>
                -- the number 1 has no fields
                rw [hschema hschemas item (hkey ▸ hitem)] at h
                exact absurd h.not_scalar (by decide)
            · exact hschema hschemas other hother
  | item h ih =>
      intro htype
      cases htype with
      | list hitems =>
          exact .list (forall_mem_replace hitems ih)
  | tupleItem h ih =>
      intro htype
      cases htype with
      | tuple hitems =>
          exact .tuple (forall_mem_replace hitems ih)
  | entry h ih =>
      intro htype
      cases htype with
      | dict hkeys hitems =>
          exact .dict (forall_mem_replace hkeys id) (forall_mem_replace hitems ih)
  | alternative hmem htype h ih => exact fun _ => .union hmem (ih htype)

theorem AddsField.compatible {a : TypeHint} {v v' : Value} (h : AddsField a v v') :
    v.JsonCompatible → v'.JsonCompatible := by
  induction h with
  | here hundeclared hnew hitem =>
      intro hv
      cases hv with
      | dict hdata =>
          exact .dict (List.forall_mem_append.mpr ⟨hdata, List.forall_mem_singleton.mpr hitem⟩)
  | field hdeclared hitem h ih =>
      intro hv
      cases hv with
      | dict hdata => exact .dict (forall_mem_setEntries hdata (ih (hdata _ (mem_of_lookup hitem))))
  | item h ih =>
      intro hv
      cases hv with
      | list hitems =>
          exact .list (forall_mem_replace hitems ih)
  | tupleItem h ih =>
      intro hv
      cases hv with
      | tuple hitems =>
          exact .tuple (forall_mem_replace hitems ih)
  | entry h ih =>
      intro hv
      cases hv with
      | dict hitems =>
          exact .dict (forall_mem_replace hitems ih)
  | alternative hmem htype h ih => exact ih

/-! ## `parse_typed` -/

/-- `parseTyped` accepts the value. -/
def Parses (a : TypeHint) (v : Value) (path : String) : Prop := ∃ w, parseTyped a v path = .ok w

theorem parses_iff_hasType {a : TypeHint} {v : Value} {path : String} (hv : v.JsonCompatible) :
    Parses a v path ↔ HasType a v := by
  constructor
  · rintro ⟨w, hw⟩
    exact ((parseTyped_eq_ok_listed hv).mp hw).1
  · intro htype
    exact ⟨v.listed, (parseTyped_eq_ok_listed hv).mpr ⟨htype, rfl⟩⟩

/-- A run of additions keeps a value typed and compatible with JSON. -/
theorem adds_preserve {a : TypeHint} {v v' : Value} (h : Relation.ReflTransGen (AddsField a) v v')
    (hv : v.JsonCompatible) (htype : HasType a v) : v'.JsonCompatible ∧ HasType a v' := by
  induction h with
  | refl => exact ⟨hv, htype⟩
  | tail _ hstep ih => exact ⟨hstep.compatible ih.1, hstep.hasType ih.2⟩

/-- **`parse_typed` decides the typing judgement.** It accepts a JSON value exactly where the value
has the type, returns it with its tuples as lists, rejects it with a `ValidationError` where the
checker reaches an unsupported form, and accepts it with any further fields. -/
theorem parseTyped_decides (a : TypeHint) {v : Value} (hv : v.JsonCompatible) (path : String) :
    (Parses a v path ↔ HasType a v)
      ∧ (∀ w, parseTyped a v path = .ok w → w = v.listed)
      ∧ (Reaches a v → ∃ message, parseTyped a v path = .error (validationError message))
      ∧ ∀ v', Relation.ReflTransGen (AddsField a) v v' → Parses a v path → Parses a v' path := by
  refine ⟨parses_iff_hasType hv, fun w hw => ((parseTyped_eq_ok_listed hv).mp hw).2,
    fun hreaches => ?_,
    fun v' hadds hparses => ?_⟩
  · cases hparse : parseTyped a v path with
    | ok w => exact absurd ((parseTyped_eq_ok_listed hv).mp hparse).1 hreaches.not_hasType
    | error e =>
        obtain ⟨message, rfl⟩ := parseTyped_failsWith a v path e hparse
        exact ⟨message, rfl⟩
  · obtain ⟨hv', htype⟩ := adds_preserve hadds hv ((parses_iff_hasType hv).mp hparses)
    exact (parses_iff_hasType hv').mpr htype

/-- A document with a tuple, and the same one with a field that is not declared. -/
theorem parseTyped_decides_small :
    let a := TypeHint.typedDict [("schema", true, .int), ("tags", false, .list .str)]
    Parses a (.dict [("schema", .int 1), ("tags", .tuple [.str "a"])]) "document"
      ∧ Parses a (.dict [("schema", .int 1), ("tags", .tuple [.str "a"]), ("note", .none)])
        "document" := by
  intro a
  have hv : (Value.dict [("schema", .int 1), ("tags", .tuple [.str "a"])]).JsonCompatible := by
    refine .dict (List.forall_mem_cons.mpr ⟨.int 1, List.forall_mem_singleton.mpr (.tuple ?_)⟩)
    exact List.forall_mem_singleton.mpr (.str "a")
  have htype : HasType a (.dict [("schema", .int 1), ("tags", .tuple [.str "a"])]) := by
    refine .typedDict (fun field hfield hthere => ?_) ?_ fun _ item hitem => ?_
    · rcases List.mem_cons.mp hfield with rfl | hfield
      · exact ⟨_, rfl⟩
      · obtain rfl := List.mem_singleton.mp hfield
        cases hthere
    · refine List.forall_mem_cons.mpr ⟨fun item hitem => ?_,
        List.forall_mem_singleton.mpr fun item hitem => ?_⟩
      · obtain rfl := Option.some.inj hitem
        exact .int 1
      · obtain rfl := Option.some.inj hitem
        exact .tuple (List.forall_mem_singleton.mpr (.str "a"))
    · exact (Option.some.inj hitem).symm
  obtain ⟨hdecides, _, _, hadds⟩ := parseTyped_decides a hv "document"
  have hparses := hdecides.mpr htype
  exact ⟨hparses, hadds _ (.single (.here (by decide) (by decide) .none)) hparses⟩

end FlatpakBlackbox
