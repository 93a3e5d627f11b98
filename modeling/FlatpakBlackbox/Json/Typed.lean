import FlatpakBlackbox.Json.Value

set_option autoImplicit false

/-! # Checked decoding against type annotations

`typed_json.py` checks a JSON value against a Python annotation: scalars, `Literal`, lists,
dictionaries, unions and `TypedDict` classes with required and optional fields. An annotation
is a tree here (`TypeHint`), and `validateTyped` is the recursive check; it recurses on the
annotation and may meet any value. Fields an object does not declare are kept.
-/

namespace FlatpakBlackbox

open PyLib PyException

/-- The annotation forms `_validate` distinguishes. A `TypedDict` is the list of its fields,
inherited ones included: name, whether it is required, and its annotation. -/
inductive TypeHint where
  | jsonValue
  | str
  | bool
  | int
  | float
  | none
  | literal (choices : List Value)
  | list (element : TypeHint)
  | dict (key element : TypeHint)
  | union (alternatives : List TypeHint)
  | typedDict (fields : List (String × Bool × TypeHint))
  | unsupported (text : String)

/-- `type(value) is type(choice) and value == choice`, for the scalars a `Literal` lists. -/
def Value.isChoice : Value → Value → Bool
  | .none, .none => true
  | .bool a, .bool b => a == b
  | .int a, .int b => a == b
  | .float a, .float b => a == b && a != .nan
  | .str a, .str b => a == b
  | _, _ => false

/-- The Python text of a literal choice. -/
def Value.choiceText : Value → String
  | .none => "None"
  | .bool true => "True"
  | .bool false => "False"
  | .int i => toString i
  | .str s => s!"'{s}'"
  | _ => "..."

/-- The Python text of the tuple of choices. -/
def Value.choicesText : List Value → String
  | [choice] => "(" ++ choice.choiceText ++ ",)"
  | choices => "(" ++ ", ".intercalate (choices.map Value.choiceText) ++ ")"

mutual

/-- The Python text of an annotation, as error messages show it. -/
def TypeHint.text : TypeHint → String
  | .jsonValue => "JSONValue"
  | .str => "str"
  | .bool => "bool"
  | .int => "int"
  | .float => "float"
  | .none => "None"
  | .literal choices => "Literal[" ++ ", ".intercalate (choices.map Value.choiceText) ++ "]"
  | .list element => "list[" ++ element.text ++ "]"
  | .dict key element => "dict[" ++ key.text ++ ", " ++ element.text ++ "]"
  | .union alternatives => " | ".intercalate (textAll alternatives)
  | .typedDict _ => "TypedDict"
  | .unsupported text => text

/-- The texts of the alternatives of a union. -/
def TypeHint.textAll : List TypeHint → List String
  | [] => []
  | hint :: rest => hint.text :: textAll rest

end

/-- `if annotation declares schema and data has it: schema_one(data, path)`. -/
def checkSchemaField (fields : List (String × Bool × TypeHint))
    (data : List (String × Value)) (path : String) : Except PyException Unit :=
  if (fields.map Prod.fst).contains "schema" ∧ (data.lookup "schema").isSome then
    schemaOne data path
  else .ok ()

mutual

/-- `_validate(value, annotation, path)`. -/
def validateTyped : TypeHint → Value → String → Except PyException Unit
  | .jsonValue, value, path => do
      let _ ← jsonValue value path
  | .typedDict fields, value, path => do
      let data ← objectMap value path
      fields.forM fun (key, isRequired, _) =>
        if isRequired then do let _ ← required data key path else .ok ()
      validateFields fields data path
      checkSchemaField fields data path
  | .str, value, path => do
      let problem := validationError s!"{path}: expected a string"
      raiseIf (value.asStr? = .none) problem
  | .bool, value, path => do
      let _ ← boolean value path
  | .int, value, path => do
      let _ ← integer .none value path
  | .float, value, path =>
      match value with
      | .int _ => .ok ()
      | .float _ => .ok ()
      | _ => .error (validationError s!"{path}: expected a number")
  | .none, value, path =>
      match value with
      | .none => .ok ()
      | _ => .error (validationError s!"{path}: expected null")
  | .literal choices, value, path =>
      raiseIf (choices.any value.isChoice = false)
        (validationError (path ++ ": expected one of " ++ Value.choicesText choices))
  | .list element, value, path => do
      let items ← array value path
      items.zipIdx.forM fun (item, index) => validateTyped element item s!"{path}[{index}]"
  | .dict key element, value, path => do
      let data ← objectMap value path
      data.forM fun (k, item) => do
        validateTyped key (.str k) s!"{path} key"
        validateTyped element item s!"{path}.{k}"
  | .union alternatives, value, path =>
      if validateSome alternatives value path then .ok ()
      else .error (validationError
        (path ++ ": value does not match " ++ " | ".intercalate (TypeHint.textAll alternatives)))
  | .unsupported text, _, path =>
      .error (validationError s!"{path}: unsupported field type {text}")

/-- The declared fields that are present. -/
def validateFields : List (String × Bool × TypeHint) → List (String × Value) → String →
    Except PyException Unit
  | [], _, _ => .ok ()
  | (key, _, hint) :: fields, data, path => do
      match data.lookup key with
      | some item => validateTyped hint item s!"{path}.{key}"
      | .none => .ok ()
      validateFields fields data path

/-- Whether some alternative of a union accepts. -/
def validateSome : List TypeHint → Value → String → Bool
  | [], _, _ => false
  | hint :: rest, value, path =>
      match validateTyped hint value path with
      | .ok _ => true
      | .error _ => validateSome rest value path

end

/-- `parse_typed(value, schema, path)`. -/
def parseTyped (schema : TypeHint) (value : Value) (path : String) :
    Except PyException Value := do
  let normalized ← jsonValue value path
  validateTyped schema normalized path
  return normalized

/-! ## Acceptance

Whether a value is accepted does not depend on the path. -/

theorem checkSchemaField_path {fields : List (String × Bool × TypeHint)}
    {data : List (String × Value)} {path : String} (path' : String)
    (h : checkSchemaField fields data path = .ok ()) :
    checkSchemaField fields data path' = .ok () := by
  unfold checkSchemaField at h ⊢
  split
  · next hdeclared =>
      rw [if_pos hdeclared] at h
      exact schemaOne_eq_ok.mpr (schemaOne_eq_ok.mp h)
  · rfl

mutual

theorem validateTyped_path : ∀ (hint : TypeHint) {value : Value} {path : String}
    (path' : String), validateTyped hint value path = .ok () →
      validateTyped hint value path' = .ok ()
  | .jsonValue, value, path, path', h => by
      rw [validateTyped] at h ⊢
      obtain ⟨v, hv, h⟩ := bind_eq_ok.mp h
      exact bind_eq_ok.mpr ⟨v, jsonValue_path value path' hv, h⟩
  | .typedDict fields, value, path, path', h => by
      rw [validateTyped] at h ⊢
      obtain ⟨data, hdata, h⟩ := bind_eq_ok.mp h
      obtain ⟨_, hrequired, h⟩ := bind_eq_ok.mp h
      obtain ⟨_, hfields, hschema⟩ := bind_eq_ok.mp h
      refine bind_eq_ok.mpr ⟨data, objectMap_path path' hdata, bind_eq_ok.mpr ⟨(), ?_,
        bind_eq_ok.mpr ⟨(), validateFields_path fields path' hfields,
          checkSchemaField_path path' hschema⟩⟩⟩
      refine forM_eq_ok.mpr fun field hfield => ?_
      have hfound := forM_eq_ok.mp hrequired field hfield
      obtain ⟨key, isRequired, hint⟩ := field
      cases isRequired with
      | false => rfl
      | true =>
          obtain ⟨v, hv, _⟩ := bind_eq_ok.mp hfound
          exact bind_eq_ok.mpr ⟨v, required_path path' hv, rfl⟩
  | .str, value, path, path', h => by
      rw [validateTyped] at h ⊢
      exact raiseIf_of_not (raiseIf_eq_ok.mp h)
  | .bool, value, path, path', h => by
      cases value with
      | bool b => rfl
      | _ => rw [validateTyped] at h; cases h
  | .int, value, path, path', h => by
      rw [validateTyped] at h ⊢
      obtain ⟨i, hi, h⟩ := bind_eq_ok.mp h
      exact bind_eq_ok.mpr ⟨i, integer_path path' hi, h⟩
  | .float, value, path, path', h => by
      cases value with
      | int i => rfl
      | float x => rfl
      | _ => simp [validateTyped] at h
  | .none, value, path, path', h => by
      cases value with
      | none => rfl
      | _ => simp [validateTyped] at h
  | .literal choices, value, path, path', h => by
      rw [validateTyped] at h ⊢
      exact raiseIf_of_not (raiseIf_eq_ok.mp h)
  | .list element, value, path, path', h => by
      rw [validateTyped] at h ⊢
      obtain ⟨items, hitems, h⟩ := bind_eq_ok.mp h
      refine bind_eq_ok.mpr ⟨items, array_path path' hitems, forM_eq_ok.mpr fun entry hentry => ?_⟩
      exact validateTyped_path element _ (forM_eq_ok.mp h entry hentry)
  | .dict key element, value, path, path', h => by
      rw [validateTyped] at h ⊢
      obtain ⟨data, hdata, h⟩ := bind_eq_ok.mp h
      refine bind_eq_ok.mpr ⟨data, objectMap_path path' hdata,
        forM_eq_ok.mpr fun entry hentry => ?_⟩
      obtain ⟨_, hkey, hitem⟩ := bind_eq_ok.mp (forM_eq_ok.mp h entry hentry)
      exact bind_eq_ok.mpr ⟨(), validateTyped_path key _ hkey, validateTyped_path element _ hitem⟩
  | .union alternatives, value, path, path', h => by
      rw [validateTyped] at h ⊢
      split at h
      · next hsome => rw [if_pos (validateSome_path alternatives path' hsome)]
      · cases h
  | .unsupported text, value, path, path', h => by
      rw [validateTyped] at h
      cases h

theorem validateFields_path : ∀ (fields : List (String × Bool × TypeHint))
    {data : List (String × Value)} {path : String} (path' : String),
    validateFields fields data path = .ok () → validateFields fields data path' = .ok ()
  | [], _, _, _, _ => rfl
  | (key, _, hint) :: fields, data, path, path', h => by
      rw [validateFields] at h ⊢
      cases hlookup : data.lookup key with
      | none =>
          rw [hlookup] at h
          exact validateFields_path fields path' h
      | some item =>
          rw [hlookup] at h
          obtain ⟨_, hitem, hrest⟩ := bind_eq_ok.mp h
          exact bind_eq_ok.mpr ⟨(), validateTyped_path hint _ hitem,
            validateFields_path fields path' hrest⟩

theorem validateSome_path : ∀ (alternatives : List TypeHint) {value : Value} {path : String}
    (path' : String), validateSome alternatives value path = true →
      validateSome alternatives value path' = true
  | [], _, _, _, h => h
  | hint :: rest, value, path, path', h => by
      rw [validateSome] at h ⊢
      cases hother : validateTyped hint value path' with
      | ok u => rfl
      | error e =>
          cases hfirst : validateTyped hint value path with
          | ok u =>
              rw [validateTyped_path hint path' hfirst] at hother
              cases hother
          | error e' =>
              rw [hfirst] at h
              exact validateSome_path rest path' h

end

/-- The annotation accepts the value, wherever it stands. -/
def TypeHint.Accepts (hint : TypeHint) (value : Value) : Prop :=
  ∀ path, validateTyped hint value path = .ok ()

theorem accepts_iff {hint : TypeHint} {value : Value} (path : String) :
    hint.Accepts value ↔ validateTyped hint value path = .ok () :=
  ⟨fun h => h path, fun h path' => validateTyped_path hint path' h⟩

theorem validateFields_eq_ok {fields : List (String × Bool × TypeHint)}
    {data : List (String × Value)} {path : String} :
    validateFields fields data path = .ok () ↔ ∀ field ∈ fields, ∀ item,
      data.lookup field.1 = some item →
        validateTyped field.2.2 item s!"{path}.{field.1}" = .ok () := by
  induction fields with
  | nil => simp [validateFields]
  | cons field fields ih =>
      obtain ⟨key, isRequired, hint⟩ := field
      rw [List.forall_mem_cons, ← ih]
      cases hlookup : data.lookup key with
      | none =>
          show validateFields _ _ _ = _ ↔ _
          rw [validateFields, hlookup]
          exact ⟨fun h => ⟨fun item hitem => (by cases hitem), h⟩, fun h => h.2⟩
      | some item =>
          rw [validateFields, hlookup, bind_eq_ok]
          constructor
          · rintro ⟨_, hitem, hrest⟩
            exact ⟨fun other hother => (by cases hother; exact hitem), hrest⟩
          · rintro ⟨hitem, hrest⟩
            exact ⟨(), hitem item rfl, hrest⟩

/-- The fields of a declaration that the data has, each with its annotation. -/
def declaredFields (fields : List (String × Bool × TypeHint)) (data : List (String × Value)) :
    List (TypeHint × Value) :=
  fields.filterMap fun field => (data.lookup field.1).map fun item => (field.2.2, item)

/-- Whether the data has every required field of a declaration. -/
def hasRequired (fields : List (String × Bool × TypeHint)) (data : List (String × Value)) : Bool :=
  fields.all fun field => !field.2.1 || (data.lookup field.1).isSome

/-- An object is accepted when its required fields are there, and those it declares and has are
accepted. -/
theorem accepts_typedDict {fields : List (String × Bool × TypeHint)}
    {data : List (String × Value)} (hrequired : hasRequired fields data = true)
    (hfields : ∀ declared ∈ declaredFields fields data, declared.1.Accepts declared.2)
    (hschema : ∀ path, checkSchemaField fields data path = .ok ()) :
    (TypeHint.typedDict fields).Accepts (.dict data) := by
  intro path
  have hforM : (fields.forM fun (key, isRequired, _) =>
      if isRequired then do let _ ← required data key path else .ok ()) = .ok () := by
    refine forM_eq_ok.mpr fun field hfield => ?_
    have hthere := List.all_eq_true.mp hrequired field hfield
    obtain ⟨key, isRequired, hint⟩ := field
    cases isRequired with
    | false => rfl
    | true =>
        obtain ⟨item, hitem⟩ := Option.isSome_iff_exists.mp hthere
        show (required data key path >>= fun _ => .ok ()) = .ok ()
        rw [required, hitem]
        rfl
  have hvalid : ∀ field ∈ fields, ∀ item, data.lookup field.1 = some item →
      validateTyped field.2.2 item s!"{path}.{field.1}" = .ok () := by
    intro field hfield item hitem
    refine hfields (field.2.2, item) (List.mem_filterMap.mpr ⟨field, hfield, ?_⟩) _
    rw [hitem]
    rfl
  rw [validateTyped]
  exact bind_eq_ok.mpr ⟨data, rfl, bind_eq_ok.mpr ⟨(), hforM, bind_eq_ok.mpr
    ⟨(), validateFields_eq_ok.mpr hvalid, hschema path⟩⟩⟩

theorem accepts_list {element : TypeHint} {items : List Value}
    (h : ∀ item ∈ items, element.Accepts item) : (TypeHint.list element).Accepts (.list items) := by
  intro path
  rw [validateTyped]
  refine bind_eq_ok.mpr ⟨items, rfl, forM_eq_ok.mpr fun entry hentry => ?_⟩
  exact h entry.1 (List.fst_mem_of_mem_zipIdx hentry) _

theorem accepts_dict {element : TypeHint} {data : List (String × Value)}
    (h : ∀ entry ∈ data, element.Accepts entry.2) :
    (TypeHint.dict .str element).Accepts (.dict data) := by
  intro path
  rw [validateTyped]
  refine bind_eq_ok.mpr ⟨data, rfl, forM_eq_ok.mpr fun entry hentry => ?_⟩
  exact bind_eq_ok.mpr ⟨(), rfl, h entry hentry _⟩

theorem accepts_strDict {data : List (String × Value)}
    (h : ∀ entry ∈ data, entry.2.asStr?.isSome = true) :
    (TypeHint.dict .str .str).Accepts (.dict data) := by
  refine accepts_dict fun entry hentry path => raiseIf_of_not fun hnone => ?_
  have hitem := h _ hentry
  rw [hnone] at hitem
  cases hitem

/-- What acceptance of an object says about it. -/
theorem of_accepts_typedDict {fields : List (String × Bool × TypeHint)}
    {data : List (String × Value)} (h : (TypeHint.typedDict fields).Accepts (.dict data)) :
    hasRequired fields data = true
      ∧ (∀ declared ∈ declaredFields fields data, declared.1.Accepts declared.2)
      ∧ ∀ path, checkSchemaField fields data path = .ok () := by
  have hpath := fun path => h path
  simp only [validateTyped] at hpath
  refine ⟨List.all_eq_true.mpr fun field hfield => ?_, fun declared hdeclared => ?_, fun path => ?_⟩
  · obtain ⟨_, hdata, hchecks⟩ := bind_eq_ok.mp (hpath "")
    cases hdata
    obtain ⟨_, hrequired, _⟩ := bind_eq_ok.mp hchecks
    have hfound := forM_eq_ok.mp hrequired field hfield
    obtain ⟨key, isRequired, hint⟩ := field
    cases isRequired with
    | false => rfl
    | true =>
        obtain ⟨v, hv, _⟩ := bind_eq_ok.mp hfound
        unfold required at hv
        cases hlookup : data.lookup key with
        | none => rw [hlookup] at hv; cases hv
        | some item => simp
  · obtain ⟨_, hdata, hchecks⟩ := bind_eq_ok.mp (hpath "")
    cases hdata
    obtain ⟨_, _, hchecks⟩ := bind_eq_ok.mp hchecks
    obtain ⟨_, hfields, _⟩ := bind_eq_ok.mp hchecks
    obtain ⟨field, hfield, hitem⟩ := List.mem_filterMap.mp hdeclared
    obtain ⟨item, hlookup, rfl⟩ := Option.map_eq_some_iff.mp hitem
    exact (accepts_iff _).mpr (validateFields_eq_ok.mp hfields field hfield item hlookup)
  · obtain ⟨_, hdata, hchecks⟩ := bind_eq_ok.mp (hpath path)
    cases hdata
    obtain ⟨_, _, hchecks⟩ := bind_eq_ok.mp hchecks
    obtain ⟨_, _, hschema⟩ := bind_eq_ok.mp hchecks
    exact hschema

theorem of_accepts_list {element : TypeHint} {items : List Value}
    (h : (TypeHint.list element).Accepts (.list items)) : ∀ item ∈ items, element.Accepts item := by
  intro item hitem
  have hitems := h ""
  rw [validateTyped] at hitems
  obtain ⟨_, hdata, hitems⟩ := bind_eq_ok.mp hitems
  cases hdata
  refine (forM_zipIdx_eq_ok fun other index => ?_).mp hitems item hitem
  exact (accepts_iff _).symm

section Field

variable {fields : List (String × Bool × TypeHint)} {value item : Value} {key : String}
  {isRequired : Bool} {hint : TypeHint}

/-- The one declaration of a name. -/
theorem mem_of_declared
    (h : fields.filter (fun field => field.1 = key) = [(key, isRequired, hint)]) :
    (key, isRequired, hint) ∈ fields := by
  have hmem := List.mem_singleton_self (key, isRequired, hint)
  rw [← h] at hmem
  exact List.mem_of_mem_filter hmem

theorem eq_of_declared
    (h : fields.filter (fun field => field.1 = key) = [(key, isRequired, hint)])
    {field : String × Bool × TypeHint} (hfield : field ∈ fields) (hkey : field.1 = key) :
    field = (key, isRequired, hint) := by
  have hmem : field ∈ fields.filter fun field => field.1 = key :=
    List.mem_filter.mpr ⟨hfield, decide_eq_true hkey⟩
  rw [h] at hmem
  exact List.mem_singleton.mp hmem

/-- An accepted value of an object type is an object. -/
theorem dict_of_accepts (h : (TypeHint.typedDict fields).Accepts value) :
    ∃ data, value = .dict data := by
  have hpath := h ""
  rw [validateTyped] at hpath
  obtain ⟨data, hdata, _⟩ := bind_eq_ok.mp hpath
  cases value with
  | dict entries => exact ⟨entries, rfl⟩
  | _ => cases hdata

/-- A declared field of an accepted object is accepted. -/
theorem accepts_field (key : String) (h : (TypeHint.typedDict fields).Accepts value)
    (hdeclared : fields.filter (fun field => field.1 = key) = [(key, isRequired, hint)])
    (hitem : value.field? key = some item) : hint.Accepts item := by
  obtain ⟨data, rfl⟩ := dict_of_accepts h
  refine (of_accepts_typedDict h).2.1 (hint, item)
    (List.mem_filterMap.mpr ⟨_, mem_of_declared hdeclared, ?_⟩)
  exact congrArg (Option.map _) hitem

/-- Replacing a field by another value of its annotation keeps an object accepted. -/
theorem accepts_setField (h : (TypeHint.typedDict fields).Accepts value)
    (hdeclared : fields.filter (fun field => field.1 = key) = [(key, isRequired, hint)])
    (hschema : key ≠ "schema") (hitem : hint.Accepts item) :
    (TypeHint.typedDict fields).Accepts (value.setField key item) := by
  obtain ⟨data, rfl⟩ := dict_of_accepts h
  obtain ⟨hrequired, hfields, hsame⟩ := of_accepts_typedDict h
  refine accepts_typedDict ?_ (fun declared hfound => ?_) fun path => ?_
  · refine List.all_eq_true.mpr fun field hfield => ?_
    have hthere := List.all_eq_true.mp hrequired field hfield
    rw [lookup_setEntries]
    by_cases hkey : key = field.1
    · simp [hkey]
    · simpa [hkey] using hthere
  · obtain ⟨field, hfield, hfound⟩ := List.mem_filterMap.mp hfound
    rw [lookup_setEntries] at hfound
    by_cases hkey : key = field.1
    · rw [if_pos hkey, eq_of_declared hdeclared hfield hkey.symm] at hfound
      cases hfound
      exact hitem
    · rw [if_neg hkey] at hfound
      exact hfields declared (List.mem_filterMap.mpr ⟨field, hfield, hfound⟩)
  · have hother : (Dict.setEntries key item data).lookup "schema" = data.lookup "schema" := by
      rw [lookup_setEntries, if_neg hschema]
    have hpath := hsame path
    unfold checkSchemaField schemaOne required at hpath ⊢
    rwa [hother]

end Field

/-! ## Writing annotations -/

/-- A required field. -/
def TypeHint.req (name : String) (type : TypeHint) : String × Bool × TypeHint :=
  (name, true, type)

/-- A field of a class declared with `total=False`. -/
def TypeHint.opt (name : String) (type : TypeHint) : String × Bool × TypeHint :=
  (name, false, type)

/-- `Literal["a", ...]`. -/
def TypeHint.oneOf (choices : List String) : TypeHint := .literal (choices.map .str)

/-- `dict[str, element]`. -/
def TypeHint.strDict (element : TypeHint) : TypeHint := .dict .str element

/-- `T | None`. -/
def TypeHint.orNone (type : TypeHint) : TypeHint := .union [type, .none]

end FlatpakBlackbox
