import FlatpakBlackbox.Basic.Checked
import FlatpakBlackbox.Basic.Dict
import FlatpakBlackbox.Errors

set_option autoImplicit false

/-! # JSON values and their explicit validators

The Python objects the suite treats as data, and the small validators of
`json_validation.py` that every loader is written with. A `Value` is what `json.loads` can
return plus the tuple, which `jsonValue` normalizes to a list; a float is either finite, and
then a rational number, or one of the values JSON cannot express. Objects are lists of
entries in insertion order.
-/

namespace FlatpakBlackbox

open PyLib

/-- A Python float: finite values are rational. -/
inductive PyFloat where
  | finite (q : ℚ)
  | infinite (negative : Bool)
  | nan
  deriving DecidableEq

/-- `math.isfinite`. -/
def PyFloat.isFinite : PyFloat → Bool
  | .finite _ => true
  | _ => false

/-- A Python object as the loaders see it. -/
inductive Value where
  | none
  | bool (b : Bool)
  | int (i : Int)
  | float (x : PyFloat)
  | str (s : String)
  | list (items : List Value)
  | tuple (items : List Value)
  | dict (entries : List (String × Value))

namespace Value

/-- `value.get(key)` of an object; `none` where the key is missing. -/
def field? : Value → String → Option Value
  | .dict entries, key => entries.lookup key
  | _, _ => .none

/-- `value[key] = item` of an object. -/
def setField : Value → String → Value → Value
  | .dict entries, key, item => .dict (Dict.setEntries key item entries)
  | v, _, _ => v

/-- The keys of an object. -/
def keys : Value → List String
  | .dict entries => entries.map Prod.fst
  | _ => []

def asStr? : Value → Option String
  | .str s => some s
  | _ => .none

def asBool? : Value → Option Bool
  | .bool b => some b
  | _ => .none

def asInt? : Value → Option Int
  | .int i => some i
  | _ => .none

def asList? : Value → Option (List Value)
  | .list items => some items
  | _ => .none

def asEntries? : Value → Option (List (String × Value))
  | .dict entries => some entries
  | _ => .none

def str? (v : Value) (key : String) : Option String := (v.field? key).bind asStr?

def bool? (v : Value) (key : String) : Option Bool := (v.field? key).bind asBool?

def int? (v : Value) (key : String) : Option Int := (v.field? key).bind asInt?

def list? (v : Value) (key : String) : Option (List Value) := (v.field? key).bind asList?

/-- A list of strings under `key`. -/
def strs? (v : Value) (key : String) : Option (List String) :=
  (v.list? key).map fun items => items.filterMap asStr?

/-- An object of strings under `key`. -/
def strMap? (v : Value) (key : String) : Option (List (String × String)) :=
  ((v.field? key).bind asEntries?).map fun entries =>
    entries.filterMap fun (k, item) => item.asStr?.map fun s => (k, s)

end Value

open PyException

/-! ## Validators -/

/-- `object_map(value, path)`. -/
def objectMap : Value → String → Except PyException (List (String × Value))
  | .dict entries, _ => .ok entries
  | _, path => .error (validationError s!"{path}: expected an object")

/-- `array(value, path)`. -/
def array : Value → String → Except PyException (List Value)
  | .list items, _ => .ok items
  | _, path => .error (validationError s!"{path}: expected an array")

/-- `string(value, path, nonempty=...)`. -/
def string (nonempty : Bool) (value : Value) (path : String) : Except PyException String :=
  let qualifier := if nonempty then "nonempty " else ""
  let problem := validationError
    s!"{path}: expected a {qualifier}string without NUL characters"
  match value with
  | .str s =>
      if '\x00' ∈ s.toList ∨ (nonempty = true ∧ s = "") then .error problem else .ok s
  | _ => .error problem

/-- `boolean(value, path)`. -/
def boolean : Value → String → Except PyException Bool
  | .bool b, _ => .ok b
  | _, path => .error (validationError s!"{path}: expected a boolean")

/-- `integer(value, path, minimum=...)`. -/
def integer (minimum : Option Int) (value : Value) (path : String) : Except PyException Int :=
  let qualifier := match minimum with
    | some m => s!" >= {m}"
    | .none => ""
  let problem := validationError s!"{path}: expected an integer{qualifier}"
  match value with
  | .int i => if minimum.any (fun m => decide (i < m)) then .error problem else .ok i
  | _ => .error problem

/-- `required(data, key, path)`. -/
def required (data : List (String × Value)) (key path : String) : Except PyException Value :=
  match data.lookup key with
  | some v => .ok v
  | .none => .error (validationError s!"{path}.{key}: required field is missing")

/-- `schema_one(data, path)`. -/
def schemaOne (data : List (String × Value)) (path : String) : Except PyException Unit := do
  let v ← required data "schema" path
  let i ← integer .none v s!"{path}.schema"
  raiseIf (i ≠ 1) (validationError s!"{path}.schema: expected supported schema 1")

/-- `strings(value, path, nonempty=...)`. -/
def strings (nonempty : Bool) (value : Value) (path : String) :
    Except PyException (List String) := do
  let items ← array value path
  items.zipIdx.mapM fun (item, index) => string nonempty item s!"{path}[{index}]"

/-- `string_map(value, path, nonempty=...)`. -/
def stringMap (nonempty : Bool) (value : Value) (path : String) :
    Except PyException (List (String × String)) := do
  let entries ← objectMap value path
  entries.mapM fun (key, item) => do
    let s ← string nonempty item s!"{path}.{key}"
    return (key, s)

mutual

/-- `json_value(value, path)`: tuples become lists, non-finite numbers are rejected. -/
def jsonValue : Value → String → Except PyException Value
  | .none, _ => .ok .none
  | .bool b, _ => .ok (.bool b)
  | .int i, _ => .ok (.int i)
  | .str s, _ => .ok (.str s)
  | .float x, path =>
      if x.isFinite then .ok (.float x)
      else .error (validationError s!"{path}: non-finite numbers are not JSON values")
  | .list items, path => do return .list (← jsonItems items path 0)
  | .tuple items, path => do return .list (← jsonItems items path 0)
  | .dict entries, path => do return .dict (← jsonEntries entries path)

/-- The items of a list from position `index` on. -/
def jsonItems : List Value → String → Nat → Except PyException (List Value)
  | [], _, _ => .ok []
  | item :: items, path, index => do
      let v ← jsonValue item s!"{path}[{index}]"
      let vs ← jsonItems items path (index + 1)
      return v :: vs

/-- The entries of an object. -/
def jsonEntries : List (String × Value) → String → Except PyException (List (String × Value))
  | [], _ => .ok []
  | (key, item) :: entries, path => do
      let v ← jsonValue item s!"{path}.{key}"
      let vs ← jsonEntries entries path
      return (key, v) :: vs

end

/-! ## Paths

A path only names the value in messages: no validator accepts more or less because of it. -/

mutual

/-- Normalization does not depend on the path, which only names the value in messages. -/
theorem jsonValue_path : ∀ (value : Value) {path : String} {v : Value} (path' : String),
    jsonValue value path = .ok v → jsonValue value path' = .ok v
  | .none, _, _, _, h => h
  | .bool _, _, _, _, h => h
  | .int _, _, _, _, h => h
  | .str _, _, _, _, h => h
  | .float x, _, _, _, h => by
      rw [jsonValue] at h ⊢
      split at h
      · next hfinite => rwa [if_pos hfinite]
      · cases h
  | .list items, path, v, path', h => by
      rw [jsonValue] at h ⊢
      obtain ⟨vs, hvs, h⟩ := bind_eq_ok.mp h
      exact bind_eq_ok.mpr ⟨vs, jsonItems_path items path' 0 hvs, h⟩
  | .tuple items, path, v, path', h => by
      rw [jsonValue] at h ⊢
      obtain ⟨vs, hvs, h⟩ := bind_eq_ok.mp h
      exact bind_eq_ok.mpr ⟨vs, jsonItems_path items path' 0 hvs, h⟩
  | .dict entries, path, v, path', h => by
      rw [jsonValue] at h ⊢
      obtain ⟨vs, hvs, h⟩ := bind_eq_ok.mp h
      exact bind_eq_ok.mpr ⟨vs, jsonEntries_path entries path' hvs, h⟩

theorem jsonItems_path : ∀ (items : List Value) {path : String} {index : Nat} {vs : List Value}
    (path' : String) (index' : Nat), jsonItems items path index = .ok vs →
      jsonItems items path' index' = .ok vs
  | [], _, _, _, _, _, h => h
  | item :: items, path, index, vs, path', index', h => by
      rw [jsonItems] at h ⊢
      obtain ⟨v, hv, h⟩ := bind_eq_ok.mp h
      obtain ⟨rest, hrest, h⟩ := bind_eq_ok.mp h
      exact bind_eq_ok.mpr ⟨v, jsonValue_path item _ hv,
        bind_eq_ok.mpr ⟨rest, jsonItems_path items path' _ hrest, h⟩⟩

theorem jsonEntries_path : ∀ (entries : List (String × Value)) {path : String}
    {vs : List (String × Value)} (path' : String), jsonEntries entries path = .ok vs →
      jsonEntries entries path' = .ok vs
  | [], _, _, _, h => h
  | (key, item) :: entries, path, vs, path', h => by
      rw [jsonEntries] at h ⊢
      obtain ⟨v, hv, h⟩ := bind_eq_ok.mp h
      obtain ⟨rest, hrest, h⟩ := bind_eq_ok.mp h
      exact bind_eq_ok.mpr ⟨v, jsonValue_path item _ hv,
        bind_eq_ok.mpr ⟨rest, jsonEntries_path entries path' hrest, h⟩⟩

end

theorem required_eq_ok {data : List (String × Value)} {key path : String} {v : Value} :
    required data key path = .ok v ↔ data.lookup key = some v := by
  unfold required
  cases data.lookup key with
  | none => simp
  | some item => simp

theorem schemaOne_eq_ok {data : List (String × Value)} {path : String} :
    schemaOne data path = .ok () ↔ data.lookup "schema" = some (.int 1) := by
  unfold schemaOne
  constructor
  · intro h
    obtain ⟨v, hv, h⟩ := bind_eq_ok.mp h
    obtain ⟨i, hi, h⟩ := bind_eq_ok.mp h
    have hone := not_not.mp (raiseIf_eq_ok.mp h)
    cases v with
    | int n =>
        obtain rfl := Except.ok.inj hi
        rw [required_eq_ok.mp hv, hone]
    | _ => cases hi
  · intro h
    exact bind_eq_ok.mpr ⟨_, required_eq_ok.mpr h, rfl⟩

theorem required_path {data : List (String × Value)} {key path : String} {v : Value}
    (path' : String) (h : required data key path = .ok v) : required data key path' = .ok v :=
  required_eq_ok.mpr (required_eq_ok.mp h)

theorem integer_path {minimum : Option Int} {value : Value} {path : String} {i : Int}
    (path' : String) (h : integer minimum value path = .ok i) :
    integer minimum value path' = .ok i := by
  cases value with
  | int n =>
      unfold integer at h ⊢
      dsimp only at h ⊢
      split at h
      · cases h
      · next hmin => rwa [if_neg hmin]
  | _ => cases h

theorem objectMap_eq_ok {value : Value} {path : String} {data : List (String × Value)} :
    objectMap value path = .ok data ↔ value = .dict data := by
  constructor
  · intro h
    cases value with
    | dict entries => exact congrArg Value.dict (Except.ok.inj h)
    | _ => cases h
  · rintro rfl
    rfl

theorem objectMap_path {value : Value} {path : String} {data : List (String × Value)}
    (path' : String) (h : objectMap value path = .ok data) : objectMap value path' = .ok data :=
  objectMap_eq_ok.mpr (objectMap_eq_ok.mp h)

theorem array_path {value : Value} {path : String} {items : List Value}
    (path' : String) (h : array value path = .ok items) : array value path' = .ok items := by
  cases value with
  | list entries => exact h
  | _ => cases h

theorem string_path {nonempty : Bool} {value : Value} {path s : String} (path' : String)
    (h : string nonempty value path = .ok s) : string nonempty value path' = .ok s := by
  cases value with
  | str t =>
      unfold string at h ⊢
      dsimp only at h ⊢
      split at h
      · cases h
      · next hvalid => rwa [if_neg hvalid]
  | _ => cases h

theorem strings_path {nonempty : Bool} {value : Value} {path : String} {texts : List String}
    (path' : String) (h : strings nonempty value path = .ok texts) :
    strings nonempty value path' = .ok texts := by
  obtain ⟨items, hitems, h⟩ := bind_eq_ok.mp h
  refine bind_eq_ok.mpr ⟨items, array_path path' hitems, mapM_eq_ok.mpr ?_⟩
  exact (mapM_eq_ok.mp h).imp fun _ _ => string_path _

theorem stringMap_path {nonempty : Bool} {value : Value} {path : String}
    {texts : List (String × String)} (path' : String)
    (h : stringMap nonempty value path = .ok texts) :
    stringMap nonempty value path' = .ok texts := by
  obtain ⟨entries, hentries, h⟩ := bind_eq_ok.mp h
  refine bind_eq_ok.mpr ⟨entries, objectMap_path path' hentries, mapM_eq_ok.mpr ?_⟩
  refine (mapM_eq_ok.mp h).imp fun entry out hout => ?_
  obtain ⟨s, hs, hout⟩ := bind_eq_ok.mp hout
  exact bind_eq_ok.mpr ⟨s, string_path _ hs, hout⟩

/-- A value that `jsonValue` leaves as it is. -/
def Value.IsJson (v : Value) : Prop := ∀ path, jsonValue v path = .ok v

theorem isJson_list {items : List Value} (h : ∀ item ∈ items, item.IsJson) :
    (Value.list items).IsJson := by
  have hitems : ∀ path index, jsonItems items path index = .ok items := by
    induction items with
    | nil => intro path index; rfl
    | cons item items ih =>
        intro path index
        have hitem := h item (List.mem_cons_self ..)
        have hrest := ih fun other hother => h other (List.mem_cons_of_mem _ hother)
        rw [jsonItems, hitem, hrest]
        rfl
  intro path
  rw [jsonValue, hitems]
  rfl

theorem isJson_dict {entries : List (String × Value)} (h : ∀ entry ∈ entries, entry.2.IsJson) :
    (Value.dict entries).IsJson := by
  have hentries : ∀ path, jsonEntries entries path = .ok entries := by
    induction entries with
    | nil => intro path; rfl
    | cons entry entries ih =>
        intro path
        obtain ⟨key, item⟩ := entry
        have hitem : item.IsJson := h (key, item) (List.mem_cons_self ..)
        have hrest := ih fun other hother => h other (List.mem_cons_of_mem _ hother)
        rw [jsonEntries, hitem, hrest]
        rfl
  intro path
  rw [jsonValue, hentries]
  rfl

mutual

/-- What `jsonValue` returns is left as it is. -/
theorem isJson_of_jsonValue : ∀ (value : Value) {path : String} {v : Value},
    jsonValue value path = .ok v → v.IsJson
  | .none, _, _, h => by cases h; exact fun _ => rfl
  | .bool _, _, _, h => by cases h; exact fun _ => rfl
  | .int _, _, _, h => by cases h; exact fun _ => rfl
  | .str _, _, _, h => by cases h; exact fun _ => rfl
  | .float x, _, _, h => by
      rw [jsonValue] at h
      split at h
      · next hfinite =>
          cases h
          exact fun _ => by rw [jsonValue, if_pos hfinite]
      · cases h
  | .list items, path, v, h => by
      rw [jsonValue] at h
      obtain ⟨vs, hvs, h⟩ := bind_eq_ok.mp h
      cases h
      exact isJson_list (isJson_of_jsonItems items hvs)
  | .tuple items, path, v, h => by
      rw [jsonValue] at h
      obtain ⟨vs, hvs, h⟩ := bind_eq_ok.mp h
      cases h
      exact isJson_list (isJson_of_jsonItems items hvs)
  | .dict entries, path, v, h => by
      rw [jsonValue] at h
      obtain ⟨vs, hvs, h⟩ := bind_eq_ok.mp h
      cases h
      exact isJson_dict (isJson_of_jsonEntries entries hvs)

theorem isJson_of_jsonItems : ∀ (items : List Value) {path : String} {index : Nat}
    {vs : List Value}, jsonItems items path index = .ok vs → ∀ v ∈ vs, v.IsJson
  | [], _, _, _, h => by
      cases h
      exact fun _ hv => absurd hv List.not_mem_nil
  | item :: items, path, index, vs, h => by
      rw [jsonItems] at h
      obtain ⟨v, hv, h⟩ := bind_eq_ok.mp h
      obtain ⟨rest, hrest, h⟩ := bind_eq_ok.mp h
      cases h
      exact List.forall_mem_cons.mpr
        ⟨isJson_of_jsonValue item hv, isJson_of_jsonItems items hrest⟩

theorem isJson_of_jsonEntries : ∀ (entries : List (String × Value)) {path : String}
    {vs : List (String × Value)}, jsonEntries entries path = .ok vs → ∀ entry ∈ vs, entry.2.IsJson
  | [], _, _, h => by
      cases h
      exact fun _ hv => absurd hv List.not_mem_nil
  | (key, item) :: entries, path, vs, h => by
      rw [jsonEntries] at h
      obtain ⟨v, hv, h⟩ := bind_eq_ok.mp h
      obtain ⟨rest, hrest, h⟩ := bind_eq_ok.mp h
      cases h
      exact List.forall_mem_cons.mpr
        ⟨isJson_of_jsonValue item hv, isJson_of_jsonEntries entries hrest⟩

end

/-- The items of a JSON array, and the entries of a JSON object, are JSON values. -/
theorem items_isJson {items : List Value} (h : (Value.list items).IsJson) :
    ∀ item ∈ items, item.IsJson := by
  have hlist := h ""
  rw [jsonValue] at hlist
  obtain ⟨vs, hvs, heq⟩ := bind_eq_ok.mp hlist
  cases heq
  exact isJson_of_jsonItems items hvs

theorem entries_isJson {entries : List (String × Value)} (h : (Value.dict entries).IsJson) :
    ∀ entry ∈ entries, entry.2.IsJson := by
  have hdict := h ""
  rw [jsonValue] at hdict
  obtain ⟨vs, hvs, heq⟩ := bind_eq_ok.mp hdict
  cases heq
  exact isJson_of_jsonEntries entries hvs

theorem mem_of_lookup {ν : Type} {entries : List (String × ν)} {key : String} {item : ν}
    (h : entries.lookup key = some item) : (key, item) ∈ entries := by
  obtain ⟨before, after, rfl, _⟩ := List.lookup_eq_some_iff.mp h
  exact List.mem_append_right _ (List.mem_cons_self ..)

theorem Value.IsJson.field {v item : Value} {key : String} (h : v.IsJson)
    (hitem : v.field? key = some item) : item.IsJson := by
  cases v with
  | dict entries => exact entries_isJson h _ (mem_of_lookup hitem)
  | _ => cases hitem

/-- The numeric value of an `int` or a finite `float`. -/
def Value.asNumber? : Value → Option ℚ
  | .int i => some i
  | .float (.finite q) => some q
  | _ => .none

mutual

/-- Python's `==` on values: objects are compared without regard to the order of their
entries. -/
def Value.pyEq : Value → Value → Bool
  | .none, .none => true
  | .bool a, .bool b => a == b
  | .int a, .int b => a == b
  | .float a, .float b => a == b && a != .nan
  | .str a, .str b => a == b
  | .list a, .list b => Value.pyEqItems a b
  | .tuple a, .tuple b => Value.pyEqItems a b
  | .dict a, .dict b => a.length == b.length && Value.pyEqEntries a b
  | .bool a, .int b => b == if a then 1 else 0
  | .int a, .bool b => a == if b then 1 else 0
  | .int a, .float b => b == .finite a
  | .float a, .int b => a == .finite b
  | _, _ => false

/-- Equality of two lists of values. -/
def Value.pyEqItems : List Value → List Value → Bool
  | [], [] => true
  | a :: as, b :: bs => Value.pyEq a b && Value.pyEqItems as bs
  | _, _ => false

/-- Every entry has an equal entry under its key on the other side. -/
def Value.pyEqEntries : List (String × Value) → List (String × Value) → Bool
  | [], _ => true
  | (key, a) :: rest, other =>
      match other.lookup key with
      | some b => Value.pyEq a b && Value.pyEqEntries rest other
      | .none => false

end

theorem lookup_of_mem {entries : List (String × Value)} (h : (entries.map Prod.fst).Nodup)
    {key : String} {item : Value} (hmem : (key, item) ∈ entries) :
    entries.lookup key = some item := by
  induction entries with
  | nil => cases hmem
  | cons entry entries ih =>
      obtain ⟨hnew, hrest⟩ := List.nodup_cons.mp h
      obtain ⟨key', item'⟩ := entry
      rcases List.mem_cons.mp hmem with heq | hmem
      · cases heq
        exact List.lookup_cons_self
      · have hkey : key ∈ entries.map Prod.fst := List.mem_map_of_mem (f := Prod.fst) hmem
        have hne : (key == key') = false := beq_eq_false_iff_ne.mpr fun heq => hnew (heq ▸ hkey)
        rw [List.lookup_cons, hne]
        exact ih hrest hmem

theorem isSome_lookup_of_mem {ν : Type} {entries : List (String × ν)} {entry : String × ν}
    (h : entry ∈ entries) : (entries.lookup entry.1).isSome = true := by
  cases hlookup : entries.lookup entry.1 with
  | some item => rfl
  | none =>
      have hne := List.lookup_eq_none_iff.mp hlookup entry h
      simp at hne

theorem lookup_setEntries (key key' : String) (item : Value) (entries : List (String × Value)) :
    (Dict.setEntries key item entries).lookup key'
      = if key = key' then some item else entries.lookup key' := by
  induction entries with
  | nil =>
      by_cases h : key = key'
      · simp [Dict.setEntries, h]
      · simp [Dict.setEntries, h, List.lookup_cons, beq_eq_false_iff_ne.mpr (Ne.symm h)]
  | cons entry entries ih =>
      obtain ⟨k, v⟩ := entry
      by_cases hk : k = key
      · subst hk
        rw [Dict.setEntries, if_pos rfl, List.lookup_cons, List.lookup_cons]
        by_cases h : k = key'
        · simp [h]
        · simp [h, beq_eq_false_iff_ne.mpr (Ne.symm h)]
      · rw [Dict.setEntries, if_neg hk, List.lookup_cons, List.lookup_cons, ih]
        by_cases h : key' = k
        · simp [h, Ne.symm hk]
        · simp [beq_eq_false_iff_ne.mpr h]

theorem forall_mem_setEntries {P : String × Value → Prop} {key : String} {item : Value}
    {entries : List (String × Value)} (h : ∀ entry ∈ entries, P entry) (hitem : P (key, item)) :
    ∀ entry ∈ Dict.setEntries key item entries, P entry := by
  induction entries with
  | nil => exact List.forall_mem_singleton.mpr hitem
  | cons first entries ih =>
      obtain ⟨hfirst, hrest⟩ := List.forall_mem_cons.mp h
      rw [Dict.setEntries]
      split
      · exact List.forall_mem_cons.mpr ⟨hitem, hrest⟩
      · exact List.forall_mem_cons.mpr ⟨hfirst, ih hrest⟩

theorem Value.IsJson.setField {v item : Value} {key : String} (hv : v.IsJson)
    (hitem : item.IsJson) :
    (v.setField key item).IsJson := by
  cases v with
  | dict entries => exact isJson_dict (forall_mem_setEntries (entries_isJson hv) hitem)
  | _ => exact hv

/-- Setting a field to what it is changes nothing. -/
theorem Value.setField_self {v item : Value} {key : String} (h : v.field? key = some item) :
    v.setField key item = v := by
  cases v with
  | dict entries =>
      refine congrArg Value.dict ?_
      change entries.lookup key = some item at h
      induction entries with
      | nil => cases h
      | cons entry entries ih =>
          obtain ⟨k, x⟩ := entry
          rw [List.lookup_cons] at h
          by_cases hk : k = key
          · subst hk
            rw [beq_self_eq_true] at h
            rw [Dict.setEntries, if_pos rfl, Option.some.inj h]
          · rw [beq_eq_false_iff_ne.mpr (Ne.symm hk)] at h
            rw [Dict.setEntries, if_neg hk, ih h]
  | _ => cases h

theorem Value.field?_setField_eq {v item old : Value} {key : String}
    (h : v.field? key = some old) : (v.setField key item).field? key = some item := by
  cases v with
  | dict entries => exact (lookup_setEntries key key item entries).trans (if_pos rfl)
  | _ => cases h

theorem Value.field?_setField_ne (v item : Value) {key key' : String} (h : key ≠ key') :
    (v.setField key item).field? key' = v.field? key' := by
  cases v with
  | dict entries => exact (lookup_setEntries key key' item entries).trans (if_neg h)
  | _ => rfl

theorem jsonEntries_setEntries {key path : String} {item item' : Value} (hitem : item.IsJson)
    (hitem' : item'.IsJson) {entries vs : List (String × Value)}
    (h : jsonEntries (Dict.setEntries key item entries) path = .ok vs) :
    jsonEntries (Dict.setEntries key item' entries) path =
      .ok (Dict.setEntries key item' vs) := by
  induction entries generalizing vs with
  | nil =>
      rw [Dict.setEntries, jsonEntries, hitem] at h
      obtain rfl := Except.ok.inj h
      rw [Dict.setEntries, jsonEntries, hitem', Dict.setEntries, if_pos rfl]
      rfl
  | cons entry entries ih =>
      obtain ⟨k, v⟩ := entry
      by_cases hk : k = key
      · rw [Dict.setEntries, if_pos hk, jsonEntries, hitem] at h
        obtain ⟨_, hv, h⟩ := bind_eq_ok.mp h
        obtain rfl := Except.ok.inj hv
        obtain ⟨rest, hrest, h⟩ := bind_eq_ok.mp h
        obtain rfl := Except.ok.inj h
        rw [Dict.setEntries, if_pos hk, jsonEntries, hitem', hrest, Dict.setEntries, if_pos rfl]
        rfl
      · rw [Dict.setEntries, if_neg hk, jsonEntries] at h
        obtain ⟨v', hv, h⟩ := bind_eq_ok.mp h
        obtain ⟨rest, hrest, h⟩ := bind_eq_ok.mp h
        obtain rfl := Except.ok.inj h
        rw [Dict.setEntries, if_neg hk, jsonEntries, hv, ih hrest, Dict.setEntries, if_neg hk]
        rfl

/-- A field of a document that is set to another JSON value. -/
theorem jsonValue_setField {value json item item' : Value} {key path : String}
    (hitem : item.IsJson) (hitem' : item'.IsJson)
    (h : jsonValue (value.setField key item) path = .ok json) :
    jsonValue (value.setField key item') path = .ok (json.setField key item') := by
  cases value with
  | dict entries =>
      rw [Value.setField, jsonValue] at h ⊢
      obtain ⟨vs, hvs, h⟩ := bind_eq_ok.mp h
      obtain rfl := Except.ok.inj h
      exact bind_eq_ok.mpr ⟨_, jsonEntries_setEntries hitem hitem' hvs, rfl⟩
  | list items =>
      change jsonValue (.list items) path = .ok json at h
      show jsonValue (.list items) path = _
      rw [h]
      rw [jsonValue] at h
      obtain ⟨_, _, h⟩ := bind_eq_ok.mp h
      obtain rfl := Except.ok.inj h
      rfl
  | tuple items =>
      change jsonValue (.tuple items) path = .ok json at h
      show jsonValue (.tuple items) path = _
      rw [h]
      rw [jsonValue] at h
      obtain ⟨_, _, h⟩ := bind_eq_ok.mp h
      obtain rfl := Except.ok.inj h
      rfl
  | float x =>
      change jsonValue (.float x) path = .ok json at h
      show jsonValue (.float x) path = _
      rw [h]
      rw [jsonValue] at h
      split at h
      · obtain rfl := Except.ok.inj h
        rfl
      · cases h
  | _ =>
      obtain rfl := Except.ok.inj h
      rfl

/-- An object with distinct keys equals itself when its items do. -/
theorem pyEq_dict_self {entries : List (String × Value)} (hnodup : (entries.map Prod.fst).Nodup)
    (h : ∀ entry ∈ entries, Value.pyEq entry.2 entry.2 = true) :
    Value.pyEq (.dict entries) (.dict entries) = true := by
  have hpart : ∀ part : List (String × Value), (∀ entry ∈ part, entry ∈ entries) →
      Value.pyEqEntries part entries = true := by
    intro part hsub
    induction part with
    | nil => rw [Value.pyEqEntries]
    | cons entry part ih =>
        have hentry := hsub entry (List.mem_cons_self ..)
        have hrest := ih fun other hother => hsub other (List.mem_cons_of_mem _ hother)
        obtain ⟨key, item⟩ := entry
        rw [Value.pyEqEntries, lookup_of_mem hnodup hentry]
        exact Bool.and_eq_true_iff.mpr ⟨h (key, item) hentry, hrest⟩
  rw [Value.pyEq, hpart entries fun entry hentry => hentry, beq_self_eq_true]
  rfl

/-- `data.setdefault(key, value)`. -/
def setDefault (key : String) (value : Value) (data : List (String × Value)) :
    List (String × Value) :=
  if (data.lookup key).isSome then data else data ++ [(key, value)]

end FlatpakBlackbox
