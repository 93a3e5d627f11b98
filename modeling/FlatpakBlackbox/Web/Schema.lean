import FlatpakBlackbox.Json.Value

set_option autoImplicit false

/-! # Schemas

The data of the web application is read from JSON through schemas and written back as JSON. A
`Schema` is the pair of both directions: `parse` is what the schema accepts and `write` what
`JSON.stringify` makes of a parsed value; that a written value is accepted again, as the same
value, is a field. Objects keep their declared fields only and may leave out optional ones.
-/

namespace FlatpakBlackbox

open PyLib

/-- A schema for values of a type. -/
structure Schema (α : Type) where
  parse : Value → Option α
  write : α → Value
  parse_write : ∀ a, parse (write a) = some a

namespace Schema

variable {α : Type}

/-- `z.string()`. -/
def string : Schema String := ⟨Value.asStr?, .str, fun _ => rfl⟩

/-- `z.boolean()`. -/
def boolean : Schema Bool := ⟨Value.asBool?, .bool, fun _ => rfl⟩

/-- `z.number()`: JSON has finite numbers only. -/
def number : Schema ℚ where
  parse
    | .int i => some i
    | .float (.finite q) => some q
    | _ => none
  write q := .float (.finite q)
  parse_write _ := rfl

/-- `z.number().int().nonnegative()`, without its bound of 2^53 - 1. -/
def count : Schema Nat where
  parse v := (number.parse v).bind fun q => if 0 ≤ q ∧ q.den = 1 then some q.num.toNat else none
  write n := .int n
  parse_write n := by
    have h : (0 : ℚ) ≤ ((n : Int) : ℚ) ∧ ((n : Int) : ℚ).den = 1 :=
      ⟨by exact_mod_cast Nat.zero_le n, rfl⟩
    show (if _ then _ else _) = _
    rw [if_pos h]
    rfl

/-- A schema with a further check. -/
def refine (s : Schema α) (p : α → Prop) [DecidablePred p] : Schema {a // p a} where
  parse v := (s.parse v).bind fun a => if h : p a then some ⟨a, h⟩ else none
  write a := s.write a
  parse_write a := by
    rw [s.parse_write, Option.bind_some, dif_pos a.2]

/-- `z.number().nonnegative()`. -/
def seconds : Schema {q : ℚ // 0 ≤ q} := number.refine _

/-- `z.literal(1)`. -/
def one : Schema Unit where
  parse v := (number.parse v).bind fun q => if q = 1 then some () else none
  write _ := .int 1
  parse_write _ := rfl

/-- `z.enum(...)`: each of the listed values has its own text. -/
def enumeration (all : List α) (text : α → String)
    (h : ∀ a, all.find? (fun b => text b = text a) = some a) : Schema α where
  parse v := v.asStr?.bind fun s => all.find? fun b => text b = s
  write a := .str (text a)
  parse_write := h

/-- `z.array(...)`. -/
def array (s : Schema α) : Schema (List α) where
  parse v := v.asList?.bind fun items => items.mapM s.parse
  write l := .list (l.map s.write)
  parse_write l := by
    show (l.map s.write).mapM s.parse = some l
    induction l with
    | nil => rfl
    | cons a l ih =>
        rw [List.map_cons, List.mapM_cons, s.parse_write, ih]
        rfl

/-- `z.record(z.string(), ...)`; that it drops the key `__proto__` is left out. -/
def record (s : Schema α) : Schema (Dict String α) where
  parse v := v.asEntries?.bind fun entries =>
    (entries.mapM fun entry => (s.parse entry.2).map fun a => (entry.1, a)).map Dict.ofList
  write d := .dict (d.entries.map fun entry => (entry.1, s.write entry.2))
  parse_write d := by
    have hread : (d.entries.map fun entry => (entry.1, s.write entry.2)).mapM
        (fun entry => (s.parse entry.2).map fun a => (entry.1, a)) = some d.entries := by
      induction d.entries with
      | nil => rfl
      | cons entry entries ih =>
          rw [List.map_cons, List.mapM_cons, ih, s.parse_write]
          rfl
    show Option.map Dict.ofList (List.mapM _ _) = some d
    rw [hread, Option.map_some, Dict.ofList_entries]

/-- `schema.nullable()`, of a schema that does not write null. -/
def nullable (s : Schema α) (h : ∀ a, s.write a ≠ .none) : Schema (Option α) where
  parse
    | .none => some none
    | v => (s.parse v).map some
  write
    | none => .none
    | some a => s.write a
  parse_write o := by
    cases o with
    | none => rfl
    | some a =>
        have hread := s.parse_write a
        have hne := h a
        dsimp only
        cases hv : s.write a with
        | none => exact absurd hv hne
        | _ => rw [hv] at hread; exact congrArg (Option.map some) hread

end Schema

/-- The same JSON for another type. -/
def Schema.map {α β : Type} (s : Schema α) (make : α → β) (back : β → α)
    (h : ∀ b, make (back b) = b) : Schema β where
  parse v := (s.parse v).map make
  write b := s.write (back b)
  parse_write b := by rw [s.parse_write, Option.map_some, h]

/-! ## Objects -/

/-- An object with the fields that are present. -/
def objectOf (fields : List (String × Option Value)) : Value :=
  .dict (fields.filterMap fun field => field.2.map fun v => (field.1, v))

theorem lookup_objectOf_of_not_mem {fields : List (String × Option Value)} {key : String}
    (h : key ∉ fields.map Prod.fst) : (objectOf fields).field? key = none := by
  show (List.filterMap _ fields).lookup key = none
  rw [List.lookup_eq_none_iff]
  intro entry hentry
  obtain ⟨field, hfield, hmap⟩ := List.mem_filterMap.mp hentry
  obtain ⟨v, -, rfl⟩ := Option.map_eq_some_iff.mp hmap
  have hne : key ≠ field.1 := fun heq => h (heq ▸ List.mem_map_of_mem hfield)
  simpa using hne

theorem field?_objectOf {fields : List (String × Option Value)}
    (hnodup : (fields.map Prod.fst).Nodup) {field : String × Option Value} (h : field ∈ fields) :
    (objectOf fields).field? field.1 = field.2 := by
  induction fields with
  | nil => cases h
  | cons first fields ih =>
      obtain ⟨hfirst, hrest⟩ := List.nodup_cons.mp hnodup
      rcases List.mem_cons.mp h with rfl | hmem
      · cases hvalue : field.2 with
        | some v =>
            show (List.filterMap _ (field :: fields)).lookup field.1 = some v
            rw [List.filterMap_cons_some (b := (field.1, v)) (by rw [hvalue]; rfl)]
            exact List.lookup_cons_self
        | none =>
            show (List.filterMap _ (field :: fields)).lookup field.1 = none
            rw [List.filterMap_cons_none (by rw [hvalue]; rfl)]
            exact lookup_objectOf_of_not_mem hfirst
      · have hkey : field.1 ∈ fields.map Prod.fst := List.mem_map_of_mem hmem
        have hne : (field.1 == first.1) = false := by
          have : field.1 ≠ first.1 := fun heq => hfirst (heq ▸ hkey)
          simpa using this
        have hih := ih hrest hmem
        cases hvalue : first.2 with
        | some v =>
            show (List.filterMap _ (first :: fields)).lookup field.1 = field.2
            rw [List.filterMap_cons_some (b := (first.1, v)) (by rw [hvalue]; rfl),
              List.lookup_cons, hne]
            exact hih
        | none =>
            show (List.filterMap _ (first :: fields)).lookup field.1 = field.2
            rw [List.filterMap_cons_none (by rw [hvalue]; rfl)]
            exact hih

/-- Some of the declared fields of an object. They are read back from every object that holds what
they write. -/
structure Fields (α : Type) where
  keys : List String
  parse : Value → Option α
  write : α → List (String × Option Value)
  keys_write : ∀ a, (write a).map Prod.fst = keys
  parse_write : ∀ a v, (∀ field ∈ write a, v.field? field.1 = field.2) → parse v = some a

namespace Fields

variable {α β : Type}

/-- A required field. -/
def required (key : String) (s : Schema α) : Fields α where
  keys := [key]
  parse v := (v.field? key).bind s.parse
  write a := [(key, some (s.write a))]
  keys_write _ := rfl
  parse_write a v h := by
    rw [h _ (List.mem_singleton_self _)]
    exact s.parse_write a

/-- `schema.optional()`. -/
def optional (key : String) (s : Schema α) : Fields (Option α) where
  keys := [key]
  parse v :=
    match v.field? key with
    | none => some none
    | some item => (s.parse item).map some
  write o := [(key, o.map s.write)]
  keys_write _ := rfl
  parse_write o v h := by
    rw [h _ (List.mem_singleton_self _)]
    cases o with
    | none => rfl
    | some a => exact congrArg (Option.map some) (s.parse_write a)

/-- The fields of both. -/
def both (f : Fields α) (g : Fields β) : Fields (α × β) where
  keys := f.keys ++ g.keys
  parse v := (f.parse v).bind fun a => (g.parse v).map fun b => (a, b)
  write p := f.write p.1 ++ g.write p.2
  keys_write p := by rw [List.map_append, f.keys_write, g.keys_write]
  parse_write p v h := by
    have hf := f.parse_write p.1 v fun field hfield => h field (List.mem_append_left _ hfield)
    have hg := g.parse_write p.2 v fun field hfield => h field (List.mem_append_right _ hfield)
    rw [hf, hg]
    rfl

/-- `z.object(...)`: fields that are not declared are dropped. -/
def schema (f : Fields α) (hkeys : f.keys.Nodup) : Schema α where
  parse v := v.asEntries?.bind fun _ => f.parse v
  write a := objectOf (f.write a)
  parse_write a := f.parse_write a _ fun _ hfield =>
    field?_objectOf (by rw [f.keys_write]; exact hkeys) hfield

/-! ### What is accepted -/

theorem both_eq_some {f : Fields α} {g : Fields β} {v : Value} {a : α} {b : β} :
    (f.both g).parse v = some (a, b) ↔ f.parse v = some a ∧ g.parse v = some b := by
  show (f.parse v).bind (fun a => (g.parse v).map fun b => (a, b)) = _ ↔ _
  cases f.parse v with
  | none => simp
  | some a' =>
      cases g.parse v with
      | none => simp
      | some b' => simp

end Fields

end FlatpakBlackbox
