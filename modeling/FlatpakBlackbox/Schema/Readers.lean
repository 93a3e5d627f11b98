import FlatpakBlackbox.Json.Judgement
import FlatpakBlackbox.Schema.Fixture

set_option autoImplicit false

/-! # Faithful readers

A reader of the fixture manifest builds a new object from the fields it knows. It is *faithful* to a
class when nothing gets lost on the way: the object it returns is the one it was given, it is of the
class and is read as it is, and what was accepted has no field that the class does not declare.
Readers of texts, numbers, maps and lists are faithful by themselves; a group is faithful when its
fields are and every field of the object was read, which is what `known` checks.
-/

namespace FlatpakBlackbox

open PyLib PyException

/-! ## The same data -/

/-- **The same data**: equal, up to the order of the entries of objects. -/
inductive Value.Same : Value → Value → Prop where
  | refl (v : Value) : Same v v
  | list {a b : List Value} (hlength : a.length = b.length)
      (h : ∀ (i : Nat) x y, a[i]? = some x → b[i]? = some y → Same x y) : Same (.list a) (.list b)
  | dict {a b : List (String × Value)}
      (hkeys : ∀ key, (a.lookup key).isSome = (b.lookup key).isSome)
      (h : ∀ key x y, a.lookup key = some x → b.lookup key = some y → Same x y) :
      Same (.dict a) (.dict b)

/-- The annotation of a declared field. -/
def annotationOf (fields : List (String × Bool × TypeHint)) (key : String) : Option TypeHint :=
  (fields.find? fun field => field.1 = key).map fun field => field.2.2

/-- **An unknown field**: an object, the value itself or one at some depth, has a field that its
class does not declare. -/
inductive HasUnknown : TypeHint → Value → Prop where
  | here {fields : List (String × Bool × TypeHint)} {data : List (String × Value)} {key : String}
      {item : Value} (hundeclared : annotationOf fields key = none)
      (hitem : data.lookup key = some item) : HasUnknown (.typedDict fields) (.dict data)
  | field {fields : List (String × Bool × TypeHint)} {data : List (String × Value)} {key : String}
      {a : TypeHint} {item : Value} (hdeclared : annotationOf fields key = some a)
      (hitem : data.lookup key = some item) (h : HasUnknown a item) :
      HasUnknown (.typedDict fields) (.dict data)
  | item {element : TypeHint} {items : List Value} {item : Value} (hmem : item ∈ items)
      (h : HasUnknown element item) : HasUnknown (.list element) (.list items)
  | entry {key element : TypeHint} {entries : List (String × Value)} {entry : String × Value}
      (hmem : entry ∈ entries) (h : HasUnknown element entry.2) :
      HasUnknown (.dict key element) (.dict entries)

/-! ## Faithful readers -/

/-- What a reader accepts it keeps. -/
structure Faithful (r : Reader) (a : TypeHint) : Prop where
  same : ∀ {v : Value} {path : String} {w : Value}, r v path = .ok w → w.Same v
  again : ∀ {v : Value} {path : String} {w : Value}, r v path = .ok w → r w path = .ok w
  closed : ∀ {v : Value} {path : String} {w : Value}, r v path = .ok w → ¬ HasUnknown a v
  typed : ∀ {v : Value} {path : String} {w : Value}, r v path = .ok w → a.Accepts w
  json : ∀ {v : Value} {path : String} {w : Value}, r v path = .ok w → w.IsJson

/-- A declared field and its reader. -/
def Declares (declared : List (String × Bool × TypeHint)) (field : String × Reader) : Prop :=
  ∃ a, annotationOf declared field.1 = some a ∧ Faithful field.2 a

/-- A reader that returns what it was given. -/
theorem Faithful.of_exact {r : Reader} {a : TypeHint}
    (hexact : ∀ {v : Value} {path : String} {w : Value}, r v path = .ok w → w = v)
    (hclosed : ∀ v, ¬ HasUnknown a v)
    (hresult : ∀ {v : Value} {path : String} {w : Value}, r v path = .ok w →
    a.Accepts w ∧ w.IsJson) :
    Faithful r a where
  same h := hexact h ▸ .refl _
  again h := by
    have hsame := hexact h
    subst hsame
    exact h
  closed _ := hclosed _
  typed h := (hresult h).1
  json h := (hresult h).2

theorem string_eq_ok {nonempty : Bool} {v : Value} {path s : String}
    (h : string nonempty v path = .ok s) : v = .str s := by
  cases v with
  | str t =>
      unfold string at h
      dsimp only at h
      split at h
      · cases h
      · rw [Except.ok.inj h]
  | _ => cases h

theorem textReader_exact {nonempty : Bool} {v : Value} {path : String} {w : Value}
    (h : textReader nonempty v path = .ok w) : w = v := by
  obtain ⟨s, hs, h⟩ := bind_eq_ok.mp h
  rw [← Except.ok.inj h, string_eq_ok hs]

theorem textReader_faithful (nonempty : Bool) : Faithful (textReader nonempty) .str := by
  refine .of_exact textReader_exact (fun _ h => by cases h) fun h => ?_
  obtain ⟨s, _, h⟩ := bind_eq_ok.mp h
  obtain rfl := Except.ok.inj h
  exact ⟨fun _ => rfl, fun _ => rfl⟩

theorem sizeReader_exact {v : Value} {path : String} {w : Value} (h : sizeReader v path = .ok w) :
    w = v := by
  obtain ⟨i, hi, hw⟩ := bind_eq_ok.mp h
  obtain rfl := Except.ok.inj hw
  cases v with
  | int n =>
      unfold integer at hi
      dsimp only at hi
      split at hi
      · cases hi
      · rw [Except.ok.inj hi]
  | _ => cases hi

theorem sizeReader_faithful : Faithful sizeReader .int := by
  refine .of_exact sizeReader_exact (fun _ h => by cases h) fun h => ?_
  obtain ⟨i, _, h⟩ := bind_eq_ok.mp h
  obtain rfl := Except.ok.inj h
  exact ⟨fun _ => rfl, fun _ => rfl⟩

theorem flagReader_exact {v : Value} {path : String} {w : Value} (h : flagReader v path = .ok w) :
    w = v := by
  obtain ⟨b, hb, hw⟩ := bind_eq_ok.mp h
  obtain rfl := Except.ok.inj hw
  cases v with
  | bool c => rw [Except.ok.inj hb]
  | _ => cases hb

theorem flagReader_faithful : Faithful flagReader .bool := by
  refine .of_exact flagReader_exact (fun _ h => by cases h) fun h => ?_
  obtain ⟨b, _, h⟩ := bind_eq_ok.mp h
  obtain rfl := Except.ok.inj h
  exact ⟨fun _ => rfl, fun _ => rfl⟩

/-! ### Maps and lists -/

/-- The loop over the entries of an object keeps the keys in their order. -/
theorem readEntries_eq_ok {α : Type} {key : α → String} {read : α → Except PyException Value}
    {l : List α} {result : List (String × Value)} :
    (l.mapM fun x => do
        let v ← read x
        return (key x, v)) = .ok result ↔
      List.Forall₂ (fun x out => out.1 = key x ∧ read x = .ok out.2) l result := by
  have hiff : ∀ (x : α) (out : String × Value),
      (do let v ← read x; return (key x, v) : Except PyException (String × Value)) = .ok out ↔
        out.1 = key x ∧ read x = .ok out.2 := by
    intro x out
    obtain ⟨k, v⟩ := out
    rw [bind_eq_ok]
    constructor
    · rintro ⟨w, hw, h⟩
      obtain ⟨rfl, rfl⟩ := Prod.mk.inj (Except.ok.inj h)
      exact ⟨rfl, hw⟩
    · rintro ⟨rfl, hv⟩
      exact ⟨v, hv, rfl⟩
  rw [mapM_eq_ok]
  simp only [hiff]

/-- Lookups in two lists of entries with the same keys. -/
theorem lookup_forall₂ {P : String → Value → Value → Prop} {a b : List (String × Value)}
    (h : List.Forall₂ (fun x y => y.1 = x.1 ∧ P x.1 x.2 y.2) a b) (key : String) :
    (b.lookup key).isSome = (a.lookup key).isSome
      ∧ ∀ x y, b.lookup key = some x → a.lookup key = some y → P key y x := by
  induction h with
  | nil => exact ⟨rfl, fun x y hx => by cases hx⟩
  | @cons x y a b hxy _ ih =>
      obtain ⟨k, v⟩ := x
      obtain ⟨k', w⟩ := y
      obtain ⟨hk, hP⟩ := hxy
      dsimp only at hk hP
      subst hk
      rw [List.lookup_cons, List.lookup_cons]
      by_cases hkey : key = k'
      · subst hkey
        rw [beq_self_eq_true]
        refine ⟨rfl, fun x y hx hy => ?_⟩
        obtain rfl := Option.some.inj hx
        obtain rfl := Option.some.inj hy
        exact hP
      · rw [beq_eq_false_iff_ne.mpr hkey]
        exact ih

theorem mapReader_eq_ok {r : Reader} {v w : Value} {path : String} :
    mapReader r v path = .ok w ↔ ∃ entries result, v = .dict entries ∧ w = .dict result ∧
      List.Forall₂ (fun entry out => out.1 = entry.1
        ∧ r entry.2 s!"{path}.{entry.1}" = .ok out.2) entries result := by
  constructor
  · intro h
    obtain ⟨entries, hentries, h⟩ := bind_eq_ok.mp h
    obtain ⟨result, hresult, h⟩ := bind_eq_ok.mp h
    obtain rfl := Except.ok.inj h
    cases v with
    | dict data =>
        obtain rfl := Except.ok.inj hentries
        exact ⟨_, _, rfl, rfl, readEntries_eq_ok.mp hresult⟩
    | _ => cases hentries
  · rintro ⟨entries, result, rfl, rfl, hall⟩
    exact bind_eq_ok.mpr ⟨entries, rfl, bind_eq_ok.mpr ⟨result, readEntries_eq_ok.mpr hall, rfl⟩⟩

/-- What was read again is read as it is. -/
theorem forall₂_again {α β : Type} {R : α → β → Prop} {S : β → β → Prop} {l : List α} {l' : List β}
    (h : List.Forall₂ R l l') (hRS : ∀ x y, R x y → S y y) : List.Forall₂ S l' l' := by
  induction h with
  | nil => exact .nil
  | cons hxy _ ih => exact .cons (hRS _ _ hxy) ih

theorem mapReader_faithful {r : Reader} {a : TypeHint} (h : Faithful r a) :
    Faithful (mapReader r) (.dict .str a) where
  same {v path w} hw := by
    obtain ⟨entries, result, rfl, rfl, hall⟩ := mapReader_eq_ok.mp hw
    have hlookup := lookup_forall₂ (P := fun key y x => r y s!"{path}.{key}" = .ok x) hall
    exact .dict (fun key => (hlookup key).1) fun key x y hx hy => h.same ((hlookup key).2 x y hx hy)
  again {v path w} hw := by
    obtain ⟨entries, result, rfl, rfl, hall⟩ := mapReader_eq_ok.mp hw
    refine mapReader_eq_ok.mpr ⟨result, result, rfl, rfl, forall₂_again hall ?_⟩
    rintro entry out ⟨hkey, hread⟩
    exact ⟨rfl, hkey ▸ h.again hread⟩
  closed {v path w} hw hunknown := by
    obtain ⟨entries, result, rfl, rfl, hall⟩ := mapReader_eq_ok.mp hw
    cases hunknown with
    | entry hmem hunknown =>
        obtain ⟨out, _, _, hread⟩ := exists_of_forall₂ hall hmem
        exact h.closed hread hunknown
  typed {v path w} hw := by
    obtain ⟨entries, result, rfl, rfl, hall⟩ := mapReader_eq_ok.mp hw
    refine accepts_dict fun out hout => ?_
    obtain ⟨_, _, _, hread⟩ := exists_of_forall₂ hall.flip hout
    exact h.typed hread
  json {v path w} hw := by
    obtain ⟨entries, result, rfl, rfl, hall⟩ := mapReader_eq_ok.mp hw
    refine isJson_dict fun out hout => ?_
    obtain ⟨_, _, _, hread⟩ := exists_of_forall₂ hall.flip hout
    exact h.json hread

theorem listReader_eq_ok {r : Reader} {v w : Value} {path : String} :
    listReader r v path = .ok w ↔ ∃ items result, v = .list items ∧ w = .list result ∧
      List.Forall₂ (fun entry out => r entry.1 s!"{path}[{entry.2}]" = .ok out)
        items.zipIdx result := by
  constructor
  · intro h
    obtain ⟨items, hitems, h⟩ := bind_eq_ok.mp h
    obtain ⟨result, hresult, h⟩ := bind_eq_ok.mp h
    obtain rfl := Except.ok.inj h
    cases v with
    | list data =>
        obtain rfl := Except.ok.inj hitems
        exact ⟨_, _, rfl, rfl, mapM_eq_ok.mp hresult⟩
    | _ => cases hitems
  · rintro ⟨items, result, rfl, rfl, hall⟩
    exact bind_eq_ok.mpr ⟨items, rfl, bind_eq_ok.mpr ⟨result, mapM_eq_ok.mpr hall, rfl⟩⟩

/-- The items of a list and their indices, read item by item. -/
theorem forall₂_zipIdx {β : Type} {R : Value → Nat → β → Prop} {items : List Value}
    {result : List β} {n : Nat} :
    List.Forall₂ (fun entry out => R entry.1 entry.2 out) (items.zipIdx n) result ↔
      items.length = result.length ∧ ∀ (i : Nat) x y, items[i]? = some x → result[i]? = some y →
        R x (n + i) y := by
  induction items generalizing n result with
  | nil =>
      rw [List.zipIdx_nil, List.forall₂_nil_left_iff]
      constructor
      · rintro rfl
        exact ⟨rfl, fun i x y hx => by cases hx⟩
      · rintro ⟨hlength, _⟩
        exact List.length_eq_zero_iff.mp hlength.symm
  | cons item items ih =>
      rw [List.zipIdx_cons, List.forall₂_cons_left_iff]
      constructor
      · rintro ⟨out, result, hitem, hall, rfl⟩
        obtain ⟨hlength, hrest⟩ := ih.mp hall
        refine ⟨congrArg (· + 1) hlength, fun i x y hx hy => ?_⟩
        cases i with
        | zero =>
            obtain rfl := Option.some.inj hx
            obtain rfl := Option.some.inj hy
            exact hitem
        | succ i =>
            rw [Nat.add_comm i 1, ← Nat.add_assoc]
            exact hrest i x y hx hy
      · rintro ⟨hlength, hall⟩
        cases result with
        | nil => cases hlength
        | cons out result =>
            refine ⟨out, result, hall 0 item out rfl rfl, ih.mpr ⟨Nat.succ.inj hlength, ?_⟩, rfl⟩
            intro i x y hx hy
            have hread := hall (i + 1) x y hx hy
            rwa [Nat.add_comm i 1, ← Nat.add_assoc] at hread

theorem listReader_faithful {r : Reader} {a : TypeHint} (h : Faithful r a) :
    Faithful (listReader r) (.list a) where
  same {v path w} hw := by
    obtain ⟨items, result, rfl, rfl, hall⟩ := listReader_eq_ok.mp hw
    obtain ⟨hlength, hread⟩ :=
      (forall₂_zipIdx (R := fun x i y => r x s!"{path}[{i}]" = .ok y)).mp hall
    exact .list hlength.symm fun i x y hx hy => h.same (hread i y x hy hx)
  again {v path w} hw := by
    obtain ⟨items, result, rfl, rfl, hall⟩ := listReader_eq_ok.mp hw
    obtain ⟨hlength, hread⟩ :=
      (forall₂_zipIdx (R := fun x i y => r x s!"{path}[{i}]" = .ok y)).mp hall
    refine listReader_eq_ok.mpr ⟨result, result, rfl, rfl,
      (forall₂_zipIdx (R := fun x i y => r x s!"{path}[{i}]" = .ok y)).mpr ⟨rfl, ?_⟩⟩
    intro i x y hx hy
    obtain rfl := Option.some.inj (hx.symm.trans hy)
    have hi : i < items.length := hlength ▸ (List.getElem?_eq_some_iff.mp hx).1
    exact h.again (hread i items[i] x (List.getElem?_eq_getElem hi) hx)
  closed {v path w} hw hunknown := by
    obtain ⟨items, result, rfl, rfl, hall⟩ := listReader_eq_ok.mp hw
    cases hunknown with
    | item hmem hunknown =>
        obtain ⟨entry, hentry, rfl⟩ := List.mem_map.mp
          (List.zipIdx_map_fst 0 items ▸ hmem)
        obtain ⟨out, _, hread⟩ := exists_of_forall₂ hall hentry
        exact h.closed hread hunknown
  typed {v path w} hw := by
    obtain ⟨items, result, rfl, rfl, hall⟩ := listReader_eq_ok.mp hw
    refine accepts_list fun out hout => ?_
    obtain ⟨_, _, hread⟩ := exists_of_forall₂ hall.flip hout
    exact h.typed hread
  json {v path w} hw := by
    obtain ⟨items, result, rfl, rfl, hall⟩ := listReader_eq_ok.mp hw
    refine isJson_list fun out hout => ?_
    obtain ⟨_, _, hread⟩ := exists_of_forall₂ hall.flip hout
    exact h.json hread

theorem textMapReader_exact {nonempty : Bool} {v : Value} {path : String} {w : Value}
    (h : textMapReader nonempty v path = .ok w) : w = v := by
  obtain ⟨read, hread, h⟩ := bind_eq_ok.mp h
  obtain rfl := Except.ok.inj h
  obtain ⟨entries, hentries, hread⟩ := bind_eq_ok.mp hread
  cases v with
  | dict data =>
      obtain rfl := Except.ok.inj hentries
      have hsame := mapM_map_eq_ok (g := fun out : String × String => (out.1, Value.str out.2))
        (k := id) hread fun entry _ out hout => ?_
      · rw [List.map_id] at hsame
        exact congrArg Value.dict hsame
      · obtain ⟨s, hs, hout⟩ := bind_eq_ok.mp hout
        rw [← Except.ok.inj hout, ← string_eq_ok hs]
        rfl
  | _ => cases hentries

theorem textMapReader_faithful (nonempty : Bool) :
    Faithful (textMapReader nonempty) (.dict .str .str) := by
  refine .of_exact textMapReader_exact (fun v h => ?_) fun h => ?_
  · cases h with
    | entry hmem h => cases h
  · obtain ⟨texts, _, h⟩ := bind_eq_ok.mp h
    obtain rfl := Except.ok.inj h
    exact ⟨accepts_dict (List.forall_mem_map.mpr fun _ _ _ => rfl),
      isJson_dict (List.forall_mem_map.mpr fun _ _ _ => rfl)⟩

theorem textsReader_exact {v : Value} {path : String} {w : Value}
    (h : textsReader v path = .ok w) : w = v := by
  obtain ⟨read, hread, h⟩ := bind_eq_ok.mp h
  obtain rfl := Except.ok.inj h
  obtain ⟨items, hitems, hread⟩ := bind_eq_ok.mp hread
  cases v with
  | list data =>
      obtain rfl := Except.ok.inj hitems
      have hsame := mapM_map_eq_ok (g := Value.str) (k := Prod.fst) hread
        fun entry _ s hs => (string_eq_ok hs).symm
      rw [List.zipIdx_map_fst] at hsame
      exact congrArg Value.list hsame
  | _ => cases hitems

theorem textsReader_faithful : Faithful textsReader (.list .str) := by
  refine .of_exact textsReader_exact (fun v h => ?_) fun h => ?_
  · cases h with
    | item hmem h => cases h
  · obtain ⟨texts, _, h⟩ := bind_eq_ok.mp h
    obtain rfl := Except.ok.inj h
    exact ⟨accepts_list (List.forall_mem_map.mpr fun _ _ _ => rfl),
      isJson_list (List.forall_mem_map.mpr fun _ _ _ => rfl)⟩

/-! ### Groups -/

theorem readRequired_eq_ok {data result : List (String × Value)} {path : String}
    {fields : List (String × Reader)} :
    readRequired data path fields = .ok result ↔
      List.Forall₂ (fun (field : String × Reader) out => out.1 = field.1
        ∧ (do let v ← required data field.1 path
              field.2 v s!"{path}.{field.1}") = .ok out.2) fields result := by
  rw [← readEntries_eq_ok]
  unfold readRequired
  simp only [bind_assoc]

theorem readRequired_append {data result : List (String × Value)} {path : String}
    {fields fields' : List (String × Reader)} :
    readRequired data path (fields ++ fields') = .ok result ↔
      ∃ a b, readRequired data path fields = .ok a ∧ readRequired data path fields' = .ok b
        ∧ result = a ++ b := by
  unfold readRequired
  rw [List.mapM_append]
  constructor
  · intro h
    obtain ⟨a, ha, h⟩ := bind_eq_ok.mp h
    obtain ⟨b, hb, h⟩ := bind_eq_ok.mp h
    exact ⟨a, b, ha, hb, (Except.ok.inj h).symm⟩
  · rintro ⟨a, b, ha, hb, rfl⟩
    exact bind_eq_ok.mpr ⟨a, ha, bind_eq_ok.mpr ⟨b, hb, rfl⟩⟩

/-- What was read of a group: each field is there, and its value was accepted. -/
theorem lookup_readRequired {data result : List (String × Value)} {path : String}
    {fields : List (String × Reader)} (h : readRequired data path fields = .ok result)
    {key : String} {x : Value} (hx : result.lookup key = some x) :
    ∃ r y, (key, r) ∈ fields ∧ data.lookup key = some y ∧ r y s!"{path}.{key}" = .ok x := by
  have hall := readRequired_eq_ok.mp h
  clear h
  induction hall with
  | nil => cases hx
  | @cons field out fields result hfield _ ih =>
      obtain ⟨k, v⟩ := out
      obtain ⟨k', r⟩ := field
      obtain ⟨rfl, hread⟩ := hfield
      rw [List.lookup_cons] at hx
      by_cases hkey : key = k
      · subst hkey
        rw [beq_self_eq_true] at hx
        obtain rfl := Option.some.inj hx
        obtain ⟨y, hy, hread⟩ := bind_eq_ok.mp hread
        exact ⟨r, y, List.mem_cons_self .., required_eq_ok.mp hy, hread⟩
      · rw [beq_eq_false_iff_ne.mpr hkey] at hx
        obtain ⟨r', y, hmem, hy⟩ := ih hx
        exact ⟨r', y, List.mem_cons_of_mem _ hmem, hy⟩

theorem keys_readRequired {data result : List (String × Value)} {path : String}
    {fields : List (String × Reader)} (h : readRequired data path fields = .ok result) :
    result.map Prod.fst = fields.map Prod.fst := by
  have hall := readRequired_eq_ok.mp h
  clear h
  induction hall with
  | nil => rfl
  | cons hfield _ ih => rw [List.map_cons, List.map_cons, hfield.1, ih]

/-- Each field of a group is in the result. -/
theorem readRequired_lookup {data result : List (String × Value)} {path key : String}
    {fields : List (String × Reader)} {r : Reader} (h : readRequired data path fields = .ok result)
    (hnodup : (fields.map Prod.fst).Nodup) (hmem : (key, r) ∈ fields) :
    ∃ y x, data.lookup key = some y ∧ r y s!"{path}.{key}" = .ok x ∧
    result.lookup key = some x := by
  obtain ⟨⟨_, x⟩, hentry, rfl, hread⟩ := exists_of_forall₂ (readRequired_eq_ok.mp h) hmem
  obtain ⟨y, hy, hread⟩ := bind_eq_ok.mp hread
  rw [← keys_readRequired h] at hnodup
  exact ⟨y, x, required_eq_ok.mp hy, hread, lookup_of_mem hnodup hentry⟩

/-- A group that was read can be read again, when no field is read twice. -/
theorem readRequired_again {data result : List (String × Value)} {path : String}
    {fields : List (String × Reader)} (h : readRequired data path fields = .ok result)
    (hnodup : (fields.map Prod.fst).Nodup)
    (hagain : ∀ field ∈ fields, ∀ {v path w}, field.2 v path = .ok w → field.2 w path = .ok w) :
    readRequired result path fields = .ok result := by
  have hall := readRequired_eq_ok.mp h
  have hlookup : ∀ entry ∈ result, result.lookup entry.1 = some entry.2 := fun entry hentry =>
    lookup_of_mem (keys_readRequired h ▸ hnodup) hentry
  refine readRequired_eq_ok.mpr ?_
  -- the part of the result that is left, looked up in the whole
  have hpart : ∀ (fields' : List (String × Reader)) (part : List (String × Value)),
      List.Forall₂ (fun (field : String × Reader) out => out.1 = field.1
        ∧ (do let v ← required data field.1 path
              field.2 v s!"{path}.{field.1}") = .ok out.2) fields' part →
      (∀ field ∈ fields', field ∈ fields) → (∀ entry ∈ part, entry ∈ result) →
      List.Forall₂ (fun (field : String × Reader) out => out.1 = field.1
        ∧ (do let v ← required result field.1 path
              field.2 v s!"{path}.{field.1}") = .ok out.2) fields' part := by
    intro fields' part hall hfields hentries
    induction hall with
    | nil => exact .nil
    | cons hfield _ ih =>
        obtain ⟨hfield', hfields⟩ := List.forall_mem_cons.mp hfields
        obtain ⟨hentry, hentries⟩ := List.forall_mem_cons.mp hentries
        obtain ⟨hkey, hread⟩ := hfield
        obtain ⟨y, _, hread⟩ := bind_eq_ok.mp hread
        refine .cons ⟨hkey, bind_eq_ok.mpr ⟨_, required_eq_ok.mpr ?_, hagain _ hfield' hread⟩⟩
          (ih hfields hentries)
        rw [← hkey]
        exact hlookup _ hentry
  exact hpart fields result hall (fun _ h => h) fun _ h => h

theorem known_eq_ok {data result : List (String × Value)} {path : String} :
    known data result path = .ok () ↔
      ∀ key, (data.lookup key).isSome = true → (result.lookup key).isSome = true := by
  unfold known
  rw [forM_eq_ok]
  constructor
  · intro h key hkey
    obtain ⟨item, hitem⟩ := Option.isSome_iff_exists.mp hkey
    have hentry := raiseIf_eq_ok.mp (h (key, item) (mem_of_lookup hitem))
    rwa [Option.isNone_iff_eq_none, ← Option.ne_none_iff_isSome] at *
  · intro h entry hentry
    refine raiseIf_of_not fun hnone => ?_
    have hsome := h entry.1 (isSome_lookup_of_mem hentry)
    rw [Option.isNone_iff_eq_none.mp hnone] at hsome
    cases hsome

/-- What a group reader does where it accepts: it reads some fields, which the object decides,
checks what it has read, and has read every field of the object. -/
structure GroupSpec where
  fields : List (String × Value) → List (String × Reader)
  check : List (String × Value) → Prop

/-- The object is read as `result`. -/
structure GroupSpec.Reads (g : GroupSpec) (data : List (String × Value)) (path : String)
    (result : List (String × Value)) : Prop where
  read : readRequired data path (g.fields data) = .ok result
  check : g.check result
  known : known data result path = .ok ()

/-- The reader accepts what the group does. -/
def Follows (r : Reader) (g : GroupSpec) : Prop :=
  ∀ {v : Value} {path : String} {w : Value}, r v path = .ok w ↔
    ∃ data result, v = .dict data ∧ w = .dict result ∧ g.Reads data path result

namespace GroupSpec

variable {g : GroupSpec} {data result : List (String × Value)} {path : String}

/-- The result has the fields of the object. -/
theorem Reads.isSome_lookup (h : g.Reads data path result) (key : String) :
    (result.lookup key).isSome = (data.lookup key).isSome := by
  rw [Bool.eq_iff_iff]
  constructor
  · intro hkey
    obtain ⟨x, hx⟩ := Option.isSome_iff_exists.mp hkey
    obtain ⟨_, y, _, hy, _⟩ := lookup_readRequired h.read hx
    rw [hy]
    rfl
  · exact known_eq_ok.mp h.known key

/-- A field of the object was read by the reader of its name. -/
theorem Reads.exists_reader (h : g.Reads data path result) {key : String} {y : Value}
    (hy : data.lookup key = some y) :
    ∃ r x, (key, r) ∈ g.fields data ∧ result.lookup key = some x
      ∧ r y s!"{path}.{key}" = .ok x := by
  have hsome := known_eq_ok.mp h.known key (Option.isSome_iff_exists.mpr ⟨y, hy⟩)
  obtain ⟨x, hx⟩ := Option.isSome_iff_exists.mp hsome
  obtain ⟨r, y', hmem, hy', hread⟩ := lookup_readRequired h.read hx
  obtain rfl := Option.some.inj (hy.symm.trans hy')
  exact ⟨r, x, hmem, hx, hread⟩

end GroupSpec

/-- A name that is declared once has the annotation of its declaration. -/
theorem annotationOf_of_mem {declared : List (String × Bool × TypeHint)}
    (hnodup : (declared.map Prod.fst).Nodup) {field : String × Bool × TypeHint}
    (h : field ∈ declared) : annotationOf declared field.1 = some field.2.2 := by
  induction declared with
  | nil => cases h
  | cons first declared ih =>
      obtain ⟨hnew, hrest⟩ := List.nodup_cons.mp hnodup
      unfold annotationOf
      rcases List.mem_cons.mp h with rfl | hmem
      · rw [List.find?_cons_of_pos (by simp)]
        rfl
      · have hne : first.1 ≠ field.1 := fun heq => hnew (heq ▸ List.mem_map_of_mem hmem)
        rw [List.find?_cons_of_neg (by simpa using hne)]
        exact ih hrest hmem

/-- **A group is faithful when its fields are**: each is declared, read by a faithful reader, and
read once, the required ones are always read, and the result calls for the same fields as the
object. -/
theorem Faithful.of_follows {r : Reader} {g : GroupSpec}
    {declared : List (String × Bool × TypeHint)}
    (hr : Follows r g)
    (hfields : ∀ data, ∀ field ∈ g.fields data, Declares declared field)
    (hnodup : ∀ data, ((g.fields data).map Prod.fst).Nodup)
    (hdeclared : (declared.map Prod.fst).Nodup)
    (hrequired : ∀ data, ∀ field ∈ declared, field.2.1 = true →
      field.1 ∈ (g.fields data).map Prod.fst)
    (hschema : ∀ {data path result}, g.Reads data path result → "schema" ∈ declared.map Prod.fst →
      result.lookup "schema" = some (.int 1))
    (hstable : ∀ {data path result}, g.Reads data path result → g.fields result = g.fields data) :
    Faithful r (.typedDict declared) where
  same {v path w} hw := by
    obtain ⟨data, result, rfl, rfl, hreads⟩ := hr.mp hw
    refine .dict hreads.isSome_lookup fun key x y hx hy => ?_
    obtain ⟨r', x', hmem, hx', hread⟩ := hreads.exists_reader hy
    obtain rfl := Option.some.inj (hx.symm.trans hx')
    obtain ⟨_, _, hfaithful⟩ := hfields data _ hmem
    exact hfaithful.same hread
  again {v path w} hw := by
    obtain ⟨data, result, rfl, rfl, hreads⟩ := hr.mp hw
    refine hr.mpr ⟨result, result, rfl, rfl, ?_, hreads.check, known_eq_ok.mpr fun _ h => h⟩
    rw [hstable hreads]
    refine readRequired_again hreads.read (hnodup data) fun field hfield {v path w} hread => ?_
    obtain ⟨_, _, hfaithful⟩ := hfields data field hfield
    exact hfaithful.again hread
  closed {v path w} hw hunknown := by
    obtain ⟨data, result, rfl, rfl, hreads⟩ := hr.mp hw
    cases hunknown with
    | here hundeclared hitem =>
        obtain ⟨r', _, hmem, _⟩ := hreads.exists_reader hitem
        obtain ⟨_, hdeclared, _⟩ := hfields data _ hmem
        cases hundeclared.symm.trans hdeclared
    | field hdeclared hitem hunknown =>
        obtain ⟨r', _, hmem, _, hread⟩ := hreads.exists_reader hitem
        obtain ⟨_, hdeclared', hfaithful⟩ := hfields data _ hmem
        obtain rfl := Option.some.inj (hdeclared.symm.trans hdeclared')
        exact hfaithful.closed hread hunknown
  typed {v path w} hw := by
    obtain ⟨data, result, rfl, rfl, hreads⟩ := hr.mp hw
    refine accepts_typedDict (List.all_eq_true.mpr fun field hfield => ?_) (fun found hfound => ?_)
      fun path => checkSchemaField_eq_ok.mpr fun hname item hitem => ?_
    · cases hthere : field.2.1 with
      | false => rfl
      | true =>
          have hkey := hrequired data field hfield hthere
          rw [← keys_readRequired hreads.read] at hkey
          obtain ⟨entry, hentry, heq⟩ := List.mem_map.mp hkey
          exact heq ▸ isSome_lookup_of_mem hentry
    · obtain ⟨field, hfield, hfound⟩ := List.mem_filterMap.mp hfound
      obtain ⟨x, hx, rfl⟩ := Option.map_eq_some_iff.mp hfound
      obtain ⟨r', y, hmem, hy, hread⟩ := lookup_readRequired hreads.read hx
      obtain ⟨_, hdeclared', hfaithful⟩ := hfields data _ hmem
      obtain rfl := Option.some.inj ((annotationOf_of_mem hdeclared hfield).symm.trans hdeclared')
      exact hfaithful.typed hread
    · exact Option.some.inj (hitem.symm.trans (hschema hreads hname))
  json {v path w} hw := by
    obtain ⟨data, result, rfl, rfl, hreads⟩ := hr.mp hw
    refine isJson_dict fun entry hentry => ?_
    have hkeys := hnodup data
    rw [← keys_readRequired hreads.read] at hkeys
    obtain ⟨r', y, hmem, _, hread⟩ := lookup_readRequired hreads.read (lookup_of_mem hkeys hentry)
    obtain ⟨_, _, hfaithful⟩ := hfields data _ hmem
    exact hfaithful.json hread

end FlatpakBlackbox
