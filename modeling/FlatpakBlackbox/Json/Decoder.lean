import FlatpakBlackbox.Json.Judgement

set_option autoImplicit false

/-! # The JSON decoder

`decode_json` of `json_validation.py`. The standard decoder reads a text as a tree, in which an
object lists its members and may repeat a key, and a number may be too large for a float. Its hook
makes a dictionary of every object as soon as it is complete, the inner ones first; the numbers are
looked at afterwards.
-/

namespace FlatpakBlackbox

open PyLib PyException

/-! ## Trees -/

/-- What the decoder reads in a text. -/
inductive JsonTree where
  | null
  | bool (b : Bool)
  | int (i : Int)
  | float (x : PyFloat)
  | str (s : String)
  | list (items : List JsonTree)
  | dict (members : List (String × JsonTree))

namespace JsonTree

/-- A tree is settled once its items and members are. -/
theorem induct {motive : JsonTree → Prop} (null : motive .null) (bool : ∀ b, motive (.bool b))
    (int : ∀ i, motive (.int i)) (float : ∀ x, motive (.float x)) (str : ∀ s, motive (.str s))
    (list : ∀ items, (∀ item ∈ items, motive item) → motive (.list items))
    (dict : ∀ members, (∀ member ∈ members, motive member.2) → motive (.dict members)) :
    ∀ tree, motive tree
  | .null => null
  | .bool b => bool b
  | .int i => int i
  | .float x => float x
  | .str s => str s
  | .list items => list items fun item hitem =>
      have hlt : sizeOf item < sizeOf (JsonTree.list items) := by
        have hmem := List.sizeOf_lt_of_mem hitem
        rw [JsonTree.list.sizeOf_spec]
        omega
      induct null bool int float str list dict item
  | .dict members => dict members fun member hmember =>
      have hlt : sizeOf member.2 < sizeOf (JsonTree.dict members) := by
        have hmem := List.sizeOf_lt_of_mem hmember
        have hsnd : sizeOf member.2 < sizeOf member := by
          cases member
          simp
        rw [JsonTree.dict.sizeOf_spec]
        omega
      induct null bool int float str list dict member.2
  termination_by tree => sizeOf tree
  decreasing_by all_goals exact hlt

mutual

/-- The tree as a Python value, its objects with all their members. -/
def value : JsonTree → Value
  | null => .none
  | bool b => .bool b
  | int i => .int i
  | float x => .float x
  | str s => .str s
  | list items => .list (valueItems items)
  | dict members => .dict (valueMembers members)

def valueItems : List JsonTree → List Value
  | [] => []
  | item :: items => item.value :: valueItems items

def valueMembers : List (String × JsonTree) → List (String × Value)
  | [] => []
  | (key, item) :: members => (key, item.value) :: valueMembers members

end

/-- One tree stands in another one, at any depth. -/
inductive Inside (node : JsonTree) : JsonTree → Prop
  | self : Inside node node
  | item {items : List JsonTree} {item : JsonTree} (h : item ∈ items) (inside : Inside node item) :
      Inside node (.list items)
  | member {members : List (String × JsonTree)} {member : String × JsonTree} (h : member ∈ members)
      (inside : Inside node member.2) : Inside node (.dict members)

/-- No object has two equal keys. -/
def Unique (tree : JsonTree) : Prop :=
  ∀ members, Inside (.dict members) tree → (members.map Prod.fst).Nodup

/-- All numbers are finite. -/
def Finite (tree : JsonTree) : Prop := ∀ x, Inside (.float x) tree → x.isFinite = true

end JsonTree

/-! ## Decoding -/

/-- One pair of `_unique_object`. -/
def addPair (result : List (String × Value)) (pair : String × Value) :
    Except PyException (List (String × Value)) :=
  if pair.1 ∈ result.map Prod.fst then .error (validationError s!"duplicate JSON key: {pair.1}")
  else .ok (result ++ [pair])

/-- `_unique_object(pairs)`. -/
def uniqueObject (pairs : List (String × Value)) : Except PyException (List (String × Value)) :=
  pairs.foldlM addPair []

namespace JsonTree

mutual

/-- `json.loads` with the hook, on a text that is read as this tree. -/
def build : JsonTree → Except PyException Value
  | null => .ok .none
  | bool b => .ok (.bool b)
  | int i => .ok (.int i)
  | float x => .ok (.float x)
  | str s => .ok (.str s)
  | list items => do
      let values ← buildItems items
      return .list values
  | dict members => do
      let pairs ← buildMembers members
      let entries ← uniqueObject pairs
      return .dict entries

def buildItems : List JsonTree → Except PyException (List Value)
  | [] => .ok []
  | item :: items => do
      let first ← item.build
      let rest ← buildItems items
      return first :: rest

def buildMembers : List (String × JsonTree) → Except PyException (List (String × Value))
  | [] => .ok []
  | (key, item) :: members => do
      let first ← item.build
      let rest ← buildMembers members
      return (key, first) :: rest

end

/-- `decode_json(text, path)`. `read` gives the tree of a text, or what the error says that stops
the decoder before the text is read to its end. -/
def decode (read : String → Except String JsonTree) (text path : String) :
    Except PyException Value :=
  match read text with
  | .error message => .error (validationError s!"{path}: {message}")
  | .ok tree =>
      match (do let raw ← tree.build; jsonValue raw path) with
      | .ok value => .ok value
      | .error e =>
          if e.isInstance [.validationError] then .error (validationError s!"{path}: {e.message}")
          else .error e

end JsonTree

/-! ## The hook -/

theorem foldlM_addPair {pairs result entries : List (String × Value)}
    (h : (result.map Prod.fst).Nodup) :
    pairs.foldlM addPair result = .ok entries ↔
      ((result ++ pairs).map Prod.fst).Nodup ∧ entries = result ++ pairs := by
  induction pairs generalizing result with
  | nil =>
      rw [List.foldlM_nil, List.append_nil]
      constructor
      · exact fun hresult => ⟨h, (Except.ok.inj hresult).symm⟩
      · rintro ⟨-, rfl⟩
        rfl
  | cons pair pairs ih =>
      have hcons : result ++ pair :: pairs = (result ++ [pair]) ++ pairs := by simp
      rw [List.foldlM_cons, addPair, hcons]
      by_cases hpair : pair.1 ∈ result.map Prod.fst
      · rw [if_pos hpair]
        refine iff_of_false (fun h => nomatch h) fun hnodup => ?_
        have hprefix := hnodup.1
        rw [List.map_append, List.map_append] at hprefix
        have hdisjoint := (List.nodup_append.mp (List.nodup_append.mp hprefix).1).2.2
        exact hdisjoint pair.1 hpair pair.1 (List.mem_singleton_self _) rfl
      · rw [if_neg hpair]
        refine ih ?_
        rw [List.map_append, List.map_singleton, ← List.concat_eq_append]
        exact (List.nodup_concat _ _).mpr ⟨hpair, h⟩

theorem uniqueObject_eq_ok {pairs entries : List (String × Value)} :
    uniqueObject pairs = .ok entries ↔ (pairs.map Prod.fst).Nodup ∧ entries = pairs :=
  foldlM_addPair List.nodup_nil

theorem uniqueObject_failsWith (pairs : List (String × Value)) :
    FailsWith PyException.IsValidation (uniqueObject pairs) := by
  unfold uniqueObject
  generalize ([] : List (String × Value)) = result
  induction pairs generalizing result with
  | nil => exact .ok result
  | cons pair pairs ih =>
      rw [List.foldlM_cons]
      refine FailsWith.bind ?_ fun next => ih next
      unfold addPair
      split
      · exact .error (isValidation _)
      · exact .ok _

namespace JsonTree

theorem valueItems_eq (items : List JsonTree) : valueItems items = items.map value := by
  induction items with
  | nil => rfl
  | cons item items ih => rw [valueItems, ih, List.map_cons]

theorem valueMembers_eq (members : List (String × JsonTree)) :
    valueMembers members = members.map fun member => (member.1, member.2.value) := by
  induction members with
  | nil => rfl
  | cons member members ih => rw [valueMembers, ih, List.map_cons]

theorem unique_list {items : List JsonTree} : (list items).Unique ↔
    ∀ item ∈ items, item.Unique := by
  constructor
  · exact fun h item hitem members hinside => h members (.item hitem hinside)
  · intro h members hinside
    cases hinside with
    | item hitem hinside => exact h _ hitem members hinside

theorem unique_dict {members : List (String × JsonTree)} : (dict members).Unique ↔
    (∀ member ∈ members, member.2.Unique) ∧ (members.map Prod.fst).Nodup := by
  constructor
  · exact fun h => ⟨fun member hmember inner hinside => h inner (.member hmember hinside),
      h members .self⟩
  · rintro ⟨hmembers, hnodup⟩ inner hinside
    cases hinside with
    | self => exact hnodup
    | member hmember hinside => exact hmembers _ hmember inner hinside

theorem finite_list {items : List JsonTree} : (list items).Finite ↔
    ∀ item ∈ items, item.Finite := by
  constructor
  · exact fun h item hitem x hinside => h x (.item hitem hinside)
  · intro h x hinside
    cases hinside with
    | item hitem hinside => exact h _ hitem x hinside

theorem finite_dict {members : List (String × JsonTree)} :
    (dict members).Finite ↔ ∀ member ∈ members, member.2.Finite := by
  constructor
  · exact fun h member hmember x hinside => h x (.member hmember hinside)
  · intro h x hinside
    cases hinside with
    | member hmember hinside => exact h _ hmember x hinside

/-! ## What is built -/

theorem buildItems_eq_ok {items : List JsonTree}
    (h : ∀ item ∈ items, ∀ v, item.build = .ok v ↔
    item.Unique ∧ v = item.value) {values : List Value} :
    buildItems items = .ok values ↔ (∀ item ∈ items, item.Unique) ∧ values = valueItems items := by
  induction items generalizing values with
  | nil =>
      rw [buildItems, valueItems]
      simp [eq_comm]
  | cons item items ih =>
      obtain ⟨hitem, hitems⟩ := List.forall_mem_cons.mp h
      rw [buildItems, valueItems, bind_eq_ok, List.forall_mem_cons]
      constructor
      · rintro ⟨first, hfirst, hlater⟩
        obtain ⟨rest, hrest, hresult⟩ := bind_eq_ok.mp hlater
        obtain ⟨hunique, rfl⟩ := (hitem first).mp hfirst
        obtain ⟨hothers, rfl⟩ := (ih hitems).mp hrest
        exact ⟨⟨hunique, hothers⟩, (Except.ok.inj hresult).symm⟩
      · rintro ⟨⟨hunique, hothers⟩, rfl⟩
        exact ⟨_, (hitem _).mpr ⟨hunique, rfl⟩,
          bind_eq_ok.mpr ⟨_, (ih hitems).mpr ⟨hothers, rfl⟩, rfl⟩⟩

theorem buildMembers_eq_ok {members : List (String × JsonTree)}
    (h : ∀ member ∈ members, ∀ v, member.2.build = .ok v ↔ member.2.Unique ∧ v = member.2.value)
    {pairs : List (String × Value)} : buildMembers members = .ok pairs ↔
      (∀ member ∈ members, member.2.Unique) ∧ pairs = valueMembers members := by
  induction members generalizing pairs with
  | nil =>
      rw [buildMembers, valueMembers]
      simp [eq_comm]
  | cons member members ih =>
      obtain ⟨key, item⟩ := member
      obtain ⟨hitem, hmembers⟩ := List.forall_mem_cons.mp h
      rw [buildMembers, valueMembers, bind_eq_ok, List.forall_mem_cons]
      constructor
      · rintro ⟨first, hfirst, hlater⟩
        obtain ⟨rest, hrest, hresult⟩ := bind_eq_ok.mp hlater
        obtain ⟨hunique, rfl⟩ := (hitem first).mp hfirst
        obtain ⟨hothers, rfl⟩ := (ih hmembers).mp hrest
        exact ⟨⟨hunique, hothers⟩, (Except.ok.inj hresult).symm⟩
      · rintro ⟨⟨hunique, hothers⟩, rfl⟩
        exact ⟨_, (hitem _).mpr ⟨hunique, rfl⟩,
          bind_eq_ok.mpr ⟨_, (ih hmembers).mpr ⟨hothers, rfl⟩, rfl⟩⟩

theorem unique_of_no_dict {tree : JsonTree} (h : ∀ members, ¬ Inside (.dict members) tree) :
    tree.Unique := fun members hinside => absurd hinside (h members)

theorem finite_of_no_float {tree : JsonTree} (h : ∀ x, ¬ Inside (.float x) tree) : tree.Finite :=
  fun x hinside => absurd hinside (h x)

/-- What a value without items and members builds. -/
theorem build_scalar {tree : JsonTree} {v : Value} (hbuild : tree.build = .ok tree.value)
    (h : ∀ members, ¬ Inside (.dict members) tree) :
    tree.build = .ok v ↔ tree.Unique ∧ v = tree.value := by
  rw [hbuild]
  constructor
  · exact fun hv => ⟨unique_of_no_dict h, (Except.ok.inj hv).symm⟩
  · rintro ⟨-, rfl⟩
    rfl

/-- The hook accepts a tree without equal keys, and makes the tree itself of it. -/
theorem build_eq_ok {tree : JsonTree} {v : Value} :
    tree.build = .ok v ↔ tree.Unique ∧ v = tree.value := by
  induction tree using induct generalizing v with
  | null => exact build_scalar rfl fun _ h => by cases h
  | bool b => exact build_scalar rfl fun _ h => by cases h
  | int i => exact build_scalar rfl fun _ h => by cases h
  | float x => exact build_scalar rfl fun _ h => by cases h
  | str s => exact build_scalar rfl fun _ h => by cases h
  | list items ih =>
      have hitems := @buildItems_eq_ok items fun item hitem _ => ih item hitem
      rw [build, bind_eq_ok, unique_list, value]
      constructor
      · rintro ⟨values, hvalues, hresult⟩
        obtain ⟨hunique, rfl⟩ := hitems.mp hvalues
        exact ⟨hunique, (Except.ok.inj hresult).symm⟩
      · rintro ⟨hunique, rfl⟩
        exact ⟨_, hitems.mpr ⟨hunique, rfl⟩, rfl⟩
  | dict members ih =>
      have hmembers := @buildMembers_eq_ok members fun member hmember _ => ih member hmember
      have hkeys : (valueMembers members).map Prod.fst = members.map Prod.fst := by
        rw [valueMembers_eq, List.map_map]
        rfl
      rw [build, bind_eq_ok, unique_dict, value]
      constructor
      · rintro ⟨pairs, hpairs, hrest⟩
        obtain ⟨hunique, rfl⟩ := hmembers.mp hpairs
        obtain ⟨entries, hentries, hresult⟩ := bind_eq_ok.mp hrest
        obtain ⟨hnodup, rfl⟩ := uniqueObject_eq_ok.mp hentries
        exact ⟨⟨hunique, hkeys ▸ hnodup⟩, (Except.ok.inj hresult).symm⟩
      · rintro ⟨⟨hunique, hnodup⟩, rfl⟩
        refine ⟨_, hmembers.mpr ⟨hunique, rfl⟩, ?_⟩
        exact bind_eq_ok.mpr ⟨_, uniqueObject_eq_ok.mpr ⟨hkeys.symm ▸ hnodup, rfl⟩, rfl⟩

mutual

theorem build_failsWith : ∀ tree : JsonTree, FailsWith PyException.IsValidation tree.build
  | .null => .ok _
  | .bool _ => .ok _
  | .int _ => .ok _
  | .float _ => .ok _
  | .str _ => .ok _
  | .list items => by
      rw [build]
      exact (buildItems_failsWith items).bind fun _ => .ok _
  | .dict members => by
      rw [build]
      exact (buildMembers_failsWith members).bind fun pairs =>
        (uniqueObject_failsWith pairs).bind fun _ => .ok _

theorem buildItems_failsWith : ∀ items : List JsonTree,
    FailsWith PyException.IsValidation (buildItems items)
  | [] => .ok _
  | item :: items => by
      rw [buildItems]
      exact (build_failsWith item).bind fun _ => (buildItems_failsWith items).bind fun _ => .ok _

theorem buildMembers_failsWith : ∀ members : List (String × JsonTree),
    FailsWith PyException.IsValidation (buildMembers members)
  | [] => .ok _
  | (_, item) :: members => by
      rw [buildMembers]
      exact (build_failsWith item).bind fun _ => (buildMembers_failsWith members).bind fun _ =>
        .ok _

end

/-! ## The walk over the numbers -/

/-- The walk leaves a tree as it is exactly where all its numbers are finite. -/
theorem isJson_value {tree : JsonTree} : tree.value.IsJson ↔ tree.Finite := by
  induction tree using induct with
  | null => exact iff_of_true (fun _ => rfl) (finite_of_no_float fun _ h => by cases h)
  | bool b => exact iff_of_true (fun _ => rfl) (finite_of_no_float fun _ h => by cases h)
  | int i => exact iff_of_true (fun _ => rfl) (finite_of_no_float fun _ h => by cases h)
  | str s => exact iff_of_true (fun _ => rfl) (finite_of_no_float fun _ h => by cases h)
  | float x =>
      constructor
      · intro h y hinside
        cases hinside
        have hx := h ""
        rw [value, jsonValue] at hx
        by_contra hnot
        rw [if_neg hnot] at hx
        cases hx
      · intro h path
        rw [value, jsonValue, if_pos (h x .self)]
  | list items ih =>
      rw [value, valueItems_eq, finite_list]
      constructor
      · intro h item hitem
        exact (ih item hitem).mp (items_isJson h _ (List.mem_map_of_mem hitem))
      · intro h
        refine isJson_list fun v hv => ?_
        obtain ⟨item, hitem, rfl⟩ := List.mem_map.mp hv
        exact (ih item hitem).mpr (h item hitem)
  | dict members ih =>
      rw [value, valueMembers_eq, finite_dict]
      constructor
      · intro h member hmember
        exact (ih member hmember).mp (entries_isJson h (member.1, member.2.value)
          (List.mem_map.mpr ⟨member, hmember, rfl⟩))
      · intro h
        refine isJson_dict fun entry hentry => ?_
        obtain ⟨member, hmember, rfl⟩ := List.mem_map.mp hentry
        exact (ih member hmember).mpr (h member hmember)

mutual

theorem value_of_jsonValue : ∀ (tree : JsonTree) {path : String} {v : Value},
    jsonValue tree.value path = .ok v → v = tree.value
  | .null, _, _, h => (Except.ok.inj h).symm
  | .bool _, _, _, h => (Except.ok.inj h).symm
  | .int _, _, _, h => (Except.ok.inj h).symm
  | .str _, _, _, h => (Except.ok.inj h).symm
  | .float x, path, v, h => by
      rw [value, jsonValue] at h
      split at h
      · exact (Except.ok.inj h).symm
      · cases h
  | .list items, path, v, h => by
      rw [value, jsonValue] at h
      obtain ⟨values, hvalues, hresult⟩ := bind_eq_ok.mp h
      rw [value, ← valueItems_of_jsonItems items hvalues]
      exact (Except.ok.inj hresult).symm
  | .dict members, path, v, h => by
      rw [value, jsonValue] at h
      obtain ⟨entries, hentries, hresult⟩ := bind_eq_ok.mp h
      rw [value, ← valueMembers_of_jsonEntries members hentries]
      exact (Except.ok.inj hresult).symm

theorem valueItems_of_jsonItems : ∀ (items : List JsonTree) {path : String} {index : Nat}
    {values : List Value}, jsonItems (valueItems items) path index = .ok values →
      values = valueItems items
  | [], _, _, _, h => (Except.ok.inj h).symm
  | item :: items, path, index, values, h => by
      rw [valueItems, jsonItems] at h
      obtain ⟨first, hfirst, hlater⟩ := bind_eq_ok.mp h
      obtain ⟨rest, hrest, hresult⟩ := bind_eq_ok.mp hlater
      rw [valueItems, ← value_of_jsonValue item hfirst, ← valueItems_of_jsonItems items hrest]
      exact (Except.ok.inj hresult).symm

theorem valueMembers_of_jsonEntries : ∀ (members : List (String × JsonTree)) {path : String}
    {entries : List (String × Value)}, jsonEntries (valueMembers members) path = .ok entries →
      entries = valueMembers members
  | [], _, _, h => (Except.ok.inj h).symm
  | (key, item) :: members, path, entries, h => by
      rw [valueMembers, jsonEntries] at h
      obtain ⟨first, hfirst, hlater⟩ := bind_eq_ok.mp h
      obtain ⟨rest, hrest, hresult⟩ := bind_eq_ok.mp hlater
      rw [valueMembers, ← value_of_jsonValue item hfirst,
        ← valueMembers_of_jsonEntries members hrest]
      exact (Except.ok.inj hresult).symm

end

theorem jsonValue_eq_ok {tree : JsonTree} {path : String} {v : Value} :
    jsonValue tree.value path = .ok v ↔ tree.Finite ∧ v = tree.value := by
  constructor
  · intro h
    have hv := value_of_jsonValue tree h
    rw [hv] at h
    exact ⟨isJson_value.mp fun path' => jsonValue_path _ path' h, hv⟩
  · rintro ⟨hfinite, rfl⟩
    exact isJson_value.mpr hfinite path

/-! ## The decoder as a whole -/

/-- What the hook and the walk make of a tree. -/
theorem checked_eq_ok {tree : JsonTree} {path : String} {v : Value} :
    (do let raw ← tree.build; jsonValue raw path) = .ok v ↔
      (tree.Unique ∧ tree.Finite) ∧ v = tree.value := by
  rw [bind_eq_ok]
  constructor
  · rintro ⟨raw, hraw, hv⟩
    obtain ⟨hunique, rfl⟩ := build_eq_ok.mp hraw
    obtain ⟨hfinite, rfl⟩ := jsonValue_eq_ok.mp hv
    exact ⟨⟨hunique, hfinite⟩, rfl⟩
  · rintro ⟨⟨hunique, hfinite⟩, rfl⟩
    exact ⟨_, build_eq_ok.mpr ⟨hunique, rfl⟩, jsonValue_eq_ok.mpr ⟨hfinite, rfl⟩⟩

/-- **Equal keys and infinite numbers never slip through.** A text that is read as a tree gives
that tree, whole, if no object of it has two equal keys and all its numbers are finite, at any
depth; every other text is refused with a `ValidationError`. -/
theorem decode_iff (read : String → Except String JsonTree) (text path : String) {tree : JsonTree}
    (hread : read text = .ok tree) :
    (∀ v, decode read text path = .ok v ↔ (tree.Unique ∧ tree.Finite) ∧ v = tree.value) ∧
      (¬ (tree.Unique ∧ tree.Finite) →
        ∃ message, decode read text path = .error (validationError message)) := by
  unfold decode
  rw [hread]
  dsimp only
  cases hchecked : (do let raw ← tree.build; jsonValue raw path : Except PyException Value) with
  | ok value =>
      obtain ⟨hgood, rfl⟩ := checked_eq_ok.mp hchecked
      refine ⟨fun v => ?_, fun hbad => absurd hgood hbad⟩
      exact ⟨fun h => ⟨hgood, (Except.ok.inj h).symm⟩, fun h => h.2 ▸ rfl⟩
  | error e =>
      have hfails : FailsWith PyException.IsValidation
        (do let raw ← tree.build; jsonValue raw path) :=
        (build_failsWith tree).bind fun raw => jsonValue_failsWith raw path
      obtain ⟨message, rfl⟩ := hfails e hchecked
      have hcaught : (validationError message).isInstance [.validationError] = true := rfl
      dsimp only
      rw [if_pos hcaught]
      refine ⟨fun v => iff_of_false (fun h => nomatch h) ?_, fun _ => ⟨_, rfl⟩⟩
      intro h
      rw [checked_eq_ok.mpr h] at hchecked
      cases hchecked

/-- A tree with a list of a nested object, and a number. -/
def small : JsonTree :=
  .dict [("cases", .list [.dict [("id", .str "a"), ("seconds", .float (.finite 2))]])]

theorem small_unique : small.Unique := by
  have hinner : ([("id", str "a"), ("seconds", float (.finite 2))].map Prod.fst).Nodup := by decide
  refine unique_dict.mpr ⟨fun member hmember => ?_, by decide⟩
  obtain rfl := List.mem_singleton.mp hmember
  refine unique_list.mpr fun item hitem => ?_
  obtain rfl := List.mem_singleton.mp hitem
  refine unique_dict.mpr ⟨fun inner hmem => ?_, hinner⟩
  rcases List.mem_pair.mp hmem with rfl | rfl
  · exact unique_of_no_dict fun _ h => by cases h
  · exact unique_of_no_dict fun _ h => by cases h

theorem small_finite : small.Finite := by
  refine finite_dict.mpr fun member hmember => ?_
  obtain rfl := List.mem_singleton.mp hmember
  refine finite_list.mpr fun item hitem => ?_
  obtain rfl := List.mem_singleton.mp hitem
  refine finite_dict.mpr fun inner hmem => ?_
  rcases List.mem_pair.mp hmem with rfl | rfl
  · exact finite_of_no_float fun _ h => by cases h
  · intro x h
    cases h
    rfl

theorem decode_iff_small : decode (fun _ => .ok small) "small" "JSON" = .ok small.value :=
  ((decode_iff (fun _ => .ok small) "small" "JSON" rfl).1 _).mpr ⟨⟨small_unique, small_finite⟩, rfl⟩

end JsonTree

end FlatpakBlackbox
