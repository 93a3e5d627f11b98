import FlatpakBlackbox.Basic.Loop
import FlatpakBlackbox.Basic.Update
import FlatpakBlackbox.Catalogue.Library
import FlatpakBlackbox.Schema.Catalogue

set_option autoImplicit false

/-! # The interfaces of a generator

What the catalogue counts, without where it was found: a command, an option of a command, a function
or a signal. The surfaces of a generator describe interfaces, one each (`Generator.Lists`), and
every step of the generator appends interfaces to them (`Extends`), whatever it had before. The
steps of the library leave the surfaces alone that are there (`Appends`); those of the command line
do not.
-/

namespace FlatpakBlackbox

namespace Catalogue

open PyLib PyException

theorem kind_of_text {kind kind' : Kind} (h : kind.text = kind'.text) : kind = kind' := by
  cases kind <;> cases kind' <;> first | rfl | exact absurd h (by decide)

/-- An interface of the target. -/
inductive Interface where
  | command (name : String)
  | option (command name : String)
  | function (name : String)
  | signal (owner name : String)
  deriving DecidableEq, Repr

namespace Interface

def id : Interface → String
  | command name => s!"cli.command.{name}"
  | option owner name => Manual.identifier owner name
  | function name => s!"library.function.{name}"
  | signal owner name => s!"library.signal.{owner}.{name}"

def kind : Interface → Kind
  | command _ => .cliCommand
  | option _ _ => .cliOption
  | function _ => .libraryFunction
  | signal _ _ => .librarySignal

def name : Interface → String
  | command name => name
  | option _ name => name
  | function name => name
  | signal _ name => name

def command? : Interface → Option String
  | option owner _ => some owner
  | _ => none

def owner? : Interface → Option String
  | signal owner _ => some owner
  | _ => none

/-- A surface of the interface. -/
structure Describes (i : Interface) (s : Surface) : Prop where
  id_eq : s.id = i.id
  kind_eq : s.kind = i.kind.text
  name_eq : s.name = i.name
  command_eq : s.command = i.command?
  owner_eq : s.owner = i.owner?

/-! ### Identifiers -/

/-- The name before the last dot of the identifier has no dot. -/
def Dotless : Interface → Prop
  | option owner _ => '.' ∉ owner.toList
  | signal owner _ => '.' ∉ owner.toList
  | _ => True

/-- Two texts with a dot behind what has no dot. -/
theorem eq_of_append_dot {a b u v : List Char} (ha : '.' ∉ a) (hb : '.' ∉ b)
    (h : a ++ '.' :: u = b ++ '.' :: v) : a = b ∧ u = v := by
  induction a generalizing b with
  | nil =>
      cases b with
      | nil => exact ⟨rfl, (List.cons.inj h).2⟩
      | cons d b => exact absurd ((List.cons.inj h).1 ▸ List.mem_cons_self) hb
  | cons c a ih =>
      cases b with
      | nil => exact absurd ((List.cons.inj h).1 ▸ List.mem_cons_self) ha
      | cons d b =>
          obtain ⟨rfl, htail⟩ := List.cons.inj h
          -- Neither text has reached its dot.
          have hrest := ih (mt (List.mem_cons_of_mem c) ha) (mt (List.mem_cons_of_mem c) hb) htail
          exact ⟨by rw [hrest.1], hrest.2⟩

theorem eq_of_names {owner owner' name name' : String} (howner : '.' ∉ owner.toList)
    (howner' : '.' ∉ owner'.toList)
    (h : owner.toList ++ '.' :: name.toList = owner'.toList ++ '.' :: name'.toList) :
    owner = owner' ∧ name = name' := by
  obtain ⟨hsame, hrest⟩ := eq_of_append_dot howner howner' h
  exact ⟨String.toList_inj.mp hsame, String.toList_inj.mp hrest⟩

/-- What stands before the names in an identifier. -/
def front : Kind → String
  | .cliCommand => "cli.command."
  | .cliOption => "cli.option."
  | .libraryFunction => "library.function."
  | .librarySignal => "library.signal."

/-- The names of an identifier. -/
def rest : Interface → List Char
  | command name => name.toList
  | option owner name => owner.toList ++ '.' :: name.toList
  | function name => name.toList
  | signal owner name => owner.toList ++ '.' :: name.toList

theorem toList_id (i : Interface) : i.id.toList = (front i.kind).toList ++ i.rest := by
  cases i with
  | command name => exact String.toList_append
  | option owner name =>
      show (s!"cli.option.{owner}.{name}").toList = _
      simp only [String.toList_append, List.append_assoc]
      rfl
  | function name => exact String.toList_append
  | signal owner name =>
      show (s!"library.signal.{owner}.{name}").toList = _
      simp only [String.toList_append, List.append_assoc]
      rfl

/-- The identifier shows the kind. -/
theorem kind_of_front {kind kind' : Kind} {u v : List Char}
    (h : (front kind).toList ++ u = (front kind').toList ++ v) : kind = kind' := by
  have hlong : ∀ kind, 10 ≤ (front kind).toList.length := by
    rintro (_ | _ | _ | _) <;> simp [front]
  -- The first ten characters tell the kinds apart.
  have htake := congrArg (List.take 10) h
  rw [List.take_append_of_le_length (hlong kind), List.take_append_of_le_length (hlong kind')]
    at htake
  cases kind <;> cases kind' <;> simp [front] at htake ⊢

/-- **Identifiers identify.** -/
theorem eq_of_id {i j : Interface} (hi : i.Dotless) (hj : j.Dotless) (h : i.id = j.id) : i = j := by
  have hlist := congrArg String.toList h
  rw [toList_id, toList_id] at hlist
  -- The same kind, so the same text stands in front of the names.
  have hkind := kind_of_front hlist
  rw [hkind] at hlist
  have hrest := List.append_cancel_left hlist
  cases i <;> cases j <;> cases hkind
  case command.command.refl => rw [String.toList_inj.mp hrest]
  case option.option.refl =>
    obtain ⟨rfl, rfl⟩ := eq_of_names hi hj hrest
    rfl
  case function.function.refl => rw [String.toList_inj.mp hrest]
  case signal.signal.refl =>
    obtain ⟨rfl, rfl⟩ := eq_of_names hi hj hrest
    rfl

end Interface

/-! ## The surfaces of a generator -/

/-- The surfaces of the generator, in the order in which they were added. -/
def Generator.Lists (g : Generator) (interfaces : List Interface) : Prop :=
  List.Forall₂ (fun (entry : String × Surface) i => entry.1 = i.id ∧ i.Describes entry.2)
    g.surfaces.entries interfaces

section

variable {g g' : Generator} {interfaces : List Interface}

theorem Generator.Lists.keys (h : g.Lists interfaces) :
    g.surfaces.keys = interfaces.map Interface.id := by
  unfold Generator.Lists at h
  unfold Dict.keys
  generalize g.surfaces.entries = entries at h
  induction h with
  | nil => rfl
  | cons hentry _ ih => rw [List.map_cons, List.map_cons, hentry.1, ih]

/-- **No interface is counted twice.** -/
theorem Generator.Lists.nodup (h : g.Lists interfaces) : interfaces.Nodup := by
  apply List.Nodup.of_map Interface.id
  rw [← h.keys]
  exact g.surfaces.keys_nodup

/-- An addition that is accepted. -/
theorem add_eq_ok {item : Surface} (h : g.add item = .ok g') :
    item.id ∉ g.surfaces.keys ∧ g' = { g with surfaces := g.surfaces.set item.id item } := by
  obtain ⟨_, hnew, hset⟩ := bind_eq_ok.mp h
  exact ⟨raiseIf_eq_ok.mp hnew, (Except.ok.inj hset).symm⟩

theorem Generator.Lists.append (h : g.Lists interfaces) {item : Surface} {i : Interface}
    (hnew : item.id ∉ g.surfaces.keys) (hitem : i.Describes item) :
    Generator.Lists { g with surfaces := g.surfaces.set item.id item } (interfaces ++ [i]) := by
  show List.Forall₂ _ (Dict.setEntries item.id item g.surfaces.entries) _
  rw [Dict.setEntries_of_not_mem _ hnew]
  exact List.rel_append h (.cons ⟨hitem.id_eq, hitem⟩ .nil)

/-- A surface that still describes its interface. -/
theorem Generator.Lists.replace (h : g.Lists interfaces) {id : String} {old new : Surface}
    (hold : g.surfaces.get? id = some old)
    (hnew : ∀ i : Interface, i.Describes old → i.Describes new) :
    Generator.Lists { g with surfaces := g.surfaces.set id new } interfaces := by
  refine Dict.forall₂_setEntries h ((Dict.mem_keys_iff _ _).mpr ⟨old, hold⟩)
    g.surfaces.keys_nodup ?_
  intro other i hother hi
  have hsame : some other = some old := (Dict.get?_of_mem_entries hother).symm.trans hold
  obtain rfl := Option.some.inj hsame
  exact ⟨hi.1, hnew i hi.2⟩

/-- The generator lists these interfaces, each once. -/
structure ListsExactly (g : Generator) (P : Interface → Prop) (interfaces : List Interface) :
    Prop where
  lists : g.Lists interfaces
  dotless : ∀ i ∈ interfaces, i.Dotless
  mem_iff : ∀ i, i ∈ interfaces ↔ P i

/-- An identifier of the generator is one of an interface that it lists. -/
theorem ListsExactly.mem_keys {P : Interface → Prop} (h : ListsExactly g P interfaces)
    {i : Interface} (hi : i.Dotless) : i.id ∈ g.surfaces.keys ↔ P i := by
  rw [h.lists.keys, List.mem_map, ← h.mem_iff i]
  constructor
  · rintro ⟨j, hj, hid⟩
    exact Interface.eq_of_id (h.dotless j hj) hi hid ▸ hj
  · exact fun hmem => ⟨i, hmem, rfl⟩

/-- The second generator has the interfaces of the first one, and then these. -/
structure Extends (g g' : Generator) (added : List Interface) : Prop where
  lists : ∀ interfaces, g.Lists interfaces → g'.Lists (interfaces ++ added)
  keys : ∀ id ∈ g.surfaces.keys, id ∈ g'.surfaces.keys
  exclusions : ∀ reason ∈ g.exclusions, reason ∈ g'.exclusions

theorem Extends.refl (g : Generator) : Extends g g [] where
  lists interfaces h := by rwa [List.append_nil]
  keys _ h := h
  exclusions _ h := h

theorem Extends.trans {g'' : Generator} {added added' : List Interface} (h : Extends g g' added)
    (h' : Extends g' g'' added') : Extends g g'' (added ++ added') where
  lists interfaces hlists := by
    rw [← List.append_assoc]
    exact h'.lists _ (h.lists _ hlists)
  keys id hid := h'.keys id (h.keys id hid)
  exclusions reason hreason := h'.exclusions reason (h.exclusions reason hreason)

theorem extends_add {item : Surface} {i : Interface} (h : g.add item = .ok g')
    (hitem : i.Describes item) : Extends g g' [i] := by
  obtain ⟨hnew, rfl⟩ := add_eq_ok h
  refine ⟨fun _ hlists => hlists.append hnew hitem, fun id hid => ?_, fun _ h => h⟩
  exact (Dict.mem_keys_set _ _ _ _).mpr (.inl hid)

theorem extends_exclude (g : Generator) (reason : String) : Extends g (g.exclude reason) [] where
  lists interfaces h := by
    rw [List.append_nil]
    exact h
  keys _ h := h
  exclusions _ h := List.mem_insert_of_mem h

theorem mem_exclude (g : Generator) (reason : String) : reason ∈ (g.exclude reason).exclusions :=
  List.mem_insert_self

/-! ## Appended surfaces -/

/-- The second generator has the surfaces of the first one, and then these. -/
structure Appends (g g' : Generator) (added : List Surface) : Prop where
  entries : g'.surfaces.entries = g.surfaces.entries ++ added.map fun s => (s.id, s)
  exclusions : ∀ reason ∈ g.exclusions, reason ∈ g'.exclusions

theorem Appends.refl (g : Generator) : Appends g g [] := ⟨(List.append_nil _).symm, fun _ h => h⟩

theorem Appends.trans {g'' : Generator} {added added' : List Surface} (h : Appends g g' added)
    (h' : Appends g' g'' added') : Appends g g'' (added ++ added') where
  entries := by rw [h'.entries, h.entries, List.map_append, List.append_assoc]
  exclusions reason hreason := h'.exclusions reason (h.exclusions reason hreason)

theorem appends_add {item : Surface} (h : g.add item = .ok g') : Appends g g' [item] := by
  obtain ⟨hnew, rfl⟩ := add_eq_ok h
  exact ⟨Dict.setEntries_of_not_mem item hnew, fun _ h => h⟩

theorem appends_exclude (g : Generator) (reason : String) : Appends g (g.exclude reason) [] :=
  ⟨(List.append_nil _).symm, (extends_exclude g reason).exclusions⟩

/-- Surfaces that describe interfaces are appended as these. -/
theorem Appends.lists {added : List Surface} (h : Appends g g' added) {described : List Interface}
    (hdescribed : List.Forall₂ (fun s (i : Interface) => i.Describes s) added described)
    (hlists : g.Lists interfaces) : g'.Lists (interfaces ++ described) := by
  unfold Generator.Lists
  rw [h.entries]
  refine List.rel_append hlists (List.forall₂_map_left_iff.mpr (hdescribed.imp fun s i hs => ?_))
  exact ⟨hs.id_eq, hs⟩

end

end Catalogue

end FlatpakBlackbox
