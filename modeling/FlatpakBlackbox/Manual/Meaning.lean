import FlatpakBlackbox.Basic.Outline
import FlatpakBlackbox.Manual.Expansion

set_option autoImplicit false

/-! # What a document stands for

By the rules of XML, a document stands for the tree in which every local entity and every include
below its root has been replaced by the trees of the document that it names, and the text that
followed the node follows them. Nothing here depends on how `Generator.xml` computes such a tree:
the start is the document itself, with its references, and not the text that the generator rewrites.
-/

namespace FlatpakBlackbox.Manual

open PyLib PyException

/-! ## Where text follows -/

namespace Element

def withTail (tail : String) (element : Element) : Element :=
  node element.tag element.attributes element.text element.children tail element.origin

theorem withTail_eq_self {element : Element} {tail : String} :
    element.withTail tail = element ↔ element.tail = tail := by
  cases element with
  | node tag attributes text children old origin =>
      simp [withTail, Element.tag, Element.attributes, Element.text, Element.children,
        Element.tail, Element.origin, eq_comm]

/-- Trees in the place of a node: what followed the node follows the last of them. -/
def place (tail : String) : List Element → List Element
  | [] => []
  | [last] => [last.withTail tail]
  | first :: next :: rest => first.withTail "" :: place tail (next :: rest)

/-- Nothing follows the trees but the last one, which this text follows. -/
def Followed (tail : String) : List Element → Prop
  | [] => True
  | [last] => last.tail = tail
  | first :: next :: rest => first.tail = "" ∧ Followed tail (next :: rest)

theorem length_place (tail : String) (trees : List Element) :
    (place tail trees).length = trees.length := by
  induction trees with
  | nil => rfl
  | cons first trees ih =>
      cases trees with
      | nil => rfl
      | cons next rest => rw [place, List.length_cons, List.length_cons, ih]

theorem place_eq_self_iff {tail : String} {trees : List Element} :
    place tail trees = trees ↔ Followed tail trees := by
  induction trees with
  | nil => exact iff_of_true rfl trivial
  | cons first trees ih =>
      cases trees with
      | nil => rw [place, Followed, List.singleton_inj, withTail_eq_self]
      | cons next rest => rw [place, Followed, List.cons.injEq, withTail_eq_self, ih]

/-! ## Origins -/

/-- The origins of the element and of what is below it. -/
def OriginsIn (P : String → Prop) (element : Element) : Prop :=
  ∀ below ∈ element.iter, P below.origin

variable {P : String → Prop}

theorem originsIn_iff {element : Element} :
    element.OriginsIn P ↔ P element.origin ∧ ∀ child ∈ element.children, child.OriginsIn P := by
  unfold OriginsIn
  constructor
  · intro h
    refine ⟨h element (mem_iter.mpr (.inl rfl)), fun child hchild below hbelow => ?_⟩
    exact h below (mem_iter.mpr (.inr ⟨child, hchild, hbelow⟩))
  · rintro ⟨hself, hchildren⟩ below hbelow
    rcases mem_iter.mp hbelow with rfl | ⟨child, hchild, hbelow⟩
    · exact hself
    · exact hchildren child hchild below hbelow

theorem OriginsIn.withTail {element : Element} (h : element.OriginsIn P) (tail : String) :
    (element.withTail tail).OriginsIn P :=
  have ⟨hself, hchildren⟩ := originsIn_iff.mp h
  originsIn_iff.mpr ⟨hself, hchildren⟩

theorem OriginsIn.place {trees : List Element} (h : ∀ tree ∈ trees, tree.OriginsIn P)
    (tail : String) :
    ∀ tree ∈ Element.place tail trees, tree.OriginsIn P := by
  induction trees with
  | nil => exact h
  | cons first trees ih =>
      obtain ⟨hfirst, htrees⟩ := List.forall_mem_cons.mp h
      cases trees with
      | nil => exact List.forall_mem_singleton.mpr (hfirst.withTail tail)
      | cons next rest =>
          rw [Element.place]
          exact List.forall_mem_cons.mpr ⟨hfirst.withTail "", ih htrees⟩

theorem OriginsIn.below {element below : Element} (h : element.OriginsIn P)
    (hbelow : below ∈ element.iter) : below.OriginsIn P := by
  induction element using induct with
  | h element ih =>
      rcases mem_iter.mp hbelow with rfl | ⟨child, hchild, hbelow⟩
      · exact h
      · exact ih child hchild ((originsIn_iff.mp h).2 child hchild) hbelow

end Element

/-! ## References -/

/-- An element without its children and its origin. -/
structure Label where
  tag : String
  attributes : List (String × String)
  text : String
  tail : String

/-- The element of a document with this label. -/
def Label.element (path : String) (label : Label) (children : List Element) : Element :=
  .node label.tag label.attributes label.text children label.tail path

/-- A node in the place of which another document belongs. -/
structure Reference where
  /-- The name of the document, if there is one. -/
  target : Option String
  /-- What is selected of it. -/
  pointer : Option String
  /-- The text that follows the node. -/
  tail : String

namespace Reference

variable (repo : Repository) (path : String)

/-- A reference to an entity that is declared with this system identifier. -/
def ofEntity (href : Option String) (tail : String) : Reference where
  target := href.bind fun href => (repo.localPath path href).toOption
  pointer := none
  tail := tail

/-- An include with these attributes. -/
def ofInclude (attributes : List (String × String)) (tail : String) : Reference where
  target :=
    if (attributes.lookup "parse").getD "xml" ≠ "xml" then none
    else (attributes.lookup "href").bind fun href => (repo.localPath path href).toOption
  pointer := attributes.lookup "xpointer"
  tail := tail

variable [UnicodeDatabase] (expansion : String → Option Element)

/-- The trees that a reference names, when these are the expansions of the documents. -/
def trees (reference : Reference) : Option (List Element) := do
  let target ← reference.target
  let tree ← expansion target
  (select repo path reference.pointer tree).toOption

/-- The trees, with the text that follows the reference behind them. -/
def placed (reference : Reference) : Option (List Element) :=
  (reference.trees repo path expansion).map (Element.place reference.tail)

end Reference

/-! ## The document -/

section

variable (repo : Repository) (path : String)

mutual

/-- A node below the root. -/
def Node.part : Node → Outline Label Reference
  | .entity href tail => .place (Reference.ofEntity repo path (some href) tail)
  | .element tag attributes text children tail =>
      if tag = includeTag then .place (Reference.ofInclude repo path attributes tail)
      else .own ⟨tag, attributes, text, tail⟩ (Node.parts children)

def Node.parts : List Node → List (Outline Label Reference)
  | [] => []
  | child :: children => child.part :: Node.parts children

end

/-- The document with this root. The root itself is not replaced. -/
def Node.outline : Node → Outline Label Reference
  | .entity href tail => .place (Reference.ofEntity repo path (some href) tail)
  | .element tag attributes text children tail =>
      .own ⟨tag, attributes, text, tail⟩ (Node.parts repo path children)

end

variable [UnicodeDatabase]

/-- **The tree that a document stands for.** Each reference has given way to the trees that it
names, in which references have given way already. -/
inductive Expands (repo : Repository) : String → Element → Prop
  | intro {path : String} {text : List Char} {start : Node} {outline : Outline Label Element}
      (expansion : String → Option Element) (hread : repo.read path = .ok text)
      (hstart : repo.standard text = .ok start)
      (hexpansion : ∀ target tree, expansion target = some tree → Expands repo target tree)
      (hplaced : (start.outline repo path).substitute? (Reference.placed repo path expansion) =
        some [outline]) : Expands repo path (outline.build (Label.element path))

/-! ## References within expansions -/

section

variable {repo : Repository} {path : String} {expansion expansion' : String → Option Element}
  {reference : Reference} {found : List Element}

theorem Reference.trees_eq_some : reference.trees repo path expansion = some found ↔
    ∃ target tree, reference.target = some target ∧ expansion target = some tree ∧
      select repo path reference.pointer tree = .ok found := by
  unfold Reference.trees
  constructor
  · intro h
    obtain ⟨target, htarget, h⟩ := Option.bind_eq_some_iff.mp h
    obtain ⟨tree, htree, h⟩ := Option.bind_eq_some_iff.mp h
    exact ⟨target, tree, htarget, htree, eq_ok_of_toOption h⟩
  · rintro ⟨target, tree, htarget, htree, h⟩
    exact Option.bind_eq_some_iff.mpr ⟨target, htarget,
      Option.bind_eq_some_iff.mpr ⟨tree, htree, congrArg Except.toOption h⟩⟩

/-- Where the document has the same expansion, the reference names the same trees. -/
theorem Reference.trees_congr (h : reference.trees repo path expansion = some found)
    (hexpansion : ∀ target tree, reference.target = some target → expansion target = some tree →
      expansion' target = some tree) : reference.trees repo path expansion' = some found := by
  obtain ⟨target, tree, htarget, htree, hselect⟩ := trees_eq_some.mp h
  exact trees_eq_some.mpr ⟨target, tree, htarget, hexpansion target tree htarget htree, hselect⟩

theorem mem_iter_of_select {pointer : Option String} {tree : Element}
    (h : select repo path pointer tree = .ok found) : ∀ element ∈ found, element ∈ tree.iter := by
  have hwhole : ∀ element ∈ [tree], element ∈ tree.iter :=
    List.forall_mem_singleton.mpr (Element.mem_iter.mpr (.inl rfl))
  unfold select at h
  split at h
  · rwa [← Except.ok.inj h]
  · next pointer =>
      split at h
      · rwa [← Except.ok.inj h]
      · obtain ⟨selected, hselected, h⟩ := bind_eq_ok.mp h
        obtain ⟨-, -, h⟩ := bind_eq_ok.mp h
        obtain rfl := Except.ok.inj h
        unfold selectPointer at hselected
        split at hselected
        · rw [← Except.ok.inj hselected]
          exact fun element helement => (List.mem_filter.mp helement).1
        · dsimp only at hselected
          split at hselected
          · split at hselected
            · cases hselected
            · next found hfound =>
                rw [← Except.ok.inj hselected]
                exact repo.findall_mem _ _ found hfound
          · cases hselected

variable {P : String → Prop}

theorem Reference.originsIn_trees (h : reference.trees repo path expansion = some found)
    (hexpansion : ∀ target tree, reference.target = some target → expansion target = some tree →
      tree.OriginsIn P) : ∀ element ∈ found, element.OriginsIn P := by
  obtain ⟨target, tree, htarget, htree, hselect⟩ := trees_eq_some.mp h
  exact fun element helement =>
    (hexpansion target tree htarget htree).below (mem_iter_of_select hselect element helement)

omit [UnicodeDatabase] in
theorem originsIn_build (hpath : P path) {outline : Outline Label Element}
    (h : ∀ element ∈ outline.places, element.OriginsIn P) :
    (outline.build (Label.element path)).OriginsIn P :=
  Outline.build_induct (fun label children hchildren =>
    have hnode : (Label.element path label children).OriginsIn P :=
      Element.originsIn_iff.mpr ⟨hpath, hchildren⟩
    hnode) h

end

/-! ## There is one such tree -/

section

variable {repo : Repository} {path : String} {tree tree' : Element}

/-- Where all places have been filled, each reference names trees. -/
theorem exists_trees {outline : Outline Label Reference} {result : List (Outline Label Element)}
    {expansion : String → Option Element}
    (hplaced : outline.substitute? (Reference.placed repo path expansion) = some result) :
    ∀ reference ∈ outline.places, ∃ trees, reference.trees repo path expansion = some trees := by
  intro reference hreference
  obtain ⟨_, hvalues⟩ := Outline.exists_of_substitute? hplaced reference hreference
  obtain ⟨trees, htrees, -⟩ := Option.map_eq_some_iff.mp hvalues
  exact ⟨trees, htrees⟩

/-- **A document stands for one tree.** -/
theorem Expands.unique (h : Expands repo path tree) (h' : Expands repo path tree') :
    tree = tree' := by
  induction h generalizing tree' with
  | @intro path text start outline expansion hread hstart hexpansion hplaced ih =>
      obtain ⟨expansion', hread', hstart', hexpansion', hplaced'⟩ := h'
      obtain rfl := Except.ok.inj (hread.symm.trans hread')
      obtain rfl := Except.ok.inj (hstart.symm.trans hstart')
      -- The documents that are named stand for one tree each, so the same trees go into the places.
      have hsame : ∀ reference ∈ (start.outline repo path).places,
          reference.placed repo path expansion = reference.placed repo path expansion' := by
        intro reference hreference
        obtain ⟨trees, htrees⟩ := exists_trees hplaced reference hreference
        obtain ⟨trees', htrees'⟩ := exists_trees hplaced' reference hreference
        obtain ⟨target, tree, htarget, htree, -⟩ := Reference.trees_eq_some.mp htrees'
        refine congrArg _ (htrees.trans (Reference.trees_congr htrees ?_).symm)
        intro target' tree' htarget' htree'
        obtain rfl := Option.some.inj (htarget.symm.trans htarget')
        rw [htree, ih target tree' htree' (hexpansion' target tree htree)]
      have hequal := hplaced.symm.trans ((Outline.substitute?_congr hsame).trans hplaced')
      rw [List.singleton_inj.mp (Option.some.inj hequal)]

open Classical in
/-- The tree that a document stands for, if there is one. -/
noncomputable def expansion? (repo : Repository) (path : String) : Option Element :=
  if h : ∃ tree, Expands repo path tree then some h.choose else none

theorem expansion?_eq_some : expansion? repo path = some tree ↔ Expands repo path tree := by
  unfold expansion?
  constructor
  · intro h
    split at h
    · next hexists => exact Option.some.inj h ▸ hexists.choose_spec
    · cases h
  · intro h
    have hexists : ∃ tree, Expands repo path tree := ⟨tree, h⟩
    rw [dif_pos hexists, hexists.choose_spec.unique h]

/-- A document stands for what it is with the trees that its references stand for. -/
theorem expands_iff : Expands repo path tree ↔ ∃ text start outline, repo.read path = .ok text ∧
    repo.standard text = .ok start ∧
    (start.outline repo path).substitute? (Reference.placed repo path (expansion? repo)) =
      some [outline] ∧ outline.build (Label.element path) = tree := by
  constructor
  · rintro @⟨_, text, start, outline, expansion, hread, hstart, hexpansion, hplaced⟩
    refine ⟨text, start, outline, hread, hstart, ?_, rfl⟩
    -- The expansions that were used are among all that there are.
    rw [← hplaced]
    refine (Outline.substitute?_congr fun reference hreference => ?_).symm
    obtain ⟨trees, htrees⟩ := exists_trees hplaced reference hreference
    refine congrArg _ (htrees.trans (Reference.trees_congr htrees ?_).symm)
    exact fun target tree _ htree => expansion?_eq_some.mpr (hexpansion target tree htree)
  · rintro ⟨text, start, outline, hread, hstart, hplaced, rfl⟩
    exact .intro (expansion? repo) hread hstart (fun _ _ => expansion?_eq_some.mp) hplaced

/-! ## It does not contain itself -/

/-- A document has a reference to another one. -/
def Names (repo : Repository) (path target : String) : Prop :=
  ∃ text start, repo.read path = .ok text ∧ repo.standard text = .ok start ∧
    ∃ reference ∈ (start.outline repo path).places, reference.target = some target

/-- A document that is named has been put into a place. -/
theorem exists_of_names {text : List Char} {start : Node} {target : String}
    {expansion : String → Option Element} {result : List (Outline Label Element)}
    (hread : repo.read path = .ok text) (hstart : repo.standard text = .ok start)
    (hplaced : (start.outline repo path).substitute? (Reference.placed repo path expansion) =
      some result) (h : Names repo path target) : ∃ tree, expansion target = some tree := by
  obtain ⟨_, _, hread', hstart', reference, hreference, htarget⟩ := h
  obtain rfl := Except.ok.inj (hread.symm.trans hread')
  obtain rfl := Except.ok.inj (hstart.symm.trans hstart')
  obtain ⟨trees, htrees⟩ := exists_trees hplaced reference hreference
  obtain ⟨target', tree, htarget', htree, -⟩ := Reference.trees_eq_some.mp htrees
  obtain rfl := Option.some.inj (htarget.symm.trans htarget')
  exact ⟨tree, htree⟩

/-- No references lead from the document back to it. -/
theorem Expands.acyclic (h : Expands repo path tree) :
    ¬ Relation.TransGen (Names repo) path path := by
  induction h with
  | @intro path text start outline expansion hread hstart hexpansion hplaced ih =>
      -- The next document of the cycle stands for a tree as well, and is on the cycle.
      intro hcycle
      obtain ⟨target, hnames, hback⟩ := Relation.TransGen.head'_iff.mp hcycle
      obtain ⟨tree, htree⟩ := exists_of_names hread hstart hplaced hnames
      exact ih target tree htree (Relation.TransGen.tail' hback hnames)

/-- What is put into the places has the origins of what the document names. -/
theorem originsIn_placed {P : String → Prop} {start : Node} {outline : Outline Label Element}
    {expansion : String → Option Element}
    (hplaced : (start.outline repo path).substitute? (Reference.placed repo path expansion) =
      some [outline])
    (hexpansion : ∀ reference ∈ (start.outline repo path).places, ∀ target tree,
      reference.target = some target → expansion target = some tree → tree.OriginsIn P) :
    ∀ element ∈ outline.places, element.OriginsIn P := by
  refine Outline.forall_places_of_substitute? hplaced fun reference hreference values hvalues => ?_
  obtain ⟨trees, htrees, rfl⟩ := Option.map_eq_some_iff.mp hvalues
  exact Element.OriginsIn.place
    (Reference.originsIn_trees htrees (hexpansion reference hreference)) reference.tail

/-- Every element is from the document or from one that references lead to. -/
theorem Expands.origins (h : Expands repo path tree) :
    tree.OriginsIn (Relation.ReflTransGen (Names repo) path) := by
  induction h with
  | @intro path text start outline expansion hread hstart hexpansion hplaced ih =>
      refine originsIn_build .refl (originsIn_placed hplaced ?_)
      intro reference hreference target tree htarget htree below hbelow
      have hnames : Names repo path target :=
        ⟨text, start, hread, hstart, reference, hreference, htarget⟩
      exact .head hnames (ih target tree htree below hbelow)

/-- What is put into the places is not from the document itself. -/
theorem origin_of_placed {text : List Char} {start : Node} {outline : Outline Label Element}
    (hread : repo.read path = .ok text) (hstart : repo.standard text = .ok start)
    (hplaced : (start.outline repo path).substitute?
      (Reference.placed repo path (expansion? repo)) = some [outline]) :
    ∀ element ∈ outline.places, element.origin ≠ path := by
  have hexpands : Expands repo path (outline.build (Label.element path)) :=
    expands_iff.mpr ⟨text, start, outline, hread, hstart, hplaced, rfl⟩
  have horigins : ∀ element ∈ outline.places,
      element.OriginsIn (Relation.TransGen (Names repo) path) := by
    refine originsIn_placed hplaced ?_
    intro reference hreference target tree htarget htree below hbelow
    have hnames : Names repo path target :=
      ⟨text, start, hread, hstart, reference, hreference, htarget⟩
    exact .head' hnames ((expansion?_eq_some.mp htree).origins below hbelow)
  -- An element of the document below itself would close a cycle.
  intro element helement horigin
  have hcycle := (Element.originsIn_iff.mp (horigins element helement)).1
  rw [horigin] at hcycle
  exact hexpands.acyclic hcycle

end

end FlatpakBlackbox.Manual
