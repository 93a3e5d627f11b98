import FlatpakBlackbox.Manual.Meaning
import FlatpakBlackbox.Manual.Runs

set_option autoImplicit false

/-! # Expansion as substitution

The editing loops of `xml` come to a substitution in the outline of the document that has been
parsed. That document is not the one that was written, as its text has been rewritten before, and
the text that follows a reference is not kept: `ElementTree` has it on the node that is removed, and
an element that is inserted brings its own.
-/

namespace FlatpakBlackbox.Manual

open PyLib PyException

/-! ## Substitution -/

mutual

/-- Replace the nodes below the root for which there is something. -/
def Element.substitute (trees : Element → Option (List Element)) : Element → Element
  | .node tag attributes text children tail origin =>
      .node tag attributes text (Element.substituteAll trees children) tail origin

def Element.substituteAll (trees : Element → Option (List Element)) : List Element → List Element
  | [] => []
  | child :: children =>
      (match trees child with
        | none => [child.substitute trees]
        | some selected => selected) ++ Element.substituteAll trees children

end

theorem Element.substitute_eq (trees : Element → Option (List Element)) (element : Element) :
    element.substitute trees =
    element.withChildren (Element.substituteAll trees element.children) := by
  cases element with
  | node tag attributes text children tail origin =>
      rw [Element.substitute]
      rfl

/-! ## The editing loops -/

section

variable {f : Element → Fueled PyException (Option (List Element))}

/-- What replaces a child in a run that returns. -/
def replacedBy (f : Element → Fueled PyException (Option (List Element))) (child : Element) :
    Option (List Element) := (f child).value?.join

theorem replacedBy_eq {child : Element} {replaced : Option (List Element)}
    (h : (f child).Returns replaced) :
    replacedBy f child = replaced := by
  unfold replacedBy
  rw [Fueled.value?_eq_some.mpr h, Option.join_some]

/-- The list of a parent after the loop, from the child of this number on. -/
def slotsOf (trees : Element → Option (List Element)) : Nat → List Element → List Slot
  | _, [] => []
  | index, child :: children =>
      (match trees child with
        | none => [.own index]
        | some selected => selected.map .inserted) ++ slotsOf trees (index + 1) children

theorem insertIdx_front (front back : List Slot) (slot : Slot) :
    (front ++ back).insertIdx front.length slot = front ++ slot :: back := by
  induction front with
  | nil => rfl
  | cons first front ih =>
      rw [List.cons_append, List.length_cons, List.insertIdx_succ_cons, ih, List.cons_append]

/-- The entries are inserted in the place of the item, in their order. -/
theorem replaceAt_eq (front back : List Slot) (slot : Slot) (selected : List Element) :
    replaceAt (front ++ slot :: back) front.length selected =
      front ++ (selected.map .inserted ++ back) := by
  have herase : (front ++ slot :: back).eraseIdx front.length = front ++ back := by
    rw [List.eraseIdx_append_of_length_le le_rfl, Nat.sub_self, List.eraseIdx_cons_zero]
  have hinsert : ∀ (entries : List Element) (back : List Slot),
      entries.foldl (fun slots entry => slots.insertIdx front.length (.inserted entry))
        (front ++ back) =
        front ++ (entries.reverse.map .inserted ++ back) := by
    intro entries
    induction entries with
    | nil => exact fun _ => rfl
    | cons entry entries ih =>
        intro back
        rw [List.foldl_cons, insertIdx_front, ih]
        simp
  unfold replaceAt
  rw [herase, hinsert, List.reverse_reverse]

/-- The loop from the last child down to one of them. -/
theorem edit_returns_from {children : List Element} {front slots : List Slot}
    (h : ((children.zipIdx front.length).reverse.foldlM (editStep f)
      (front ++ (List.range' front.length children.length).map Slot.own)).Returns slots) :
    slots = front ++ slotsOf (replacedBy f) front.length children := by
  induction children generalizing front slots with
  | nil => exact (Fueled.returns_pure.mp h).symm
  | cons child children ih =>
      rw [List.zipIdx_cons, List.reverse_cons, List.foldlM_append] at h
      obtain ⟨later, hlater, hstep⟩ := Fueled.returns_bind.mp h
      -- For the later children, this one is still in front.
      have hfront : (front ++ [Slot.own front.length]).length = front.length + 1 :=
        List.length_append
      have hlater : later = (front ++ [Slot.own front.length]) ++
          slotsOf (replacedBy f) (front.length + 1) children := by
        rw [← hfront]
        refine ih ?_
        rw [hfront, List.append_assoc]
        exact hlater
      obtain ⟨last, hlast, hnil⟩ := Fueled.returns_bind.mp hstep
      obtain rfl := Fueled.returns_pure.mp hnil
      obtain ⟨replaced, hreplaced, hresult⟩ := Fueled.returns_bind.mp hlast
      rw [slotsOf, replacedBy_eq hreplaced]
      cases replaced with
      | none =>
          rw [← Fueled.returns_pure.mp hresult, hlater, List.append_assoc]
      | some selected =>
          rw [← Fueled.returns_pure.mp hresult, hlater, List.append_assoc, List.singleton_append,
            replaceAt_eq]

theorem edit_returns {children : List Element} {slots : List Slot}
    (h : (edit f children).Returns slots) : slots = slotsOf (replacedBy f) 0 children := by
  unfold edit at h
  rw [List.range_eq_range'] at h
  have hslots : slots = [] ++ slotsOf (replacedBy f) 0 children := edit_returns_from h
  exact hslots

/-- The references are filled with the children that are done. -/
theorem fill_slotsOf (trees : Element → Option (List Element)) (done children : List Element) :
    (slotsOf trees done.length children).filterMap
        (Slot.fill (done ++ children.map (Element.substitute trees))) =
      Element.substituteAll trees children := by
  induction children generalizing done with
  | nil => rfl
  | cons child children ih =>
      have hdone : (done ++ [child.substitute trees]).length = done.length + 1 := List.length_append
      have hrest := ih (done ++ [child.substitute trees])
      rw [hdone, List.append_assoc, List.singleton_append] at hrest
      rw [slotsOf, List.filterMap_append, List.map_cons, hrest, Element.substituteAll]
      refine congrArg (· ++ Element.substituteAll trees children) ?_
      cases trees child with
      | none => simp [Slot.fill]
      | some selected => simp [Slot.fill, List.filterMap_map, Function.comp_def]

/-- **The editing loops substitute.** -/
theorem expand_returns {element expanded : Element} (h : (expand f element).Returns expanded) :
    expanded = element.substitute (replacedBy f) := by
  induction element using Element.induct generalizing expanded with
  | h element ih =>
      rw [expand_eq] at h
      obtain ⟨slots, hslots, hrest⟩ := Fueled.returns_bind.mp h
      obtain ⟨done, hdone, hpure⟩ := Fueled.returns_bind.mp hrest
      have hchildren : done = element.children.map (Element.substitute (replacedBy f)) := by
        have hchild : ∀ child ∈ element.children, ∀ result, (expand f child).Returns result →
            result = child.substitute (replacedBy f) := fun child hchild _ => ih child hchild
        have hresults := (List.forall₂_and_left _ _).mpr ⟨hchild, expandAll_returns.mp hdone⟩
        have hequal : List.Forall₂ Eq (element.children.map (Element.substitute (replacedBy f)))
          done :=
          List.forall₂_map_left_iff.mpr (hresults.imp fun child result h => (h.1 result h.2).symm)
        exact (List.forall₂_eq_eq_eq ▸ hequal : _ = _).symm
      rw [← Fueled.returns_pure.mp hpure, Element.substitute_eq, edit_returns hslots, hchildren]
      exact congrArg element.withChildren (fill_slotsOf (replacedBy f) [] element.children)

end

/-! ## Origins -/

theorem stamp_eq (path : String) (element : Element) : element.stamp path =
    .node element.tag element.attributes element.text (Element.stampAll path element.children)
      element.tail path := by
  cases element with
  | node tag attributes text children tail origin =>
      rw [Element.stamp]
      rfl

/-- Every element of a document has the document as its origin. -/
theorem origin_of_mem_stamp {path : String} {root : Element} :
    ∀ element ∈ (root.stamp path).iter, element.origin = path := by
  induction root using Element.induct with
  | h root ih =>
      have hall : ∀ children : List Element, (∀ child ∈ children, child ∈ root.children) →
          ∀ element ∈ Element.iterAll (Element.stampAll path children), element.origin = path := by
        intro children hsubset
        induction children with
        | nil => exact fun element helement => absurd helement List.not_mem_nil
        | cons child children ihchildren =>
            obtain ⟨hchild, hsubset⟩ := List.forall_mem_cons.mp hsubset
            rw [Element.stampAll, Element.iterAll]
            exact List.forall_mem_append.mpr ⟨ih child hchild, ihchildren hsubset⟩
      rw [stamp_eq, Element.iter]
      exact List.forall_mem_cons.mpr ⟨rfl, hall root.children fun _ h => h⟩

theorem document_eq_ok [UnicodeDatabase] {repo : Repository} {path : String} {text : List Char}
    {document : Element} (h : repo.document path text = .ok document) :
    ∀ element ∈ document.iter, element.origin = path := by
  unfold Repository.document at h
  split at h
  · cases h
  · obtain rfl := Except.ok.inj h
    exact origin_of_mem_stamp

/-! ## The document that is parsed -/

section

variable [UnicodeDatabase] (repo : Repository) (path : String) (text : List Char)

/-- The declaration that an entity has in the end. -/
def lastDeclaration? (name : String) : Option Declaration :=
  (declarations text).reverse.find? fun declaration => declaration.name = name

/-- What `xml` takes an element for. -/
def Element.reference? (element : Element) : Option Reference :=
  if element.tag = entityTag then
    let declaration := (element.get? "name").bind (lastDeclaration? text)
    some (Reference.ofEntity repo path (declaration.map Declaration.href) element.tail)
  else if element.tag = includeTag then
    some (Reference.ofInclude repo path element.attributes element.tail)
  else none

mutual

/-- An element below the root. -/
def Element.part : Element → Outline Label Reference
  | .node tag attributes content children tail origin =>
      match Element.reference? repo path text (.node tag attributes content children tail origin)
        with
      | some reference => .place reference
      | none => .own ⟨tag, attributes, content, tail⟩ (Element.parts children)

def Element.parts : List Element → List (Outline Label Reference)
  | [] => []
  | child :: children => child.part :: Element.parts children

end

/-- The document with this root, as `xml` takes it. -/
def Element.outline (document : Element) : Outline Label Reference :=
  .own ⟨document.tag, document.attributes, document.text, document.tail⟩
    (Element.parts repo path text document.children)

variable {repo path text}

theorem Element.part_eq (element : Element) : element.part repo path text =
    match element.reference? repo path text with
    | some reference => .place reference
    | none => .own ⟨element.tag, element.attributes, element.text, element.tail⟩
        (Element.parts repo path text element.children) := by
  cases element with
  | node tag attributes content children tail origin =>
      rw [Element.part]
      rfl

theorem Element.parts_eq_map (children : List Element) :
    Element.parts repo path text children = children.map (Element.part repo path text) := by
  induction children with
  | nil => rfl
  | cons child children ih => rw [Element.parts, ih, List.map_cons]

/-- What stands in the places has been in the element. -/
theorem mem_places_part {element : Element} {reference : Reference}
    (h : reference ∈ (element.part repo path text).places) :
    ∃ below ∈ element.iter, below.reference? repo path text = some reference := by
  induction element using Element.induct with
  | h element ih =>
      rw [Element.part_eq] at h
      split at h
      · next found hfound =>
          obtain rfl := List.mem_singleton.mp h
          exact ⟨element, Element.mem_iter.mpr (.inl rfl), hfound⟩
      · rw [Outline.places, Element.parts_eq_map] at h
        obtain ⟨_, hpart, h⟩ := Outline.mem_placesAll.mp h
        obtain ⟨child, hchild, rfl⟩ := List.mem_map.mp hpart
        obtain ⟨below, hbelow, hreference⟩ := ih child hchild h
        exact ⟨below, Element.mem_iter.mpr (.inr ⟨child, hchild, hbelow⟩), hreference⟩

/-- The references of the document are below its root. -/
theorem mem_places_outline {document : Element} {reference : Reference}
    (h : reference ∈ (document.outline repo path text).places) :
    ∃ child ∈ Element.iterAll document.children,
      child.reference? repo path text = some reference := by
  rw [Element.outline, Outline.places, Element.parts_eq_map] at h
  obtain ⟨_, hpart, h⟩ := Outline.mem_placesAll.mp h
  obtain ⟨child, hchild, rfl⟩ := List.mem_map.mp hpart
  obtain ⟨below, hbelow, hreference⟩ := mem_places_part h
  exact ⟨below, Element.mem_iterAll.mpr ⟨child, hchild, hbelow⟩, hreference⟩

/-! ## Substitution in the document that is parsed -/

section

variable {expansion : String → Option Element} {trees : Element → Option (List Element)}

/-- An element is replaced by the trees that the reference names, if it is one. -/
structure ReplacedAs (repo : Repository) (path : String) (text : List Char)
    (expansion : String → Option Element) (trees : Element → Option (List Element))
    (element : Element) : Prop where
  origin : element.origin = path
  other : element.reference? repo path text = none → trees element = none
  reference : ∀ reference, element.reference? repo path text = some reference →
    ∃ found, trees element = some found ∧ reference.trees repo path expansion = some found

/-- The list of a parent, if each child becomes what it should. -/
theorem substituteAll?_parts {children : List Element}
    (h : ∀ child ∈ children, ∃ filled, (child.part repo path text).substitute?
        (Reference.trees repo path expansion) = some filled ∧
      Outline.buildAll (Label.element path) filled = Element.substituteAll trees [child]) :
    ∃ filled, Outline.substituteAll? (Reference.trees repo path expansion)
        (Element.parts repo path text children) = some filled ∧
      Outline.buildAll (Label.element path) filled = Element.substituteAll trees children := by
  induction children with
  | nil => exact ⟨[], rfl, rfl⟩
  | cons child children ih =>
      obtain ⟨⟨first, hfirst, hbuild⟩, hchildren⟩ := List.forall_mem_cons.mp h
      obtain ⟨rest, hrest, hbuild'⟩ := ih hchildren
      refine ⟨first ++ rest, Outline.substituteAll?_cons.mpr ⟨first, rest, hfirst, hrest, rfl⟩, ?_⟩
      rw [Element.substituteAll, Element.substituteAll, List.append_nil] at hbuild
      rw [Element.substituteAll, ← hbuild, ← hbuild', Outline.buildAll_eq_map,
        Outline.buildAll_eq_map, Outline.buildAll_eq_map, List.map_append]

/-- What the element becomes in the list of its parent. -/
theorem substitute?_part {element : Element}
    (h : ∀ below ∈ element.iter, ReplacedAs repo path text expansion trees below) :
    ∃ filled, (element.part repo path text).substitute? (Reference.trees repo path expansion) =
        some filled ∧
      Outline.buildAll (Label.element path) filled = Element.substituteAll trees [element] := by
  induction element using Element.induct with
  | h element ih =>
      have hself := h element (Element.mem_iter.mpr (.inl rfl))
      rw [Element.part_eq, Element.substituteAll, Element.substituteAll, List.append_nil]
      cases hreference : element.reference? repo path text with
      | some reference =>
          obtain ⟨found, htrees, hfound⟩ := hself.reference reference hreference
          refine ⟨found.map .place, Outline.substitute?_place.mpr ⟨found, hfound, rfl⟩, ?_⟩
          rw [htrees, Outline.buildAll_eq_map, List.map_map]
          exact List.map_id found
      | none =>
          obtain ⟨filled, hfilled, hbuild⟩ := substituteAll?_parts fun child hchild =>
            ih child hchild fun below hbelow =>
              h below (Element.mem_iter.mpr (.inr ⟨child, hchild, hbelow⟩))
          refine ⟨_, Outline.substitute?_own.mpr ⟨filled, hfilled, rfl⟩, ?_⟩
          rw [hself.other hreference, Outline.buildAll, Outline.build, hbuild,
            Element.substitute_eq,
            Outline.buildAll, Element.withChildren, hself.origin]
          rfl

/-- The document that is parsed, with its references replaced. -/
theorem substitute?_outline {document : Element} (hroot : document.origin = path)
    (h : ∀ child ∈ Element.iterAll document.children,
      ReplacedAs repo path text expansion trees child) :
    ∃ outline, (document.outline repo path text).substitute?
        (Reference.trees repo path expansion) = some [outline] ∧
      outline.build (Label.element path) = document.substitute trees := by
  obtain ⟨filled, hfilled, hbuild⟩ := substituteAll?_parts fun child hchild =>
    substitute?_part fun below hbelow => h below (Element.mem_iterAll.mpr ⟨child, hchild, hbelow⟩)
  refine ⟨_, Outline.substitute?_own.mpr ⟨filled, hfilled, rfl⟩, ?_⟩
  rw [Outline.build, hbuild, Element.substitute_eq, Element.withChildren, hroot]
  rfl

end

/-! ## The run -/

variable {load : String → Fueled PyException Element} {entities : Dict String Element}
  {document tree : Element}

/-- An entity is replaced by the document of its last declaration. -/
theorem entity_replacedAs (hcall : Call repo path load text entities document tree)
    {child : Element}
    (htag : child.tag = entityTag) {replaced : Option (List Element)}
    (h : (replacement repo load path entities child).Returns replaced) :
    ∃ reference found, child.reference? repo path text = some reference ∧ replaced = some found ∧
      reference.trees repo path (fun target => (load target).value?) = some found := by
  obtain ⟨name, entity, hname, hentity, rfl⟩ := replacement_entity htag h
  obtain ⟨last, target, hlast, htarget, hload⟩ : ∃ last target,
      lastDeclaration? text name = some last ∧ repo.localPath path last.href = .ok target ∧
        (load target).Returns entity := by
    rcases declared_get? hcall.declared hentity with ⟨-, hempty⟩ | hlast
    · cases hempty
    · exact hlast
  refine ⟨_, [entity], if_pos htag, rfl, ?_⟩
  refine Reference.trees_eq_some.mpr ⟨target, entity, ?_, Fueled.value?_eq_some.mpr hload, rfl⟩
  rw [hname, Option.bind_some, hlast, Option.map_some, Reference.ofEntity,
    Option.bind_some, htarget]
  rfl

/-- An include is replaced by what it selects. -/
theorem include_replacedAs {child : Element} (htag : child.tag = includeTag)
    {replaced : Option (List Element)}
    (h : (replacement repo load path entities child).Returns replaced) :
    ∃ reference found, child.reference? repo path text = some reference ∧ replaced = some found ∧
      reference.trees repo path (fun target => (load target).value?) = some found := by
  obtain ⟨href, target, included, selected, hhref, htarget, hincluded, hselected, rfl⟩ :=
    replacement_include htag h
  obtain ⟨hhref, hparse⟩ := includeHref_eq_ok hhref
  have hentity : ¬ child.tag = entityTag := by
    rw [htag]
    decide
  refine ⟨_, selected, (if_neg hentity).trans (if_pos htag), rfl, ?_⟩
  refine Reference.trees_eq_some.mpr
    ⟨target, included, ?_, Fueled.value?_eq_some.mpr hincluded, hselected⟩
  show (if (child.get? "parse").getD "xml" ≠ "xml" then none
    else (child.get? "href").bind fun href => (repo.localPath path href).toOption) = some target
  rw [if_neg (not_not.mpr hparse), hhref, Option.bind_some, htarget]
  rfl

/-- **An element below the root** is replaced by what the calls return for the reference that it is
taken for. -/
theorem replacedAs_of_call (hcall : Call repo path load text entities document tree)
    {child : Element}
    (hchild : child ∈ Element.iterAll document.children) :
    ReplacedAs repo path text (fun target => (load target).value?)
      (replacedBy (replacement repo load path entities)) child := by
  obtain ⟨replaced, hreplaced⟩ := looked_at hcall.expanded child hchild
  have hbelow : child ∈ document.iter := by
    obtain ⟨top, htop, hchild⟩ := Element.mem_iterAll.mp hchild
    exact Element.mem_iter.mpr (.inr ⟨top, htop, hchild⟩)
  have horigin : child.origin = path := document_eq_ok hcall.parsed child hbelow
  have hkind : (child.reference? repo path text = none ∧ replaced = none) ∨
      ∃ reference found, child.reference? repo path text = some reference ∧ replaced = some found ∧
        reference.trees repo path (fun target => (load target).value?) = some found := by
    by_cases hentity : child.tag = entityTag
    · exact .inr (entity_replacedAs hcall hentity hreplaced)
    · by_cases hinclude : child.tag = includeTag
      · exact .inr (include_replacedAs hinclude hreplaced)
      · rw [replacement_other hentity hinclude] at hreplaced
        exact .inl ⟨(if_neg hentity).trans (if_neg hinclude),
          (Fueled.returns_pure.mp hreplaced).symm⟩
  rw [← replacedBy_eq hreplaced] at hkind
  rcases hkind with ⟨hnone, htrees⟩ | ⟨reference, found, hsome, htrees, hfound⟩
  · refine ⟨horigin, fun _ => htrees, fun reference hreference => ?_⟩
    cases hnone.symm.trans hreference
  · refine ⟨horigin, fun hother => ?_, fun reference' hreference => ?_⟩
    · cases hother.symm.trans hsome
    · obtain rfl := Option.some.inj (hsome.symm.trans hreference)
      exact ⟨found, htrees, hfound⟩

/-- **A call that returns** has put the results of its calls into the places of the document that it
has parsed. -/
theorem xmlFrom_outline {fuel : Nat} {ancestors : List String}
    (h : (xmlFrom repo fuel path ancestors).Returns tree) :
    path ∉ ancestors ∧ ∃ calls, fuel = calls + 1 ∧ ∃ text document outline,
      repo.read path = .ok text ∧ repo.document path text = .ok document ∧
      (document.outline repo path text).substitute? (Reference.trees repo path fun target =>
        (xmlFrom repo calls target (ancestors ++ [path])).value?) = some [outline] ∧
      outline.build (Label.element path) = tree := by
  obtain ⟨hnew, calls, rfl, text, entities, document, hcall⟩ := xmlFrom_returns h
  have hroot : document.origin = path :=
    document_eq_ok hcall.parsed document (Element.mem_iter.mpr (.inl rfl))
  obtain ⟨outline, houtline, hbuild⟩ :=
    substitute?_outline hroot fun child hchild => replacedAs_of_call hcall hchild
  refine ⟨hnew, calls, rfl, text, document, outline, hcall.read, hcall.parsed, houtline, ?_⟩
  rw [hbuild, expand_returns hcall.expanded]

end

end FlatpakBlackbox.Manual
