import Mathlib.Data.List.Basic

set_option autoImplicit false

/-! # Outlines

An outline is a tree with labelled nodes and with places at its leaves. A substitution puts a list
of values into every place, or fails; an outline whose places are filled is built into a tree of
another type. Where the values that are put in are never nodes, the tree that is built has one
outline.
-/

namespace PyLib

/-- A tree with places. -/
inductive Outline (L α : Type) where
  | own (label : L) (children : List (Outline L α))
  | place (value : α)

namespace Outline

variable {L α β E : Type}

/-- An outline is settled once its children are. -/
theorem induct {motive : Outline L α → Prop}
    (own : ∀ label children, (∀ child ∈ children, motive child) → motive (.own label children))
    (place : ∀ value, motive (.place value)) : ∀ outline, motive outline
  | .place value => place value
  | .own label children =>
      own label children fun child hchild =>
        have hlt : sizeOf child < sizeOf (Outline.own label children) := by
          have hmem := List.sizeOf_lt_of_mem hchild
          rw [Outline.own.sizeOf_spec]
          omega
        induct own place child
  termination_by outline => sizeOf outline
  decreasing_by exact hlt

mutual

/-- What stands in the places, in order. -/
def places : Outline L α → List α
  | own _ children => placesAll children
  | place value => [value]

def placesAll : List (Outline L α) → List α
  | [] => []
  | child :: children => child.places ++ placesAll children

end

mutual

/-- Put values into the places, if there are some for each. -/
def substitute? (f : α → Option (List β)) : Outline L α → Option (List (Outline L β))
  | own label children => (substituteAll? f children).map fun children => [own label children]
  | place value => (f value).map (List.map place)

def substituteAll? (f : α → Option (List β)) :
    List (Outline L α) → Option (List (Outline L β))
  | [] => some []
  | child :: children => do
      let first ← child.substitute? f
      let rest ← substituteAll? f children
      return first ++ rest

end

mutual

/-- The tree of an outline with a value in each place. -/
def build (node : L → List E → E) : Outline L E → E
  | own label children => node label (buildAll node children)
  | place value => value

def buildAll (node : L → List E → E) : List (Outline L E) → List E
  | [] => []
  | child :: children => child.build node :: buildAll node children

end

theorem mem_placesAll {value : α} {children : List (Outline L α)} :
    value ∈ placesAll children ↔ ∃ child ∈ children, value ∈ child.places := by
  induction children with
  | nil => simp [placesAll]
  | cons child children ih => simp [placesAll, ih]

theorem placesAll_append (children others : List (Outline L α)) :
    placesAll (children ++ others) = placesAll children ++ placesAll others := by
  induction children with
  | nil => rfl
  | cons child children ih => rw [List.cons_append, placesAll, placesAll, ih, List.append_assoc]

theorem buildAll_eq_map (node : L → List E → E) (children : List (Outline L E)) :
    buildAll node children = children.map (build node) := by
  induction children with
  | nil => rfl
  | cons child children ih => rw [buildAll, ih, List.map_cons]

theorem places_map_place (values : List β) :
    placesAll (values.map (place : β → Outline L β)) = values := by
  induction values with
  | nil => rfl
  | cons value values ih => rw [List.map_cons, placesAll, places, ih, List.singleton_append]

/-! ## Substitution -/

section

variable {f g : α → Option (List β)}

theorem substituteAll?_cons {child : Outline L α} {children : List (Outline L α)}
    {result : List (Outline L β)} : substituteAll? f (child :: children) = some result ↔
      ∃ first rest, child.substitute? f = some first ∧ substituteAll? f children = some rest ∧
        result = first ++ rest := by
  rw [substituteAll?]
  cases child.substitute? f with
  | none => simp
  | some first =>
      cases substituteAll? f children with
      | none => simp
      | some rest => simp [eq_comm]

theorem substitute?_own {label : L} {children : List (Outline L α)} {result : List (Outline L β)} :
    (own label children).substitute? f = some result ↔
      ∃ filled, substituteAll? f children = some filled ∧ result = [own label filled] := by
  rw [substitute?, Option.map_eq_some_iff]
  simp only [eq_comm]

theorem substitute?_place {value : α} {result : List (Outline L β)} :
    (place value).substitute? f = some result ↔ ∃ values, f value = some values ∧
      result = values.map place := by
  rw [substitute?, Option.map_eq_some_iff]
  simp only [eq_comm]

/-- A substitution that succeeds has values for each place. -/
theorem exists_of_substitute? {outline : Outline L α} {result : List (Outline L β)}
    (h : outline.substitute? f = some result) :
    ∀ value ∈ outline.places, ∃ values, f value = some values := by
  induction outline using induct generalizing result with
  | place value =>
      obtain ⟨values, hvalues, -⟩ := substitute?_place.mp h
      exact List.forall_mem_singleton.mpr ⟨values, hvalues⟩
  | own label children ih =>
      obtain ⟨filled, hfilled, -⟩ := substitute?_own.mp h
      rw [places]
      -- On the children that are left; `ih` holds of each of them.
      induction children generalizing result filled with
      | nil => exact fun value hvalue => absurd hvalue List.not_mem_nil
      | cons child children ihchildren =>
          obtain ⟨hchild, hchildren⟩ := List.forall_mem_cons.mp ih
          obtain ⟨first, rest, hfirst, hrest, -⟩ := substituteAll?_cons.mp hfilled
          rw [placesAll]
          exact List.forall_mem_append.mpr
            ⟨hchild hfirst, ihchildren hchildren (substitute?_own.mpr ⟨rest, hrest, rfl⟩) rest
              hrest⟩

/-- A substitution with values for each place succeeds. -/
theorem substitute?_isSome {outline : Outline L α}
    (h : ∀ value ∈ outline.places, ∃ values, f value = some values) :
    ∃ result, outline.substitute? f = some result := by
  induction outline using induct with
  | place value =>
      obtain ⟨values, hvalues⟩ := h value (List.mem_singleton.mpr rfl)
      exact ⟨_, substitute?_place.mpr ⟨values, hvalues, rfl⟩⟩
  | own label children ih =>
      have hall : ∃ filled, substituteAll? f children = some filled := by
        rw [places] at h
        induction children with
        | nil => exact ⟨[], rfl⟩
        | cons child children ihchildren =>
            obtain ⟨hchild, hchildren⟩ := List.forall_mem_cons.mp ih
            rw [placesAll] at h
            obtain ⟨hfirst, hrest⟩ := List.forall_mem_append.mp h
            obtain ⟨first, hfirst⟩ := hchild hfirst
            obtain ⟨rest, hrest⟩ := ihchildren hchildren hrest
            exact ⟨_, substituteAll?_cons.mpr ⟨first, rest, hfirst, hrest, rfl⟩⟩
      obtain ⟨filled, hfilled⟩ := hall
      exact ⟨_, substitute?_own.mpr ⟨filled, hfilled, rfl⟩⟩

/-- Substitutions that put the same values into the places have the same result. -/
theorem substitute?_congr {outline : Outline L α}
    (h : ∀ value ∈ outline.places, f value = g value) :
    outline.substitute? f = outline.substitute? g := by
  induction outline using induct with
  | place value => rw [substitute?, substitute?, h value (List.mem_singleton.mpr rfl)]
  | own label children ih =>
      have hall : substituteAll? f children = substituteAll? g children := by
        rw [places] at h
        induction children with
        | nil => rfl
        | cons child children ihchildren =>
            obtain ⟨hchild, hchildren⟩ := List.forall_mem_cons.mp ih
            rw [placesAll] at h
            obtain ⟨hfirst, hrest⟩ := List.forall_mem_append.mp h
            rw [substituteAll?, substituteAll?, hchild hfirst, ihchildren hchildren hrest]
      rw [substitute?, substitute?, hall]

/-- Results with the same front: the values in the places are the same, if they are equally many,
and so is what comes after. -/
theorem eq_of_substitute?_append {outline : Outline L α}
    (hlength : ∀ value ∈ outline.places, (f value).map List.length = (g value).map List.length)
    {first second rest rest' : List (Outline L β)} (hfirst : outline.substitute? f = some first)
    (hsecond : outline.substitute? g = some second) (hequal : first ++ rest = second ++ rest') :
    (∀ value ∈ outline.places, f value = g value) ∧ rest = rest' := by
  induction outline using induct generalizing first second rest rest' with
  | place value =>
      obtain ⟨values, hvalues, rfl⟩ := substitute?_place.mp hfirst
      obtain ⟨values', hvalues', rfl⟩ := substitute?_place.mp hsecond
      -- The fronts are equally long, so that equal lists have equal fronts.
      have hsame := hlength value (List.mem_singleton.mpr rfl)
      rw [hvalues, hvalues'] at hsame
      obtain ⟨hmap, hrest⟩ := List.append_inj hequal (by simpa using hsame)
      have hplace : Function.Injective (place : β → Outline L β) := fun _ _ h => Outline.place.inj h
      obtain rfl := List.map_injective_iff.mpr hplace hmap
      exact ⟨List.forall_mem_singleton.mpr (hvalues.trans hvalues'.symm), hrest⟩
  | own label children ih =>
      obtain ⟨filled, hfilled, rfl⟩ := substitute?_own.mp hfirst
      obtain ⟨filled', hfilled', rfl⟩ := substitute?_own.mp hsecond
      obtain ⟨hown, hrest⟩ := List.cons_eq_cons.mp hequal
      have hchildren : filled = filled' := (Outline.own.inj hown).2
      refine ⟨?_, hrest⟩
      rw [places] at hlength ⊢
      clear hfirst hsecond hequal hown
      induction children generalizing filled filled' with
      | nil => exact fun value hvalue => absurd hvalue List.not_mem_nil
      | cons child children ihchildren =>
          obtain ⟨hchild, hothers⟩ := List.forall_mem_cons.mp ih
          obtain ⟨first, rest, hfirst, hrest, rfl⟩ := substituteAll?_cons.mp hfilled
          obtain ⟨second, rest', hsecond, hrest', rfl⟩ := substituteAll?_cons.mp hfilled'
          rw [placesAll] at hlength ⊢
          obtain ⟨hlengths, hlengths'⟩ := List.forall_mem_append.mp hlength
          obtain ⟨hvalues, hmore⟩ := hchild hlengths hfirst hsecond hchildren
          exact List.forall_mem_append.mpr
            ⟨hvalues, ihchildren hothers hlengths' rest hrest rest' hrest' hmore⟩

/-- **Two substitutions agree** when they put the same values into every place, as long as they put
equally many. -/
theorem substitute?_eq_iff {outline : Outline L α} {result : List (Outline L β)}
    (hf : outline.substitute? f = some result)
    (hlength : ∀ value ∈ outline.places, (f value).map List.length = (g value).map List.length) :
    outline.substitute? g = some result ↔ ∀ value ∈ outline.places, f value = g value := by
  constructor
  · intro hg
    have hequal : result ++ [] = result ++ [] := rfl
    exact (eq_of_substitute?_append hlength hf hg hequal).1
  · exact fun h => (substitute?_congr h).symm.trans hf

/-- What is put into the places stands in the places of the result. -/
theorem mem_places_of_substitute? {outline : Outline L α} {result : List (Outline L β)}
    (h : outline.substitute? f = some result) {entry : β} (hentry : entry ∈ placesAll result) :
    ∃ value ∈ outline.places, ∃ values, f value = some values ∧ entry ∈ values := by
  induction outline using induct generalizing result with
  | place value =>
      obtain ⟨values, hvalues, rfl⟩ := substitute?_place.mp h
      rw [places_map_place] at hentry
      exact ⟨value, List.mem_singleton.mpr rfl, values, hvalues, hentry⟩
  | own label children ih =>
      obtain ⟨filled, hfilled, rfl⟩ := substitute?_own.mp h
      rw [placesAll, placesAll, List.append_nil, places] at hentry
      rw [places]
      clear h
      induction children generalizing filled with
      | nil =>
          obtain rfl := Option.some.inj hfilled
          exact absurd hentry List.not_mem_nil
      | cons child children ihchildren =>
          obtain ⟨hchild, hothers⟩ := List.forall_mem_cons.mp ih
          obtain ⟨first, rest, hfirst, hrest, rfl⟩ := substituteAll?_cons.mp hfilled
          rw [placesAll_append] at hentry
          rw [placesAll]
          rcases List.mem_append.mp hentry with hentry | hentry
          · obtain ⟨value, hvalue, hfound⟩ := hchild hfirst hentry
            exact ⟨value, List.mem_append_left _ hvalue, hfound⟩
          · obtain ⟨value, hvalue, hfound⟩ := ihchildren hothers rest hrest hentry
            exact ⟨value, List.mem_append_right _ hvalue, hfound⟩

/-- What holds of the values that are put into the places holds in the result. -/
theorem forall_places_of_substitute? {P : β → Prop} {outline : Outline L α} {result : Outline L β}
    (h : outline.substitute? f = some [result])
    (hf : ∀ value ∈ outline.places, ∀ values, f value = some values → ∀ entry ∈ values, P entry) :
    ∀ entry ∈ result.places, P entry := by
  intro entry hentry
  have hresult : entry ∈ placesAll [result] :=
    mem_placesAll.mpr ⟨result, List.mem_singleton.mpr rfl, hentry⟩
  obtain ⟨value, hvalue, values, hvalues, hmem⟩ := mem_places_of_substitute? h hresult
  exact hf value hvalue values hvalues entry hmem

end

/-! ## The tree -/

section

variable {node : L → List E → E}

/-- A property that nodes take from their children holds of the tree if it holds in the places. -/
theorem build_induct {P : E → Prop}
    (hnode : ∀ label children, (∀ child ∈ children, P child) → P (node label children))
    {outline : Outline L E} (hplaces : ∀ value ∈ outline.places, P value) :
    P (outline.build node) := by
  induction outline using induct with
  | place value => exact hplaces value (List.mem_singleton.mpr rfl)
  | own label children ih =>
      rw [build, buildAll_eq_map]
      refine hnode label _ (List.forall_mem_map.mpr fun child hchild => ?_)
      refine ih child hchild fun value hvalue => hplaces value ?_
      rw [places]
      exact mem_placesAll.mpr ⟨child, hchild, hvalue⟩

/-- **A tree has one outline**, when nothing in a place is a node. -/
theorem build_injective (hnode : ∀ label label' children children',
      node label children = node label' children' → label = label' ∧ children = children')
    {outline other : Outline L E}
    (hplaces : ∀ value ∈ outline.places, ∀ label children, value ≠ node label children)
    (hplaces' : ∀ value ∈ other.places, ∀ label children, value ≠ node label children)
    (h : outline.build node = other.build node) : outline = other := by
  induction outline using induct generalizing other with
  | place value =>
      -- A place on one side only would hold a node.
      have hvalue := hplaces value (List.mem_singleton.mpr rfl)
      cases other with
      | place value' => exact congrArg place h
      | own label children => exact absurd h (hvalue _ _)
  | own label children ih =>
      cases other with
      | place value' =>
          exact absurd h.symm (hplaces' value' (List.mem_singleton.mpr rfl) _ _)
      | own label' children' =>
          rw [places] at hplaces hplaces'
          obtain ⟨rfl, hchildren⟩ := hnode _ _ _ _ h
          refine congrArg (own label) ?_
          clear h
          induction children generalizing children' with
          | nil =>
              cases children' with
              | nil => rfl
              | cons child' children' => cases hchildren
          | cons child children ihchildren =>
              cases children' with
              | nil => cases hchildren
              | cons child' children' =>
                  rw [placesAll] at hplaces hplaces'
                  obtain ⟨hfirst, hrest⟩ := List.forall_mem_append.mp hplaces
                  obtain ⟨hfirst', hrest'⟩ := List.forall_mem_append.mp hplaces'
                  obtain ⟨hchild, hothers⟩ := List.forall_mem_cons.mp ih
                  obtain ⟨hhead, htail⟩ := List.cons_eq_cons.mp hchildren
                  rw [hchild hfirst hfirst' hhead, ihchildren hothers hrest children' hrest' htail]

end

end Outline

end PyLib
