import FlatpakBlackbox.Manual.Expansion

set_option autoImplicit false

/-! # Runs of the expansion

What an expansion that returns has done, and when two expansions can be compared: an expansion with
more fuel or fewer ancestors returns what the other one returns.
-/

namespace FlatpakBlackbox.Manual

open PyLib PyException

/-! ## Trees -/

section

variable {f : Element → Fueled PyException (Option (List Element))}

theorem expand_eq (f : Element → Fueled PyException (Option (List Element))) (element : Element) :
    expand f element = (do
      let slots ← edit f element.children
      let expanded ← expandAll f element.children
      return element.withChildren (slots.filterMap (Slot.fill expanded))) := by
  cases element with
  | node tag attributes text children tail origin =>
      rw [expand]
      rfl

theorem edit_ends (h : ∀ child, (f child).Ends) (children : List Element) :
    (edit f children).Ends := by
  unfold edit
  refine Fueled.Ends.foldlM fun slots item _ => (h item.1).bind fun replaced _ => ?_
  cases replaced with
  | none => exact Fueled.ends_pure _
  | some selected => exact Fueled.ends_pure _

theorem expandAll_ends {children : List Element} (h : ∀ child ∈ children, (expand f child).Ends) :
    (expandAll f children).Ends := by
  induction children with
  | nil => exact Fueled.ends_pure _
  | cons child children ih =>
      obtain ⟨hchild, hchildren⟩ := List.forall_mem_cons.mp h
      exact hchild.bind fun _ _ => (ih hchildren).bind fun _ _ => Fueled.ends_pure _

theorem expand_ends (h : ∀ child, (f child).Ends) (element : Element) :
    (expand f element).Ends := by
  induction element using Element.induct with
  | h element ih =>
      rw [expand_eq]
      exact (edit_ends h _).bind fun slots _ => (expandAll_ends ih).bind fun expanded _ =>
        Fueled.ends_pure _

theorem expandAll_returns {children expanded : List Element} :
    (expandAll f children).Returns expanded ↔
      List.Forall₂ (fun child result => (expand f child).Returns result) children expanded := by
  induction children generalizing expanded with
  | nil => rw [expandAll, Fueled.returns_pure, List.forall₂_nil_left_iff, eq_comm]
  | cons child children ih =>
      rw [expandAll, Fueled.returns_bind, List.forall₂_cons_left_iff]
      constructor
      · rintro ⟨result, hresult, hrest⟩
        obtain ⟨others, hothers, hpure⟩ := Fueled.returns_bind.mp hrest
        exact ⟨result, others, hresult, ih.mp hothers, (Fueled.returns_pure.mp hpure).symm⟩
      · rintro ⟨result, others, hresult, hothers, rfl⟩
        exact ⟨result, hresult, Fueled.returns_bind.mpr
          ⟨others, ih.mpr hothers, Fueled.returns_pure.mpr rfl⟩⟩

/-- Below an element that is expanded, every element has been looked at. -/
theorem looked_at {element expanded : Element} (h : (expand f element).Returns expanded) :
    ∀ child ∈ Element.iterAll element.children, ∃ replaced, (f child).Returns replaced := by
  induction element using Element.induct generalizing expanded with
  | h element ih =>
      rw [expand_eq] at h
      obtain ⟨slots, hslots, hrest⟩ := Fueled.returns_bind.mp h
      obtain ⟨done, hdone, -⟩ := Fueled.returns_bind.mp hrest
      have hown : ∀ child ∈ element.children, ∃ replaced, (f child).Returns replaced := by
        intro child hchild
        obtain ⟨index, hindex, rfl⟩ := List.mem_iff_getElem.mp hchild
        have hitem : (element.children[index], index) ∈ element.children.zipIdx.reverse :=
          List.mem_reverse.mpr (List.mem_zipIdx_iff_getElem?.mpr (List.getElem?_eq_getElem hindex))
        obtain ⟨_, _, hstep⟩ := Fueled.returns_foldlM hslots _ hitem
        obtain ⟨replaced, hreplaced, -⟩ := Fueled.returns_bind.mp hstep
        exact ⟨replaced, hreplaced⟩
      have hbelow : ∀ child ∈ element.children, ∃ result, (expand f child).Returns result := by
        intro child hchild
        obtain ⟨index, hindex, rfl⟩ := List.mem_iff_getElem.mp hchild
        have hresults := expandAll_returns.mp hdone
        exact ⟨_, hresults.get hindex (hresults.length_eq ▸ hindex)⟩
      intro child hchild
      obtain ⟨top, htop, hchild⟩ := Element.mem_iterAll.mp hchild
      rcases Element.mem_iter.mp hchild with rfl | ⟨below, hbelow', hchild⟩
      · exact hown child htop
      · obtain ⟨_, hexpanded⟩ := hbelow top htop
        exact ih top htop hexpanded child (Element.mem_iterAll.mpr ⟨below, hbelow', hchild⟩)

end

/-! ## What a node is replaced by -/

section

variable {repo : Repository} {path : String}

theorem includeHref_eq_ok {child : Element} {href : String}
    (h : includeHref repo path child = .ok href) :
    child.get? "href" = some href ∧ (child.get? "parse").getD "xml" = "xml" := by
  unfold includeHref at h
  dsimp only at h
  split at h
  · cases h
  · next found hfound =>
      split at h
      · cases h
      · next hparse => exact ⟨by rw [hfound, Except.ok.inj h], not_not.mp hparse⟩

variable {load : String → Fueled PyException Element}

/-- An entity has the expansion that its last declaration names. -/
theorem declared_get? {load : String → Fueled PyException Element} {name : String}
    {entity : Element}
    {declared : List Declaration} {entities result : Dict String Element}
    (h : (declared.foldlM (declare repo load path) entities).Returns result)
    (hget : result.get? name = some entity) :
    (declared.reverse.find? (fun d => d.name = name) = none ∧ entities.get? name = some entity) ∨
      ∃ last target, declared.reverse.find? (fun d => d.name = name) = some last ∧
        repo.localPath path last.href = .ok target ∧ (load target).Returns entity := by
  induction declared generalizing entities with
  | nil =>
      obtain rfl := Fueled.returns_pure.mp h
      exact .inl ⟨rfl, hget⟩
  | cons first declared ih =>
      obtain ⟨next, hfirst, hrest⟩ := Fueled.returns_bind.mp h
      rw [List.reverse_cons, List.find?_append]
      rcases ih hrest with ⟨hnone, hnext⟩ | ⟨last, target, hlast, hlocal, hload⟩
      · obtain ⟨target, htarget, hfirst⟩ := Fueled.returns_bind.mp hfirst
        obtain ⟨loaded, hloaded, hpure⟩ := Fueled.returns_bind.mp hfirst
        rw [← Fueled.returns_pure.mp hpure, Dict.get?_set] at hnext
        rw [hnone, Option.none_or]
        by_cases hname : first.name = name
        · rw [if_pos hname] at hnext
          obtain rfl := Option.some.inj hnext
          exact .inr ⟨first, target, by simp [hname], Fueled.returns_ofExcept.mp htarget, hloaded⟩
        · rw [if_neg hname] at hnext
          exact .inl ⟨by simp [hname], hnext⟩
      · rw [hlast, Option.some_or]
        exact .inr ⟨last, target, rfl, hlocal, hload⟩

variable [UnicodeDatabase] {entities : Dict String Element} {child : Element}
  {replaced : Option (List Element)}

theorem replacement_entity (htag : child.tag = entityTag)
    (h : (replacement repo load path entities child).Returns replaced) :
    ∃ name entity, child.get? "name" = some name ∧ entities.get? name = some entity ∧
      replaced = some [entity] := by
  unfold replacement at h
  rw [if_pos htag] at h
  obtain ⟨entity, hentity, hpure⟩ := Fueled.returns_bind.mp h
  have hentity := Fueled.returns_ofExcept.mp hentity
  unfold entityOf at hentity
  split at hentity
  · cases hentity
  · next name hname =>
      split at hentity
      · cases hentity
      · next found hfound =>
          obtain rfl := Except.ok.inj hentity
          exact ⟨name, found, hname, hfound, (Fueled.returns_pure.mp hpure).symm⟩

theorem replacement_include (htag : child.tag = includeTag)
    (h : (replacement repo load path entities child).Returns replaced) :
    ∃ href target included selected, includeHref repo path child = .ok href ∧
      repo.localPath path href = .ok target ∧ (load target).Returns included ∧
      select repo path (child.get? "xpointer") included = .ok selected ∧
      replaced = some selected := by
  have hentity : ¬ child.tag = entityTag := by
    rw [htag]
    decide
  unfold replacement at h
  rw [if_neg hentity, if_neg (not_not.mpr htag)] at h
  obtain ⟨href, hhref, h⟩ := Fueled.returns_bind.mp h
  obtain ⟨target, htarget, h⟩ := Fueled.returns_bind.mp h
  obtain ⟨included, hincluded, h⟩ := Fueled.returns_bind.mp h
  obtain ⟨selected, hselected, hpure⟩ := Fueled.returns_bind.mp h
  exact ⟨href, target, included, selected, Fueled.returns_ofExcept.mp hhref,
    Fueled.returns_ofExcept.mp htarget, hincluded, Fueled.returns_ofExcept.mp hselected,
    (Fueled.returns_pure.mp hpure).symm⟩

theorem replacement_other (hentity : child.tag ≠ entityTag) (hinclude : child.tag ≠ includeTag) :
    replacement repo load path entities child = pure none := by
  unfold replacement
  rw [if_neg hentity, if_pos hinclude]

end

/-! ## One call -/

section

variable [UnicodeDatabase] {repo : Repository} {path : String} {ancestors : List String}

/-- What a call that returns has done. -/
structure Call (repo : Repository) (path : String) (load : String → Fueled PyException Element)
    (text : List Char) (entities : Dict String Element) (document tree : Element) : Prop where
  read : repo.read path = .ok text
  declared : ((declarations text).foldlM (declare repo load path) Dict.empty).Returns entities
  parsed : repo.document path text = .ok document
  expanded : (expand (replacement repo load path entities) document).Returns tree

theorem xmlFrom_returns {fuel : Nat} {tree : Element}
    (h : (xmlFrom repo fuel path ancestors).Returns tree) :
    path ∉ ancestors ∧ ∃ calls, fuel = calls + 1 ∧ ∃ text entities document,
      Call repo path (fun target => xmlFrom repo calls target (ancestors ++ [path])) text entities
        document tree := by
  cases fuel with
  | zero => exact absurd h Fueled.not_endsWith_exhausted
  | succ fuel =>
      rw [xmlFrom] at h
      obtain ⟨_, hnew, h⟩ := Fueled.returns_bind.mp h
      obtain ⟨text, htext, h⟩ := Fueled.returns_bind.mp h
      obtain ⟨entities, hentities, h⟩ := Fueled.returns_bind.mp h
      obtain ⟨document, hdocument, h⟩ := Fueled.returns_bind.mp h
      exact ⟨raiseIf_eq_ok.mp (Fueled.returns_ofExcept.mp hnew), fuel, rfl, text,
        entities, document,
        Fueled.returns_ofExcept.mp htext, hentities, Fueled.returns_ofExcept.mp hdocument, h⟩

end

/-! ## More fuel, fewer ancestors -/

section

variable {errors : Prop}

section

variable {f g : Element → Fueled PyException (Option (List Element))}

theorem edit_below (h : ∀ child, Fueled.Below errors (f child) (g child))
    (children : List Element) :
    Fueled.Below errors (edit f children) (edit g children) := by
  refine Fueled.Below.foldlM fun slots item _ => (h item.1).bind fun replaced _ => ?_
  exact Fueled.Below.refl errors _

theorem expand_below (h : ∀ child, Fueled.Below errors (f child) (g child)) (element : Element) :
    Fueled.Below errors (expand f element) (expand g element) := by
  induction element using Element.induct with
  | h element ih =>
      have hall : ∀ children : List Element,
          (∀ child ∈ children, Fueled.Below errors (expand f child) (expand g child)) →
          Fueled.Below errors (expandAll f children) (expandAll g children) := by
        intro children hchildren
        induction children with
        | nil => exact Fueled.Below.refl errors _
        | cons child children ihchildren =>
            obtain ⟨hchild, hchildren⟩ := List.forall_mem_cons.mp hchildren
            exact hchild.bind fun _ _ => (ihchildren hchildren).bind fun _ _ =>
              Fueled.Below.refl errors _
      rw [expand_eq, expand_eq]
      exact (edit_below h _).bind fun _ _ => (hall _ ih).bind fun _ _ => Fueled.Below.refl errors _

end

variable {repo : Repository} {path : String} {ancestors : List String}
  {load load' : String → Fueled PyException Element}

theorem declare_below (h : ∀ target, Fueled.Below errors (load target) (load' target))
    (entities : Dict String Element)
    (declaration : Declaration) : Fueled.Below errors (declare repo load path entities declaration)
      (declare repo load' path entities declaration) :=
  (Fueled.Below.refl errors _).bind fun target _ => (h target).bind fun _ _ =>
    Fueled.Below.refl errors _

variable [UnicodeDatabase]

theorem replacement_below (h : ∀ target, Fueled.Below errors (load target) (load' target))
    (entities : Dict String Element)
    (child : Element) : Fueled.Below errors (replacement repo load path entities child)
      (replacement repo load' path entities child) := by
  unfold replacement
  split
  · exact Fueled.Below.refl errors _
  · split
    · exact Fueled.Below.refl errors _
    · refine (Fueled.Below.refl errors _).bind fun href _ => ?_
      refine (Fueled.Below.refl errors _).bind fun target _ => ?_
      exact (h target).bind fun _ _ => Fueled.Below.refl errors _

/-- **More fuel and fewer ancestors** keep what an expansion returns; more fuel alone also keeps
what it raises. -/
theorem xmlFrom_below {fuel more : Nat} (hfuel : fuel ≤ more) {fewer : List String}
    (hfewer : ∀ name ∈ fewer, name ∈ ancestors) (herrors : errors → fewer = ancestors) :
    Fueled.Below errors (xmlFrom repo fuel path ancestors) (xmlFrom repo more path fewer) := by
  induction fuel generalizing more path ancestors fewer with
  | zero => exact Fueled.Below.of_exhausted
  | succ fuel ih =>
      obtain ⟨more, rfl⟩ : ∃ n, more = n + 1 := ⟨more - 1, by omega⟩
      have hcalls : ∀ target, Fueled.Below errors (xmlFrom repo fuel target (ancestors ++ [path]))
          (xmlFrom repo more target (fewer ++ [path])) := by
        intro target
        refine ih (Nat.le_of_succ_le_succ hfuel) (fun name hname => ?_) fun he => by rw [herrors he]
        rcases List.mem_append.mp hname with hname | hname
        · exact List.mem_append_left _ (hfewer name hname)
        · exact List.mem_append_right _ hname
      have hnew : Fueled.Below errors
          (Fueled.ofExcept (raiseIf (path ∈ ancestors) (cyclic path ancestors)))
          (Fueled.ofExcept (raiseIf (path ∈ fewer) (cyclic path fewer))) := by
        refine ⟨fun _ h => ?_, fun he _ h => by rwa [herrors he]⟩
        have hnot := raiseIf_eq_ok.mp (Fueled.returns_ofExcept.mp h)
        exact Fueled.returns_ofExcept.mpr (raiseIf_eq_ok.mpr (mt (hfewer path) hnot))
      rw [xmlFrom, xmlFrom]
      refine hnew.bind fun _ _ => (Fueled.Below.refl errors _).bind fun text _ => ?_
      refine (Fueled.Below.foldlM fun entities declaration _ =>
        declare_below hcalls entities declaration).bind fun entities _ => ?_
      refine (Fueled.Below.refl errors _).bind fun tree _ => ?_
      exact expand_below (replacement_below hcalls entities) tree

end

end FlatpakBlackbox.Manual
