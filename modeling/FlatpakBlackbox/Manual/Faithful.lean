import FlatpakBlackbox.Manual.Substitution
import FlatpakBlackbox.Manual.Termination

set_option autoImplicit false

/-! # When an expansion is what the document stands for

Two things come between a document and the tree that `xml` returns. The text is rewritten before it
is parsed, and the rewriting knows neither comments nor character data nor the order of
declarations; and the text that follows a reference is removed with it. A document is expanded to
what it stands for when neither makes a difference, in it and in the documents that it refers to.
-/

namespace FlatpakBlackbox.Manual

open PyLib PyException

section

variable [UnicodeDatabase]

/-- The elements that `xml` parses are those of the document, in the same places, and between them
stand the same trees: on one side those that the references of the document name, with the text that
follows the references behind them, and on the other side those that are put in the place of what
`xml` takes for references. -/
def Agrees (repo : Repository) (path : String) : Prop :=
  ∃ text start document outline, repo.read path = .ok text ∧ repo.standard text = .ok start ∧
    repo.document path text = .ok document ∧
    (start.outline repo path).substitute? (Reference.placed repo path (expansion? repo)) =
      some [outline] ∧
    (document.outline repo path text).substitute? (Reference.trees repo path (expansion? repo)) =
      some [outline]

/-- The rewriting has been faithful: what is parsed has the outline of the document. -/
def Faithful (repo : Repository) (path : String) (outline : Outline Label Reference) : Prop :=
  ∃ text start document, repo.read path = .ok text ∧ repo.standard text = .ok start ∧
    repo.document path text = .ok document ∧ start.outline repo path = outline ∧
    document.outline repo path text = outline

/-- The text that follows a reference follows what the reference names anyway. -/
def KeepsText (repo : Repository) (path : String) (reference : Reference) : Prop :=
  ∃ trees, reference.trees repo path (expansion? repo) = some trees ∧
    Element.Followed reference.tail trees

variable {repo : Repository} {path : String} {tree : Element}

/-- **Where the rewriting is faithful, only text can be lost.** -/
theorem agrees_iff_keepsText {outline : Outline Label Reference} (h : Faithful repo path outline) :
    Agrees repo path ↔ ∀ reference ∈ outline.places, KeepsText repo path reference := by
  obtain ⟨text, start, document, hread, hstart, hparsed, hstandard, rfl⟩ := h
  constructor
  · rintro ⟨_, _, _, filled, hread', hstart', hparsed', hplaced, htrees⟩
    obtain rfl := Except.ok.inj (hread.symm.trans hread')
    obtain rfl := Except.ok.inj (hstart.symm.trans hstart')
    obtain rfl := Except.ok.inj (hparsed.symm.trans hparsed')
    rw [hstandard] at hplaced
    -- A reference is given as many trees on one side as on the other.
    have hlength : ∀ reference ∈ (document.outline repo path text).places,
        (reference.trees repo path (expansion? repo)).map List.length =
          (reference.placed repo path (expansion? repo)).map List.length := by
      intro reference _
      rw [Reference.placed, Option.map_map]
      exact congrArg (Option.map · _) (funext fun trees => (Element.length_place _ trees).symm)
    intro reference hreference
    have hsame := (Outline.substitute?_eq_iff htrees hlength).mp hplaced reference hreference
    obtain ⟨trees, hfound⟩ := Outline.exists_of_substitute? htrees reference hreference
    refine ⟨trees, hfound, Element.place_eq_self_iff.mp ?_⟩
    rw [Reference.placed, hfound] at hsame
    exact (Option.some.inj hsame).symm
  · intro hkeeps
    have hsame : ∀ reference ∈ (document.outline repo path text).places,
        reference.trees repo path (expansion? repo) =
          reference.placed repo path (expansion? repo) := by
      intro reference hreference
      obtain ⟨trees, htrees, hfollowed⟩ := hkeeps reference hreference
      rw [Reference.placed, htrees, Option.map_some, Element.place_eq_self_iff.mpr hfollowed]
    obtain ⟨_, hresult⟩ := Outline.substitute?_isSome fun reference hreference =>
      (hkeeps reference hreference).imp fun trees htrees => htrees.1
    obtain ⟨filled, -, rfl⟩ := Outline.substitute?_own.mp hresult
    refine ⟨text, start, document, _, hread, hstart, hparsed, ?_, hresult⟩
    rw [hstandard, ← Outline.substitute?_congr hsame]
    exact hresult

/-! ## The documents of a run -/

/-- What is put into the places of a document is from none of the callers. -/
theorem xmlFrom_origins {fuel : Nat} {ancestors : List String}
    (h : (xmlFrom repo fuel path ancestors).Returns tree) :
    tree.OriginsIn fun origin => origin ∉ ancestors := by
  induction fuel generalizing path ancestors tree with
  | zero => exact absurd h Fueled.not_endsWith_exhausted
  | succ fuel ih =>
      obtain ⟨hnew, calls, hfuel, text, document, outline, -, -, houtline, rfl⟩ := xmlFrom_outline h
      obtain rfl := Nat.succ.inj hfuel
      -- The calls have the document among their ancestors, with all of its own.
      refine originsIn_build hnew (Outline.forall_places_of_substitute? houtline ?_)
      intro reference _ trees htrees
      refine Reference.originsIn_trees htrees fun target tree _ htree below hbelow => ?_
      have horigin := ih (Fueled.value?_eq_some.mp htree) below hbelow
      exact fun hmem => horigin (List.mem_append_left _ hmem)

/-- Fuel and ancestors do not matter for a document that has been expanded. -/
theorem xml_returns_of_xmlFrom {fuel : Nat} {ancestors : List String}
    (h : (xmlFrom repo fuel path ancestors).Returns tree) : (xml repo path).Returns tree := by
  -- More fuel and fewer ancestors: what returned still returns, and `xml` does not run out.
  let enough := repo.tree.files.keys.length + 2
  have hmore : (xmlFrom repo (max fuel enough) path []).Returns tree :=
    have hbelow : Fueled.Below False (xmlFrom repo fuel path ancestors)
        (xmlFrom repo (max fuel enough) path []) :=
      xmlFrom_below (Nat.le_max_left _ _) (fun _ hname => absurd hname List.not_mem_nil) False.elim
    hbelow.returns tree h
  obtain ⟨result, hresult⟩ : (xml repo path).Ends := xmlFrom_ends_of_length le_rfl
  have hsame : Fueled.Below True (xml repo path) (xmlFrom repo (max fuel enough) path []) :=
    xmlFrom_below (Nat.le_max_right _ _) (fun _ hname => hname) fun _ => rfl
  have hequal : some result = some (.ok tree) := (hsame.endsWith hresult).symm.trans hmore
  exact hresult.trans hequal

/-- What `xml` takes for a reference is one. -/
theorem refers_of_mem_places {text : List Char} {document : Element} {reference : Reference}
    {target : String} (hread : repo.read path = .ok text)
    (hparsed : repo.document path text = .ok document)
    (hreference : reference ∈ (document.outline repo path text).places)
    (htarget : reference.target = some target) : Refers repo path target := by
  obtain ⟨child, hchild, hkind⟩ := mem_places_outline hreference
  unfold Element.reference? at hkind
  dsimp only at hkind
  split at hkind
  · -- An entity: its last declaration names the document.
    obtain rfl := Option.some.inj hkind
    obtain ⟨href, hhref, htarget⟩ := Option.bind_eq_some_iff.mp htarget
    obtain ⟨declaration, hdeclaration, rfl⟩ := Option.map_eq_some_iff.mp hhref
    obtain ⟨name, -, hlast⟩ := Option.bind_eq_some_iff.mp hdeclaration
    have hmem := List.mem_reverse.mp (List.mem_of_find?_eq_some hlast)
    exact ⟨text, hread, declaration.href,
      List.mem_append_left _ (List.mem_map_of_mem hmem), eq_ok_of_toOption htarget⟩
  · split at hkind
    · next htag =>
        -- An include: it is below the root, where `xml` looks for it.
        obtain rfl := Option.some.inj hkind
        rw [Reference.ofInclude] at htarget
        dsimp only at htarget
        split at htarget
        · cases htarget
        · obtain ⟨href, hhref, htarget⟩ := Option.bind_eq_some_iff.mp htarget
          refine ⟨text, hread, href, List.mem_append_right _ ?_, eq_ok_of_toOption htarget⟩
          rw [hparsed]
          have hinclude : child ∈ (Element.iterAll document.children).filter fun element =>
              element.tag = includeTag := List.mem_filter.mpr ⟨hchild, decide_eq_true htag⟩
          exact List.mem_filterMap.mpr ⟨child, hinclude, hhref⟩
    · cases hkind

/-- What a document leads to has been expanded with it. -/
theorem returns_of_refers {target : String} (h : (xml repo path).Returns tree)
    (hrefers : Relation.ReflTransGen (Refers repo) path target) :
    ∃ tree, (xml repo target).Returns tree := by
  induction hrefers with
  | refl => exact ⟨tree, h⟩
  | tail _ hlast ih =>
      obtain ⟨tree, hreturns⟩ := ih
      obtain ⟨fuel, tree, hreturns⟩ := (xmlFrom_refers hreturns).2 _ hlast
      exact ⟨tree, xml_returns_of_xmlFrom hreturns⟩

/-! ## The two trees -/

omit [UnicodeDatabase] in
/-- A tree of the document has one outline, if nothing in the places is from the document. -/
theorem build_element_injective {outline outline' : Outline Label Element}
    (h : ∀ element ∈ outline.places, element.origin ≠ path)
    (h' : ∀ element ∈ outline'.places, element.origin ≠ path)
    (hbuild : outline.build (Label.element path) = outline'.build (Label.element path)) :
    outline = outline' := by
  have hlabel : ∀ (label label' : Label) (children children' : List Element),
      Label.element path label children = Label.element path label' children' →
        label = label' ∧ children = children' := by
    rintro ⟨tag, attributes, text, tail⟩ ⟨tag', attributes', text', tail'⟩ children children' h
    obtain ⟨rfl, rfl, rfl, rfl, rfl, -⟩ := Element.node.inj h
    exact ⟨rfl, rfl⟩
  refine Outline.build_injective hlabel (fun element helement label children heq => ?_)
    (fun element helement label children heq => ?_) hbuild
  · exact h element helement (congrArg Element.origin heq)
  · exact h' element helement (congrArg Element.origin heq)

section

variable {text : List Char} {document : Element} {outline : Outline Label Element}
  {load : String → Option Element}

/-- Calls that return what the documents stand for. -/
theorem substitute?_expansion (houtline : (document.outline repo path text).substitute?
      (Reference.trees repo path load) = some [outline])
    (hload : ∀ reference ∈ (document.outline repo path text).places, ∀ target tree,
      reference.target = some target → load target = some tree → Expands repo target tree) :
    (document.outline repo path text).substitute? (Reference.trees repo path (expansion? repo)) =
      some [outline] := by
  rw [← houtline]
  refine (Outline.substitute?_congr fun reference hreference => ?_).symm
  obtain ⟨trees, htrees⟩ := Outline.exists_of_substitute? houtline reference hreference
  refine htrees.trans (Reference.trees_congr htrees fun target tree htarget htree => ?_).symm
  exact expansion?_eq_some.mpr (hload reference hreference target tree htarget htree)

/-- Where the document agrees, they make the tree that it stands for. -/
theorem expands_of_agrees (hagrees : Agrees repo path) (hread : repo.read path = .ok text)
    (hparsed : repo.document path text = .ok document)
    (htrees : (document.outline repo path text).substitute?
      (Reference.trees repo path (expansion? repo)) = some [outline]) :
    Expands repo path (outline.build (Label.element path)) := by
  obtain ⟨text', start, document', outline', hread', hstart, hparsed', hplaced, htrees'⟩ := hagrees
  obtain rfl := Except.ok.inj (hread.symm.trans hread')
  obtain rfl := Except.ok.inj (hparsed.symm.trans hparsed')
  have hsame := List.singleton_inj.mp (Option.some.inj (htrees.symm.trans htrees'))
  exact expands_iff.mpr ⟨text, start, outline, hread, hstart, hsame ▸ hplaced, rfl⟩

/-- Where they make the tree that the document stands for, the document agrees. -/
theorem agrees_of_expands (hexpands : Expands repo path (outline.build (Label.element path)))
    (hread : repo.read path = .ok text) (hparsed : repo.document path text = .ok document)
    (htrees : (document.outline repo path text).substitute?
      (Reference.trees repo path (expansion? repo)) = some [outline])
    (horigins : ∀ element ∈ outline.places, element.origin ≠ path) : Agrees repo path := by
  obtain ⟨text', start, outline', hread', hstart, hplaced, hbuild⟩ := expands_iff.mp hexpands
  obtain rfl := Except.ok.inj (hread.symm.trans hread')
  obtain rfl : outline' = outline :=
    build_element_injective (origin_of_placed hread hstart hplaced) horigins hbuild
  exact ⟨text, start, document, outline', hread, hstart, hparsed, hplaced, htrees⟩

end

/-- A run makes the tree that the document stands for, when every document that it leads to
agrees. -/
theorem xmlFrom_expands {fuel : Nat} {ancestors : List String}
    (hagrees : ∀ target, Relation.ReflTransGen (Refers repo) path target → Agrees repo target)
    (h : (xmlFrom repo fuel path ancestors).Returns tree) : Expands repo path tree := by
  induction fuel generalizing path ancestors tree with
  | zero => exact absurd h Fueled.not_endsWith_exhausted
  | succ fuel ih =>
      obtain ⟨-, calls, hfuel, text, document, outline, hread, hparsed, houtline, rfl⟩ :=
        xmlFrom_outline h
      obtain rfl := Nat.succ.inj hfuel
      refine expands_of_agrees (hagrees path .refl) hread hparsed ?_
      refine substitute?_expansion houtline fun reference hreference target tree htarget htree => ?_
      have hrefers : Refers repo path target :=
        refers_of_mem_places hread hparsed hreference htarget
      exact ih (fun next hnext => hagrees next (.head hrefers hnext))
        (Fueled.value?_eq_some.mp htree)

/-- A document agrees when it, and what it refers to, are expanded to what they stand for. -/
theorem agrees_of_xml (h : (xml repo path).Returns tree) (hexpands : Expands repo path tree)
    (hrefers : ∀ target, Refers repo path target →
      ∀ tree, (xml repo target).Returns tree → Expands repo target tree) : Agrees repo path := by
  obtain ⟨-, calls, -, text, document, outline, hread, hparsed, houtline, rfl⟩ := xmlFrom_outline h
  have htrees := substitute?_expansion houtline fun reference hreference target tree
    htarget htree =>
    hrefers target (refers_of_mem_places hread hparsed hreference htarget) tree
      (xml_returns_of_xmlFrom (Fueled.value?_eq_some.mp htree))
  refine agrees_of_expands hexpands hread hparsed htrees fun element helement => ?_
  -- The document was among the callers when the trees were made.
  have horigins : element.OriginsIn fun origin => origin ∉ ([] : List String) ++ [path] := by
    refine Outline.forall_places_of_substitute? houtline ?_ element helement
    intro reference _ trees htrees
    exact Reference.originsIn_trees htrees fun target tree _ htree =>
      xmlFrom_origins (Fueled.value?_eq_some.mp htree)
  have hself := (Element.originsIn_iff.mp horigins).1
  exact fun horigin => hself (horigin ▸ List.mem_singleton.mpr rfl)

/-- **When expansion is substitution.** A document and the documents that it leads to are all
expanded to what they stand for exactly when all of them agree with what is parsed of them. Where
the rewriting has been faithful, this says that no text is lost: what follows a reference also
follows what the reference names. -/
theorem xml_substitutes_iff {repo : Repository} {path : String} {tree : Element}
    (h : (xml repo path).Returns tree) :
    ((∀ target, Relation.ReflTransGen (Refers repo) path target →
        ∀ tree, (xml repo target).Returns tree → Expands repo target tree) ↔
      ∀ target, Relation.ReflTransGen (Refers repo) path target → Agrees repo target) ∧
    ∀ target outline, Faithful repo target outline →
      (Agrees repo target ↔ ∀ reference ∈ outline.places, KeepsText repo target reference) := by
  refine ⟨⟨fun hexpands target htarget => ?_, fun hagrees target htarget tree htree => ?_⟩,
    fun target outline => agrees_iff_keepsText⟩
  · obtain ⟨tree, htree⟩ := returns_of_refers h htarget
    refine agrees_of_xml htree (hexpands target htarget tree htree) fun next hnext => ?_
    exact hexpands next (htarget.tail hnext)
  · exact xmlFrom_expands (fun next hnext => hagrees next (htarget.trans hnext)) htree

end

/-- A manual with text behind an entity. -/
def textManual : List Char := "<!DOCTYPE a [<!ENTITY e SYSTEM \"b.xml\">]><a>&e;, more</a>".toList

/-- What is parsed of it. -/
def textPrepared : List Char :=
  "<!DOCTYPE a []><a><catalogue-local-entity name=\"e\"/>, more</a>".toList

def textRepository : Repository where
  tree := {
    root := ["manuals"]
    files := Dict.ofList [(["a.xml"], textManual), (["b.xml"], "<b/>".toList)]
    wellFormed := by decide }
  root_resolved := by decide
  standard text :=
    if text = "<b/>".toList then .ok (.element "b" [] "" [] "")
    else if text = textManual then .ok (.element "a" [] "" [.entity "b.xml" ", more"] "")
    else if text = textPrepared then
      .ok (.element "a" [] "" [.element entityTag [("name", "e")] "" [] ", more"] "")
    else .error "not well-formed"
  standard_root text root h := by
    split_ifs at h <;> exact ⟨_, _, _, _, (Except.ok.inj h).symm⟩
  undefined _ := "undefined entity"
  findall _ _ := some []
  findall_mem := mem_iter_of_findall_nil
  attrib _ := "{}"

theorem textManual_returns : ∃ tree,
    (@xml asciiOnly textRepository "a.xml").Returns tree ∧ tree.itertext = "" := by
  have hxml : (@xml asciiOnly textRepository "a.xml").value?.map Element.itertext = some "" := by
    decide +kernel
  obtain ⟨tree, htree, htext⟩ := Option.map_eq_some_iff.mp hxml
  exact ⟨tree, Fueled.value?_eq_some.mp htree, htext⟩

theorem xml_substitutes_iff_small :
    (∀ target, Relation.ReflTransGen (@Refers asciiOnly textRepository) "a.xml" target →
      ∀ tree, (@xml asciiOnly textRepository target).Returns tree →
        @Expands asciiOnly textRepository target tree) ↔
      ∀ target, Relation.ReflTransGen (@Refers asciiOnly textRepository) "a.xml" target →
        @Agrees asciiOnly textRepository target := by
  obtain ⟨tree, htree, -⟩ := textManual_returns
  exact (@xml_substitutes_iff asciiOnly _ _ _ htree).1

/-- The manual stands for a tree with the text. -/
theorem textManual_expands : @Expands asciiOnly textRepository "a.xml"
    (.node "a" [] "" [.node "b" [] "" [] ", more" "b.xml"] "" "a.xml") := by
  have hb : @Expands asciiOnly textRepository "b.xml" (.node "b" [] "" [] "" "b.xml") :=
    @Expands.intro asciiOnly textRepository _ _ _ (.own ⟨"b", [], "", ""⟩ []) (fun _ => none)
      rfl rfl (fun _ _ h => nomatch h) rfl
  let expansion : String → Option Element := fun target =>
    if target = "b.xml" then some (.node "b" [] "" [] "" "b.xml") else none
  refine @Expands.intro asciiOnly textRepository _ _ _
    (.own ⟨"a", [], "", ""⟩ [.place (.node "b" [] "" [] ", more" "b.xml")]) expansion rfl rfl ?_ rfl
  intro target tree htree
  by_cases htarget : target = "b.xml"
  · obtain rfl := htarget
    obtain rfl := Option.some.inj ((if_pos rfl).symm.trans htree)
    exact hb
  · cases (if_neg htarget).symm.trans htree

/-- The text behind the entity is lost. -/
theorem following_text_lost : ∃ tree expanded,
    (@xml asciiOnly textRepository "a.xml").Returns tree ∧
      @Expands asciiOnly textRepository "a.xml" expanded ∧ tree ≠ expanded := by
  obtain ⟨tree, htree, htext⟩ := textManual_returns
  refine ⟨tree, _, htree, textManual_expands, ?_⟩
  rintro rfl
  exact absurd htext (by decide)

end FlatpakBlackbox.Manual
