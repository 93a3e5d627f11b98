import FlatpakBlackbox.Catalogue.Comments

set_option autoImplicit false

/-! # The sources that discovery finds

`meson_inputs` walks the expressions of the source lists and of the library calls. Here it is said
without the walk which expressions it supports and which sources occur in them. The calls that it
recognises are all calls of the text, since it counts them.
-/

namespace FlatpakBlackbox

open PyLib Regex PyException

section

variable [WordDatabase]

/-! ## Source expressions -/

mutual

/-- What may stand between the `+` of a source expression: a literal with one of the suffixes, a
known name, an indexed member of a generated input, or a list. -/
inductive SupportedOperand (suffixes references : List String) : List Char → Prop where
  | literal {part : List Char} {name : String} (hname : fileName? suffixes part = some name) :
      SupportedOperand suffixes references part
  | known {part : List Char} (hname : String.ofList part ∈ generatedInputs ++ references) :
      SupportedOperand suffixes references part
  | indexed {part : List Char} {name : String} (hname : indexedName? part = some name)
      (hgenerated : name ∈ generatedInputs) : SupportedOperand suffixes references part
  | list {body : List Char} {members : List (List Char)} (hmembers : splitC body = .ok members)
      (hsupported : ∀ member ∈ members, Supported suffixes references member) :
      SupportedOperand suffixes references ('[' :: (body ++ [']']))

/-- An expression all of whose operands are supported. -/
inductive Supported (suffixes references : List String) : List Char → Prop where
  | operands {expression : List Char} {parts : List (List Char)}
      (hparts : splitC expression '+' = .ok parts)
      (hsupported : ∀ part ∈ parts, SupportedOperand suffixes references part) :
      Supported suffixes references expression

end

omit [WordDatabase] in
/-- A C source that occurs as a literal in an expression, at any depth. -/
inductive SourceIn (name : String) : List Char → Prop where
  | literal {expression part : List Char} {parts : List (List Char)}
      (hparts : splitC expression '+' = .ok parts) (hpart : part ∈ parts)
      (hname : fileName? [".c"] part = some name) : SourceIn name expression
  | nested {expression body member : List Char} {parts members : List (List Char)}
      (hparts : splitC expression '+' = .ok parts) (hpart : '[' :: (body ++ [']']) ∈ parts)
      (hmembers : splitC body = .ok members) (hmember : member ∈ members)
      (hname : SourceIn name member) : SourceIn name expression

omit [WordDatabase] in
theorem length_strip_le (text : List Char) : (strip text).length ≤ text.length := by
  obtain ⟨front, back, htext, -, -⟩ := strip_infix text
  have hlength := congrArg List.length htext
  simp only [List.length_append] at hlength
  omega

omit [WordDatabase] in
/-- Parts are no longer than the text. -/
theorem length_le_of_splitC {text part : List Char} {delimiter : Char} {parts : List (List Char)}
    (h : splitC text delimiter = .ok parts) (hpart : part ∈ parts) : part.length ≤ text.length := by
  obtain ⟨pieces, rfl, rfl⟩ := splitC_eq_ok h
  obtain ⟨piece, hpiece, rfl⟩ := List.mem_map.mp (List.mem_filter.mp hpart).1
  refine (length_strip_le piece).trans ?_
  clear h hpart
  induction pieces with
  | nil => cases hpiece
  | cons first pieces ih =>
      by_cases hnil : pieces = []
      · subst hnil
        simp [List.mem_singleton.mp hpiece]
      · rw [List.intercalate_cons_of_ne_nil hnil]
        simp only [List.length_append]
        rcases List.mem_cons.mp hpiece with rfl | hpiece
        · omega
        · have hrest := ih hpiece
          omega

/-! ## File names -/

omit [WordDatabase] in
theorem fileName?_eq_some {suffixes : List String} {part : List Char} {name : String} :
    fileName? suffixes part = some name ↔ quotedBody? part = some name.toList ∧
      ∃ suffix ∈ suffixes, suffix.toList <:+ name.toList ∧ suffix.length < name.toList.length := by
  rw [fileName?, Option.bind_eq_some_iff]
  constructor
  · rintro ⟨body, hbody, hname⟩
    split at hname
    · next hsuffix =>
        obtain rfl := Option.some.inj hname
        rw [String.toList_ofList]
        refine ⟨hbody, ?_⟩
        simpa using hsuffix
    · cases hname
  · rintro ⟨hbody, hsuffix⟩
    refine ⟨name.toList, hbody, ?_⟩
    rw [if_pos (by simpa using hsuffix), String.ofList_toList]

omit [WordDatabase] in
/-- Of the two kinds of files, the C sources are those that count. -/
theorem fileName?_source {part : List Char} {file name : String}
    (h : fileName? [".c", ".h"] part = some file) :
    (name ∈ if ".c".toList.isSuffixOf file.toList then [file] else []) ↔
      fileName? [".c"] part = some name := by
  obtain ⟨hquoted, suffix, hsuffix, -, hlength⟩ := fileName?_eq_some.mp h
  have htwo : 2 < file.toList.length := by
    simp only [List.mem_cons, List.not_mem_nil, or_false] at hsuffix
    rcases hsuffix with rfl | rfl
    · exact hlength
    · exact hlength
  rw [fileName?_eq_some, hquoted]
  constructor
  · intro hname
    split at hname
    · next hc =>
        obtain rfl := List.mem_singleton.mp hname
        exact ⟨rfl, ".c", List.mem_singleton_self _, List.isSuffixOf_iff_suffix.mp hc, htwo⟩
    · cases hname
  · rintro ⟨hsame, suffix', hsuffix', hends, -⟩
    obtain rfl := List.mem_singleton.mp hsuffix'
    obtain rfl := String.toList_inj.mp (Option.some.inj hsame)
    rw [if_pos (List.isSuffixOf_iff_suffix.mpr hends)]
    exact List.mem_singleton_self _

omit [WordDatabase] in
/-- A list is no literal. -/
theorem fileName?_list (suffixes : List String) (body : List Char) :
    fileName? suffixes ('[' :: body) = none := by
  have hquote : isQuote '[' = false := by decide
  simp [fileName?, quotedBody?, hquote]

/-! ## The walk -/

/-- What an accepted operand adds, where the walk of its members is known. -/
theorem operandSources_spec {references : List String}
    {walk : List Char → Except PyException (List String)} {part : List Char} {found : List String}
    (hwalk : ∀ member found, member.length < part.length → walk member = .ok found →
      Supported [".c", ".h"] references member ∧ ∀ name, name ∈ found ↔ SourceIn name member)
    (h : operandSources references walk part = .ok found) :
    SupportedOperand [".c", ".h"] references part ∧ ∀ name, name ∈ found ↔
      fileName? [".c"] part = some name ∨ ∃ body members, part = '[' :: (body ++ [']']) ∧
        splitC body = .ok members ∧ ∃ member ∈ members, SourceIn name member := by
  unfold operandSources at h
  split at h
  · next file hfile =>
      obtain rfl := Except.ok.inj h
      refine ⟨.literal hfile, fun name => ?_⟩
      rw [fileName?_source hfile]
      refine ⟨.inl, fun hname => hname.resolve_right ?_⟩
      rintro ⟨body, members, rfl, -⟩
      rw [fileName?_list] at hfile
      cases hfile
  · next hfile =>
      -- What is no file of either kind is no C file.
      have hliteral : ∀ name, fileName? [".c"] part ≠ some name := by
        intro name hname
        obtain ⟨hquoted, suffix, hsuffix, hends⟩ := fileName?_eq_some.mp hname
        have hboth : fileName? [".c", ".h"] part = some name :=
          fileName?_eq_some.mpr ⟨hquoted, suffix, List.mem_cons.mpr (.inl
            (List.mem_singleton.mp hsuffix)), hends⟩
        rw [hfile] at hboth
        cases hboth
      split at h
      · next hlist =>
          have hpart := (enclosed_iff (by decide)).mp hlist
          obtain ⟨members, hmembers, h⟩ := bind_eq_ok.mp h
          obtain ⟨lists, hlists, h⟩ := bind_eq_ok.mp h
          obtain rfl := Except.ok.inj h
          -- The members of a list are shorter than the list, so the walk covers them.
          have hshort : ∀ member ∈ members, member.length < part.length := by
            intro member hmember
            have hbody := length_le_of_splitC hmembers hmember
            have hlength := congrArg List.length hpart
            simp only [List.length_cons, List.length_append, List.length_nil] at hlength
            omega
          refine ⟨hpart ▸ .list hmembers fun member hmember => ?_, fun name => ?_⟩
          · obtain ⟨list, -, hlist⟩ := exists_mem_of_mapM hlists hmember
            exact (hwalk member list (hshort member hmember) hlist).1
          · rw [List.mem_flatten]
            constructor
            · rintro ⟨list, hlist, hname⟩
              obtain ⟨member, hmember, hwalked⟩ := exists_of_mem_mapM hlists hlist
              have hspec := (hwalk member list (hshort member hmember) hwalked).2 name
              exact .inr ⟨_, members, hpart, hmembers, member, hmember, hspec.mp hname⟩
            · rintro (hname | ⟨body, members', hpart', hmembers', member, hmember, hname⟩)
              · exact absurd hname (hliteral name)
              · obtain rfl : part.tail.dropLast = body := by rw [hpart']; simp
                obtain rfl := Except.ok.inj (hmembers.symm.trans hmembers')
                obtain ⟨list, hlist, hwalked⟩ := exists_mem_of_mapM hlists hmember
                have hspec := (hwalk member list (hshort member hmember) hwalked).2 name
                exact ⟨list, hlist, hspec.mpr hname⟩
      · next hlist =>
          split at h
          · next hknown =>
              obtain rfl := Except.ok.inj h
              refine ⟨?_, fun name => ?_⟩
              · rcases hknown with hname | hindexed
                · exact .known hname
                · cases hname : indexedName? part with
                  | none =>
                      rw [hname] at hindexed
                      cases hindexed
                  | some name =>
                      rw [hname] at hindexed
                      exact .indexed hname (of_decide_eq_true hindexed)
              · refine ⟨fun hname => absurd hname List.not_mem_nil, ?_⟩
                rintro (hname | ⟨body, members, rfl, -⟩)
                · exact absurd hname (hliteral name)
                · exact absurd ((enclosed_iff (by decide)).mpr (by simp)) hlist
          · cases h

/-- **The walk finds every source.** An expression that is accepted is supported, and the sources
are those that occur in it. -/
theorem sourceExpression_spec {references : List String} {fuel : Nat} {expression : List Char}
    (hfuel : expression.length < fuel) {found : List String}
    (h : sourceExpression references fuel expression = .ok found) :
    Supported [".c", ".h"] references expression ∧ ∀ name, name ∈ found ↔
    SourceIn name expression := by
  induction fuel generalizing expression found with
  | zero => exact absurd hfuel (Nat.not_lt_zero _)
  | succ fuel ih =>
      rw [sourceExpression] at h
      obtain ⟨parts, hparts, h⟩ := bind_eq_ok.mp h
      obtain ⟨lists, hlists, h⟩ := bind_eq_ok.mp h
      obtain rfl := Except.ok.inj h
      have hoperand : ∀ {part list}, part ∈ parts →
          operandSources references (sourceExpression references fuel) part = .ok list → _ :=
        fun {part list} hpart => operandSources_spec fun member found hmember =>
          ih (hmember.trans_le ((length_le_of_splitC hparts hpart).trans (Nat.le_of_lt_succ hfuel)))
      refine ⟨.operands hparts fun part hpart => ?_, fun name => ?_⟩
      · obtain ⟨list, -, hlist⟩ := exists_mem_of_mapM hlists hpart
        exact (hoperand hpart hlist).1
      · rw [List.mem_flatten]
        constructor
        · rintro ⟨list, hlist, hname⟩
          obtain ⟨part, hpart, hfound⟩ := exists_of_mem_mapM hlists hlist
          rcases ((hoperand hpart hfound).2 name).mp hname with
            hliteral | ⟨body, members, rfl, hmembers, member, hmember, hsource⟩
          · exact .literal hparts hpart hliteral
          · exact .nested hparts hpart hmembers hmember hsource
        · intro hsource
          obtain ⟨part, hpart, hname⟩ : ∃ part ∈ parts, fileName? [".c"] part = some name ∨
              ∃ body members, part = '[' :: (body ++ [']']) ∧ splitC body = .ok members ∧
                ∃ member ∈ members, SourceIn name member := by
            cases hsource with
            | literal hparts' hpart hname =>
                obtain rfl := Except.ok.inj (hparts.symm.trans hparts')
                exact ⟨_, hpart, .inl hname⟩
            | nested hparts' hpart hmembers hmember hname =>
                obtain rfl := Except.ok.inj (hparts.symm.trans hparts')
                exact ⟨_, hpart, .inr ⟨_, _, rfl, hmembers, _, hmember, hname⟩⟩
          obtain ⟨list, hlist, hfound⟩ := exists_mem_of_mapM hlists hpart
          exact ⟨list, hlist, ((hoperand hpart hfound).2 name).mpr hname⟩

theorem sourcesOf_spec {references : List String} {expression : List Char} {found : List String}
    (h : sourcesOf references expression = .ok found) :
    Supported [".c", ".h"] references expression ∧ ∀ name, name ∈ found ↔
    SourceIn name expression :=
  sourceExpression_spec (Nat.lt_succ_self _) h

/-! ## Source lists and library calls -/

/-- An argument of a library call that names sources. -/
def NamesSources (argument expression : List Char) : Prop :=
  (keyword? argument = none ∧ expression = argument) ∨
    keyword? argument = some ("sources", expression)

/-- What may stand for sources in a library call: the source lists and the headers. -/
def libraryReferences (statements : List (List Char)) : List String :=
  sourceNames (statements.filterMap assignmentOf) ++ ["public_headers"]

/-- The expressions of a text that name sources, with the references allowed there: what source
lists are assigned or augmented with, and the arguments of library calls. -/
inductive SourcePosition (statements : List (List Char)) : List String → List Char → Prop where
  | assigned {statement : List Char} {assignment : Assignment} (hstatement : statement ∈ statements)
      (hassignment : assignmentOf statement = some assignment)
      (hname : "sources".toList <:+ assignment.name.toList) :
      SourcePosition statements [] assignment.expression
  | argument {statement arguments target argument expression : List Char}
      {args : List (List Char)} (hstatement : statement ∈ statements)
      (hlibrary : libraryArguments? statement = some arguments)
      (hargs : splitC arguments = .ok (target :: args)) (hargument : argument ∈ args)
      (hnames : NamesSources argument expression) :
      SourcePosition statements (libraryReferences statements) expression

omit [WordDatabase] in
theorem mem_sourceNames {assignments : List Assignment} {name : String} :
    name ∈ sourceNames assignments ↔
      (∃ assignment ∈ assignments, assignment.name = name) ∧ "sources".toList <:+ name.toList := by
  rw [sourceNames, mem_sorted, List.mem_dedup, List.mem_filter, List.mem_map,
    List.isSuffixOf_iff_suffix]

omit [WordDatabase] in
/-- A loop that collects finds what its items contribute. -/
theorem mem_flatten_mapM {α : Type} {f : α → Except PyException (List String)} {l : List α}
    {found : List (List String)} (h : l.mapM f = .ok found) {P : α → String → Prop}
    (hf : ∀ x ∈ l, ∀ list, f x = .ok list → ∀ name, name ∈ list ↔ P x name) (name : String) :
    name ∈ found.flatten ↔ ∃ x ∈ l, P x name := by
  rw [List.mem_flatten]
  constructor
  · rintro ⟨list, hlist, hname⟩
    obtain ⟨x, hx, hfound⟩ := exists_of_mem_mapM h hlist
    exact ⟨x, hx, (hf x hx list hfound name).mp hname⟩
  · rintro ⟨x, hx, hname⟩
    obtain ⟨list, hlist, hfound⟩ := exists_mem_of_mapM h hx
    exact ⟨list, hlist, (hf x hx list hfound name).mpr hname⟩

theorem definitionSources_spec {assignments : List Assignment} {name : String} {found : List String}
    (h : definitionSources assignments name = .ok found) :
    (∀ assignment ∈ assignments, assignment.name = name →
      Supported [".c", ".h"] [] assignment.expression) ∧
    ∀ source, source ∈ found ↔ ∃ assignment ∈ assignments, assignment.name = name ∧
      SourceIn source assignment.expression := by
  obtain ⟨-, -, h⟩ := bind_eq_ok.mp h
  obtain ⟨lists, hlists, h⟩ := bind_eq_ok.mp h
  obtain rfl := Except.ok.inj h
  constructor
  · intro assignment hassignment hname
    have hmem : assignment ∈ assignments.filter fun assignment => assignment.name = name :=
      List.mem_filter.mpr ⟨hassignment, decide_eq_true hname⟩
    obtain ⟨sources, -, hsources⟩ := exists_mem_of_mapM hlists hmem
    exact (sourcesOf_spec hsources).1
  · intro source
    rw [mem_flatten_mapM hlists fun definition _ list hlist => (sourcesOf_spec hlist).2]
    constructor
    · rintro ⟨assignment, hassignment, hsource⟩
      obtain ⟨hmem, hname⟩ := List.mem_filter.mp hassignment
      exact ⟨assignment, hmem, of_decide_eq_true hname, hsource⟩
    · rintro ⟨assignment, hmem, hname, hsource⟩
      exact ⟨assignment, List.mem_filter.mpr ⟨hmem, decide_eq_true hname⟩, hsource⟩

/-- The source lists. -/
theorem listedSources_spec {assignments : List Assignment} {found : List String}
    (h : listedSources assignments = .ok found) :
    (∀ assignment ∈ assignments, "sources".toList <:+ assignment.name.toList →
      Supported [".c", ".h"] [] assignment.expression) ∧
    ∀ source, source ∈ found ↔ ∃ assignment ∈ assignments,
      "sources".toList <:+ assignment.name.toList ∧ SourceIn source assignment.expression := by
  obtain ⟨lists, hlists, h⟩ := bind_eq_ok.mp h
  obtain rfl := Except.ok.inj h
  constructor
  · intro assignment hassignment hname
    have hmem : assignment.name ∈ sourceNames assignments :=
      mem_sourceNames.mpr ⟨⟨assignment, hassignment, rfl⟩, hname⟩
    obtain ⟨list, -, hlist⟩ := exists_mem_of_mapM hlists hmem
    exact (definitionSources_spec hlist).1 assignment hassignment rfl
  · intro source
    rw [mem_flatten_mapM hlists fun name _ list hlist => (definitionSources_spec hlist).2]
    constructor
    · rintro ⟨name, hname, assignment, hassignment, rfl, hsource⟩
      exact ⟨assignment, hassignment, (mem_sourceNames.mp hname).2, hsource⟩
    · rintro ⟨assignment, hassignment, hname, hsource⟩
      exact ⟨assignment.name, mem_sourceNames.mpr ⟨⟨assignment, hassignment, rfl⟩, hname⟩,
        assignment, hassignment, rfl, hsource⟩

theorem argumentSources_spec {references : List String} {argument : List Char} {found : List String}
    (h : argumentSources references argument = .ok found) :
    (∀ expression, NamesSources argument expression →
      Supported [".c", ".h"] references expression) ∧
    ∀ name, name ∈ found ↔ ∃ expression, NamesSources argument expression ∧
      SourceIn name expression := by
  -- An argument names at most one expression.
  have hone : ∀ {value : List Char}, (∀ expression, NamesSources argument expression ↔
      expression = value) → sourcesOf references value = .ok found →
      (∀ expression, NamesSources argument expression →
        Supported [".c", ".h"] references expression) ∧
      ∀ name, name ∈ found ↔ ∃ expression, NamesSources argument expression ∧
        SourceIn name expression := by
    intro value hnames hvalue
    obtain ⟨hsupported, hsources⟩ := sourcesOf_spec hvalue
    refine ⟨fun expression hexpression => (hnames _).mp hexpression ▸ hsupported,
      fun name => (hsources name).trans ?_⟩
    simp [hnames]
  unfold argumentSources at h
  split at h
  · next value hkeyword =>
      refine hone (fun expression => ?_) h
      simp [NamesSources, hkeyword, eq_comm]
  · next other hother hkeyword =>
      have hnone : ∀ expression, ¬ NamesSources argument expression := by
        intro expression hexpression
        rcases hexpression with ⟨hkeyword', -⟩ | hkeyword'
        · rw [hkeyword'] at hkeyword
          cases hkeyword
        · exact hother expression (Option.some.inj (hkeyword.symm.trans hkeyword'))
      obtain rfl := Except.ok.inj h
      simp [hnone]
  · next hkeyword =>
      refine hone (fun expression => ?_) h
      simp [NamesSources, hkeyword]

/-- The arguments of a library call. -/
theorem librarySources_spec {references : List String} {arguments : List Char} {found : List String}
    (h : librarySources references arguments = .ok found) :
    ∃ target args, splitC arguments = .ok (target :: args) ∧
      (∀ argument ∈ args, ∀ expression, NamesSources argument expression →
        Supported [".c", ".h"] references expression) ∧
      ∀ name, name ∈ found ↔ ∃ argument ∈ args, ∃ expression, NamesSources argument expression ∧
        SourceIn name expression := by
  obtain ⟨all, hall, h⟩ := bind_eq_ok.mp h
  cases all with
  | nil => cases h
  | cons target args =>
      obtain ⟨-, -, h⟩ := bind_eq_ok.mp h
      obtain ⟨lists, hlists, h⟩ := bind_eq_ok.mp h
      obtain rfl := Except.ok.inj h
      refine ⟨target, args, hall, fun argument hmem => ?_, ?_⟩
      · obtain ⟨list, -, hlist⟩ := exists_mem_of_mapM hlists hmem
        exact (argumentSources_spec hlist).1
      · exact mem_flatten_mapM hlists fun argument _ list hlist => (argumentSources_spec hlist).2

/-- The library call of a statement, if it is one. -/
theorem statementSources_spec {references : List String} {statement : List Char}
    {found : List String} (h : statementSources references statement = .ok found) :
    (∀ arguments, libraryArguments? statement = some arguments →
      librarySources references arguments = .ok found) ∧
    (libraryArguments? statement = none → found = []) := by
  unfold statementSources at h
  dsimp only at h
  cases hlibrary : libraryArguments? statement with
  | none =>
      have hcall : pure [] = (.ok found : Except PyException (List String)) := by
        rw [hlibrary] at h
        split at h
        · obtain ⟨-, -, h⟩ := bind_eq_ok.mp h
          exact h
        · exact h
      refine ⟨fun _ harguments => ?_, fun _ => (Except.ok.inj hcall).symm⟩
      cases harguments
  | some arguments =>
      have hcall : librarySources references arguments = .ok found := by
        rw [hlibrary] at h
        split at h
        · obtain ⟨-, -, h⟩ := bind_eq_ok.mp h
          exact h
        · exact h
      refine ⟨fun arguments' harguments => ?_, fun hnone => ?_⟩
      · obtain rfl := Option.some.inj harguments
        exact hcall
      · cases hnone

/-- All positions of a text. -/
theorem positions_spec {statements : List (List Char)} {listed : List String}
    {called : List (List String)}
    (hlisted : listedSources (statements.filterMap assignmentOf) = .ok listed)
    (hcalled : statements.mapM (statementSources (libraryReferences statements)) = .ok called) :
    (∀ references expression, SourcePosition statements references expression →
      Supported [".c", ".h"] references expression) ∧
    ∀ name, name ∈ listed ++ called.flatten ↔ ∃ references expression,
      SourcePosition statements references expression ∧ SourceIn name expression := by
  obtain ⟨hsupported, hsources⟩ := listedSources_spec hlisted
  constructor
  · intro references expression hposition
    cases hposition with
    | assigned hstatement hassignment hname =>
        exact hsupported _ (List.mem_filterMap.mpr ⟨_, hstatement, hassignment⟩) hname
    | argument hstatement hlibrary hargs hargument hnames =>
        obtain ⟨list, -, hlist⟩ := exists_mem_of_mapM hcalled hstatement
        obtain ⟨target, args, hargs', hexpressions, -⟩ :=
          librarySources_spec ((statementSources_spec hlist).1 _ hlibrary)
        obtain ⟨rfl, rfl⟩ := List.cons.inj (Except.ok.inj (hargs.symm.trans hargs'))
        exact hexpressions _ hargument _ hnames
  · intro name
    rw [List.mem_append, hsources, List.mem_flatten]
    constructor
    · rintro (⟨assignment, hassignment, hname, hsource⟩ | ⟨list, hlist, hname⟩)
      · obtain ⟨statement, hstatement, hassigned⟩ := List.mem_filterMap.mp hassignment
        exact ⟨_, _, .assigned hstatement hassigned hname, hsource⟩
      · obtain ⟨statement, hstatement, hfound⟩ := exists_of_mem_mapM hcalled hlist
        obtain ⟨hcall, hnone⟩ := statementSources_spec hfound
        cases hlibrary : libraryArguments? statement with
        | none =>
            rw [hnone hlibrary] at hname
            cases hname
        | some arguments =>
            obtain ⟨target, args, hargs, -, hsources⟩ := librarySources_spec (hcall _ hlibrary)
            obtain ⟨argument, hargument, expression, hnames, hsource⟩ := (hsources name).mp hname
            exact ⟨_, _, .argument hstatement hlibrary hargs hargument hnames, hsource⟩
    · rintro ⟨references, expression, hposition, hsource⟩
      cases hposition with
      | assigned hstatement hassignment hname =>
          exact .inl ⟨_, List.mem_filterMap.mpr ⟨_, hstatement, hassignment⟩, hname, hsource⟩
      | argument hstatement hlibrary hargs hargument hnames =>
          obtain ⟨list, hlist, hfound⟩ := exists_mem_of_mapM hcalled hstatement
          obtain ⟨target, args, hargs', -, hsources⟩ :=
            librarySources_spec ((statementSources_spec hfound).1 _ hlibrary)
          obtain ⟨rfl, rfl⟩ := List.cons.inj (Except.ok.inj (hargs.symm.trans hargs'))
          exact .inr ⟨list, hlist, (hsources name).mpr ⟨_, hargument, _, hnames, hsource⟩⟩

/-! ## Headers -/

/-- The headers are the literals of the one list that is assigned to `public_headers`, in order and
without duplicates. -/
def ListsHeaders (statements : List (List Char)) (headers : List String) : Prop :=
  ∃ body members, (statements.filterMap assignmentOf).filter
      (fun assignment => assignment.name = "public_headers") =
        [⟨"public_headers", "=", '[' :: (body ++ [']'])⟩] ∧
    splitC body = .ok members ∧
    members.map quotedBody? = headers.map (fun header => some header.toList) ∧
    headers ≠ [] ∧ headers.Nodup

omit [WordDatabase] in
theorem of_listBody {expression body : List Char} (h : listBody? expression = some body) :
    expression = '[' :: (body ++ [']']) := by
  unfold listBody? at h
  split at h
  · next rest =>
      rw [List.span_eq_takeWhile_dropWhile] at h
      dsimp only at h
      split at h
      · next hlast =>
          obtain rfl := Option.some.inj h
          rw [← hlast, List.takeWhile_append_dropWhile]
      · cases h
  · cases h

theorem publicHeaders_spec {statements : List (List Char)} {headers : List String}
    (h : publicHeaders (statements.filterMap assignmentOf) = .ok headers) :
    ListsHeaders statements headers := by
  unfold publicHeaders at h
  split at h
  · next name expression hone =>
      have hname : name = "public_headers" := by
        have hmem := hone ▸ List.mem_singleton_self (⟨name, "=", expression⟩ : Assignment)
        exact of_decide_eq_true (List.mem_filter.mp hmem).2
      split at h
      · cases h
      · next body hbody =>
          obtain ⟨members, hmembers, h⟩ := bind_eq_ok.mp h
          obtain ⟨names, hnames, h⟩ := bind_eq_ok.mp h
          obtain ⟨_, hchecked, h⟩ := bind_eq_ok.mp h
          obtain rfl := Except.ok.inj h
          obtain ⟨hne, hnodup⟩ := not_or.mp (raiseIf_eq_ok.mp hchecked)
          refine ⟨body, members, ?_, hmembers, ?_, hne, not_not.mp hnodup⟩
          · rw [hone, hname, of_listBody hbody]
          · refine (mapM_map_eq_ok hnames fun member _ name hmember => ?_).symm
            split at hmember
            · next file hfile =>
                obtain rfl := Except.ok.inj hmember
                exact (fileName?_eq_some.mp hfile).1.symm
            · cases hmember
  · cases h

/-! ## Calls -/

/-- Where there are as many library statements as calls, no other call is left. -/
theorem callCount_statement {pieces : List (List Char)}
    (hcount : (pieces.filter isLibrary).length =
      callCount libraryFunctions none (['\n'].intercalate pieces)) {piece : List Char}
    (hpiece : piece ∈ pieces) :
    callCount libraryFunctions none piece = (isLibrary piece).toNat := by
  by_contra hne
  have hmore : ∃ piece ∈ pieces, (isLibrary piece).toNat < callCount libraryFunctions none piece :=
    ⟨piece, hpiece, lt_of_le_of_ne (isLibrary_le_callCount piece) (Ne.symm hne)⟩
  have hless : (pieces.map fun piece => (isLibrary piece).toNat).sum <
      (pieces.map (callCount libraryFunctions none)).sum :=
    List.sum_lt_sum _ _ (fun piece _ => isLibrary_le_callCount piece) hmore
  have hsum : (pieces.map (callCount libraryFunctions none)).sum ≤
      callCount libraryFunctions none (['\n'].intercalate pieces) := sum_callCount_le _ rfl
  rw [← hcount, length_filter_eq_sum] at hsum
  omega

/-- Stripping loses no call. -/
theorem callCount_strip_le (piece : List Char) :
    callCount libraryFunctions none (strip piece) ≤ callCount libraryFunctions none piece := by
  obtain ⟨front, back, hpiece, hfront, -⟩ := strip_infix piece
  have hboundary : atBoundary (front.getLast?.or none) = true := atBoundary_getLast hfront rfl
  calc callCount libraryFunctions none (strip piece)
      = callCount libraryFunctions (front.getLast?.or none) (strip piece) :=
        callCount_boundary _ hboundary.symm
    _ ≤ callCount libraryFunctions none (front ++ strip piece) :=
        (Nat.le_add_left _ _).trans (callCount_append none front (strip piece))
    _ ≤ callCount libraryFunctions none (front ++ strip piece ++ back) :=
        (Nat.le_add_right _ _).trans (callCount_append none (front ++ strip piece) back)
    _ = callCount libraryFunctions none piece := by rw [← hpiece]

/-- **Discovery conserves sources.** When `meson_inputs` accepts a text, its headers are the
literals of the list of public headers, its sources are the C sources that occur in the source lists
and in the library calls, every such expression is supported, and no library call of the text is
anything but a statement. -/
theorem mesonInputs_conserves {text : String} {headers sources : List String}
    (h : mesonInputs text = .ok (headers, sources)) :
    ∃ statements, splitC (withoutComments text.toList) '\n' = .ok statements ∧
      ListsHeaders statements headers ∧
      (∀ references expression, SourcePosition statements references expression →
        Supported [".c", ".h"] references expression) ∧
      sources.Pairwise (· < ·) ∧
      (∀ source, source ∈ sources ↔ ∃ references expression,
        SourcePosition statements references expression ∧ SourceIn source expression) ∧
      callCount libraryFunctions none (withoutComments text.toList) =
        (statements.filter fun statement => (libraryArguments? statement).isSome).length ∧
      ∀ statement ∈ statements, callCount libraryFunctions none statement =
        (libraryArguments? statement).isSome.toNat := by
  rw [mesonInputs] at h
  obtain ⟨pieces, hjoined, hpieces, hcount⟩ := libraries_of_inputsOf h
  obtain ⟨statements, hstatements, h⟩ := bind_eq_ok.mp h
  dsimp only at h
  obtain ⟨headers', hheaders, h⟩ := bind_eq_ok.mp h
  obtain ⟨listed, hlisted, h⟩ := bind_eq_ok.mp h
  obtain ⟨called, hcalled, h⟩ := bind_eq_ok.mp h
  obtain ⟨_, -, h⟩ := bind_eq_ok.mp h
  obtain ⟨_, hlibraries, h⟩ := bind_eq_ok.mp h
  obtain ⟨_, -, h⟩ := bind_eq_ok.mp h
  obtain ⟨rfl, rfl⟩ := Prod.mk.inj (Except.ok.inj h)
  obtain ⟨hsupported, hsources⟩ := positions_spec hlisted hcalled
  refine ⟨statements, hstatements, publicHeaders_spec hheaders, hsupported, ?_, ?_, ?_, ?_⟩
  · exact sorted_lt (List.nodup_dedup _)
  · intro source
    rw [mem_sorted, List.mem_dedup]
    exact hsources source
  · have hequal := (not_or.mp (raiseIf_eq_ok.mp hlibraries)).2
    exact (not_not.mp hequal).symm
  · intro statement hstatement
    obtain rfl := Except.ok.inj (hstatements.symm.trans hpieces)
    obtain ⟨piece, hpiece, rfl⟩ := List.mem_map.mp (List.mem_filter.mp hstatement).1
    have hmost : callCount libraryFunctions none (strip piece) ≤ (isLibrary piece).toNat :=
      (callCount_strip_le piece).trans (callCount_statement (hjoined ▸ hcount) hpiece).le
    have hleast := isLibrary_le_callCount (strip piece)
    rw [isLibrary, strip_strip] at hleast
    exact le_antisymm hmost hleast

end

/-! ## A build file with a header among its sources -/

section Small

/-- A build file that lists a header among the sources of its library. -/
def headerText : List Char :=
  ("public_headers = ['a.h']\ninstall_headers(public_headers)\n" ++
    "library('flatpak', ['a.c'] + 'b.h')\n").toList

/-- The statements of the build file. -/
def headerStatements : List (List Char) :=
  ["public_headers = ['a.h']".toList, "install_headers(public_headers)".toList,
    "library('flatpak', ['a.c'] + 'b.h')".toList]

theorem accepted_headerText :
    @mesonInputs asciiWords (.ofList headerText) = .ok (["a.h"], ["a.c"]) :=
  accepted_small (by decide +kernel)

theorem mesonInputs_conserves_small :
    ∃ statements, splitC (withoutComments (String.ofList headerText).toList) '\n' = .ok statements ∧
      @ListsHeaders asciiWords statements ["a.h"] := by
  obtain ⟨statements, hstatements, hheaders, -⟩ :=
    @mesonInputs_conserves asciiWords _ _ _ accepted_headerText
  exact ⟨statements, hstatements, hheaders⟩

/-- **Headers may stand among the sources**: an expression that is no C source, no list and no known
name does not make discovery fail. -/
theorem mesonInputs_header :
    @mesonInputs asciiWords (.ofList headerText) = .ok (["a.h"], ["a.c"]) ∧
      splitC (withoutComments (String.ofList headerText).toList) '\n' = .ok headerStatements ∧
      ∃ references expression, @SourcePosition asciiWords headerStatements references expression ∧
        ¬ @Supported asciiWords [".c"] references expression := by
  have hposition : @SourcePosition asciiWords headerStatements _ "['a.c'] + 'b.h'".toList :=
    @SourcePosition.argument asciiWords headerStatements
      "library('flatpak', ['a.c'] + 'b.h')".toList "'flatpak', ['a.c'] + 'b.h'".toList
      "'flatpak'".toList "['a.c'] + 'b.h'".toList _ ["['a.c'] + 'b.h'".toList]
      (by simp [headerStatements]) (by decide +kernel) rfl (List.mem_singleton_self _)
      (.inl ⟨by decide +kernel, rfl⟩)
  refine ⟨accepted_headerText, ?_, _, _, hposition, ?_⟩
  · rfl
  · rintro ⟨hparts, hsupported⟩
    obtain rfl : _ = ["['a.c']".toList, "'b.h'".toList] := Except.ok.inj (hparts.symm.trans rfl)
    cases hsupported "'b.h'".toList (by simp) with
    | literal hname =>
        have hnone : fileName? [".c"] "'b.h'".toList = none := by decide +kernel
        rw [hnone] at hname
        cases hname
    | known hname => exact absurd hname (by decide +kernel)
    | indexed hname _ =>
        have hnone : @indexedName? asciiWords "'b.h'".toList = none := by decide +kernel
        rw [hnone] at hname
        cases hname

end Small

end FlatpakBlackbox
