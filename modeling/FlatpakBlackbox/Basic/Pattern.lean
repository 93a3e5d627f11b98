import Mathlib.Tactic

set_option autoImplicit false

/-! # Backtracking patterns with groups

The expressions of Python's `re` that look around and remember. A pattern is matched at a place of a
text and enumerates the places where its matches end, in the order in which they are tried, with the
groups that they have bound; the match is the first of them. `finditer` cuts the leftmost matches
out of a text, one behind the other (`pairwise_finditer`), for patterns that do not match the empty
text.
-/

namespace PyLib

/-- A place in a text and the groups that are bound there. What stands before the place is listed
with the nearest character first. -/
structure Cursor where
  before : List Char
  after : List Char
  groups : List (Nat × List Char)

/-- A pattern. -/
inductive Pattern where
  /-- One character of a class. -/
  | cls (p : Char → Bool)
  /-- The empty text. -/
  | eps
  /-- `\b`, for the characters of words. -/
  | boundary (p : Char → Bool)
  /-- `^` and `$` of `re.MULTILINE`. -/
  | lineStart
  | lineEnd
  /-- `$`: the end of the text, or of its last line. -/
  | textEnd
  | seq (r s : Pattern)
  | alt (r s : Pattern)
  /-- `r*`, greedy. -/
  | star (r : Pattern)
  /-- `r*?`, which takes as little as it can. -/
  | lazy (r : Pattern)
  /-- `(r)`, the group with this number. -/
  | group (n : Nat) (r : Pattern)
  /-- `\n`: the text of a group once more. -/
  | again (n : Nat)

namespace Pattern

/-! ## Ways to write a pattern -/

def seqs (patterns : List Pattern) : Pattern := patterns.foldr seq eps

/-- The characters of a text, one after the other. -/
def lit (text : String) : Pattern := seqs (text.toList.map fun c => cls (· == c))

/-- `r?`. -/
def opt (r : Pattern) : Pattern := alt r eps

/-- `r+`. -/
def plus (r : Pattern) : Pattern := seq r (star r)

/-! ## Matching -/

/-- The place behind the next characters. -/
def advance (c : Cursor) (n : Nat) : Cursor :=
  { c with before := (c.after.take n).reverse ++ c.before, after := c.after.drop n }

/-- Repeat a step that takes something off the text, as often as possible first. -/
def iterate (step : Cursor → List Cursor) : Nat → Cursor → List Cursor
  | 0, c => [c]
  | n + 1, c =>
      ((step c).filter fun c' => c'.after.length < c.after.length).flatMap (iterate step n) ++ [c]

/-- Repeat such a step, as rarely as possible first. -/
def iterateLazy (step : Cursor → List Cursor) : Nat → Cursor → List Cursor
  | 0, c => [c]
  | n + 1, c =>
      c :: ((step c).filter fun c' => c'.after.length < c.after.length).flatMap (iterateLazy step n)

/-- The places where the matches end, in the order of trying. -/
def ends : Pattern → Cursor → List Cursor
  | cls p, c => if c.after.head?.any p then [advance c 1] else []
  | eps, c => [c]
  | boundary p, c => if c.before.head?.any p != c.after.head?.any p then [c] else []
  | lineStart, c => if c.before.head?.all (· == '\n') then [c] else []
  | lineEnd, c => if c.after.head?.all (· == '\n') then [c] else []
  | textEnd, c => if c.after = [] ∨ c.after = ['\n'] then [c] else []
  | seq r s, c => (ends r c).flatMap (ends s)
  | alt r s, c => ends r c ++ ends s c
  | star r, c => iterate (ends r) c.after.length c
  | lazy r, c => iterateLazy (ends r) c.after.length c
  | group n r, c => (ends r c).map fun c' =>
      { c' with groups := (n, c.after.take (c.after.length - c'.after.length)) :: c'.groups }
  | again n, c =>
      match c.groups.lookup n with
      | none => []
      | some word => if word.isPrefixOf c.after then [advance c word.length] else []

/-- A match. -/
structure Match where
  before : List Char
  text : List Char
  after : List Char
  groups : List (Nat × List Char)

namespace Match

/-- `match.start()`. -/
def start (m : Match) : Nat := m.before.length

/-- `match.end()`. -/
def stop (m : Match) : Nat := m.before.length + m.text.length

/-- `match[n]`, and nothing for a group that took no part. -/
def group? (m : Match) (n : Nat) : Option String := (m.groups.lookup n).map String.ofList

/-- `match[n]` of a group that takes part in every match. -/
def group (m : Match) (n : Nat) : String := (m.group? n).getD ""

end Match

/-- The match between two places. -/
def between (c c' : Cursor) : Match :=
  ⟨c.before.reverse, c.after.take (c.after.length - c'.after.length), c'.after, c'.groups⟩

def matchAt (r : Pattern) (c : Cursor) : Option Match := (r.ends c).head?.map (between c)

/-- `re.match(r, text)`. -/
def match? (r : Pattern) (text : List Char) : Option Match := matchAt r ⟨[], text, []⟩

/-- `re.fullmatch(r, text)`. -/
def fullmatch? (r : Pattern) (text : List Char) : Option Match :=
  ((r.ends ⟨[], text, []⟩).find? fun c => c.after.isEmpty).map (between ⟨[], text, []⟩)

def searchFrom (r : Pattern) : List Char → List Char → Option Match
  | before, [] => matchAt r ⟨before, [], []⟩
  | before, c :: rest => (matchAt r ⟨before, c :: rest, []⟩).or (searchFrom r (c :: before) rest)

/-- `re.search(r, text)`. -/
def search? (r : Pattern) (text : List Char) : Option Match := searchFrom r [] text

/-- The matches in what follows a place, of which so many characters belong to a match already. -/
def iterFrom (r : Pattern) : Nat → List Char → List Char → List Match
  | _, _, [] => []
  | k + 1, before, c :: rest => iterFrom r k (c :: before) rest
  | 0, before, c :: rest =>
      match matchAt r ⟨before, c :: rest, []⟩ with
      | none => iterFrom r 0 (c :: before) rest
      | some m =>
          if m.text = [] then iterFrom r 0 (c :: before) rest
          else m :: iterFrom r (m.text.length - 1) (c :: before) rest

/-- `re.finditer(r, text)`, for a pattern that does not match the empty text. -/
def finditer (r : Pattern) (text : List Char) : List Match := iterFrom r 0 [] text

/-- What the text becomes behind a place. -/
def subFrom (r : Pattern) (f : Match → List Char) : Nat → List Char → List Char → List Char
  | _, _, [] => []
  | k + 1, before, c :: rest => subFrom r f k (c :: before) rest
  | 0, before, c :: rest =>
      match matchAt r ⟨before, c :: rest, []⟩ with
      | none => c :: subFrom r f 0 (c :: before) rest
      | some m =>
          if m.text = [] then c :: subFrom r f 0 (c :: before) rest
          else f m ++ subFrom r f (m.text.length - 1) (c :: before) rest

/-- `re.sub(r, f, text)`, for such a pattern. -/
def sub (r : Pattern) (f : Match → List Char) (text : List Char) : List Char :=
  subFrom r f 0 [] text

/-! ## What a match takes -/

/-- The texts that a pattern takes, whatever stands around them. -/
inductive Accepts : Pattern → List Char → Prop where
  | cls {p : Char → Bool} {c : Char} (h : p c = true) : Accepts (cls p) [c]
  | eps : Accepts eps []
  | boundary (p : Char → Bool) : Accepts (boundary p) []
  | lineStart : Accepts lineStart []
  | lineEnd : Accepts lineEnd []
  | textEnd : Accepts textEnd []
  | seq {r s : Pattern} {u v : List Char} (hr : Accepts r u) (hs : Accepts s v) :
      Accepts (seq r s) (u ++ v)
  | left {r s : Pattern} {u : List Char} (h : Accepts r u) : Accepts (alt r s) u
  | right {r s : Pattern} {u : List Char} (h : Accepts s u) : Accepts (alt r s) u
  | starNil (r : Pattern) : Accepts (star r) []
  | starCons {r : Pattern} {u v : List Char} (h : Accepts r u) (hrest : Accepts (star r) v) :
      Accepts (star r) (u ++ v)
  | lazyNil (r : Pattern) : Accepts (lazy r) []
  | lazyCons {r : Pattern} {u v : List Char} (h : Accepts r u) (hrest : Accepts (lazy r) v) :
      Accepts (lazy r) (u ++ v)
  | group {n : Nat} {r : Pattern} {u : List Char} (h : Accepts r u) : Accepts (group n r) u
  | again (n : Nat) (u : List Char) : Accepts (again n) u

/-- The texts that a group of the pattern takes. -/
def Captures : Pattern → Nat → List Char → Prop
  | seq r s, n, u => Captures r n u ∨ Captures s n u
  | alt r s, n, u => Captures r n u ∨ Captures s n u
  | star r, n, u => Captures r n u
  | lazy r, n, u => Captures r n u
  | group m r, n, u => m = n ∧ Accepts r u ∨ Captures r n u
  | _, _, _ => False

/-- The groups that take part in every match. -/
def binds : Pattern → Nat → Bool
  | seq r s, n => binds r n || binds s n
  | alt r s, n => binds r n && binds s n
  | group m r, n => m = n || binds r n
  | _, _ => false

/-- Between two places stands a text of the pattern, and the groups that are bound there are groups
of the pattern. -/
def Moves (P : List Char → Prop) (G : Nat → List Char → Prop) (c c' : Cursor) : Prop :=
  ∃ taken, P taken ∧ c.after = taken ++ c'.after ∧ c'.before = taken.reverse ++ c.before
    ∧ ∃ bound, c'.groups = bound ++ c.groups ∧ ∀ n u, (n, u) ∈ bound → G n u

theorem Moves.here {P : List Char → Prop} (G : Nat → List Char → Prop) (h : P []) (c : Cursor) :
    Moves P G c c :=
  ⟨[], h, rfl, rfl, [], rfl, fun _ _ hbound => absurd hbound List.not_mem_nil⟩

theorem Moves.trans {P Q S : List Char → Prop} {G : Nat → List Char → Prop} {a b c : Cursor}
    (h : Moves P G a b) (h' : Moves Q G b c) (hS : ∀ u v, P u → Q v → S (u ++ v)) :
    Moves S G a c := by
  obtain ⟨first, hfirst, hafter, hbefore, bound, hgroups, hbound⟩ := h
  obtain ⟨second, hsecond, hafter', hbefore', bound', hgroups', hbound'⟩ := h'
  refine ⟨first ++ second, hS _ _ hfirst hsecond, ?_, ?_, bound' ++ bound, ?_, fun n u hmem => ?_⟩
  · rw [hafter, hafter', List.append_assoc]
  · rw [hbefore', hbefore, List.reverse_append, List.append_assoc]
  · rw [hgroups', hgroups, List.append_assoc]
  · rcases List.mem_append.mp hmem with hmem | hmem
    · exact hbound' n u hmem
    · exact hbound n u hmem

theorem Moves.mono {P Q : List Char → Prop} {G H : Nat → List Char → Prop} {c c' : Cursor}
    (h : Moves P G c c') (hP : ∀ u, P u → Q u) (hG : ∀ n u, G n u → H n u) : Moves Q H c c' := by
  obtain ⟨taken, htaken, hafter, hbefore, bound, hgroups, hbound⟩ := h
  refine ⟨taken, hP _ htaken, hafter, hbefore, bound, hgroups, fun n u hmem => ?_⟩
  exact hG n u (hbound n u hmem)

theorem moves_advance {P : List Char → Prop} (G : Nat → List Char → Prop) (c : Cursor) (n : Nat)
    (h : P (c.after.take n)) : Moves P G c (advance c n) :=
  ⟨_, h, (List.take_append_drop n c.after).symm, rfl, [], rfl,
    fun _ _ hbound => absurd hbound List.not_mem_nil⟩

section Iterate

variable {P Q : List Char → Prop} {G : Nat → List Char → Prop} {step : Cursor → List Cursor}

theorem moves_of_mem_iterate (h : ∀ c, ∀ c' ∈ step c, Moves P G c c') (hnil : Q [])
    (hcons : ∀ u v, P u → Q v → Q (u ++ v)) (n : Nat) {c c' : Cursor}
    (hc : c' ∈ iterate step n c) : Moves Q G c c' := by
  induction n generalizing c with
  | zero =>
      obtain rfl := List.mem_singleton.mp hc
      exact Moves.here G hnil c'
  | succ n ih =>
      rcases List.mem_append.mp hc with hc | hc
      · obtain ⟨next, hnext, hc⟩ := List.mem_flatMap.mp hc
        exact (h c next (List.mem_of_mem_filter hnext)).trans (ih hc) hcons
      · obtain rfl := List.mem_singleton.mp hc
        exact Moves.here G hnil c'

theorem moves_of_mem_iterateLazy (h : ∀ c, ∀ c' ∈ step c, Moves P G c c') (hnil : Q [])
    (hcons : ∀ u v, P u → Q v → Q (u ++ v)) (n : Nat) {c c' : Cursor}
    (hc : c' ∈ iterateLazy step n c) : Moves Q G c c' := by
  induction n generalizing c with
  | zero =>
      obtain rfl := List.mem_singleton.mp hc
      exact Moves.here G hnil c'
  | succ n ih =>
      rcases List.mem_cons.mp hc with rfl | hc
      · exact Moves.here G hnil c'
      · obtain ⟨next, hnext, hc⟩ := List.mem_flatMap.mp hc
        exact (h c next (List.mem_of_mem_filter hnext)).trans (ih hc) hcons

end Iterate

/-- **A match takes a text of its pattern**, and so do its groups. -/
theorem moves_of_mem_ends (r : Pattern) {c c' : Cursor} (h : c' ∈ r.ends c) :
    Moves r.Accepts r.Captures c c' := by
  have hhere : ∀ {b : Bool} {r : Pattern} {c c' : Cursor}, r.Accepts [] →
      (c' ∈ if b then [c] else []) → Moves r.Accepts r.Captures c c' := by
    intro b r c c' hr hc
    cases b with
    | false => cases hc
    | true =>
        obtain rfl := List.mem_singleton.mp hc
        exact Moves.here _ hr c'
  induction r generalizing c c' with
  | cls p =>
      rw [ends] at h
      split at h
      · next hp =>
          obtain rfl := List.mem_singleton.mp h
          obtain ⟨d, hd, hpd⟩ := (Option.any_eq_true _ _).mp hp
          obtain ⟨rest, hrest⟩ := List.head?_eq_some_iff.mp hd
          refine moves_advance _ c 1 ?_
          rw [hrest]
          exact Accepts.cls hpd
      · cases h
  | eps =>
      obtain rfl := List.mem_singleton.mp h
      exact Moves.here _ Accepts.eps c'
  | boundary p => exact hhere (Accepts.boundary p) h
  | lineStart => exact hhere Accepts.lineStart h
  | lineEnd => exact hhere Accepts.lineEnd h
  | textEnd =>
      rw [ends] at h
      split at h
      · obtain rfl := List.mem_singleton.mp h
        exact Moves.here _ Accepts.textEnd c'
      · cases h
  | seq r s ihr ihs =>
      obtain ⟨middle, hmiddle, hc⟩ := List.mem_flatMap.mp h
      -- The groups of both parts are groups of the whole.
      have hr : Moves r.Accepts (seq r s).Captures _ _ :=
        (ihr hmiddle).mono (fun _ h => h) fun _ _ => Or.inl
      have hs : Moves s.Accepts (seq r s).Captures _ _ :=
        (ihs hc).mono (fun _ h => h) fun _ _ => Or.inr
      exact hr.trans hs fun _ _ => Accepts.seq
  | alt r s ihr ihs =>
      rcases List.mem_append.mp h with h | h
      · exact (ihr h).mono (fun _ => Accepts.left) fun _ _ => Or.inl
      · exact (ihs h).mono (fun _ => Accepts.right) fun _ _ => Or.inr
  | star r ih =>
      exact moves_of_mem_iterate (fun _ _ h => ih h) (Accepts.starNil r)
        (fun _ _ => Accepts.starCons) _ h
  | lazy r ih =>
      exact moves_of_mem_iterateLazy (fun _ _ h => ih h) (Accepts.lazyNil r)
        (fun _ _ => Accepts.lazyCons) _ h
  | group n r ih =>
      obtain ⟨inner, hinner, rfl⟩ := List.mem_map.mp h
      obtain ⟨taken, htaken, hafter, hbefore, bound, hgroups, hbound⟩ := ih hinner
      -- What the group is bound to is what was taken.
      have htext : c.after.take (c.after.length - inner.after.length) = taken := by
        have hlength : c.after.length - inner.after.length = taken.length := by
          rw [hafter, List.length_append]
          omega
        rw [hlength, hafter, List.take_left]
      refine ⟨taken, Accepts.group htaken, hafter, hbefore, (n, taken) :: bound, ?_,
        fun m u hmem => ?_⟩
      · rw [htext, hgroups, List.cons_append]
      · rcases List.mem_cons.mp hmem with hnew | hmem
        · obtain ⟨rfl, rfl⟩ := Prod.mk.inj hnew
          exact Or.inl ⟨rfl, htaken⟩
        · exact Or.inr (hbound m u hmem)
  | again n =>
      rw [ends] at h
      split at h
      · cases h
      · split at h
        · obtain rfl := List.mem_singleton.mp h
          exact moves_advance _ c _ (Accepts.again n _)
        · cases h

/-- The groups of a place are kept. -/
theorem groups_of_mem_ends {r : Pattern} {c c' : Cursor} (h : c' ∈ r.ends c)
    {entry : Nat × List Char}
    (hentry : entry ∈ c.groups) : entry ∈ c'.groups := by
  obtain ⟨_, _, _, _, bound, hgroups, _⟩ := moves_of_mem_ends r h
  rw [hgroups]
  exact List.mem_append_right bound hentry

theorem exists_bound {r : Pattern} {n : Nat} (hbinds : r.binds n = true) {c c' : Cursor}
    (h : c' ∈ r.ends c) : ∃ u, (n, u) ∈ c'.groups := by
  induction r generalizing c c' with
  | seq r s ihr ihs =>
      obtain ⟨middle, hmiddle, hc⟩ := List.mem_flatMap.mp h
      rcases Bool.or_eq_true_iff.mp hbinds with hr | hs
      · obtain ⟨u, hu⟩ := ihr hr hmiddle
        exact ⟨u, groups_of_mem_ends hc hu⟩
      · exact ihs hs hc
  | alt r s ihr ihs =>
      obtain ⟨hr, hs⟩ := Bool.and_eq_true_iff.mp hbinds
      rcases List.mem_append.mp h with h | h
      · exact ihr hr h
      · exact ihs hs h
  | group m r ih =>
      obtain ⟨inner, hinner, rfl⟩ := List.mem_map.mp h
      rcases Bool.or_eq_true_iff.mp hbinds with hm | hr
      · obtain rfl := of_decide_eq_true hm
        exact ⟨_, List.mem_cons_self⟩
      · obtain ⟨u, hu⟩ := ih hr hinner
        exact ⟨u, List.mem_cons_of_mem _ hu⟩
  | _ => cases hbinds

/-! ## Matches -/

/-- A match of a pattern, wherever it was looked for. -/
def IsMatch (r : Pattern) (m : Match) : Prop :=
  ∃ c c' : Cursor, c.groups = [] ∧ c' ∈ r.ends c ∧ m = between c c'

theorem isMatch_of_matchAt {r : Pattern} {before after : List Char} {m : Match}
    (h : matchAt r ⟨before, after, []⟩ = some m) : r.IsMatch m := by
  obtain ⟨c', hc', rfl⟩ := Option.map_eq_some_iff.mp h
  exact ⟨_, c', rfl, List.mem_of_head? hc', rfl⟩

theorem isMatch_of_fullmatch? {r : Pattern} {text : List Char} {m : Match}
    (h : fullmatch? r text = some m) : r.IsMatch m ∧ r.Accepts text := by
  obtain ⟨c', hc', rfl⟩ := Option.map_eq_some_iff.mp h
  have hends := List.mem_of_find?_eq_some hc'
  refine ⟨⟨_, c', rfl, hends, rfl⟩, ?_⟩
  obtain ⟨taken, htaken, hafter, -⟩ := moves_of_mem_ends r hends
  have hempty : c'.after = [] :=
    List.isEmpty_iff.mp (List.find?_some (p := fun c : Cursor => c.after.isEmpty) hc')
  rw [hempty, List.append_nil] at hafter
  obtain rfl : text = taken := hafter
  exact htaken

theorem isMatch_of_search? {r : Pattern} {text : List Char} {m : Match}
    (h : search? r text = some m) : r.IsMatch m := by
  have hfrom : ∀ (after before : List Char), searchFrom r before after = some m → r.IsMatch m := by
    intro after
    induction after with
    | nil => exact fun before h => isMatch_of_matchAt h
    | cons c rest ih =>
        intro before h
        rcases Option.or_eq_some_iff.mp h with h | ⟨-, h⟩
        · exact isMatch_of_matchAt h
        · exact ih _ h
  exact hfrom text [] h

/-- **A group that takes part in every match** holds a text that it takes. -/
theorem IsMatch.group_spec {r : Pattern} {m : Match} (h : r.IsMatch m) {n : Nat}
    (hbinds : r.binds n = true) : ∃ u, m.group n = String.ofList u ∧ r.Captures n u := by
  obtain ⟨c, c', hnone, hends, rfl⟩ := h
  -- The group is bound, and all that is bound was bound within this match.
  obtain ⟨u, hu⟩ := exists_bound hbinds hends
  obtain ⟨v, hv⟩ : ∃ v, c'.groups.lookup n = some v := by
    refine Option.isSome_iff_exists.mp (List.lookup_isSome_iff.mpr ⟨(n, u), hu, ?_⟩)
    exact beq_self_eq_true n
  obtain ⟨_, _, _, _, bound, hgroups, hbound⟩ := moves_of_mem_ends r hends
  rw [hnone, List.append_nil] at hgroups
  refine ⟨v, ?_, hbound n v ?_⟩
  · show ((c'.groups.lookup n).map String.ofList).getD "" = _
    rw [hv]
    rfl
  · rw [← hgroups]
    obtain ⟨front, back, heq, -⟩ := List.lookup_eq_some_iff.mp hv
    rw [heq]
    exact List.mem_append_right front List.mem_cons_self

/-- A match stands at its place. -/
theorem matchAt_spec {r : Pattern} {c : Cursor} {m : Match} (h : matchAt r c = some m) :
    m.before = c.before.reverse ∧ m.text ++ m.after = c.after := by
  obtain ⟨c', hc', rfl⟩ := Option.map_eq_some_iff.mp h
  obtain ⟨taken, -, hafter, -⟩ := moves_of_mem_ends r (List.mem_of_head? hc')
  refine ⟨rfl, ?_⟩
  show c.after.take (c.after.length - c'.after.length) ++ c'.after = c.after
  have hlength : c.after.length - c'.after.length = taken.length := by
    rw [hafter, List.length_append]
    omega
  rw [hlength, hafter, List.take_left]

/-! ## What the common patterns take -/

section Common

variable {r s : Pattern} {p : Char → Bool} {u : List Char}

theorem accepts_seq : (seq r s).Accepts u ↔ ∃ a b, u = a ++ b ∧ r.Accepts a ∧ s.Accepts b := by
  constructor
  · intro h
    cases h with
    | seq hr hs => exact ⟨_, _, rfl, hr, hs⟩
  · rintro ⟨a, b, rfl, hr, hs⟩
    exact .seq hr hs

theorem accepts_eps : eps.Accepts u ↔ u = [] := by
  constructor
  · intro h
    cases h
    rfl
  · rintro rfl
    exact .eps

theorem accepts_star_cls (h : (star (cls p)).Accepts u) : ∀ c ∈ u, p c = true := by
  -- The induction is on what was accepted, for whatever pattern equals this one.
  generalize hr : star (cls p) = r at h
  induction h with
  | starNil _ => exact fun c hc => absurd hc List.not_mem_nil
  | starCons hfirst _ _ ih =>
      obtain rfl := star.inj hr
      cases hfirst with
      | cls hp =>
          intro c hc
          rcases List.mem_append.mp hc with hc | hc
          · rw [List.mem_singleton.mp hc]
            exact hp
          · exact ih rfl c hc
  | _ => cases hr

/-- One or more characters of a class. -/
theorem accepts_plus_cls (h : (plus (cls p)).Accepts u) : u ≠ [] ∧ ∀ c ∈ u, p c = true := by
  cases h with
  | seq hfirst hrest =>
      cases hfirst with
      | cls hp =>
          refine ⟨List.cons_ne_nil _ _, fun c hc => ?_⟩
          rcases List.mem_cons.mp hc with rfl | hc
          · exact hp
          · exact accepts_star_cls hrest c hc

theorem accepts_lit {text : String} (h : (lit text).Accepts u) : u = text.toList := by
  have hseqs : ∀ (word u : List Char), (seqs (word.map fun c => cls (· == c))).Accepts u →
    u = word := by
    intro word
    induction word with
    | nil =>
        intro u h
        cases h
        rfl
    | cons c word ih =>
        intro u h
        cases h with
        | seq hfirst hrest =>
            cases hfirst with
            | cls hc => rw [ih _ hrest, beq_iff_eq.mp hc, List.singleton_append]
  exact hseqs _ u h

/-- A fixed text has no groups. -/
theorem not_captures_lit {text : String} {n : Nat} : ¬ (lit text).Captures n u := by
  have hseqs : ∀ word : List Char, ¬ (seqs (word.map fun c => cls (· == c))).Captures n u := by
    intro word
    induction word with
    | nil => exact id
    | cons c word ih => exact fun h => h.elim id ih
  exact hseqs text.toList

end Common

/-! ## The matches in a text -/

theorem mem_iterFrom {r : Pattern} {m : Match} (k : Nat) (before rest : List Char)
    (h : m ∈ iterFrom r k before rest) : before.length + k ≤ m.start ∧ m.text ≠ []
      ∧ m.before ++ m.text ++ m.after = before.reverse ++ rest ∧ r.IsMatch m := by
  induction rest generalizing k before with
  | nil => cases k <;> cases h
  | cons c rest ih =>
      -- The matches behind the next character, of which `k'` more belong to a match.
      have hnext : ∀ k', m ∈ iterFrom r k' (c :: before) rest →
          before.length + 1 + k' ≤ m.start ∧ m.text ≠ []
            ∧ m.before ++ m.text ++ m.after = before.reverse ++ c :: rest ∧ r.IsMatch m := by
        intro k' hm
        simpa using ih k' (c :: before) hm
      cases k with
      | succ k =>
          obtain ⟨hstart, hrest⟩ := hnext k h
          exact ⟨by omega, hrest⟩
      | zero =>
          rw [iterFrom] at h
          split at h
          · obtain ⟨hstart, hrest⟩ := hnext 0 h
            exact ⟨by omega, hrest⟩
          · next found hfound =>
              split at h
              · obtain ⟨hstart, hrest⟩ := hnext 0 h
                exact ⟨by omega, hrest⟩
              · next htext =>
                  rcases List.mem_cons.mp h with rfl | h
                  · obtain ⟨hbefore, hafter⟩ := matchAt_spec hfound
                    refine ⟨?_, htext, ?_, isMatch_of_matchAt hfound⟩
                    · show before.length + 0 ≤ m.before.length
                      simp [hbefore]
                    · rw [List.append_assoc, hafter, hbefore]
                  · obtain ⟨hstart, hrest⟩ := hnext _ h
                    exact ⟨by omega, hrest⟩

/-- A match in a text is a part of it. -/
theorem of_mem_finditer {r : Pattern} {text : List Char} {m : Match} (h : m ∈ finditer r text) :
    m.text ≠ [] ∧ m.before ++ m.text ++ m.after = text ∧ r.IsMatch m :=
  (mem_iterFrom 0 [] text h).2

/-- **The matches in a text follow one another.** -/
theorem pairwise_finditer (r : Pattern) (text : List Char) :
    (finditer r text).Pairwise fun m m' => m.stop ≤ m'.start := by
  have hfrom : ∀ (rest before : List Char) (k : Nat),
      (iterFrom r k before rest).Pairwise fun m m' => m.stop ≤ m'.start := by
    intro rest
    induction rest with
    | nil => intro before k; cases k <;> exact List.Pairwise.nil
    | cons c rest ih =>
        intro before k
        cases k with
        | succ k => exact ih _ _
        | zero =>
            rw [iterFrom]
            split
            · exact ih _ _
            · next found hfound =>
                split
                · exact ih _ _
                · next htext =>
                    refine List.pairwise_cons.mpr ⟨fun m' hm' => ?_, ih _ _⟩
                    -- The next match starts behind the characters of this one.
                    have hstart := (mem_iterFrom _ _ rest hm').1
                    have hbefore := (matchAt_spec hfound).1
                    have hpos := List.length_pos_iff.mpr htext
                    show found.before.length + found.text.length ≤ m'.start
                    simp only [hbefore, List.length_reverse, List.length_cons] at hstart ⊢
                    omega
  exact hfrom text [] 0

/-- The ends of the matches in a text are distinct. -/
theorem nodup_stops (r : Pattern) (text : List Char) :
    ((finditer r text).map Match.stop).Nodup := by
  refine List.pairwise_map.mpr ((List.Pairwise.and_mem.mp (pairwise_finditer r text)).imp ?_)
  intro m m' h hstop
  have hpos := List.length_pos_iff.mpr (of_mem_finditer h.2.1).1
  have hle := h.2.2
  simp only [Match.stop, Match.start] at hle hstop
  omega

end Pattern

end PyLib
