import FlatpakBlackbox.Web.Whitelist
import Mathlib.Algebra.Order.BigOperators.Group.List

set_option autoImplicit false

/-! # The budget of the failure details

What `diagnosticCase` shows of the texts of a failed result. Every text is shown from its start, up
to the limit of a field and to what is left of the budget; the budget goes to the errors and then to
the most recent record first, while the records are shown in the order of execution. The flag of the
details says whether anything is missing.
-/

namespace FlatpakBlackbox

open PyLib

/-! ## Starts of texts -/

/-- `body` is the start of `text`. Where it ends within a pair, half of the pair stands as the
replacement character. -/
def Starts (text body : List Char) : Prop :=
  body <+: text ∨ ∃ start c rest,
    text = start ++ c :: rest ∧ codeUnits c = 2 ∧ body = start ++ ['\uFFFD']

theorem codeUnits_eq (c : Char) : codeUnits c = 1 ∨ codeUnits c = 2 := by
  unfold codeUnits
  split
  · exact .inl rfl
  · exact .inr rfl

/-- A slice has the length that is asked for. -/
theorem sum_sliceUnits (cs : List Char) (n : Nat) (h : n ≤ (cs.map codeUnits).sum) :
    ((sliceUnits n cs).map codeUnits).sum = n := by
  induction cs generalizing n with
  | nil => exact (Nat.le_zero.mp h).symm
  | cons c cs ih =>
      rw [List.map_cons, List.sum_cons] at h
      unfold sliceUnits
      by_cases hfits : codeUnits c ≤ n
      · rw [if_pos hfits, List.map_cons, List.sum_cons, ih (n - codeUnits c) (by omega)]
        omega
      · rw [if_neg hfits]
        by_cases hn : n = 0
        · rw [if_pos hn, hn]
          rfl
        · have hone : n = 1 := by
            rcases codeUnits_eq c with hc | hc <;> omega
          rw [if_neg hn, hone]
          decide

theorem starts_sliceUnits (cs : List Char) (n : Nat) : Starts cs (sliceUnits n cs) := by
  induction cs generalizing n with
  | nil => exact .inl (List.prefix_refl [])
  | cons c cs ih =>
      unfold sliceUnits
      by_cases hfits : codeUnits c ≤ n
      · rw [if_pos hfits]
        rcases ih (n - codeUnits c) with hprefix | ⟨start, d, rest, htext, hunits, hbody⟩
        · exact .inl (List.cons_prefix_cons.mpr ⟨rfl, hprefix⟩)
        · exact .inr ⟨c :: start, d, rest, by rw [htext, List.cons_append], hunits,
            by rw [hbody, List.cons_append]⟩
      · rw [if_neg hfits]
        by_cases hn : n = 0
        · rw [if_pos hn]
          exact .inl List.nil_prefix
        · have hunits : codeUnits c = 2 := by
            rcases codeUnits_eq c with hc | hc <;> omega
          rw [if_neg hn]
          exact .inr ⟨[], c, cs, rfl, hunits, rfl⟩

theorem jsLength_jsSlice {text : String} {n : Nat} (h : n ≤ jsLength text) :
    jsLength (jsSlice text n) = n := by
  unfold jsLength jsSlice
  rw [String.toList_ofList]
  exact sum_sliceUnits text.toList n h

theorem starts_jsSlice (text : String) (n : Nat) : Starts text.toList (jsSlice text n).toList := by
  unfold jsSlice
  rw [String.toList_ofList]
  exact starts_sliceUnits text.toList n

/-! ## Pieces -/

/-- A text and the start of it that is shown; `none` where the text is left out. -/
structure Piece where
  text : String
  body : Option String

namespace Piece

/-- The length of what is shown, without the marker. -/
def length (p : Piece) : Nat := (p.body.map jsLength).getD 0

/-- The text was cut or left out. -/
def Lost (p : Piece) : Prop := p.body ≠ some p.text

/-- What is published: the marker stands after a text that was cut. -/
def shown (p : Piece) : Option String :=
  p.body.map fun body => if body = p.text then body else body ++ "\n[truncated]"

/-- What is shown is a start of the text and keeps the limit of a field. -/
structure Fits (p : Piece) : Prop where
  starts : ∀ body ∈ p.body, Starts p.text.toList body.toList
  limit : p.length ≤ fieldLimit

end Piece

/-- The pieces are paid from the budget, and the flag is set if something of them is lost. -/
structure Spends (pieces : List Piece) (before after : Budget) : Prop where
  fits : ∀ p ∈ pieces, p.Fits
  spent : (pieces.map Piece.length).sum + after.remaining = before.remaining
  truncated : after.truncated = true ↔ before.truncated = true ∨ ∃ p ∈ pieces, p.Lost

namespace Spends

variable {pieces pieces' : List Piece} {before after after' : Budget}

theorem nil (budget : Budget) : Spends [] budget budget where
  fits _ hp := nomatch hp
  spent := Nat.zero_add _
  truncated := ⟨.inl, fun h => h.elim id fun ⟨_, hp, _⟩ => nomatch hp⟩

/-- One budget after the other. -/
theorem append (h : Spends pieces before after) (h' : Spends pieces' after after') :
    Spends (pieces ++ pieces') before after' where
  fits p hp := (List.mem_append.mp hp).elim (h.fits p) (h'.fits p)
  spent := by
    have hspent := h.spent
    have hspent' := h'.spent
    rw [List.map_append, List.sum_append]
    omega
  truncated := by
    rw [h'.truncated, h.truncated, or_assoc]
    refine or_congr Iff.rfl ⟨?_, ?_⟩
    · rintro (⟨p, hp, hlost⟩ | ⟨p, hp, hlost⟩)
      · exact ⟨p, List.mem_append_left _ hp, hlost⟩
      · exact ⟨p, List.mem_append_right _ hp, hlost⟩
    · rintro ⟨p, hp, hlost⟩
      rcases List.mem_append.mp hp with hp | hp
      · exact .inl ⟨p, hp, hlost⟩
      · exact .inr ⟨p, hp, hlost⟩

/-- The order in which the pieces are paid does not matter. -/
theorem perm (h : Spends pieces before after) (hperm : pieces.Perm pieces') :
    Spends pieces' before after where
  fits p hp := h.fits p (hperm.mem_iff.mpr hp)
  spent := by
    rw [← (hperm.map Piece.length).sum_eq]
    exact h.spent
  truncated := by
    rw [h.truncated]
    simp only [hperm.mem_iff]

end Spends

/-- `bounded` shows a start of the text and pays for it. -/
theorem bounded_spec (budget : Budget) (text : String) : ∃ body,
    Piece.shown ⟨text, some body⟩ = some (bounded budget text).1 ∧
      Spends [⟨text, some body⟩] budget (bounded budget text).2 := by
  have hlength : min budget.remaining fieldLimit ≤ fieldLimit := min_le_right _ _
  have hremaining : min budget.remaining fieldLimit ≤ budget.remaining := min_le_left _ _
  unfold bounded
  generalize min budget.remaining fieldLimit = length at hlength hremaining
  by_cases hfits : jsLength text ≤ length
  · simp only [if_pos hfits]
    refine ⟨text, by rw [Piece.shown, Option.map_some, if_pos rfl], ?_, ?_, ?_⟩
    · rintro p hp
      obtain rfl := List.mem_singleton.mp hp
      refine ⟨?_, le_trans (show jsLength text ≤ _ from hfits) hlength⟩
      rintro body hbody
      obtain rfl := Option.some.inj hbody
      exact .inl (List.prefix_refl _)
    · show jsLength text + 0 + (budget.remaining - min (jsLength text) length) = _
      omega
    · simp only [List.mem_singleton, exists_eq_left, Piece.Lost, ne_eq, not_true_eq_false, or_false]
  · have hcut : jsLength (jsSlice text length) = length := jsLength_jsSlice (by omega)
    have hne : jsSlice text length ≠ text := by
      intro heq
      rw [heq] at hcut
      omega
    simp only [if_neg hfits]
    refine ⟨jsSlice text length, by rw [Piece.shown, Option.map_some, if_neg hne], ?_, ?_, ?_⟩
    · rintro p hp
      obtain rfl := List.mem_singleton.mp hp
      refine ⟨?_, le_trans (show jsLength _ ≤ _ from hcut.le) hlength⟩
      rintro body hbody
      obtain rfl := Option.some.inj hbody
      exact starts_jsSlice text length
    · show jsLength _ + 0 + (budget.remaining - min (jsLength text) length) = _
      omega
    · have hlost : Piece.Lost ⟨text, some (jsSlice text length)⟩ := fun h => hne (Option.some.inj h)
      simp only [List.mem_singleton, exists_eq_left, hlost, or_true]

/-! ## The evidence -/

section Evidence

variable {stringify : Value → String}

/-- The text of a kept field of the record at `index`, with its title. -/
def fieldText (stringify : Value → String) (index : Nat) (record : Dict String Value)
    (field : String × String) : Option (String × String) :=
  match record.get? field.1 with
  | none => none
  | some (.str "") => none
  | some value => some (s!"Evidence {index + 1}: {field.2}", fieldBody stringify value)

/-- The texts of the kept fields of a record. -/
def recordTexts (stringify : Value → String) (index : Nat) (record : Dict String Value)
    (fields : List (String × String)) : List (String × String) :=
  fields.filterMap (fieldText stringify index record)

/-- The texts of the last records, in the order of execution. -/
def evidenceTexts (stringify : Value → String) (evidence : List (Dict String Value)) :
    List (String × String) :=
  (evidence.zipIdx.drop (evidence.length - recordLimit)).flatMap fun entry =>
    recordTexts stringify entry.2 entry.1 diagnosticFields

/-- The titles and texts of pieces. -/
def titledTexts (pieces : List (String × Piece)) : List (String × String) :=
  pieces.map fun p => (p.1, p.2.text)

/-- The evidence that is published of pieces. -/
def shownEvidence (pieces : List (String × Piece)) : List FailureEvidence :=
  pieces.filterMap fun p => p.2.shown.map fun body => ⟨p.1, body⟩

/-- The texts are shown by pieces that are paid from the budget. -/
def Retains (texts : List (String × String)) (retained : List FailureEvidence)
    (before after : Budget) : Prop :=
  ∃ pieces, titledTexts pieces = texts ∧ shownEvidence pieces = retained ∧
    Spends (pieces.map Prod.snd) before after

theorem Retains.nil (budget : Budget) : Retains [] [] budget budget :=
  ⟨[], rfl, rfl, .nil budget⟩

/-- One loop after the other: the budget need not go in the order of the texts. -/
theorem Retains.append {texts texts' : List (String × String)}
    {retained retained' : List FailureEvidence} {before between after : Budget}
    (h : Retains texts retained before between ∧ Retains texts' retained' between after ∨
      Retains texts' retained' before between ∧ Retains texts retained between after) :
    Retains (texts ++ texts') (retained ++ retained') before after := by
  have hpieces : ∀ pieces pieces' : List (String × Piece),
      titledTexts (pieces ++ pieces') = titledTexts pieces ++ titledTexts pieces' ∧
      shownEvidence (pieces ++ pieces') = shownEvidence pieces ++ shownEvidence pieces' :=
        fun _ _ =>
    ⟨List.map_append, List.filterMap_append⟩
  rcases h with ⟨⟨pieces, rfl, rfl, h⟩, ⟨pieces', rfl, rfl, h'⟩⟩ |
    ⟨⟨pieces', rfl, rfl, h'⟩, ⟨pieces, rfl, rfl, h⟩⟩
  · refine ⟨pieces ++ pieces', (hpieces _ _).1, (hpieces _ _).2, ?_⟩
    rw [List.map_append]
    exact h.append h'
  · refine ⟨pieces ++ pieces', (hpieces _ _).1, (hpieces _ _).2, ?_⟩
    rw [List.map_append]
    exact (h'.append h).perm List.perm_append_comm

theorem retainField_eq (index : Nat) (record : Dict String Value)
    (state : List FailureEvidence × Budget) (field : String × String) :
    retainField stringify index record state field =
      match fieldText stringify index record field with
      | none => state
      | some (title, text) =>
          if state.2.remaining = 0 then (state.1, { state.2 with truncated := true })
          else (state.1 ++ [⟨title, (bounded state.2 text).1⟩], (bounded state.2 text).2) := by
  unfold retainField fieldText
  generalize record.get? field.1 = value
  split
  · rfl
  · rfl
  · rename_i value hvalue
    simp only

theorem retainField_spec (index : Nat) (record : Dict String Value)
    (state : List FailureEvidence × Budget) (field : String × String) : ∃ retained,
    (retainField stringify index record state field).1 = state.1 ++ retained ∧
      Retains (recordTexts stringify index record [field]) retained state.2
        (retainField stringify index record state field).2 := by
  rw [retainField_eq, recordTexts, List.filterMap_cons]
  cases fieldText stringify index record field with
  | none => exact ⟨[], (List.append_nil _).symm, .nil _⟩
  | some entry =>
      obtain ⟨title, text⟩ := entry
      dsimp only
      by_cases hexhausted : state.2.remaining = 0
      · -- The text is left out.
        rw [if_pos hexhausted]
        refine ⟨[], (List.append_nil _).symm, [(title, ⟨text, none⟩)], rfl, rfl, ?_, ?_, ?_⟩
        · intro p hp
          obtain rfl := List.mem_singleton.mp hp
          exact ⟨nofun, Nat.zero_le _⟩
        · exact Nat.zero_add _
        · exact iff_of_true rfl (.inr ⟨_, List.mem_singleton_self _, fun h => nomatch h⟩)
      · rw [if_neg hexhausted]
        obtain ⟨body, hshown, hspends⟩ := bounded_spec state.2 text
        refine ⟨_, rfl, [(title, ⟨text, some body⟩)], rfl, ?_, hspends⟩
        simp only [shownEvidence, List.filterMap_cons, hshown, Option.map_some, List.filterMap_nil]

/-- The loop over the fields of a record. -/
theorem foldl_retainField_spec (index : Nat) (record : Dict String Value)
    (fields : List (String × String)) (state : List FailureEvidence × Budget) : ∃ retained,
    (fields.foldl (retainField stringify index record) state).1 = state.1 ++ retained ∧
      Retains (recordTexts stringify index record fields) retained state.2
        (fields.foldl (retainField stringify index record) state).2 := by
  induction fields generalizing state with
  | nil => exact ⟨[], (List.append_nil _).symm, .nil _⟩
  | cons field fields ih =>
      obtain ⟨retained, hretained, hfield⟩ := @retainField_spec stringify index record state field
      obtain ⟨rest, hrest, hfields⟩ := ih (retainField stringify index record state field)
      refine ⟨retained ++ rest, ?_, ?_⟩
      · rw [List.foldl_cons, hrest, hretained, List.append_assoc]
      · have htexts : recordTexts stringify index record (field :: fields) =
            recordTexts stringify index record [field] ++ recordTexts stringify index
              record fields :=
          List.filterMap_append (l := [field])
        rw [htexts, List.foldl_cons]
        exact .append (.inl ⟨hfield, hfields⟩)

/-- One turn of the loop over the records. -/
def retainRecord (stringify : Value → String) (entry : Dict String Value × Nat)
    (state : List FailureEvidence × Budget) : List FailureEvidence × Budget :=
  let retained := diagnosticFields.foldl (retainField stringify entry.2 entry.1) ([], state.2)
  (retained.1 ++ state.1, retained.2)

theorem retainRecords_eq (evidence : List (Dict String Value)) (budget : Budget) :
    retainRecords stringify evidence budget =
      (evidence.zipIdx.drop (evidence.length - recordLimit)).foldr (retainRecord stringify)
      ([], budget) :=
  rfl

/-- The loop over the records: the budget goes to the last one first. -/
theorem retainRecords_spec (evidence : List (Dict String Value)) (budget : Budget) :
    Retains (evidenceTexts stringify evidence) (retainRecords stringify evidence budget).1 budget
      (retainRecords stringify evidence budget).2 := by
  rw [evidenceTexts, retainRecords_eq]
  induction evidence.zipIdx.drop (evidence.length - recordLimit) with
  | nil => exact .nil budget
  | cons entry entries ih =>
      rw [List.flatMap_cons, List.foldr_cons]
      obtain ⟨retained, hretained, hrecord⟩ := @foldl_retainField_spec stringify entry.2 entry.1
        diagnosticFields ([], (entries.foldr (retainRecord stringify) ([], budget)).2)
      rw [List.nil_append] at hretained
      subst hretained
      exact .append (.inr ⟨ih, hrecord⟩)

end Evidence

/-! ## The details -/

/-- What is published of a failed result: pieces of its errors and of its evidence. -/
structure Published (stringify : Value → String) (result : DiagnosticResult)
    (details : FailureDetails)
    (errors : Option Piece × Option Piece) (pieces : List (String × Piece)) : Prop where
  error : errors.1.map Piece.text = result.error ∧ errors.1.map Piece.shown = details.error.map some
  cleanupError : errors.2.map Piece.text = result.cleanupError ∧
    errors.2.map Piece.shown = details.cleanupError.map some
  evidence : titledTexts pieces = evidenceTexts stringify (result.evidence.getD [])
  shown : shownEvidence pieces = details.evidence
  fits : ∀ p ∈ errors.1.toList ++ errors.2.toList ++ pieces.map Prod.snd, p.Fits
  total : ((errors.1.toList ++ errors.2.toList ++ pieces.map Prod.snd).map Piece.length).sum ≤
    diagnosticBudget
  truncated : details.truncated = true ↔ recordLimit < (result.evidence.getD []).length ∨
    ∃ p ∈ errors.1.toList ++ errors.2.toList ++ pieces.map Prod.snd, p.Lost

theorem boundedOption_spec (budget : Budget) (text : Option String) : ∃ piece : Option Piece,
    piece.map Piece.text = text ∧ piece.map Piece.shown = (boundedOption budget text).1.map some ∧
      Spends piece.toList budget (boundedOption budget text).2 := by
  cases text with
  | none => exact ⟨none, rfl, rfl, .nil budget⟩
  | some text =>
      obtain ⟨body, hshown, hspends⟩ := bounded_spec budget text
      exact ⟨some ⟨text, some body⟩, rfl, congrArg some hshown, hspends⟩

theorem failureDetailsOf_spec (stringify : Value → String) (result : DiagnosticResult) :
    ∃ errors pieces, Published stringify result (failureDetailsOf stringify result)
    errors pieces := by
  obtain ⟨error, herror, herrorShown, hspends⟩ :=
    boundedOption_spec ⟨diagnosticBudget, false⟩ result.error
  obtain ⟨cleanup, hcleanup, hcleanupShown, hspends'⟩ :=
    boundedOption_spec (boundedOption ⟨diagnosticBudget, false⟩ result.error).2 result.cleanupError
  unfold failureDetailsOf
  dsimp only
  generalize (boundedOption ⟨diagnosticBudget, false⟩ result.error) = first at *
  generalize (boundedOption first.2 result.cleanupError) = second at *
  obtain ⟨pieces, htexts, hshown, hevidence⟩ := @retainRecords_spec stringify
    (result.evidence.getD [])
    { second.2 with
      truncated := second.2.truncated || recordLimit < (result.evidence.getD []).length }
  have herrors := hspends.append hspends'
  refine ⟨(error, cleanup), pieces, ⟨herror, herrorShown⟩, ⟨hcleanup, hcleanupShown⟩,
    htexts, hshown,
    ?_, ?_, ?_⟩
  · intro p hp
    exact (List.mem_append.mp hp).elim (herrors.fits p) (hevidence.fits p)
  · have hspent := herrors.spent
    have hspent' := hevidence.spent
    rw [List.map_append, List.sum_append]
    dsimp only at hspent hspent' ⊢
    omega
  · have hflag : (second.2.truncated || decide (recordLimit < (result.evidence.getD []).length)) =
      true ↔
        (∃ p ∈ error.toList ++ cleanup.toList, p.Lost) ∨
          recordLimit < (result.evidence.getD []).length := by
      rw [Bool.or_eq_true, herrors.truncated, decide_eq_true_iff]
      exact or_congr_left ⟨fun h => h.resolve_left Bool.false_ne_true, .inr⟩
    rw [hevidence.truncated, hflag]
    simp only [List.mem_append (t := pieces.map Prod.snd), or_and_right, exists_or]
    rw [or_comm (a := ∃ p ∈ _, _), or_assoc]

/-- **The budget of the failure details.** A failed result is published by starts of its errors and
of the texts of the last records, in their order. Each keeps the limit of a field, together they
keep the budget, which is never overdrawn, and the flag says exactly whether a record, a text or
the end of a text is missing. -/
theorem diagnosticCase_budget {stringify : Value → String} {raw : Value} {item : CaseTiming}
    (h : diagnosticCase stringify raw = some item) (hfailure : isFailure item.status = true) :
    (∃ result details errors pieces, Schema.diagnosticResult.parse raw = some result ∧
      item.failureDetails = some details ∧ Published stringify result details errors pieces) ∧
    ∀ (budget : Budget) (text : String), ((bounded budget text).2.remaining : Int) =
      budget.remaining - min (jsLength text : Int) (min budget.remaining fieldLimit) := by
  refine ⟨?_, fun budget text => ?_⟩
  · obtain ⟨result, hresult, h⟩ := Option.bind_eq_some_iff.mp h
    obtain ⟨timing, htiming, h⟩ := Option.bind_eq_some_iff.mp h
    obtain rfl := Option.some.inj h
    obtain ⟨-, -, -, hstatus, -⟩ := caseTiming_fields htiming
    obtain ⟨hstatus', -⟩ := diagnosticResult_fields hresult
    have hstatuses : timing.status = result.status := Option.some.inj (hstatus.symm.trans hstatus')
    obtain ⟨errors, pieces, hpublished⟩ := failureDetailsOf_spec stringify result
    refine ⟨result, _, errors, pieces, hresult, ?_, hpublished⟩
    exact if_pos (hstatuses ▸ hfailure)
  · unfold bounded
    dsimp only
    split
    · dsimp only
      omega
    · dsimp only
      omega

/-- A result with an error and two short texts. -/
theorem diagnosticCase_budget_small : ∃ item result details errors pieces,
    diagnosticCase (fun _ => "1") (failedResult [] []) = some item ∧
      item.failureDetails = some details ∧
      Published (fun _ => "1") result details errors pieces := by
  have hany : (diagnosticCase (fun _ => "1") (failedResult [] [])).any
      (fun item => isFailure item.status) = true := by decide +kernel
  obtain ⟨item, hitem, hfailure⟩ := (Option.any_eq_true _ _).mp hany
  obtain ⟨⟨result, details, errors, pieces, -, hdetails, hpublished⟩, -⟩ :=
    diagnosticCase_budget hitem hfailure
  exact ⟨item, result, details, errors, pieces, hitem, hdetails, hpublished⟩

end FlatpakBlackbox
