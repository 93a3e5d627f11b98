import FlatpakBlackbox.Runner.Invariant
import FlatpakBlackbox.Runner.Outcome
import FlatpakBlackbox.Runner.Suite

set_option autoImplicit false

/-! # What a run decides and reports

The abstract run judges every case by itself: `World.outcome` looks at the case, the target and the
client, and at no other case. `RunState.Tracked` connects the loops of `main` to it, together with
the account of what the console was told (`RunState.Told`). The cases in `owed` are settled and not
reported yet; between two statements of the loops there is none, and where a statement raises there
is at most one.
-/

namespace FlatpakBlackbox

namespace Runner

open PyLib PyException

/-! ## The abstract run -/

section Abstract

variable (w : World)

/-- The client of an interface, or why there is none. -/
def World.clientOf (kind : String) : Except PyException (Except PyException (Dict String Bool)) :=
  if kind = "library" then
    match w.buildClient with
    | .ok available => .ok (.ok available)
    | .error error =>
        if error.isInstance clientClasses then .ok (.error (clientError error)) else .error error
  else .ok (.ok Dict.empty)

/-- The outcome of a case that the gate keeps. -/
def World.gates (unsupported : Dict String String) (key : CaseKey) (planned : CaseResult) :
    Option Outcome :=
  if missingCapabilities unsupported planned ≠ [] then some ⟨"unsupported", none, none⟩
  else (w.suite.model.cases.get? key).bind fun definition =>
    if needsMachine planned definition then
      some ⟨"unsupported", some "System-profile execution requires a VM runner.", none⟩
    else none

/-- The outcome of a case that the gate lets through. -/
def World.runs (library : LibraryDirs) (key : CaseKey) : Outcome :=
  match w.clientOf key.driver with
  | .error _ => pendingOutcome
  | .ok (.error error) => .ofError error
  | .ok (.ok available) =>
      let unavailable := if key.driver = "library" then missingApis key.behaviorId available else []
      if unavailable ≠ [] then
        ⟨"unsupported",
          some ("Public library APIs unavailable: " ++ ", ".intercalate unavailable), none⟩
      else (w.case key).outcome key.driver library

/-- The abstract run reaches the block of a case. -/
def World.Reaches (target : TargetConfig) (key : CaseKey) : Prop :=
  ∃ planned available, (initialCases w.suite w.arguments).get? key = some planned
    ∧ planned.status = "pending" ∧ w.gates target.unsupportedCapabilities key planned = none
    ∧ w.clientOf key.driver = .ok (.ok available)
    ∧ (if key.driver = "library" then missingApis key.behaviorId available else []) = []

/-- **The outcome of a case of a run**, from the result it was planned with. -/
def World.outcome (target : TargetConfig) (key : CaseKey) (planned : CaseResult) : Outcome :=
  if planned.status ≠ "pending" then outcomeOf planned
  else (w.gates target.unsupportedCapabilities key planned).getD (w.runs target.library key)

end Abstract

variable {w : World} {s s' : RunState} {target : TargetConfig}

/-- `cases[key]` of a case that is there. -/
theorem wp_caseResult_bind {α : Type} {key : CaseKey} {result : CaseResult}
    (h : s.cases.get? key = some result) {f : CaseResult → Py PyException RunState α}
    {Q : α → RunState → Prop} {R : PyException → RunState → Prop} :
    Py.wp (caseResult key >>= f) Q R s ↔ Py.wp (f result) Q R s := by
  have hrun : caseResult key s = (.ok result, s) := by
    unfold caseResult
    rw [h]
  exact Py.wp_bind.trans (Py.wp_of_ok hrun)

/-! ## The account of the console -/

/-- What the console was told of the cases. -/
structure RunState.Told (w : World) (owed : List CaseKey) (s : RunState) : Prop where
  keys : s.cases.keys = w.initial.cases.keys
  nodup : (s.reported.map Prod.fst).Nodup
  told : ∀ key status, (key, status) ∈ s.reported → w.selected key = true ∧ status ≠ "pending"
    ∧ ∃ result, s.cases.get? key = some result ∧ result.status = status
  covered : ∀ key, w.selected key = true →
    s.Pending key ∨ key ∈ owed ∨ key ∈ s.reported.map Prod.fst
  selected : ∀ key, s.Pending key → w.selected key = true
  completed : s.completed = s.reported.length

/-- A pending case was not reported. -/
theorem RunState.Told.not_mem_of_pending {owed : List CaseKey} (h : s.Told w owed) {key : CaseKey}
    (hkey : s.Pending key) : key ∉ s.reported.map Prod.fst := by
  intro hmem
  obtain ⟨⟨_, status⟩, hentry, rfl⟩ := List.mem_map.mp hmem
  obtain ⟨-, hne, result, hget, hstatus⟩ := h.told _ _ hentry
  obtain ⟨result', hget', hpending⟩ := hkey
  obtain rfl := Option.some.inj (hget.symm.trans hget')
  exact hne (hstatus.symm.trans hpending)

/-- The case of a key that was planned. -/
theorem RunState.Told.exists_result {owed : List CaseKey} (h : s.Told w owed) {key : CaseKey}
    (hkey : key ∈ w.initial.cases.keys) : ∃ result, s.cases.get? key = some result := by
  rw [← h.keys] at hkey
  exact (Dict.mem_keys_iff _ _).mp hkey

/-- A change of a pending case, which is then owed to the console. -/
theorem RunState.Told.change {owed : List CaseKey} (h : s.Told w owed) {key : CaseKey}
    {f : CaseResult → CaseResult} (hkey : s.Pending key) (hcases : s'.cases = s.cases.update key f)
    (hreported : s'.reported = s.reported) (hcompleted : s'.completed = s.completed) :
    s'.Told w (key :: owed) where
  keys := by rw [hcases, Dict.keys_update]; exact h.keys
  nodup := by rw [hreported]; exact h.nodup
  told key' status hentry := by
    rw [hreported] at hentry
    obtain ⟨hselected, hne, result, hget, hstatus⟩ := h.told key' status hentry
    refine ⟨hselected, hne, result, ?_, hstatus⟩
    rw [hcases, Dict.get?_update_ne, hget]
    rintro rfl
    exact h.not_mem_of_pending hkey (List.mem_map.mpr ⟨_, hentry, rfl⟩)
  covered key' hselected := by
    rw [hreported]
    by_cases hne : key' = key
    · subst hne
      exact Or.inr (Or.inl List.mem_cons_self)
    · rcases h.covered key' hselected with hpending | howed | hmem
      · obtain ⟨result, hget, hstatus⟩ := hpending
        refine Or.inl ⟨result, ?_, hstatus⟩
        rw [hcases, Dict.get?_update_ne _ _ (Ne.symm hne), hget]
      · exact Or.inr (Or.inl (List.mem_cons_of_mem _ howed))
      · exact Or.inr (Or.inr hmem)
  selected key' hkey' := by
    obtain ⟨result, hget, hpending⟩ := hkey'
    by_cases hne : key' = key
    · subst hne
      exact h.selected key' hkey
    · rw [hcases, Dict.get?_update_ne _ _ (Ne.symm hne)] at hget
      exact h.selected key' ⟨result, hget, hpending⟩
  completed := by rw [hreported, hcompleted]; exact h.completed

/-- The run after the console was told of a case. -/
def RunState.tell (s : RunState) (key : CaseKey) (status : String) : RunState :=
  { s with completed := s.completed + 1, reported := s.reported ++ [(key, status)] }

/-- The report of a case that was owed. -/
theorem RunState.Told.report {owed : List CaseKey} {key : CaseKey} {result : CaseResult}
    (h : s.Told w (key :: owed)) (hget : s.cases.get? key = some result)
    (hselected : w.selected key = true) (hsettled : result.status ≠ "pending")
    (hfresh : key ∉ s.reported.map Prod.fst) : (s.tell key result.status).Told w owed where
  keys := h.keys
  nodup := by
    show ((s.reported ++ [(key, result.status)]).map Prod.fst).Nodup
    rw [List.map_append]
    refine List.nodup_append.mpr ⟨h.nodup, List.nodup_singleton _, fun key' hmem key'' hlast => ?_⟩
    obtain rfl := List.mem_singleton.mp hlast
    rintro rfl
    exact hfresh hmem
  told key' status hentry := by
    rcases List.mem_append.mp hentry with hentry | hlast
    · exact h.told key' status hentry
    · obtain ⟨rfl, rfl⟩ := Prod.mk.inj (List.mem_singleton.mp hlast)
      exact ⟨hselected, hsettled, result, hget, rfl⟩
  covered key' hselected' := by
    show _ ∨ _ ∨ key' ∈ (s.reported ++ [(key, result.status)]).map Prod.fst
    rw [List.map_append, List.mem_append]
    rcases h.covered key' hselected' with hpending | howed | hmem
    · exact Or.inl hpending
    · rcases List.mem_cons.mp howed with rfl | howed
      · exact Or.inr (Or.inr (Or.inr List.mem_cons_self))
      · exact Or.inr (Or.inl howed)
    · exact Or.inr (Or.inr (Or.inl hmem))
  selected := h.selected
  completed := by
    show s.completed + 1 = (s.reported ++ [(key, result.status)]).length
    rw [List.length_append, h.completed]
    rfl

/-- The account depends on the cases and the console only. -/
theorem RunState.Told.congr {owed : List CaseKey} (h : s.Told w owed) (hcases : s'.cases = s.cases)
    (hreported : s'.reported = s.reported) (hcompleted : s'.completed = s.completed) :
    s'.Told w owed where
  keys := by rw [hcases]; exact h.keys
  nodup := by rw [hreported]; exact h.nodup
  told := by rw [hcases, hreported]; exact h.told
  covered key hselected := by
    unfold RunState.Pending
    rw [hcases, hreported]
    exact h.covered key hselected
  selected key hkey := by
    unfold RunState.Pending at hkey
    rw [hcases] at hkey
    exact h.selected key hkey
  completed := by rw [hreported, hcompleted]; exact h.completed

/-- `console.case_finished(result)`: it raises for a status without a label, or as `print` does. -/
theorem caseFinished_spec {key : CaseKey} {result : CaseResult}
    (hget : s.cases.get? key = some result) (hstatus : result.status ∈
    "passed" :: failureStatuses) :
    Py.wp (caseFinished w key) (fun _ s' => s' = s.tell key result.status)
      (fun _ s' => s' = s.tell key result.status ∧ (w.case key).print ≠ .ok ()) s := by
  have hlabel : ∀ status ∈ "passed" :: failureStatuses,
      ¬ (statusLabels.lookup status).isNone = true := by decide
  refine (wp_caseResult_bind hget).mpr (Py.wp_bind.mpr (Py.wp_modify.mpr (Py.wp_bind.mpr
    (Py.wp_ofExcept.mpr ⟨fun _ _ => ?_, fun error herror => ?_⟩))))
  · refine Py.wp_ofExcept.mpr ⟨fun _ _ => rfl, fun error herror => ⟨rfl, fun hok => ?_⟩⟩
    rw [hok] at herror
    cases herror
  · rw [raiseIf_of_not (hlabel _ hstatus)] at herror
    cases herror

/-! ## Worlds -/

/-- A world whose answers let a run get past its setup and tell the console of its cases. -/
structure World.Ready (w : World) (target : TargetConfig) : Prop where
  loadTarget : w.loadTarget = .ok target
  recordTarget : w.recordTarget = .ok ()
  known : ∀ capability ∈ target.unsupportedCapabilities.keys,
    capability ∈ w.initial.knownCapabilities w
  ungated : ∃ key planned, w.initial.cases.get? key = some planned ∧ planned.status = "pending"
    ∧ w.gates target.unsupportedCapabilities key planned = none
  fixture : ∃ arch, w.fixture = .ok arch ∧ ∃ answer, w.defaultArch = .ok answer
    ∧ answer.returncode = 0 ∧ strip answer.stdout.toList = arch.toList
  programs : w.programs = .ok ()
  version : ∃ version, w.version = .ok version ∧ version.returncode = 0
  client : ∀ error, w.buildClient = .error error → error.isInstance clientClasses = true
  print : ∀ key, w.selected key = true → (w.case key).print = .ok ()

/-- The cases that are reached are tidy. -/
def World.Tidy (w : World) (target : TargetConfig) : Prop :=
  ∀ key, w.Reaches target key → (w.case key).Tidy key.driver target.library

/-- The cases that are reached are contained. -/
def World.Contains (w : World) (target : TargetConfig) : Prop :=
  ∀ key, w.Reaches target key → (w.case key).Contained key.driver target.library

/-- What an exception of a run tells of the world: something in the setup was not ready, or a case
was not contained. -/
def World.Blames (w : World) (target : TargetConfig) (error : PyException) : Prop :=
  w.Ready target →
    ¬ w.Contains target ∧ (w.Tidy target → error.isInstance caseClasses = false)

/-! ## The decisions -/

/-- A result that is as it was planned, but for the version of the target. -/
structure Untouched (planned result : CaseResult) : Prop where
  outcome : outcomeOf result = outcomeOf planned
  requiredCapabilities : result.requiredCapabilities = planned.requiredCapabilities
  profile : result.profile = planned.profile

/-- The run follows the abstract run: a case is as it was planned, or has its outcome. -/
structure RunState.Tracked (w : World) (target : TargetConfig) (owed : List CaseKey)
    (s : RunState) :
    Prop extends s.Told w owed where
  fresh : ∀ key ∈ owed, key ∉ s.reported.map Prod.fst
  untouched : ∀ key planned result, w.initial.cases.get? key = some planned →
    s.cases.get? key = some result → result.status = "pending" → Untouched planned result
  decided : ∀ key planned result, w.initial.cases.get? key = some planned →
    s.cases.get? key = some result → result.status ≠ "pending" →
    outcomeOf result = w.outcome target key planned
  contained : ∀ key, w.Reaches target key → ¬ s.Pending key →
    (w.case key).Contained key.driver target.library

theorem outcome_planned {key : CaseKey} {planned : CaseResult}
    (h : w.initial.cases.get? key = some planned) (hpending : planned.status = "pending") :
    outcomeOf planned = pendingOutcome := by
  obtain ⟨behavior, -, -, -, rfl⟩ := exists_of_mem_initial h
  show Outcome.mk _ none none = _
  rw [hpending]
  rfl

theorem selected_of_planned {key : CaseKey} {planned : CaseResult}
    (h : w.initial.cases.get? key = some planned) :
    w.selected key = decide (planned.status = "pending") := by
  unfold World.selected
  rw [show (initialCases w.suite w.arguments).get? key = some planned from h, Option.any_some]

theorem tracked_initial : w.initial.Tracked w target [] where
  keys := rfl
  nodup := List.nodup_nil
  told _ _ hentry := absurd hentry List.not_mem_nil
  covered key hselected := by
    left
    unfold World.selected at hselected
    obtain ⟨result, hget, hpending⟩ := (Option.any_eq_true _ _).mp hselected
    exact ⟨result, hget, of_decide_eq_true hpending⟩
  selected key hkey := by
    obtain ⟨result, hget, hpending⟩ := hkey
    rw [selected_of_planned hget]
    exact decide_eq_true hpending
  completed := rfl
  fresh _ hkey := absurd hkey List.not_mem_nil
  untouched key planned result hplanned hget _ := by
    obtain rfl := Option.some.inj (hplanned.symm.trans hget)
    exact ⟨rfl, rfl, rfl⟩
  decided key planned result hplanned hget hsettled := by
    obtain rfl := Option.some.inj (hplanned.symm.trans hget)
    unfold World.outcome
    rw [if_pos hsettled]
  contained key hreaches hsettled := by
    obtain ⟨planned, _, hplanned, hpending, -⟩ := hreaches
    exact absurd ⟨planned, hplanned, hpending⟩ hsettled

theorem RunState.Tracked.congr {owed : List CaseKey} (h : s.Tracked w target owed)
    (hcases : s'.cases = s.cases) (hreported : s'.reported = s.reported)
    (hcompleted : s'.completed = s.completed) : s'.Tracked w target owed where
  toTold := h.toTold.congr hcases hreported hcompleted
  fresh := by rw [hreported]; exact h.fresh
  untouched := by rw [hcases]; exact h.untouched
  decided := by rw [hcases]; exact h.decided
  contained key := by
    unfold RunState.Pending
    rw [hcases]
    exact h.contained key

section Pending

variable {key : CaseKey} {planned result : CaseResult} {f : CaseResult → CaseResult}

/-- The planned result of a pending case. -/
theorem RunState.Tracked.exists_planned {owed : List CaseKey} (h : s.Tracked w target owed)
    (hget : s.cases.get? key = some result) (hpending : result.status = "pending") :
    ∃ planned, w.initial.cases.get? key = some planned ∧ planned.status = "pending"
      ∧ Untouched planned result := by
  have hmem : key ∈ w.initial.cases.keys := by
    rw [← h.keys]
    exact (Dict.mem_keys_iff _ _).mpr ⟨result, hget⟩
  obtain ⟨planned, hplanned⟩ := (Dict.mem_keys_iff _ _).mp hmem
  have huntouched := h.untouched key planned result hplanned hget hpending
  refine ⟨planned, hplanned, ?_, huntouched⟩
  rw [← (Outcome.mk.inj huntouched.outcome).1]
  exact hpending

/-- A pending case that gets its outcome is owed to the console. -/
theorem RunState.Tracked.settle (h : s.Tracked w target []) (hget : s.cases.get? key = some result)
    (hpending : result.status = "pending") (hplanned : w.initial.cases.get? key = some planned)
    (hcases : s'.cases = s.cases.update key f) (hreported : s'.reported = s.reported)
    (hcompleted : s'.completed = s.completed)
    (houtcome : outcomeOf (f result) = w.outcome target key planned)
    (hsettled : (f result).status ≠ "pending")
    (hcontained : w.Reaches target key → (w.case key).Contained key.driver target.library) :
    s'.Tracked w target [key] where
  toTold := h.toTold.change ⟨result, hget, hpending⟩ hcases hreported hcompleted
  fresh key' hkey' := by
    obtain rfl := List.mem_singleton.mp hkey'
    rw [hreported]
    exact h.not_mem_of_pending ⟨result, hget, hpending⟩
  untouched key' planned' result' hplanned' hget' hpending' := by
    rw [hcases] at hget'
    rcases Dict.eq_or_of_get?_update hget hget' with ⟨rfl, rfl⟩ | ⟨_, hget'⟩
    · exact absurd hpending' hsettled
    · exact h.untouched key' planned' result' hplanned' hget' hpending'
  decided key' planned' result' hplanned' hget' hsettled' := by
    rw [hcases] at hget'
    rcases Dict.eq_or_of_get?_update hget hget' with ⟨rfl, rfl⟩ | ⟨_, hget'⟩
    · obtain rfl := Option.some.inj (hplanned.symm.trans hplanned')
      exact houtcome
    · exact h.decided key' planned' result' hplanned' hget' hsettled'
  contained key' hreaches hsettled' := by
    by_cases hne : key' = key
    · subst hne
      exact hcontained hreaches
    · refine h.contained key' hreaches fun hpending' => hsettled' ?_
      obtain ⟨result', hget', hpending'⟩ := hpending'
      refine ⟨result', ?_, hpending'⟩
      rw [hcases, Dict.get?_update_ne _ _ (Ne.symm hne), hget']

/-- What holds where a statement of the loops raises: the console may miss one case. -/
structure RunState.Stopped (w : World) (target : TargetConfig) (error : PyException)
    (s : RunState) : Prop where
  told : ∃ owed, owed.length ≤ 1 ∧ s.Told w owed
  blames : w.Blames target error

theorem RunState.Tracked.stopped {owed : List CaseKey} {error : PyException}
    (h : s.Tracked w target owed) (howed : owed.length ≤ 1) (hblames : w.Blames target error) :
    s.Stopped w target error :=
  ⟨⟨owed, howed, h.toTold⟩, hblames⟩

/-- The report of the case that is owed. -/
theorem RunState.Tracked.report (h : s.Tracked w target [key])
    (hget : s.cases.get? key = some result)
    (hstatus : result.status ∈ "passed" :: failureStatuses) (hselected : w.selected key = true) :
    Py.wp (caseFinished w key)
      (fun _ s' => s'.Tracked w target [] ∧ s'.cases = s.cases)
      (RunState.Stopped w target) s := by
  have hsettled : result.status ≠ "pending" := by
    intro hpending
    rw [hpending] at hstatus
    exact absurd hstatus (by decide)
  have htold : (s.tell key result.status).Tracked w target [] :=
    ⟨h.toTold.report hget hselected hsettled (h.fresh key List.mem_cons_self),
      fun _ hkey => absurd hkey List.not_mem_nil, h.untouched, h.decided, h.contained⟩
  refine Py.wp_mono (caseFinished_spec hget hstatus) (fun _ s' hs' => ?_) fun _ s' hs' => ?_
  · subst hs'
    exact ⟨htold, rfl⟩
  · obtain ⟨rfl, hraises⟩ := hs'
    exact htold.stopped (Nat.zero_le 1) fun hready => absurd (hready.print key hselected) hraises

end Pending

/-! ## The gate -/

/-- The run in the gate: the cases ahead are as they were planned, and those behind are pending
exactly where the gate lets them through. -/
structure RunState.Gated (w : World) (target : TargetConfig) (rest : List CaseKey) (s : RunState) :
    Prop extends s.Tracked w target [] where
  distinct : rest.Nodup
  planned : ∀ key ∈ rest, key ∈ w.initial.cases.keys
  ahead : ∀ key ∈ rest, ∀ planned result, w.initial.cases.get? key = some planned →
    s.cases.get? key = some result → Untouched planned result
  behind : ∀ key planned, key ∉ rest → w.initial.cases.get? key = some planned →
    (s.Pending key ↔ planned.status = "pending"
      ∧ w.gates target.unsupportedCapabilities key planned = none)

section Gate

variable {key : CaseKey} {rest : List CaseKey} {planned : CaseResult}

/-- The next case of the gate. -/
theorem RunState.Gated.next (h : s.Gated w target (key :: rest)) (htracked : s'.Tracked w target [])
    (hothers : ∀ key', key' ≠ key → s'.cases.get? key' = s.cases.get? key')
    (hplanned : w.initial.cases.get? key = some planned)
    (hpending : s'.Pending key ↔ planned.status = "pending"
      ∧ w.gates target.unsupportedCapabilities key planned = none) : s'.Gated w target rest := by
  obtain ⟨hnew, hdistinct⟩ := List.nodup_cons.mp h.distinct
  refine ⟨htracked, hdistinct, fun key' hkey' => h.planned key' (List.mem_cons_of_mem _ hkey'),
    fun key' hkey' planned' result hplanned' hget => ?_, fun key' planned' hkey' hplanned' => ?_⟩
  · have hne : key' ≠ key := by
      rintro rfl
      exact hnew hkey'
    rw [hothers key' hne] at hget
    exact h.ahead key' (List.mem_cons_of_mem _ hkey') planned' result hplanned' hget
  · by_cases hne : key' = key
    · subst hne
      obtain rfl := Option.some.inj (hplanned.symm.trans hplanned')
      exact hpending
    · have hbehind := h.behind key' planned' (fun hmem => (List.mem_cons.mp hmem).elim hne hkey')
        hplanned'
      unfold RunState.Pending at hbehind ⊢
      rw [hothers key' hne]
      exact hbehind

/-- The gate finds the definition of every case. -/
theorem exists_definition (h : key ∈ w.initial.cases.keys) :
    ∃ definition, w.suite.model.cases.get? key = some definition :=
  (Dict.mem_keys_iff _ _).mp (mem_keys_model_iff.mpr h)

/-- The gate keeps a case: it settles the case and tells the console. -/
theorem RunState.Gated.keep {f : CaseResult → CaseResult} {outcome : Outcome}
    (h : s.Gated w target (key :: rest)) {result : CaseResult}
    (hget : s.cases.get? key = some result) (hpending : result.status = "pending")
    (hplanned : w.initial.cases.get? key = some planned)
    (hgates : w.gates target.unsupportedCapabilities key planned = some outcome)
    (houtcome : outcomeOf (f result) = outcome) (hstatus : outcome.status = "unsupported") :
    Py.wp (gateReport w key) (fun _ => RunState.Gated w target rest)
      (RunState.Stopped w target)
      { s with cases := s.cases.update key f, status := 1 } := by
  have hplanned' : planned.status = "pending" := by
    have huntouched := h.untouched key planned result hplanned hget hpending
    rw [← (Outcome.mk.inj huntouched.outcome).1]
    exact hpending
  -- The gate decides the case as the abstract run does, and reports it at once.
  have hunsupported : (f result).status = "unsupported" := by
    rw [← hstatus, ← houtcome]
    rfl
  have hsettled : (f result).status ≠ "pending" := by
    rw [hunsupported]
    decide
  have hdecides : outcomeOf (f result) = w.outcome target key planned := by
    unfold World.outcome
    rw [if_neg (not_not.mpr hplanned'), hgates, houtcome]
    rfl
  have hselected : w.selected key = true := by
    rw [selected_of_planned hplanned]
    exact decide_eq_true hplanned'
  have htracked : RunState.Tracked w target [key]
      { s with cases := s.cases.update key f, status := 1 } :=
    h.toTracked.settle hget hpending hplanned rfl rfl rfl hdecides hsettled fun hreaches => by
      obtain ⟨planned', _, hplanned'', -, hungated, -⟩ := hreaches
      obtain rfl := Option.some.inj (hplanned.symm.trans hplanned'')
      rw [hgates] at hungated
      cases hungated
  have hupdated : (s.cases.update key f).get? key = some (f result) := Dict.get?_update_self f hget
  refine (wp_caseResult_bind hupdated).mpr
    (Py.wp_ite.mpr ⟨fun _ => ?_, fun hnot => absurd hunsupported hnot⟩)
  refine Py.wp_mono (htracked.report hupdated ?_ hselected)
    (fun _ s' hs' => h.next hs'.1 (fun key' hne => ?_) hplanned ⟨fun hpending' => ?_,
      fun hnone => ?_⟩)
    fun _ _ h => h
  · rw [hunsupported]
    decide
  · rw [hs'.2]
    exact Dict.get?_update_ne _ _ (Ne.symm hne)
  · obtain ⟨result', hget', hpending'⟩ := hpending'
    rw [hs'.2] at hget'
    obtain rfl := Option.some.inj (hupdated.symm.trans hget')
    exact absurd hpending' hsettled
  · rw [hgates] at hnone
    cases hnone.2

/-- **One turn of the gate.** -/
theorem gateCase_gated (h : s.Gated w target (key :: rest)) :
    Py.wp (gateCase w target.unsupportedCapabilities key) (fun _ => RunState.Gated w target rest)
      (RunState.Stopped w target) s := by
  have hkey := h.planned key List.mem_cons_self
  obtain ⟨planned, hplanned⟩ := (Dict.mem_keys_iff _ _).mp hkey
  obtain ⟨result, hget⟩ := h.exists_result hkey
  obtain ⟨definition, hdefinition⟩ := exists_definition hkey
  -- The case was not touched yet: both tests see what was planned.
  have huntouched := h.ahead key List.mem_cons_self planned result hplanned hget
  obtain ⟨hstatus, herror, hcleanup⟩ := Outcome.mk.inj huntouched.outcome
  have hcapabilities : missingCapabilities target.unsupportedCapabilities result
      = missingCapabilities target.unsupportedCapabilities planned := by
    unfold missingCapabilities
    rw [huntouched.requiredCapabilities]
  have hmachine : needsMachine result definition ↔ needsMachine planned definition := by
    unfold needsMachine
    rw [huntouched.profile]
  have hnoError : result.status = "pending" → result.error = none ∧ result.cleanupError = none := by
    intro hpending
    obtain ⟨-, herror', hcleanup'⟩ :=
      Outcome.mk.inj (outcome_planned hplanned (hstatus.symm.trans hpending))
    exact ⟨herror.trans herror', hcleanup.trans hcleanup'⟩
  have hfound : caseDefinition w key = .ok definition := by
    unfold caseDefinition
    rw [hdefinition]
  refine Py.wp_bind.mpr ((wp_caseResult_bind hget).mpr (Py.wp_ite.mpr ⟨fun hmissing =>
    Py.wp_modify.mpr ?_, fun hsupported => ?_⟩))
  · -- The target declares a capability of the case unsupported: the second test finds it settled.
    obtain ⟨hpending, hsome⟩ := hmissing
    have hgates : w.gates target.unsupportedCapabilities key planned
        = some ⟨"unsupported", none, none⟩ := by
      unfold World.gates
      rw [if_pos (hcapabilities ▸ hsome)]
    have hkept := h.keep hget hpending hplanned hgates (f := fun result => { result with
        status := "unsupported"
        unsupportedCapabilities :=
          some (missingCapabilities target.unsupportedCapabilities planned) })
      (by
        show Outcome.mk _ result.error result.cleanupError = _
        rw [(hnoError hpending).1, (hnoError hpending).2]) rfl
    rw [← hcapabilities] at hkept
    refine Py.wp_bind.mpr (Py.wp_bind.mpr (Py.wp_ofExcept.mpr ⟨fun definition' hfound' => ?_,
      fun error herror => ?_⟩))
    · refine (wp_caseResult_bind (Dict.get?_update_self _ hget)).mpr
        (Py.wp_ite.mpr ⟨fun hneeds => ?_,
        fun _ => hkept⟩)
      exact absurd hneeds.1 (by show ¬ ("unsupported" = "pending"); decide)
    · rw [hfound] at herror
      cases herror
  · refine Py.wp_bind.mpr (Py.wp_bind.mpr (Py.wp_ofExcept.mpr ⟨fun definition' hfound' => ?_,
      fun error herror => ?_⟩))
    swap
    · rw [hfound] at herror
      cases herror
    obtain rfl := Except.ok.inj (hfound.symm.trans hfound')
    have hnone : result.status = "pending" →
        missingCapabilities target.unsupportedCapabilities planned = [] := by
      intro hpending
      rw [← hcapabilities]
      exact not_not.mp fun hsome => hsupported ⟨hpending, hsome⟩
    refine (wp_caseResult_bind hget).mpr (Py.wp_ite.mpr ⟨fun hneeds => Py.wp_modify.mpr ?_,
      fun hruns => (wp_caseResult_bind hget).mpr (Py.wp_ite.mpr ⟨fun hunsupported => ?_,
        fun _ => ?_⟩)⟩)
    · -- No environment can run the profile of the case.
      obtain ⟨hpending, hneeds⟩ := hneeds
      refine h.keep hget hpending hplanned ?_ (by
        show Outcome.mk _ (some _) result.cleanupError = _
        rw [(hnoError hpending).2]) rfl
      unfold World.gates
      rw [if_neg (not_not.mpr (hnone hpending)), hdefinition, Option.bind_some,
        if_pos (hmachine.mp hneeds)]
    -- A planned case is pending or not selected, never unsupported.
    · rw [hstatus] at hunsupported
      rcases (status_initial hplanned).2.1 with hplanned' | hplanned'
      · rw [hplanned'] at hunsupported
        exact absurd hunsupported (by decide)
      · rw [hplanned'] at hunsupported
        exact absurd hunsupported (by decide)
    · -- The gate lets the case through, or the case is not selected.
      refine h.next h.toTracked (fun _ _ => rfl) hplanned ⟨fun hpending => ?_, fun hungated => ?_⟩
      · obtain ⟨result', hget', hpending⟩ := hpending
        obtain rfl := Option.some.inj (hget.symm.trans hget')
        refine ⟨hstatus.symm.trans hpending, ?_⟩
        unfold World.gates
        rw [if_neg (not_not.mpr (hnone hpending)), hdefinition, Option.bind_some, if_neg]
        exact fun hneeds => hruns ⟨hpending, hmachine.mpr hneeds⟩
      · exact ⟨result, hget, hstatus.trans hungated.1⟩

/-- **The gate.** -/
theorem gate_spec (h : s.Tracked w target [])
    (hahead : ∀ key planned result, w.initial.cases.get? key = some planned →
      s.cases.get? key = some result → Untouched planned result) :
    Py.wp (Py.forEach s.cases.keys (gateCase w target.unsupportedCapabilities))
      (fun _ => RunState.Gated w target []) (RunState.Stopped w target) s := by
  refine Py.wp_forEach (RunState.Gated w target) (fun key rest s h => gateCase_gated h) ?_
  refine ⟨h, s.cases.keys_nodup, fun key hkey => h.keys ▸ hkey,
    fun key _ planned result hplanned hget => hahead key planned result hplanned hget,
    fun key planned hkey hplanned => absurd ?_ hkey⟩
  rw [h.keys]
  exact (Dict.mem_keys_iff _ _).mpr ⟨planned, hplanned⟩

end Gate

/-! ## The loop over the cases -/

/-- The run behind the gate: the gate has let every pending case through. -/
structure RunState.Running (w : World) (target : TargetConfig) (s : RunState) : Prop
    extends s.Tracked w target [] where
  through : ∀ key planned, w.initial.cases.get? key = some planned → s.Pending key →
    w.gates target.unsupportedCapabilities key planned = none

section Turn

variable {key : CaseKey} {planned result : CaseResult}

/-- A case that runs, or fails before it does, has the outcome of the abstract run. -/
theorem RunState.Running.outcome_eq (h : s.Running w target)
    (hplanned : w.initial.cases.get? key = some planned) (hkey : s.Pending key)
    (hpending : planned.status = "pending") :
    w.outcome target key planned = w.runs target.library key := by
  unfold World.outcome
  rw [if_neg (not_not.mpr hpending), h.through key planned hplanned hkey]
  rfl

/-- A pending case gets its outcome, and the console is told. -/
theorem RunState.Running.settle (h : s.Running w target) (hget : s.cases.get? key = some result)
    (hpending : result.status = "pending") {f : CaseResult → CaseResult}
    (hcases : s'.cases = s.cases.update key f) (hreported : s'.reported = s.reported)
    (hcompleted : s'.completed = s.completed)
    (houtcome : outcomeOf (f result) = w.runs target.library key)
    (hstatus : (f result).status ∈ "passed" :: failureStatuses)
    (hcontained : w.Reaches target key → (w.case key).Contained key.driver target.library) :
    Py.wp (caseFinished w key) (fun _ => RunState.Running w target)
      (RunState.Stopped w target) s' := by
  obtain ⟨planned, hplanned, hplannedPending, -⟩ := h.exists_planned hget hpending
  have hselected : w.selected key = true := by
    rw [selected_of_planned hplanned]
    exact decide_eq_true hplannedPending
  have hsettled : (f result).status ≠ "pending" := by
    intro hpending'
    rw [hpending'] at hstatus
    exact absurd hstatus (by decide)
  rw [← h.outcome_eq hplanned ⟨result, hget, hpending⟩ hplannedPending] at houtcome
  have htracked := h.toTracked.settle hget hpending hplanned hcases hreported hcompleted houtcome
    hsettled hcontained
  have hupdated : s'.cases.get? key = some (f result) := by
    rw [hcases]
    exact Dict.get?_update_self f hget
  refine Py.wp_mono (htracked.report hupdated hstatus hselected)
    (fun _ s'' hs'' => ⟨hs''.1, fun key' planned' hplanned' hkey' => ?_⟩) fun _ _ h => h
  refine h.through key' planned' hplanned'
    (pending_of_change hget (hs''.2.trans hcases) hsettled hkey').1

theorem pendingOutcome_of_pending {owed : List CaseKey} (h : s.Tracked w target owed)
    (hget : s.cases.get? key = some result) (hpending : result.status = "pending") :
    outcomeOf result = pendingOutcome := by
  obtain ⟨planned, hplanned, hplannedPending, huntouched⟩ := h.exists_planned hget hpending
  exact huntouched.outcome.trans (outcome_planned hplanned hplannedPending)

/-- The block of a pending case, and its report. -/
theorem runCase_running (h : s.Running w target) (hget : s.cases.get? key = some result)
    (hpending : result.status = "pending")
    (hruns : w.runs target.library key = (w.case key).outcome key.driver target.library)
    (hreaches : w.Reaches target key) :
    Py.wp (runCase w target.library key) (fun _ => RunState.Running w target)
      (RunState.Stopped w target) s := by
  have hkey : s.Pending key := ⟨result, hget, hpending⟩
  have hopen := pendingOutcome_of_pending h.toTracked hget hpending
  refine (wp_caseResult_bind hget).mpr (Py.wp_bind.mpr (wp_runNow.mpr (Py.wp_bind.mpr
    (Py.wp_zoom.mpr (Py.wp_mono (caseBlock_outcome rfl rfl hopen) (fun _ frame houtcome => ?_)
      fun _ frame huncontained => ?_)))))
  · obtain ⟨houtcome, hcontained⟩ := houtcome
    refine h.settle (f := fun _ => frame.result) hget hpending rfl rfl rfl
      (houtcome.trans hruns.symm) ?_
      fun _ => hcontained
    rw [show frame.result.status = ((w.case key).outcome key.driver target.library).status from
      congrArg Outcome.status houtcome]
    exact status_outcome _ _ _
  · -- The block raised: whatever it left of the case is owed to the console.
    refine ⟨⟨[key], le_rfl, ?_⟩, fun _ => ⟨fun hcontains => huncontained.1 (hcontains key hreaches),
      fun htidy => huncontained.2 (htidy key hreaches)⟩⟩
    exact h.toTold.change (f := fun _ => frame.result) hkey rfl rfl rfl

/-- A pending case, given how the client was built. -/
theorem pendingCase_running {client : Except PyException (Dict String Bool)}
    (hclient : w.clientOf key.driver = .ok client) (h : s.Running w target)
    (hget : s.cases.get? key = some result) (hpending : result.status = "pending") :
    Py.wp (pendingCase w target.library client key) (fun _ => RunState.Running w target)
      (RunState.Stopped w target) s := by
  obtain ⟨-, hnoError, hnoCleanup⟩ :=
    Outcome.mk.inj (pendingOutcome_of_pending h.toTracked hget hpending)
  cases client with
  | error error =>
      have hruns : w.runs target.library key = .ofError error := by
        unfold World.runs
        rw [hclient]
      refine Py.wp_bind.mpr (Py.wp_modify.mpr (h.settle hget hpending rfl rfl rfl ?_
        (List.mem_cons_of_mem _ (failureStatus_mem error)) fun hreaches => ?_))
      · rw [hruns]
        show Outcome.mk _ _ result.cleanupError = _
        rw [hnoCleanup]
        rfl
      · obtain ⟨_, available, -, -, -, hbuilt, -⟩ := hreaches
        rw [hclient] at hbuilt
        cases hbuilt
  | ok available =>
      refine Py.wp_ite.mpr ⟨fun hmissing => ?_, fun hready => ?_⟩
      · let message := "Public library APIs unavailable: " ++ ", ".intercalate
          (if key.driver = "library" then missingApis key.behaviorId available else [])
        have hruns : w.runs target.library key = ⟨"unsupported", some message, none⟩ := by
          unfold World.runs
          rw [hclient]
          exact if_pos hmissing
        refine Py.wp_bind.mpr (Py.wp_modify.mpr (h.settle hget hpending (f := fun result =>
          { result with status := "unsupported", error := some message }) rfl rfl rfl ?_ ?_
            fun hreaches => ?_))
        · rw [hruns]
          show Outcome.mk _ _ result.cleanupError = _
          rw [hnoCleanup]
        · show "unsupported" ∈ "passed" :: failureStatuses
          decide
        · obtain ⟨_, available', -, -, -, hbuilt, hnone⟩ := hreaches
          obtain rfl := Except.ok.inj (Except.ok.inj (hclient.symm.trans hbuilt))
          exact absurd hnone hmissing
      · obtain ⟨planned, hplanned, hplannedPending, -⟩ := h.exists_planned hget hpending
        refine runCase_running h hget hpending ?_ ⟨planned, available, hplanned, hplannedPending,
          h.through key planned hplanned ⟨result, hget, hpending⟩, hclient, not_not.mp hready⟩
        unfold World.runs
        rw [hclient]
        exact if_neg hready

/-- **One turn of the loop.** -/
theorem turn_running {kind : String} {client : Except PyException (Dict String Bool)}
    (hclient : w.clientOf kind = .ok client) {behavior : Behavior}
    (hbehavior : behavior ∈ w.suite.inventory) (hkind : kind ∈ ["cli", "library"])
    (h : s.Running w target) :
    Py.wp (turn w target.library kind client behavior) (fun _ => RunState.Running w target)
      (RunState.Stopped w target) s := by
  refine Py.wp_ite.mpr ⟨fun _ => h, fun hcase => ?_⟩
  have hcase' : isCase kind behavior = true := (Bool.not_eq_false _).mp hcase
  have hmem : keyOf kind behavior ∈ w.initial.cases.keys :=
    mem_keys_initialCases.mpr ⟨behavior, hbehavior, hcase', hkind, rfl⟩
  obtain ⟨result, hget⟩ := h.exists_result hmem
  refine (wp_caseResult_bind hget).mpr (Py.wp_ite.mpr ⟨fun _ => h, fun hpending => ?_⟩)
  exact pendingCase_running hclient h hget (not_not.mp hpending)

theorem prepareClient_spec (target : TargetConfig) {kind : String} : Py.wp (prepareClient w kind)
    (fun client s' => w.clientOf kind = .ok client ∧ s' = s)
    (fun _ s' => ¬ w.Ready target ∧ s' = s) s := by
  unfold World.clientOf
  refine Py.wp_ite.mpr ⟨fun hlibrary => ?_, fun hcli => ?_⟩
  · rw [if_pos hlibrary]
    refine Py.wp_tryExcept.mpr (Py.wp_bind.mpr (Py.wp_ofExcept.mpr ⟨fun available hbuilt => ?_,
      fun error hbuilt => ⟨fun hcaught => ?_, fun huncaught => ⟨fun hready => ?_, rfl⟩⟩⟩))
    · rw [hbuilt]
      exact ⟨rfl, rfl⟩
    · rw [hbuilt]
      refine ⟨?_, rfl⟩
      dsimp only
      rw [if_pos hcaught]
    · rw [hready.client error hbuilt] at huncaught
      cases huncaught
  · rw [if_neg hcli]
    exact ⟨rfl, rfl⟩

theorem runKind_running {kind : String} (hkind : kind ∈ ["cli", "library"])
    (h : s.Running w target) :
    Py.wp (runKind w target.library kind) (fun _ => RunState.Running w target)
      (RunState.Stopped w target) s := by
  refine Py.wp_bind.mpr (Py.wp_read.mpr (Py.wp_ite.mpr ⟨fun _ => h, fun _ => ?_⟩))
  refine Py.wp_bind.mpr (Py.wp_mono (prepareClient_spec target) (fun client s' hs' => ?_)
    fun _ s' hs' => ?_)
  · obtain ⟨hclient, rfl⟩ := hs'
    exact Py.wp_forEach_mem (fun behavior hbehavior s h => turn_running hclient hbehavior hkind h) h
  · obtain ⟨hunready, rfl⟩ := hs'
    exact h.toTracked.stopped (Nat.zero_le 1) fun hready => absurd hready hunready

end Turn

end Runner

end FlatpakBlackbox
