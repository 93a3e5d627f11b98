import FlatpakBlackbox.Runner.Exit
import FlatpakBlackbox.Runner.Tracking

set_option autoImplicit false

/-! # A run refines the abstract run

The outer `try`, its `except` and its `finally` taken along `RunState.Tracked`: a run that gets past
its setup gives every case the outcome of the abstract run and tells the console of every selected
case once. In a world that is ready (`World.Ready`) only a case that is not contained keeps the run
from its end.
-/

namespace FlatpakBlackbox

namespace Runner

open PyLib PyException

variable {w : World} {s s' : RunState} {target : TargetConfig}

/-! ## The outer `try` -/

/-- The `except` of a case and the one around all cases name the same classes. -/
theorem isInstance_runClasses (error : PyException) :
    error.isInstance runClasses = error.isInstance caseClasses := by
  have hsame : ∀ cls, cls ∈ runClasses ↔ cls ∈ caseClasses := by
    intro cls
    simp only [runClasses, caseClasses, List.mem_cons, List.not_mem_nil, or_false]
    tauto
  rw [Bool.eq_iff_iff, PyException.isInstance_iff, PyException.isInstance_iff]
  simp only [hsame]

/-- What stops a run with the target that was loaded stops it with any other. -/
theorem RunState.Stopped.ofLoaded {loaded : TargetConfig} {error : PyException}
    (hload : w.loadTarget = .ok loaded) (h : s.Stopped w loaded error) (target : TargetConfig) :
    s.Stopped w target error := by
  refine ⟨h.told, fun hready => ?_⟩
  obtain rfl := Except.ok.inj (hready.loadTarget.symm.trans hload)
  exact h.blames hready

/-- A state with the cases of the start. -/
structure RunState.Fresh (w : World) (s : RunState) : Prop where
  cases : s.cases = w.initial.cases
  reported : s.reported = []
  completed : s.completed = 0

theorem RunState.Fresh.tracked (h : s.Fresh w) : s.Tracked w target [] :=
  tracked_initial.congr h.cases h.reported h.completed

/-- Every result gets the version of the target. -/
theorem RunState.Running.setVersion (h : s.Running w target) (text : String) :
    RunState.Running w target { s with
      targetVersion := some text
      cases := s.cases.mapValues fun result => { result with targetVersion := some text } } := by
  -- The version is recorded in every result, and in nothing that is tracked.
  let f (result : CaseResult) : CaseResult := { result with targetVersion := some text }
  have hget : ∀ {key result}, (s.cases.mapValues f).get? key = some result →
      ∃ result', s.cases.get? key = some result' ∧ result = f result' := by
    intro key result hget
    rw [Dict.get?_mapValues] at hget
    obtain ⟨result', hresult, heq⟩ := Option.map_eq_some_iff.mp hget
    exact ⟨result', hresult, heq.symm⟩
  have hset : ∀ {key result}, s.cases.get? key = some result →
      (s.cases.mapValues f).get? key = some (f result) := by
    intro key result hget
    rw [Dict.get?_mapValues, hget]
    rfl
  refine ⟨⟨⟨?_, h.nodup, fun key status hentry => ?_, fun key hselected => ?_, fun key hkey => ?_,
    h.completed⟩, h.fresh,
    fun key planned result hplanned hresult hpending => ?_,
    fun key planned result hplanned hresult hsettled => ?_, fun key hreaches hsettled => ?_⟩,
    fun key planned hplanned hkey => ?_⟩
  · rw [← h.keys]
    unfold Dict.keys Dict.mapValues
    rw [List.map_map]
    rfl
  · obtain ⟨hselected, hne, result, hresult, hstatus⟩ := h.told key status hentry
    exact ⟨hselected, hne, f result, hset hresult, hstatus⟩
  · refine (h.covered key hselected).imp_left ?_
    rintro ⟨result, hresult, hpending⟩
    exact ⟨f result, hset hresult, hpending⟩
  · obtain ⟨result, hresult, hpending⟩ := hkey
    obtain ⟨result', hresult', rfl⟩ := hget hresult
    exact h.selected key ⟨result', hresult', hpending⟩
  · obtain ⟨result', hresult', rfl⟩ := hget hresult
    have huntouched := h.untouched key planned result' hplanned hresult' hpending
    exact ⟨huntouched.outcome, huntouched.requiredCapabilities, huntouched.profile⟩
  · obtain ⟨result', hresult', rfl⟩ := hget hresult
    exact h.decided key planned result' hplanned hresult' hsettled
  · refine h.contained key hreaches fun hpending => hsettled ?_
    obtain ⟨result, hresult, hpending⟩ := hpending
    exact ⟨f result, hset hresult, hpending⟩
  · obtain ⟨result, hresult, hpending⟩ := hkey
    obtain ⟨result', hresult', rfl⟩ := hget hresult
    exact h.through key planned hplanned ⟨result', hresult', hpending⟩

theorem openTarget_gated (hopen : w.loadTarget = .ok target) (h : s.Fresh w) :
    Py.wp (openTarget w) (fun target' s' => target' = target ∧ s'.Gated w target [])
      (RunState.Stopped w target) s := by
  refine Py.wp_bind.mpr (Py.wp_ofExcept.mpr ⟨fun target' hload => ?_, fun error herror => ?_⟩)
  swap
  · rw [hopen] at herror
    cases herror
  obtain rfl := Except.ok.inj (hopen.symm.trans hload)
  have htracked : ∀ {s' : RunState}, s'.Fresh w → s'.Tracked w target [] := fun h => h.tracked
  -- A ready world answers every call before the gate, so a run that stops here blames it.
  have hstopped : ∀ {s' : RunState} {error : PyException}, s'.Fresh w → ¬ w.Ready target →
      s'.Stopped w target error :=
    fun h hunready => (htracked h).stopped (Nat.zero_le 1) fun hready => absurd hready hunready
  refine Py.wp_bind.mpr (Py.wp_ofExcept.mpr ⟨fun _ _ => ?_, fun error herror =>
    hstopped h fun hready => ?_⟩)
  swap
  · rw [hready.recordTarget] at herror
    cases herror
  refine Py.wp_bind.mpr (Py.wp_modify.mpr (Py.wp_bind.mpr (Py.wp_read.mpr ?_)))
  refine Py.wp_bind.mpr (Py.wp_ofExcept.mpr ⟨fun _ _ => ?_, fun error herror =>
    hstopped ⟨h.cases, h.reported, h.completed⟩ fun hready => ?_⟩)
  swap
  · obtain ⟨⟨capability, hmem, hunknown⟩, -⟩ := raiseIf_eq_error.mp herror
    have hknown := hready.known capability hmem
    refine hunknown ?_
    unfold RunState.knownCapabilities at hknown ⊢
    rw [← h.cases] at hknown
    exact hknown
  refine Py.wp_bind.mpr (Py.wp_modify.mpr ?_)
  have hdeclared : RunState.Fresh w { s with
      target := some target.name
      declaredUnsupportedCapabilities := some target.unsupportedCapabilities } :=
    ⟨h.cases, h.reported, h.completed⟩
  refine Py.wp_seq _ (gate_spec (htracked hdeclared) fun key planned result hplanned hget => ?_)
    fun _ s' hs' => ⟨rfl, hs'⟩
  rw [hdeclared.cases] at hget
  obtain rfl := Option.some.inj (hplanned.symm.trans hget)
  exact ⟨rfl, rfl, rfl⟩

theorem probeTarget_running (h : s.Running w target) :
    Py.wp (probeTarget w) (fun _ => RunState.Running w target)
      (RunState.Stopped w target) s := by
  -- The calls come one after the other; each one that raises tells that the world is not ready.
  have hstopped : ∀ {s' : RunState} {error : PyException}, s'.Running w target →
      ¬ w.Ready target → s'.Stopped w target error :=
    fun h hunready => h.toTracked.stopped (Nat.zero_le 1) fun hready => absurd hready hunready
  refine Py.wp_bind.mpr (Py.wp_ofExcept.mpr ⟨fun arch harch => ?_, fun error herror =>
    hstopped h fun hready => ?_⟩)
  swap
  · obtain ⟨arch, hfixture, -⟩ := hready.fixture
    rw [hfixture] at herror
    cases herror
  refine Py.wp_bind.mpr (Py.wp_ofExcept.mpr ⟨fun _ _ => ?_, fun error herror =>
    hstopped h fun hready => ?_⟩)
  swap
  · rw [hready.programs] at herror
    cases herror
  refine Py.wp_bind.mpr (Py.wp_ofExcept.mpr ⟨fun version hversion => ?_, fun error herror =>
    hstopped h fun hready => ?_⟩)
  swap
  · obtain ⟨version, hversion, -⟩ := hready.version
    rw [hversion] at herror
    cases herror
  refine Py.wp_bind.mpr (Py.wp_ofExcept.mpr ⟨fun _ _ => ?_, fun error herror =>
    hstopped h fun hready => ?_⟩)
  swap
  · obtain ⟨version', hversion', hzero⟩ := hready.version
    obtain rfl := Except.ok.inj (hversion.symm.trans hversion')
    exact (raiseIf_eq_error.mp herror).1 hzero
  have hnamed := h.setVersion (String.ofList (strip version.stdout.toList))
  refine Py.wp_bind.mpr (Py.wp_modify.mpr ?_)
  refine Py.wp_bind.mpr (Py.wp_ofExcept.mpr ⟨fun answer hanswer => ?_, fun error herror =>
    hstopped hnamed fun hready => ?_⟩)
  swap
  · obtain ⟨arch', -, answer, hanswer, -⟩ := hready.fixture
    rw [hanswer] at herror
    cases herror
  have hanswers : w.Ready target → answer.returncode = 0 ∧
    strip answer.stdout.toList = arch.toList := by
    intro hready
    obtain ⟨arch', harch', answer', hanswer', hzero, htext⟩ := hready.fixture
    obtain rfl := Except.ok.inj (harch.symm.trans harch')
    obtain rfl := Except.ok.inj (hanswer.symm.trans hanswer')
    exact ⟨hzero, htext⟩
  refine Py.wp_bind.mpr (Py.wp_ofExcept.mpr ⟨fun _ _ => ?_, fun error herror =>
    hstopped hnamed fun hready => ?_⟩)
  swap
  · exact (raiseIf_eq_error.mp herror).1 (hanswers hready).1
  refine Py.wp_ofExcept.mpr ⟨fun _ _ => hnamed, fun error herror =>
    hstopped hnamed fun hready => ?_⟩
  exact (raiseIf_eq_error.mp herror).1 (hanswers hready).2

theorem kinds_subset (choice : DriverChoice) : ∀ kind ∈ choice.kinds,
    kind ∈ ["cli", "library"] := by
  cases choice <;> decide

/-- **The outer `try` follows the abstract run.** -/
theorem runCases_tracked (target : TargetConfig) (h : s.Fresh w) :
    Py.wp (runCases w)
      (fun _ s' => ∃ target', w.loadTarget = .ok target' ∧ s'.Tracked w target' [])
      (RunState.Stopped w target) s := by
  cases hopen : w.loadTarget with
  | error error =>
      refine Py.wp_bind.mpr (Py.wp_bind.mpr (Py.wp_ofExcept.mpr ⟨fun target' hload => ?_,
        fun error' _ => h.tracked.stopped (Nat.zero_le 1) fun hready => ?_⟩))
      · rw [hopen] at hload
        cases hload
      · rw [hready.loadTarget] at hopen
        cases hopen
  | ok loaded =>
      have hstopped : ∀ error s, RunState.Stopped w loaded error s → s.Stopped w target error :=
        fun _ _ h => h.ofLoaded hopen target
      refine Py.wp_bind.mpr (Py.wp_mono (openTarget_gated hopen h) (fun target' s' hs' => ?_)
        hstopped)
      obtain ⟨rfl, hgated⟩ := hs'
      -- What is pending behind the gate was let through by it.
      have hrunning : s'.Running w target' := by
        refine ⟨hgated.toTracked, fun key planned hplanned hkey => ?_⟩
        exact ((hgated.behind key planned List.not_mem_nil hplanned).mp hkey).2
      refine Py.wp_bind.mpr (Py.wp_read.mpr (Py.wp_bind.mpr (Py.wp_ofExcept.mpr ⟨fun _ _ => ?_,
        fun error herror => hstopped _ _ (hgated.toTracked.stopped (Nat.zero_le 1) fun hready =>
          absurd herror ?_)⟩)))
      · refine Py.wp_bind.mpr (Py.wp_mono (probeTarget_running hrunning) (fun _ s'' hs'' => ?_)
          hstopped)
        exact Py.wp_mono (Py.wp_forEach_mem
          (fun kind hkind s h => runKind_running (kinds_subset _ kind hkind) h) hs'')
          (fun _ s h => ⟨target', rfl, h.toTracked⟩) hstopped
      · intro herror
        -- A ready world has a case that the gate lets through, which is pending.
        obtain ⟨key, planned, hplanned, hpending, hungated⟩ := hready.ungated
        have hkey := (hgated.behind key planned List.not_mem_nil hplanned).mpr ⟨hpending, hungated⟩
        obtain ⟨result, hget, hstatus⟩ := hkey
        have hnone := List.any_eq_false.mp (raiseIf_eq_error.mp herror).1 result
          (Dict.mem_values_iff.mpr ⟨key, hget⟩)
        exact hnone (decide_eq_true hstatus)

/-! ## The outer `except` and `finally` -/

/-- The console was told of every selected case but at most one. -/
def RunState.MostlyTold (w : World) (s : RunState) : Prop :=
  ∃ owed, owed.length ≤ 1 ∧ s.Told w owed

/-- The outer `except` tells the console of every case it fails. -/
theorem setupFailed_told {error : PyException} (h : s.MostlyTold w) :
    Py.wp (setupFailed w error) (fun _ => RunState.MostlyTold w) (fun _ _ => True) s := by
  obtain ⟨owed, howed, htold⟩ := h
  refine Py.wp_bind.mpr (Py.wp_modify.mpr (Py.wp_bind.mpr (Py.wp_read.mpr ?_)))
  refine Py.wp_seq (fun _ => RunState.Told w owed) (Py.wp_forEach_mem (fun key hkey s h => ?_)
    (htold.congr rfl rfl rfl)) fun _ s hs => Py.wp_bind.mpr (Py.wp_modify.mpr
      (Py.wp_ofExcept.mpr ⟨fun _ _ => ⟨owed, howed, hs.congr rfl rfl rfl⟩, fun _ _ => trivial⟩))
  have hkey' : key ∈ w.initial.cases.keys := htold.keys ▸ hkey
  obtain ⟨result, hget⟩ := h.exists_result hkey'
  refine (wp_caseResult_bind hget).mpr (Py.wp_ite.mpr ⟨fun hpending => ?_, fun _ => h⟩)
  have hupdated := Dict.get?_update_self (failedWith error) hget
  have hstatus := failureStatus_mem error
  have hchanged : RunState.Told w (key :: owed)
      { s with cases := s.cases.update key (failedWith error) } :=
    h.change ⟨result, hget, hpending⟩ rfl rfl rfl
  have htold' := hchanged.report hupdated (h.selected key ⟨result, hget, hpending⟩)
    (ne_pending_of_failure hstatus) (h.not_mem_of_pending ⟨result, hget, hpending⟩)
  refine Py.wp_bind.mpr (Py.wp_modify.mpr (Py.wp_mono
    (caseFinished_spec hupdated (List.mem_cons_of_mem _ hstatus)) (fun _ s' hs' => ?_)
    fun _ _ _ => trivial))
  rw [hs']
  exact htold'

/-- The calls of `main` outside of its `try` succeed. -/
structure World.Reports (w : World) : Prop where
  writeInitial : w.writeInitial = .ok ()
  summarize : ∀ s, ∃ coverage, w.summarize s = .ok coverage
  writeReport : w.writeReport = .ok ()
  writeCoverage : w.writeCoverage = .ok ()
  printSummary : w.printSummary = .ok ()
  writeSummary : ∀ error, w.writeSummary = .error error →
    error.isInstance [.osError] = true ∧ w.printSummaryError = .ok ()

/-- The outer `finally` raises only where a call of it does. -/
theorem completeRun_reports (started : ℚ) :
    Py.wp (completeRun w started) (fun _ _ => True) (fun _ _ => ¬ w.Reports) s := by
  refine Py.wp_bind.mpr (Py.wp_modify.mpr (Py.wp_bind.mpr (Py.wp_modify.mpr
    (Py.wp_bind.mpr (Py.wp_modify.mpr (Py.wp_bind.mpr (Py.wp_read.mpr ?_)))))))
  refine Py.wp_bind.mpr (Py.wp_ofExcept.mpr ⟨fun coverage _ => ?_, fun error herror hreports => ?_⟩)
  swap
  · obtain ⟨coverage, hcoverage⟩ := hreports.summarize _
    exact absurd (hcoverage.symm.trans herror) (by intro hne; cases hne)
  refine Py.wp_bind.mpr (Py.wp_modify.mpr (Py.wp_bind.mpr (Py.wp_modify.mpr
    (Py.wp_bind.mpr (wp_runNow.mpr (Py.wp_bind.mpr (Py.wp_modify.mpr ?_)))))))
  refine Py.wp_bind.mpr (Py.wp_ofExcept.mpr ⟨fun _ _ => Py.wp_ofExcept.mpr ⟨fun _ _ => trivial,
    fun error herror hreports => ?_⟩, fun error herror hreports => ?_⟩)
  · rw [hreports.writeCoverage] at herror
    cases herror
  · rw [hreports.writeReport] at herror
    cases herror

/-! ## The whole run -/

/-- What a run that returns has decided and reported. -/
structure RunState.Concluded (w : World) (target : TargetConfig) (s : RunState) : Prop where
  told : s.MostlyTold w
  tracked : s.setupError = none → ∃ target', w.loadTarget = .ok target' ∧ s.Tracked w target' []
  setup : w.Ready target → w.Tidy target → s.setupError = none

theorem RunState.Concluded.congr (h : s.Concluded w target) (hcases : s'.cases = s.cases)
    (hreported : s'.reported = s.reported) (hcompleted : s'.completed = s.completed)
    (hsetup : s'.setupError = s.setupError) : s'.Concluded w target where
  told := by
    obtain ⟨owed, howed, htold⟩ := h.told
    exact ⟨owed, howed, htold.congr hcases hreported hcompleted⟩
  tracked hnone := by
    obtain ⟨target', hload, htracked⟩ := h.tracked (hsetup.symm.trans hnone)
    exact ⟨target', hload, htracked.congr hcases hreported hcompleted⟩
  setup hready htidy := hsetup.trans (h.setup hready htidy)

/-- `main` up to its summary. -/
theorem concluded_of_try (hclock : Monotone w.clock) (target : TargetConfig) (started : ℚ)
    (h : s.Fair w) (hfresh : s.Fresh w) :
    Py.wp (Py.tryFinally
        (Py.tryExcept (runCases w) (fun error => error.isInstance runClasses) (setupFailed w))
        (completeRun w started))
      (fun _ => RunState.Concluded w target) (fun error _ => w.Reports → w.Blames target error)
      s := by
  -- The `finally` changes neither the cases nor what was told of them.
  have hcomplete : ∀ {s : RunState}, s.Concluded w target →
      Py.wp (completeRun w started) (fun _ => RunState.Concluded w target)
        (fun error _ => w.Reports → w.Blames target error) s := by
    intro s h
    refine Py.wp_mono (Py.wp_and (completeRun_spec started) (completeRun_reports started))
      (fun _ s' hs' => ?_) fun _ s' hs' hreports => absurd hreports hs'.2
    exact h.congr hs'.1.cases hs'.1.reported hs'.1.completed hs'.1.setupError
  have hraise : ∀ {s : RunState} {error : PyException}, w.Blames target error →
      Py.wp (completeRun w started) (fun _ _ => w.Reports → w.Blames target error)
        (fun error _ => w.Reports → w.Blames target error) s := by
    intro s error hblames
    exact Py.wp_mono (completeRun_reports started) (fun _ _ _ _ => hblames)
      fun _ _ hraised hreports => absurd hreports hraised
  refine Py.wp_tryFinally.mpr (Py.wp_tryExcept.mpr (Py.wp_mono
    (Py.wp_and (runCases_tracked target hfresh) (runCases_spec hclock h)) (fun _ s hs => ?_)
    fun error s hs => ⟨fun hcaught => ?_, fun _ => hraise hs.1.blames⟩))
  · obtain ⟨htracked, hran⟩ := hs
    refine hcomplete ⟨?_, fun _ => htracked, fun _ _ => hran.setupError⟩
    obtain ⟨target', -, htracked⟩ := htracked
    exact ⟨[], Nat.zero_le 1, htracked.toTold⟩
  · -- The `except` catches what no tidy case of a ready world raises.
    rw [isInstance_runClasses] at hcaught
    have huntidy : w.Ready target → ¬ w.Tidy target := by
      intro hready htidy
      have hunnamed := (hs.1.blames hready).2 htidy
      rw [hcaught] at hunnamed
      cases hunnamed
    refine Py.wp_mono (Py.wp_and (setupFailed_told hs.1.told) (setupFailed_spec hs.2))
      (fun _ s' hs' => hcomplete ⟨hs'.1, fun hnone => absurd hnone hs'.2.setupError,
        fun hready htidy => absurd htidy (huntidy hready)⟩) fun _ _ _ => hraise fun hready => ?_
    exact ⟨(hs.1.blames hready).1, fun htidy => absurd htidy (huntidy hready)⟩

theorem deliverSummary_keeps {P : RunState → Prop} (h : P s) (hstatus : P { s with status := 1 }) :
    Py.wp (deliverSummary w) (fun _ => P) (fun _ _ => ¬ w.Reports) s := by
  refine Py.wp_ite.mpr ⟨fun _ => h, fun _ => ?_⟩
  refine Py.wp_tryExcept.mpr (Py.wp_bind.mpr (Py.wp_ofExcept.mpr ⟨fun _ _ => h,
    fun error herror => ⟨fun _ => ?_, fun huncaught hreports => ?_⟩⟩))
  · refine Py.wp_bind.mpr (Py.wp_ofExcept.mpr ⟨fun _ _ => Py.wp_bind.mpr (Py.wp_modify.mpr hstatus),
      fun error' herror' hreports => ?_⟩)
    rw [(hreports.writeSummary error herror).2] at herror'
    cases herror'
  · rw [(hreports.writeSummary error herror).1] at huncaught
    cases huncaught

/-- **`main` follows the abstract run.** -/
theorem main_concluded (hclock : Monotone w.clock) (target : TargetConfig) :
    Py.wp (main w) (fun _ => RunState.Concluded w target)
      (fun error _ => w.Reports → w.Blames target error) w.initial := by
  have hinitial := RunState.Fair.initial (w := w)
  have hfair : RunState.Fair w { w.initial with reads := w.initial.reads + 1 } :=
    ⟨hinitial.toSound.congr rfl rfl (hclock (Nat.le_succ _)),
      ⟨hinitial.setupError, hinitial.status, hinitial.failures⟩, hinitial.untouched,
      hinitial.tolerated⟩
  refine Py.wp_bind.mpr (wp_runNow.mpr ?_)
  refine Py.wp_bind.mpr (Py.wp_ofExcept.mpr ⟨fun _ _ => ?_, fun error herror hreports => ?_⟩)
  swap
  · rw [hreports.writeInitial] at herror
    cases herror
  refine Py.wp_bind.mpr (Py.wp_mono (concluded_of_try hclock target _ hfair ⟨rfl, rfl, rfl⟩)
    (fun _ s hs => ?_) fun _ _ h => h)
  refine Py.wp_bind.mpr (Py.wp_ofExcept.mpr ⟨fun _ _ => ?_, fun error herror hreports => ?_⟩)
  swap
  · rw [hreports.printSummary] at herror
    cases herror
  refine Py.wp_bind.mpr (Py.wp_mono (deliverSummary_keeps hs (hs.congr rfl rfl rfl rfl))
    (fun delivered s' hs' =>
      Py.wp_bind.mpr (Py.wp_read.mpr (Py.wp_ite.mpr ⟨fun _ => hs', fun _ => hs'⟩)))
    fun _ _ h hreports => absurd hreports h)

end Runner

end FlatpakBlackbox
