import FlatpakBlackbox.Basic.Best
import FlatpakBlackbox.Web.Snapshot

set_option autoImplicit false

/-! # The coverage history

`daily` of `history.ts`, `targetKey` and `withBaseline` of `targets.ts` and the `update` command of
`scripts/history.ts`. The history keeps one snapshot per target and UTC day. `daily` is the loop of
`Basic/Best.lean` for the keys `target/YYYY-MM-DD` and the rank of a complete run over an
incomplete one, then of the later instant.
-/

namespace FlatpakBlackbox

open PyLib

/-! ## Collation -/

/-- `String.prototype.localeCompare`: a consistent comparator. Different strings can compare equal,
canonically equivalent ones do. -/
structure Collation where
  localeCompare : String → String → Int
  self : ∀ a, localeCompare a a = 0
  swap : ∀ a b, localeCompare a b ≤ 0 ↔ 0 ≤ localeCompare b a
  trans : ∀ a b c, localeCompare a b ≤ 0 → localeCompare b c ≤ 0 → localeCompare a c ≤ 0

/-- The order that `sort` puts two keys in, or leaves them in. -/
def Collation.le (collation : Collation) (a b : String) : Prop := collation.localeCompare a b ≤ 0

instance (collation : Collation) : DecidableRel collation.le := fun a b =>
  inferInstanceAs (Decidable (collation.localeCompare a b ≤ 0))

instance (collation : Collation) : Std.Total collation.le :=
  ⟨fun a b => (le_total (collation.localeCompare a b) 0).imp id fun h =>
    (collation.swap b a).mpr h⟩

instance (collation : Collation) : IsTrans String collation.le := ⟨collation.trans⟩

/-! ## `daily` -/

/-- `targetKey(entry)`. -/
def Snapshot.targetKey (s : Snapshot) : String :=
  match s.track with
  | .upstream => "upstream"
  | .pinned => "pinned:" ++ s.targetCommit

/-- The key of `daily`: the target and the UTC day. -/
def Snapshot.dayKey (s : Snapshot) : String := s.targetKey ++ "/" ++ s.timestamp.utcDay

/-- What `daily` compares: completeness, then the instant. -/
def Snapshot.rank (s : Snapshot) : Bool ×ₗ Int := toLex (s.complete, s.timestamp.instant)

/-- The condition of `daily` under which an item replaces the previous one. -/
def Snapshot.replaces (item previous : Snapshot) : Bool :=
  item.complete.toNat > previous.complete.toNat
    || (item.complete = previous.complete
      && previous.timestamp.instant ≤ item.timestamp.instant)

theorem Snapshot.replaces_iff (item previous : Snapshot) :
    item.replaces previous = true ↔ previous.rank ≤ item.rank := by
  unfold replaces rank
  rw [Prod.Lex.toLex_le_toLex]
  cases item.complete <;> cases previous.complete <;> simp

/-- One iteration of the loop of `daily`. -/
def selectDaily (selected : Dict String Snapshot) (item : Snapshot) : Dict String Snapshot :=
  match selected.get? item.dayKey with
  | some previous => if item.replaces previous then selected.set item.dayKey item else selected
  | none => selected.set item.dayKey item

/-- `daily(history, entry)`. -/
def daily (collation : Collation) (history : List Snapshot) (entry : Option Snapshot) :
    List Snapshot :=
  let items := match entry with
    | some item => history ++ [item]
    | none => history
  let selected := items.foldl selectDaily Dict.empty
  (selected.entries.insertionSort fun a b => collation.localeCompare a.1 b.1 ≤ 0).map Prod.snd

theorem selectDaily_eq_keep : selectDaily = keep Snapshot.dayKey Snapshot.rank := by
  funext selected item
  unfold selectDaily keep
  cases selected.get? item.dayKey with
  | none => rfl
  | some previous =>
      dsimp only
      by_cases h : item.replaces previous = true
      · rw [if_pos h, if_pos ((Snapshot.replaces_iff _ _).mp h)]
      · rw [if_neg h, if_neg (fun hle => h ((Snapshot.replaces_iff _ _).mpr hle))]

theorem daily_none (collation : Collation) (history : List Snapshot) :
    daily collation history none
      = bestByKey Snapshot.dayKey Snapshot.rank collation.le history := by
  unfold daily
  rw [selectDaily_eq_keep]
  rfl

theorem daily_some (collation : Collation) (history : List Snapshot) (entry : Snapshot) :
    daily collation history (some entry) = daily collation (history ++ [entry]) none := rfl

/-! ## Days -/

/-- Snapshots of one target and UTC day. -/
def Snapshot.SameDay (s t : Snapshot) : Prop :=
  s.targetKey = t.targetKey ∧ s.timestamp.day = t.timestamp.day

theorem Snapshot.SameDay.dayKey_eq {s t : Snapshot} (h : s.SameDay t) : s.dayKey = t.dayKey := by
  unfold Snapshot.dayKey
  rw [h.1, s.timestamp.utcDay_eq, t.timestamp.utcDay_eq, h.2]

/-- In years of four digits the key determines the target and the UTC day: the day is the part
after the last ten characters begin. -/
theorem Snapshot.dayKey_eq_iff {s t : Snapshot} (hs : s.timestamp.FourDigitYear)
    (ht : t.timestamp.FourDigitYear) : s.dayKey = t.dayKey ↔ s.SameDay t := by
  refine ⟨fun h => ?_, SameDay.dayKey_eq⟩
  have hlist := congrArg String.toList h
  unfold Snapshot.dayKey at hlist
  rw [String.toList_append, String.toList_append, String.toList_append,
    String.toList_append] at hlist
  have hlength : s.timestamp.utcDay.toList.length = t.timestamp.utcDay.toList.length := by
    rw [s.timestamp.utcDay_length, t.timestamp.utcDay_length]
  obtain ⟨htarget, hday⟩ := List.append_inj' hlist hlength
  have htarget' := List.append_cancel_right htarget
  exact ⟨String.toList_injective htarget',
    (Timestamp.utcDay_eq_iff hs ht).mp (String.toList_injective hday)⟩

/-- `localeCompare` orders the keys of one target by their days. It does so for all years of four
digits, in which a date is `YYYY-MM-DD`; the list names the keys that are compared. -/
def Collation.Chronological (collation : Collation) (history : List Snapshot) : Prop :=
  ∀ s ∈ history, ∀ t ∈ history, s.targetKey = t.targetKey → s.timestamp.day < t.timestamp.day →
    collation.localeCompare s.dayKey t.dayKey < 0

/-! ## The daily reduction -/

instance (s t : Snapshot) : Decidable (s.SameDay t) := inferInstanceAs (Decidable (_ ∧ _))

/-- The snapshot of the target and day of `s` that the history is reduced to: the maximum under
completeness and instant, the last one of those that tie. -/
def Snapshot.IsDaily (history : List Snapshot) (s t : Snapshot) : Prop :=
  ∃ before after, history = before ++ t :: after ∧ t.SameDay s
    ∧ (∀ u ∈ before, u.SameDay s → u.rank ≤ t.rank) ∧ ∀ u ∈ after, u.SameDay s → u.rank < t.rank

/-- No two snapshots of one target and day tie. -/
def NoTies (history : List Snapshot) : Prop :=
  history.Pairwise fun s t => s.SameDay t → s.rank ≠ t.rank

/-- No two different keys compare equal. -/
def Collation.Separates (collation : Collation) (history : List Snapshot) : Prop :=
  ∀ s ∈ history, ∀ t ∈ history, collation.localeCompare s.dayKey t.dayKey = 0 →
    s.dayKey = t.dayKey

section Daily

variable {collation : Collation} {history : List Snapshot}

theorem mem_of_mem_daily {t : Snapshot} (h : t ∈ daily collation history none) : t ∈ history := by
  rw [daily_none, mem_bestByKey_iff] at h
  exact (lastHighest_of_get?_best h).mem.1

theorem foldl_daily :
    history.foldl (fun kept s => daily collation kept (some s)) [] =
    daily collation history none := by
  have hstep : (fun kept s => daily collation kept (some s))
      = fun kept s => bestByKey Snapshot.dayKey Snapshot.rank collation.le (kept ++ [s]) := by
    funext kept s
    rw [daily_some, daily_none]
  rw [hstep, daily_none, foldl_bestByKey]

theorem daily_daily :
    daily collation (daily collation history none) none = daily collation history none := by
  rw [daily_none, daily_none, bestByKey_bestByKey]

theorem exists_filter_daily (hyears : ∀ s ∈ history, s.timestamp.FourDigitYear) {s : Snapshot}
    (hs : s ∈ history) :
    ∃ t, (daily collation history none).filter (fun t => t.SameDay s) = [t]
      ∧ s.IsDaily history t := by
  have hiff : ∀ u ∈ history, u.dayKey = s.dayKey ↔ u.SameDay s := fun u hu =>
    Snapshot.dayKey_eq_iff (hyears u hu) (hyears s hs)
  obtain ⟨t, hfilter, before, after, heq, hkey, hbefore, hafter⟩ :
      ∃ t, (bestByKey Snapshot.dayKey Snapshot.rank collation.le history).filter _ = [t] ∧ _ :=
    exists_filter_bestByKey collation.le hs
  refine ⟨t, ?_, before, after, heq, ?_, fun u hu hday => ?_, fun u hu hday => ?_⟩
  · rw [← hfilter, daily_none]
    refine List.filter_congr fun u hu => ?_
    have hmem : u ∈ history := mem_of_mem_daily (daily_none collation history ▸ hu)
    exact decide_eq_decide.mpr (hiff u hmem).symm
  · exact (hiff t (heq ▸ by simp)).mp hkey
  · exact hbefore u hu hday.dayKey_eq
  · exact hafter u hu hday.dayKey_eq

theorem daily_eq_of_perm (hyears : ∀ s ∈ history, s.timestamp.FourDigitYear)
    {history' : List Snapshot} (hperm : history.Perm history') (hties : NoTies history)
    (hseparates : collation.Separates history) :
    daily collation history none = daily collation history' none := by
  rw [daily_none, daily_none]
  refine bestByKey_eq_of_perm collation.le hperm ?_ fun s hs t ht hle hge => ?_
  · refine hties.imp_of_mem fun hs ht h hkey => h ?_
    exact (Snapshot.dayKey_eq_iff (hyears _ hs) (hyears _ ht)).mp hkey
  · exact hseparates s hs t ht (le_antisymm hle ((collation.swap _ _).mp hge))

theorem daily_strictMono (hchronological : collation.Chronological history) :
    (daily collation history none).Pairwise fun s t =>
      s.targetKey = t.targetKey → s.timestamp.day < t.timestamp.day := by
  have hpairwise : (bestByKey Snapshot.dayKey Snapshot.rank collation.le history).Pairwise _ :=
    bestByKey_pairwise collation.le history
  rw [daily_none]
  refine hpairwise.imp_of_mem fun {s t} hs ht h htarget => ?_
  have hs' : s ∈ history := mem_of_mem_daily (daily_none collation history ▸ hs)
  have ht' : t ∈ history := mem_of_mem_daily (daily_none collation history ▸ ht)
  rcases lt_trichotomy s.timestamp.day t.timestamp.day with hlt | heq | hgt
  · exact hlt
  · exact absurd (Snapshot.SameDay.dayKey_eq ⟨htarget, heq⟩) h.1
  · have hneg := hchronological t ht' s hs' htarget.symm hgt
    have hpos := (collation.swap _ _).mp h.2
    omega

/-- **The daily reduction is a left fold.** Adding the snapshots one at a time gives the reduction
of the whole list, which is idempotent; it keeps exactly one snapshot of each target and day of the
list, the maximum with the later position winning ties; without ties it does not depend on the
order of the list, provided that no two different keys compare equal; and within a target its days
are strictly increasing. -/
theorem daily_reduction (hyears : ∀ s ∈ history, s.timestamp.FourDigitYear)
    (hchronological : collation.Chronological history) :
    history.foldl (fun kept s => daily collation kept (some s)) [] = daily collation history none
    ∧ daily collation (daily collation history none) none = daily collation history none
    ∧ (∀ s ∈ history, ∃ t, (daily collation history none).filter (fun t => t.SameDay s) = [t]
        ∧ s.IsDaily history t)
    ∧ (∀ t ∈ daily collation history none, t ∈ history)
    ∧ (∀ history', history.Perm history' → NoTies history → collation.Separates history →
        daily collation history none = daily collation history' none)
    ∧ (daily collation history none).Pairwise fun s t =>
        s.targetKey = t.targetKey → s.timestamp.day < t.timestamp.day :=
  ⟨foldl_daily, daily_daily, fun _ hs => exists_filter_daily hyears hs,
    fun _ ht => mem_of_mem_daily ht,
    fun _ hperm hties hseparates => daily_eq_of_perm hyears hperm hties hseparates,
    daily_strictMono hchronological⟩

/-- A collation that compares what a function makes of the strings. -/
def Collation.comparing (normalize : String → String) : Collation where
  localeCompare a b :=
    if normalize a < normalize b then -1 else if normalize b < normalize a then 1 else 0
  self a := by simp
  swap a b := by
    rcases lt_trichotomy (normalize a) (normalize b) with h | h | h
    · simp [h, h.not_gt]
    · simp [h]
    · simp [h, h.not_gt]
  trans a b c := by
    have hle : ∀ x y : String, (if x < y then -1 else if y < x then 1 else 0 : Int) ≤ 0 ↔
      x ≤ y := by
      intro x y
      rcases lt_trichotomy x y with h | h | h
      · simp [h, h.le]
      · simp [h]
      · simp [h, h.not_gt]
    rw [hle, hle, hle]
    exact le_trans

/-- Canonical composition, of one letter and one accent. -/
def composeAcute : List Char → List Char
  | c :: d :: cs =>
      if c = 'e' ∧ d = Char.ofNat 0x301 then Char.ofNat 0xe9 :: composeAcute cs
      else c :: composeAcute (d :: cs)
  | cs => cs

/-- A collation that honours this canonical equivalence. -/
def Collation.canonical : Collation := .comparing fun s => .ofList (composeAcute s.toList)

/-- The last millisecond of the year 2024. -/
def Timestamp.endOf2024 : Timestamp :=
  ⟨"2024-12-31T23:59:59.999Z", 1735689599999, by decide +kernel⟩

/-- The first minute of the year 2025, written with an offset. -/
def Timestamp.startOf2025 : Timestamp :=
  ⟨"2025-01-01T01:00+01:00", 1735689600000, by decide +kernel⟩

/-- A snapshot of a pinned commit. -/
def Snapshot.ofCommit (commit : String) (timestamp : Timestamp) : Snapshot where
  track := .pinned
  timestamp := timestamp
  complete := true
  verification := .current
  suiteCommit := "suite"
  targetCommit := commit
  baseline := none
  targetVersion := none
  runUrl := "run"
  workflow := none
  fingerprint := "fingerprint"
  metrics := Dict.empty
  performance := none
  pinned := by simp

/-- Two targets whose commits are canonically equivalent texts. -/
def equivalentTargets : List Snapshot :=
  [.ofCommit (.ofList [Char.ofNat 0xe9]) .endOf2024,
    .ofCommit (.ofList ['e', Char.ofNat 0x301]) .endOf2024]

/-- Keys that compare equal stay in the order of the input. -/
theorem daily_reversed_equivalentTargets :
    (∀ s ∈ equivalentTargets, s.timestamp.FourDigitYear)
    ∧ Collation.canonical.Chronological equivalentTargets
    ∧ NoTies equivalentTargets
    ∧ equivalentTargets.Perm equivalentTargets.reverse
    ∧ (daily .canonical equivalentTargets none).map Snapshot.targetCommit
        ≠ (daily .canonical equivalentTargets.reverse none).map Snapshot.targetCommit := by
  refine ⟨by decide +kernel, ?_, ?_, (List.reverse_perm _).symm, by decide +kernel⟩
  · show ∀ s ∈ equivalentTargets, ∀ t ∈ equivalentTargets, _ → _ → _
    decide +kernel
  · show equivalentTargets.Pairwise _
    decide +kernel

/-- Two runs of one target, on two days. -/
def twoDays : List Snapshot := [.ofCommit "a" .startOf2025, .ofCommit "a" .endOf2024]

theorem daily_reduction_twoDays :
    twoDays.foldl (fun kept s => daily .canonical kept (some s)) [] = daily .canonical twoDays none
    ∧ daily .canonical (daily .canonical twoDays none) none = daily .canonical twoDays none
    ∧ (∀ s ∈ twoDays, ∃ t, (daily .canonical twoDays none).filter (fun t => t.SameDay s) = [t]
        ∧ s.IsDaily twoDays t)
    ∧ (∀ t ∈ daily .canonical twoDays none, t ∈ twoDays)
    ∧ (∀ history', twoDays.Perm history' → NoTies twoDays → Collation.canonical.Separates twoDays →
        daily .canonical twoDays none = daily .canonical history' none)
    ∧ (daily .canonical twoDays none).Pairwise fun s t =>
        s.targetKey = t.targetKey → s.timestamp.day < t.timestamp.day := by
  refine daily_reduction (by decide +kernel) ?_
  show ∀ s ∈ twoDays, ∀ t ∈ twoDays, _ → _ → _
  decide +kernel

end Daily

/-! ## `update` -/

/-- `{ ...entry, baseline }`. -/
def Snapshot.setBaseline (entry : Snapshot) (baseline : Baseline) (htrack : entry.track = .pinned)
    (hcommit : baseline.commit = entry.targetCommit) : Snapshot :=
  { entry with
    baseline := some baseline
    pinned := fun b hb => by
      cases Option.mem_some.mp hb
      exact ⟨htrack, hcommit⟩ }

/-- `withBaseline(entry)`. -/
def withBaseline (config : BaselineConfig) (entry : Snapshot) : Snapshot :=
  if hpinned : entry.track = .pinned ∧ entry.baseline = none then
    match hfind : config.findBaseline entry.targetCommit with
    | some baseline =>
        entry.setBaseline baseline hpinned.1 (BaselineConfig.commit_of_findBaseline hfind)
    | none => entry
  else entry

/-- The `update` command: the history it reads, if there is one, and the snapshot it adds. -/
def update (config : BaselineConfig) (collation : Collation) (existing : Option Value)
    (snapshot : Value) : Option Value := do
  let history ← Schema.history.parse (existing.getD (.list []))
  let snapshot ← Schema.snapshot.parse snapshot
  return Schema.history.write ((daily collation history (some snapshot)).map (withBaseline config))

section Update

variable (config : BaselineConfig)

/-- Only a missing baseline is filled in. -/
theorem withBaseline_cases (s : Snapshot) : withBaseline config s = s ∨
    s.baseline = none ∧ ∃ b htrack hcommit,
      withBaseline config s = s.setBaseline b htrack hcommit := by
  unfold withBaseline
  split
  · next hpinned =>
      split
      · next baseline hfind =>
          have hcommit := BaselineConfig.commit_of_findBaseline hfind
          exact Or.inr ⟨hpinned.2, baseline, hpinned.1, hcommit, rfl⟩
      · exact Or.inl rfl
  · exact Or.inl rfl

theorem withBaseline_of_some {s : Snapshot} (h : s.baseline ≠ none) : withBaseline config s = s :=
  dif_neg fun hpinned => h hpinned.2

theorem withBaseline_withBaseline (s : Snapshot) :
    withBaseline config (withBaseline config s) = withBaseline config s := by
  rcases withBaseline_cases config s with h | ⟨-, b, htrack, hcommit, h⟩
  · rw [h, h]
  · rw [h]
    exact withBaseline_of_some config (Option.some_ne_none b)

theorem dayKey_withBaseline (s : Snapshot) : (withBaseline config s).dayKey = s.dayKey := by
  rcases withBaseline_cases config s with h | ⟨-, b, htrack, hcommit, h⟩
  · rw [h]
  · rw [h]
    rfl

theorem rank_withBaseline (s : Snapshot) : (withBaseline config s).rank = s.rank := by
  rcases withBaseline_cases config s with h | ⟨-, b, htrack, hcommit, h⟩
  · rw [h]
  · rw [h]
    rfl

theorem daily_map_withBaseline (collation : Collation) (history : List Snapshot) :
    daily collation (history.map (withBaseline config)) none
      = (daily collation history none).map (withBaseline config) := by
  rw [daily_none, daily_none]
  exact bestByKey_map collation.le (dayKey_withBaseline config) (rank_withBaseline config) history

/-- Adding the snapshot again to the updated history changes nothing. -/
theorem daily_updated (collation : Collation) (history : List Snapshot) (s : Snapshot) :
    (daily collation ((daily collation history (some s)).map (withBaseline config)) (some s)).map
        (withBaseline config)
      = (daily collation history (some s)).map (withBaseline config) := by
  have hidem : ∀ l : List Snapshot, (l.map (withBaseline config)).map (withBaseline config)
      = l.map (withBaseline config) := by
    intro l
    rw [List.map_map]
    exact List.map_congr_left fun t _ => withBaseline_withBaseline config t
  rw [daily_some, ← daily_map_withBaseline, List.map_append, hidem, ← List.map_append,
    daily_map_withBaseline]
  congr 1
  rw [daily_some, daily_none, daily_none, bestByKey_append_singleton, bestByKey_append_twice]

/-- **Updates are closed and idempotent.** For every accepted history and snapshot, `update` writes
a history that is accepted again, with no two entries of one target and day; adding baselines
changes neither the target nor another field; and `update` on the written history with the same
snapshot writes it again. -/
theorem update_closed (collation : Collation) {existing snapshot : Value}
    {history : List Snapshot} {s : Snapshot}
    (hhistory : Schema.history.parse existing = some history)
    (hsnapshot : Schema.snapshot.parse snapshot = some s) :
    ∃ written entries, update config collation (some existing) snapshot = some written
      ∧ Schema.history.parse written = some entries
      ∧ entries = (daily collation history (some s)).map (withBaseline config)
      ∧ entries.Pairwise (fun t u => ¬ t.SameDay u)
      ∧ (∀ t, (withBaseline config t).targetKey = t.targetKey ∧ (withBaseline config t = t ∨
          t.baseline = none ∧ ∃ b htrack hcommit,
            withBaseline config t = t.setBaseline b htrack hcommit))
      ∧ update config collation (some written) snapshot = some written := by
  have hupdate : ∀ existing history, Schema.history.parse existing = some history →
      update config collation (some existing) snapshot = some
        (Schema.history.write ((daily collation history (some s)).map (withBaseline config))) := by
    intro existing history hread
    unfold update
    rw [Option.getD_some, hread, hsnapshot]
    rfl
  refine ⟨_, _, hupdate existing history hhistory, Schema.history.parse_write _, rfl, ?_, ?_, ?_⟩
  · refine List.pairwise_map.mpr ?_
    rw [daily_some, daily_none]
    refine (bestByKey_pairwise collation.le _).imp fun {t u} h hday => h.1 ?_
    have hkey := hday.dayKey_eq
    rwa [dayKey_withBaseline, dayKey_withBaseline] at hkey
  · intro t
    have hcases := withBaseline_cases config t
    refine ⟨?_, hcases⟩
    rcases hcases with h | ⟨-, b, htrack, hcommit, h⟩
    · rw [h]
    · rw [h]
      rfl
  · rw [hupdate _ _ (Schema.history.parse_write _), daily_updated]

/-- The commit of a baseline. -/
def commit1192 : String := "10b5972dfeff08f516ca571c8438c2e284cd60ce"

/-- The first definition of `ci/baselines.json`. -/
def baseline1192 : Baseline where
  version := "1.19.2"
  commit := commit1192
  ref := some "refs/tags/1.19.2"
  version_ok := by decide +kernel
  commit_ok := by decide +kernel
  ref_ok := by decide +kernel

def config1192 : BaselineConfig := ⟨[baseline1192], by simp, by simp, by decide⟩

theorem update_closed_small :
    ∃ written entries, update config1192 .canonical
        (some (Schema.history.write twoDays))
        (Schema.snapshot.write (.ofCommit commit1192 .endOf2024)) = some written
      ∧ Schema.history.parse written = some entries
      ∧ entries = (daily .canonical twoDays (some (.ofCommit commit1192 .endOf2024))).map
          (withBaseline config1192)
      ∧ entries.Pairwise (fun t u => ¬ t.SameDay u)
      ∧ (∀ t, (withBaseline config1192 t).targetKey = t.targetKey
          ∧ (withBaseline config1192 t = t ∨
            t.baseline = none ∧ ∃ b htrack hcommit,
              withBaseline config1192 t
                = t.setBaseline b htrack hcommit))
      ∧ update config1192 .canonical (some written)
          (Schema.snapshot.write (.ofCommit commit1192 .endOf2024)) = some written :=
  update_closed config1192 .canonical
    (Schema.history.parse_write twoDays)
    (Schema.snapshot.parse_write (.ofCommit commit1192 .endOf2024))

end Update

end FlatpakBlackbox
