import FlatpakBlackbox.Catalogue.Target

set_option autoImplicit false

/-! # The signals are listed

What the generator makes of a source. A registration for a public type takes the last comment before
it, which must document it and is taken once; at the end no comment that documents a signal of a
public type is left. So the registrations for public types are the documented signals
(`SourceRead.Complete`), whatever stands between them.
-/

namespace FlatpakBlackbox

namespace Catalogue

open PyLib PyException

/-- A signal, as its comment has it. -/
def Registration.pair (found : Registration) : String × String := (found.owner, found.name)

/-- What the public types make of a registration. -/
def publicly {α : Type} (publicTypes : List String) (found : Registration) (item : α) : List α :=
  if found.owner ∈ publicTypes then [item] else []

theorem flatMap_publicly {α : Type} {publicTypes : List String} (f : Registration → α)
    (registrations : List Registration) :
    (registrations.flatMap fun found => publicly publicTypes found (f found))
      = (registrations.filter fun found => found.owner ∈ publicTypes).map f := by
  induction registrations with
  | nil => rfl
  | cons found registrations ih =>
      rw [List.flatMap_cons, ih, List.filter_cons]
      unfold publicly
      by_cases h : found.owner ∈ publicTypes
      · simp [h]
      · simp [h]

/-- The loop has taken the comments of these signals, each once. -/
def Takes (documented : Dict Nat (String × String)) (consumed : List Nat)
    (signals : List (String × String)) (consumed' : List Nat) : Prop :=
  ∃ stops, consumed' = stops ++ consumed ∧ stops.map documented.get? = (signals.map some).reverse
    ∧ (consumed.Nodup → consumed'.Nodup)

section Takes

variable {documented : Dict Nat (String × String)} {consumed consumed' consumed'' : List Nat}
  {signals signals' : List (String × String)}

theorem Takes.nil (documented : Dict Nat (String × String)) (consumed : List Nat) :
    Takes documented consumed [] consumed := ⟨[], rfl, rfl, id⟩

theorem Takes.append (h : Takes documented consumed signals consumed')
    (h' : Takes documented consumed' signals' consumed'') :
    Takes documented consumed (signals ++ signals') consumed'' := by
  obtain ⟨first, rfl, hfirst, hnodup⟩ := h
  obtain ⟨second, rfl, hsecond, hnodup'⟩ := h'
  refine ⟨second ++ first, (List.append_assoc _ _ _).symm, ?_, fun h => hnodup' (hnodup h)⟩
  rw [List.map_append, hfirst, hsecond, List.map_append, List.reverse_append]

theorem Takes.single {stop : Nat} {signal : String × String}
    (hsignal : documented.get? stop = some signal) (hnew : stop ∉ consumed) :
    Takes documented consumed [signal] (stop :: consumed) :=
  ⟨[stop], rfl, by simp [hsignal], fun h => List.nodup_cons.mpr ⟨hnew, h⟩⟩

/-- **Signals and comments correspond.** The signals are those of the comments with a public owner,
if each of them has a public owner and no comment with a public owner is left. -/
theorem Takes.perm {P : String → Prop} [DecidablePred P]
    (h : Takes documented [] signals consumed) (hpublic : ∀ signal ∈ signals, P signal.1)
    (hleft : ∀ entry ∈ documented.entries, P entry.2.1 → entry.1 ∈ consumed) :
    signals.Perm (documented.values.filter fun signal => P signal.1) := by
  obtain ⟨stops, rfl, hstops, hnodup⟩ := h
  rw [List.append_nil] at hnodup hleft
  let entries := documented.entries.filter fun entry => P entry.2.1
  -- The comments that were taken are those with a public owner.
  have hmem : ∀ stop, stop ∈ stops ↔ stop ∈ entries.map Prod.fst := by
    intro stop
    rw [List.mem_map]
    constructor
    · intro hstop
      have hget : documented.get? stop ∈ (signals.map some).reverse :=
        hstops ▸ List.mem_map_of_mem hstop
      obtain ⟨signal, hsignal, heq⟩ := List.mem_map.mp (List.mem_reverse.mp hget)
      refine ⟨(stop, signal), List.mem_filter.mpr ⟨?_, ?_⟩, rfl⟩
      · exact Dict.get?_eq_some_iff.mp heq.symm
      · exact decide_eq_true (hpublic signal hsignal)
    · rintro ⟨entry, hentry, rfl⟩
      obtain ⟨hentry, howner⟩ := List.mem_filter.mp hentry
      exact hleft entry hentry (of_decide_eq_true howner)
  have hkeys : (entries.map Prod.fst).Nodup :=
    documented.keys_nodup.sublist (List.filter_sublist.map _)
  have hperm := (List.perm_ext_iff_of_nodup (hnodup List.nodup_nil) hkeys).mpr hmem
  have hvalues : (entries.map Prod.fst).map documented.get? = (entries.map Prod.snd).map some := by
    rw [List.map_map, List.map_map]
    refine List.map_congr_left fun entry hentry => ?_
    exact Dict.get?_eq_some_iff.mpr (List.mem_of_mem_filter hentry)
  have hsome : (signals.map some).Perm ((entries.map Prod.snd).map some) := by
    rw [← hvalues]
    refine (List.reverse_perm _).symm.trans ?_
    rw [← hstops]
    exact hperm.map _
  have hsignals := (List.map_perm_map_iff (Option.some_injective _)).mp hsome
  have hfilter : entries.map Prod.snd = documented.values.filter fun signal => P signal.1 := by
    show _ = (documented.entries.map Prod.snd).filter _
    rw [List.filter_map]
    rfl
  exact hfilter ▸ hsignals

end Takes

/-! ## The comments -/

/-- The signal that a comment documents. -/
def signalOf? [UnicodeDatabase] (block : Pattern.Match) : Option (String × String) :=
  (signalPattern.search? block.text).map fun m => (m.group 1, m.group 2)

/-- The documented signals of a source, one for each comment. -/
def commentsIn [UnicodeDatabase] (source : List Char) : List (String × String) :=
  (blockPattern.finditer source).filterMap signalOf?

/-- The comments end in different places, so none is lost. -/
theorem values_documentedIn [UnicodeDatabase] (source : List Char) :
    (documentedIn source).values = commentsIn source := by
  have hloop : ∀ (blocks : List Pattern.Match) (d : Dict Nat (String × String)),
      (blocks.map Pattern.Match.stop).Nodup → (∀ block ∈ blocks, block.stop ∉ d.keys) →
      (blocks.foldl addComment d).values = d.values ++ blocks.filterMap signalOf? := by
    intro blocks
    -- Every comment still to come ends where none before it ended.
    induction blocks with
    | nil => exact fun d _ _ => (List.append_nil _).symm
    | cons block blocks ih =>
        intro d hnodup hnew
        obtain ⟨hstop, hnodup⟩ := List.nodup_cons.mp hnodup
        obtain ⟨hfresh, hnew⟩ := List.forall_mem_cons.mp hnew
        rw [List.foldl_cons]
        unfold addComment
        cases hsignal : signalPattern.search? block.text with
        | none =>
            have hnone : signalOf? block = none := by
              unfold signalOf?
              rw [hsignal]
              rfl
            rw [List.filterMap_cons_none hnone]
            exact ih d hnodup hnew
        | some m =>
            have hset : (d.set block.stop (m.group 1, m.group 2)).entries
                = d.entries ++ [(block.stop, (m.group 1, m.group 2))] :=
              Dict.setEntries_of_not_mem _ hfresh
            have hsome : signalOf? block = some (m.group 1, m.group 2) := by
              unfold signalOf?
              rw [hsignal]
              rfl
            rw [List.filterMap_cons_some hsome]
            refine (ih _ hnodup fun other hother => ?_).trans ?_
            · rw [Dict.mem_keys_set, not_or]
              exact ⟨hnew other hother, fun heq => hstop (heq ▸ List.mem_map_of_mem hother)⟩
            · unfold Dict.values
              rw [hset, List.map_append, List.append_assoc]
              rfl
  exact hloop _ Dict.empty (Pattern.nodup_stops blockPattern source) fun _ _ => List.not_mem_nil

/-! ## One registration -/

theorem getD_of_max? {documented : Dict Nat (String × String)} {p : Nat → Bool} {stop : Nat}
    (h : (documented.keys.filter p).max? = some stop) :
    documented.get? stop = some (documented.getD stop ("", "")) := by
  have hmem := List.mem_of_mem_filter (List.max?_mem h)
  exact Dict.get?_eq_of_mem_keys hmem _

theorem describes_signalSurface (path : String) (owner signal : String) :
    (Interface.signal owner signal).Describes (signalSurface path owner signal) :=
  ⟨rfl, rfl, rfl, rfl, rfl⟩

section Registrations

variable {path : String} {source : List Char} {publicTypes : List String}
  {documented : Dict Nat (String × String)} {s s' : SignalState} {m : Pattern.Match}

/-- What a registration does. -/
structure AccountsSignal (path : String) (publicTypes : List String)
    (documented : Dict Nat (String × String)) (s : SignalState) (found : Registration)
    (s' : SignalState) : Prop where
  appends : Appends s.generator s'.generator
    (publicly publicTypes found (signalSurface path found.owner found.name))
  excluded : found.owner ∉ publicTypes → privateReason path found ∈ s'.generator.exclusions
  takes : Takes documented s.consumed (publicly publicTypes found found.pair) s'.consumed

theorem addSignal_eq_ok {found : Registration}
    (h : addSignal path source documented s m found = .ok s') :
    Appends s.generator s'.generator [signalSurface path found.owner found.name]
      ∧ Takes documented s.consumed [found.pair] s'.consumed := by
  unfold addSignal at h
  split at h
  · cases h
  · next stop hstop =>
      obtain ⟨_, hcheck, h⟩ := bind_eq_ok.mp h
      obtain ⟨generator, hadd, h⟩ := bind_eq_ok.mp h
      obtain rfl := Except.ok.inj h
      -- The last comment names the signal and its owner, and was not taken before.
      have hnone := raiseIf_eq_ok.mp hcheck
      simp only [not_or, not_not] at hnone
      obtain ⟨hname, howner, -, hnew⟩ := hnone
      have hblock : documented.getD stop ("", "") = found.pair := Prod.ext howner hname
      rw [hblock] at hadd
      exact ⟨appends_add hadd,
        Takes.single ((getD_of_max? hstop).trans (congrArg some hblock)) hnew⟩

theorem accountsSignal_of_addRegistered [UnicodeDatabase]
    (h : addRegistered path source publicTypes documented s m = .ok s') :
    ∃ found, registrationOf path (uncomment source) m = .ok found
      ∧ AccountsSignal path publicTypes documented s found s' := by
  obtain ⟨found, hfound, h⟩ := bind_eq_ok.mp h
  refine ⟨found, hfound, ?_⟩
  split at h
  -- A signal of a private class takes no comment.
  · next hprivate =>
      obtain rfl := Except.ok.inj h
      have hnone : ∀ {α : Type} (item : α), publicly publicTypes found item = [] := fun item =>
        if_neg hprivate
      refine ⟨?_, fun _ => mem_exclude _ _, ?_⟩
      · rw [hnone]
        exact appends_exclude _ _
      · rw [hnone]
        exact Takes.nil _ _
  · next hpublic =>
      have hsome : ∀ {α : Type} (item : α), publicly publicTypes found item = [item] := fun item =>
        if_pos (not_not.mp hpublic)
      obtain ⟨happends, htakes⟩ := addSignal_eq_ok h
      refine ⟨?_, fun hprivate => absurd hprivate hpublic, ?_⟩
      · rw [hsome]
        exact happends
      · rw [hsome]
        exact htakes

end Registrations

/-! ## One source -/

section

variable [UnicodeDatabase] {path : String} {publicTypes : List String}

/-- A source with its registrations. -/
structure SourceRead where
  path : String
  source : List Char
  registrations : List Registration

namespace SourceRead

/-- The registrations for public types. -/
def signals (y : SourceRead) (publicTypes : List String) : List Registration :=
  y.registrations.filter fun found => found.owner ∈ publicTypes

def surfaces (y : SourceRead) (publicTypes : List String) : List Surface :=
  (y.signals publicTypes).map fun found => signalSurface y.path found.owner found.name

/-- The documented signals of public types. -/
def documented (y : SourceRead) (publicTypes : List String) : List (String × String) :=
  (commentsIn y.source).filter fun signal => signal.1 ∈ publicTypes

/-- **The registrations are the documented signals**, for public types. -/
structure Complete (y : SourceRead) (publicTypes : List String) : Prop where
  registrations : List.Forall₂
    (fun m found => registrationOf y.path (uncomment y.source) m = .ok found)
    (registrationPattern.finditer (uncomment y.source)) y.registrations
  documented : ((y.signals publicTypes).map Registration.pair).Perm (y.documented publicTypes)

end SourceRead

/-- What a source does. -/
structure AccountsSource (publicTypes : List String) (g : Generator) (y : SourceRead)
    (g' : Generator) : Prop where
  appends : Appends g g' (y.surfaces publicTypes)
  excluded : ∀ found ∈ y.registrations, found.owner ∉ publicTypes →
    privateReason y.path found ∈ g'.exclusions

theorem accountsSource_of_signals {repo : Manual.Repository} {g g' : Generator}
    (h : signals repo path publicTypes g = .ok g') :
    ∃ y : SourceRead, y.path = path ∧ repo.read y.path = .ok y.source ∧ y.Complete publicTypes
      ∧ AccountsSource publicTypes g y g' := by
  obtain ⟨source, hsource, h⟩ := bind_eq_ok.mp h
  obtain ⟨s, hs, h⟩ := bind_eq_ok.mp h
  obtain ⟨_, hleft, h⟩ := bind_eq_ok.mp h
  obtain rfl := Except.ok.inj h
  obtain ⟨registrations, hregistrations, hrun⟩ :=
    (runs_of_foldlM hs).simulate fun _ _ _ hstep => accountsSignal_of_addRegistered hstep
  have htakes := hrun.compose
    (T := fun s added s' => Takes (documentedIn source) s.consumed added s'.consumed)
    (fun s => Takes.nil _ _) (fun _ _ _ _ _ => Takes.append) fun _ _ _ hstep => hstep.takes
  have happends := hrun.compose
    (T := fun s added s' => Appends s.generator s'.generator added)
    (fun _ => Appends.refl _) (fun _ _ _ _ _ => Appends.trans) fun _ _ _ hstep => hstep.appends
  rw [flatMap_publicly] at htakes
  rw [flatMap_publicly fun found => signalSurface path found.owner found.name] at happends
  refine ⟨⟨path, source, registrations⟩, rfl, hsource, ⟨hregistrations, ?_⟩, happends, ?_⟩
  · unfold SourceRead.documented
    rw [← values_documentedIn]
    refine htakes.perm (P := fun owner => owner ∈ publicTypes) (fun signal hsignal => ?_)
      fun entry hentry howner => ?_
    · obtain ⟨found, hfound, rfl⟩ := List.mem_map.mp hsignal
      exact of_decide_eq_true (List.mem_filter.mp hfound).2
    · by_contra hmissing
      exact raiseIf_eq_ok.mp (forM_eq_ok.mp hleft entry hentry) ⟨howner, hmissing⟩
  · refine hrun.established (c := fun found s => found.owner ∉ publicTypes →
      privateReason path found ∈ s.generator.exclusions) ?_ fun _ _ _ hstep => hstep.excluded
    exact fun _ _ _ hstep _ hfound hprivate => hstep.appends.exclusions _ (hfound hprivate)

/-! ## All sources -/

/-- The source is read like this. -/
structure ReadsSource (repo : Manual.Repository) (publicTypes : List String) (name : String)
    (y : SourceRead) : Prop where
  path_eq : y.path = sourcePath name
  source_eq : repo.read y.path = .ok y.source
  complete : y.Complete publicTypes

/-- **The loop over the sources.** -/
theorem accountsSources_of_signals {repo : Manual.Repository} {sources : List String}
    {g g' : Generator}
    (h : sources.foldlM (fun g source => signals repo (sourcePath source) publicTypes g) g =
    .ok g') :
    ∃ ys, List.Forall₂ (ReadsSource repo publicTypes) sources ys
      ∧ Appends g g' (ys.flatMap fun y => y.surfaces publicTypes)
      ∧ ∀ y ∈ ys, ∀ found ∈ y.registrations, found.owner ∉ publicTypes →
        privateReason y.path found ∈ g'.exclusions := by
  obtain ⟨ys, hys, hrun⟩ := (runs_of_foldlM h).simulate (R := ReadsSource repo publicTypes)
    (T := AccountsSource publicTypes) fun g name g' hstep => by
      obtain ⟨y, hpath, hsource, hcomplete, haccounts⟩ := accountsSource_of_signals hstep
      exact ⟨y, ⟨hpath, hsource, hcomplete⟩, haccounts⟩
  refine ⟨ys, hys, ?_, ?_⟩
  · exact hrun.compose (T := fun g added g' => Appends g g' added)
      (fun _ => Appends.refl _) (fun _ _ _ _ _ => Appends.trans) fun _ _ _ hstep => hstep.appends
  · refine hrun.established (c := fun y g => ∀ found ∈ y.registrations, found.owner ∉ publicTypes →
      privateReason y.path found ∈ g.exclusions) ?_ fun _ _ _ hstep => hstep.excluded
    exact fun _ _ _ hstep _ hy found hfound hprivate =>
      hstep.appends.exclusions _ (hy found hfound hprivate)

end

/-! ## What the sources register -/

section

variable [WordDatabase] {repo : Manual.Repository} {files : List String × List String}
  {publicTypes : List String} {ys : List SourceRead}

/-- The registrations of the target are those that were read. -/
theorem registers_iff (hfiles : mesonFiles repo = .ok files)
    (hys : List.Forall₂ (ReadsSource repo publicTypes) files.2 ys) {path : String}
    {found : Registration} :
    Registers repo path found ↔ ∃ y ∈ ys, y.path = path ∧ found ∈ y.registrations := by
  constructor
  · rintro ⟨source, ⟨files', hfiles', name, hname, rfl, hsource⟩, m, hm, hfound⟩
    obtain rfl := Except.ok.inj (hfiles.symm.trans hfiles')
    obtain ⟨y, hy, hreads⟩ := exists_of_forall₂ hys hname
    rw [← hreads.path_eq, hreads.source_eq] at hsource
    obtain rfl := Except.ok.inj hsource
    -- Both are what the same match registers.
    obtain ⟨found', hfound', hread⟩ := exists_of_forall₂ hreads.complete.registrations hm
    rw [← hreads.path_eq] at hfound
    obtain rfl := Except.ok.inj (hfound.symm.trans hread)
    exact ⟨y, hy, hreads.path_eq, hfound'⟩
  · rintro ⟨y, hy, rfl, hfound⟩
    obtain ⟨name, hname, hreads⟩ := exists_of_forall₂ hys.flip hy
    obtain ⟨m, hm, hread⟩ := exists_of_forall₂ hreads.complete.registrations.flip hfound
    exact ⟨y.source, ⟨files, hfiles, name, hname, hreads.path_eq, hreads.source_eq⟩, m, hm, hread⟩

end

end Catalogue

end FlatpakBlackbox
