import FlatpakBlackbox.Namespace.Mounts

set_option autoImplicit false

/-! # What the namespace shows

The mounts of an accepted namespace, applied in order: which paths still show what was validated
for them. The overlap checks leave gaps. They compare a target path with the installations and
the service paths, but the case's own `/var` and `/root` are mounted over it as well; and they
compare the expectations with each other and with the four paths the test chose, but not with the
mounts that follow.
-/

namespace FlatpakBlackbox

open PyLib PyException

namespace Namespace

/-- The operations of the second bubblewrap. The first one rebinds what the first namespace
shows. -/
def innerMounts : List Mount :=
  [⟨.outer, .bind (.ofString "/"), .ofString "/"⟩, procMount, devMount]

/-- The mount that shows a node of the file system to the target. -/
def visible (ns : Namespace) (node : List String) : Option Mount :=
  match provider Mount.point innerMounts node with
  | some m => if m.purpose = .outer then provider Mount.point ns.mounts node else some m
  | none => none

/-- Every accepted target path shows the host's content read-only, and every installation, the
configuration and the fixtures show the directory bound for them. -/
structure ShowsValidated (host : Host) (driver : NamespaceDriver) (directory : PurePath)
    (ns : Namespace) : Prop where
  targets : ∀ target ∈ targetPaths host driver, ∀ node, target.parts <+: node →
    ∃ m, ns.visible node = some m ∧ m.purpose = .target ∧ m.source? node = some node ∧
      m.readOnly = true
  system : ∀ node, (systemPath driver).parts <+: node →
    ns.visible node = some (systemMount ns.state (systemPath driver))
  named : ∀ node, named.parts <+: node → ns.visible node = some (varMount ns.state)
  user : ∀ node, user.parts <+: node → ns.visible node = some (homeMount ns.state)
  config : ∀ node, (configPath driver).parts <+: node →
    ns.visible node = some (configMount ns.state (configPath driver))
  fixtures : ∀ node, fixtures.parts <+: node →
    ns.visible node = some (fixturesMount (host.resolve directory))

/-- The mounts that follow those of the installations and of the configuration. -/
def servicePaths : List PurePath :=
  [inputs, fixtures, bootstrap, .ofString "/proc", .ofString "/dev"]

/-- Their mount points, which no check compares with the expectations. -/
def servicePoints : List (List String) := servicePaths.map PurePath.parts

theorem servicePoints_eq : servicePoints = [["tmp", "selector-inputs"],
    ["tmp", "system-selector-fixtures"], ["tmp", "selector-bootstrap.py"], ["proc"], ["dev"]] := by
  rfl

theorem servicePaths_anchor : ∀ path ∈ servicePaths, path.anchor = .root := by
  simp [servicePaths, inputs, fixtures, bootstrap, PurePath.ofString, PurePath.anchorOf]

theorem privateRoots_anchor : ∀ root ∈ privateRoots, root.anchor = .root := by
  simp [privateRoots, PurePath.ofString, PurePath.anchorOf]

theorem named_parts : named.parts = ["var", "lib", "flatpak-selector-alt"] := by rfl

theorem user_parts : user.parts = ["root", ".local", "share", "flatpak"] := by rfl

theorem fixtures_parts : fixtures.parts = ["tmp", "system-selector-fixtures"] := by rfl

theorem parts_slash : (PurePath.ofString "/").parts = [] := by rfl

theorem parts_tmp : (PurePath.ofString "/tmp").parts = ["tmp"] := by rfl

theorem parts_root : (PurePath.ofString "/root").parts = ["root"] := by rfl

/-- The paths that the caller chose keep clear of the mounts that follow. -/
structure Unobstructed (host : Host) (driver : NamespaceDriver) : Prop where
  /-- No target path lies at, above or below `/var` or `/root`. -/
  targets : ∀ target ∈ targetPaths host driver,
    Apart ["var"] target.parts ∧ Apart ["root"] target.parts
  /-- A target path with two leading slashes overlaps no other mount point either. -/
  doubled : ∀ target ∈ targetPaths host driver, target.anchor = .doubleRoot →
    ∀ point ∈ (systemPath driver).parts :: (configPath driver).parts :: servicePoints,
      Apart point target.parts
  system : ∀ point ∈ ["root"] :: servicePoints, ¬ point <+: (systemPath driver).parts
  config : ∀ point ∈ servicePoints, ¬ point <+: (configPath driver).parts

instance (host : Host) (driver : NamespaceDriver) : Decidable (Unobstructed host driver) :=
  decidable_of_iff
    ((∀ target ∈ targetPaths host driver,
        Apart ["var"] target.parts ∧ Apart ["root"] target.parts) ∧
      (∀ target ∈ targetPaths host driver, target.anchor = .doubleRoot →
        ∀ point ∈ (systemPath driver).parts :: (configPath driver).parts :: servicePoints,
          Apart point target.parts) ∧
      (∀ point ∈ ["root"] :: servicePoints, ¬ point <+: (systemPath driver).parts) ∧
      ∀ point ∈ servicePoints, ¬ point <+: (configPath driver).parts)
    ⟨fun ⟨h₁, h₂, h₃, h₄⟩ => ⟨h₁, h₂, h₃, h₄⟩,
      fun ⟨h₁, h₂, h₃, h₄⟩ => ⟨h₁, h₂, h₃, h₄⟩⟩

/-! ## What an accepted namespace has passed -/

/-- What the checks establish, and the mounts that are then applied. -/
structure Accepted (host : Host) (driver : NamespaceDriver) (directory : PurePath)
    (ns : Namespace) : Prop where
  /-- Each expectation is spelled with one slash, is not the root and covers no private root. -/
  system : (systemPath driver).anchor = .root ∧ (systemPath driver).parts ≠ [] ∧
    ∀ root ∈ privateRoots, ¬ (systemPath driver).parts <+: root.parts
  config : (configPath driver).anchor = .root ∧ (configPath driver).parts ≠ [] ∧
    ∀ root ∈ privateRoots, ¬ (configPath driver).parts <+: root.parts
  /-- The locations do not overlap. -/
  locations : Apart (configPath driver).parts (systemPath driver).parts ∧
    Apart (systemPath driver).parts named.parts ∧ Apart (configPath driver).parts named.parts ∧
    Apart (configPath driver).parts user.parts
  /-- A target path with one leading slash overlaps nothing it was compared with. -/
  targets : ∀ target ∈ targetPaths host driver, target.anchor = .root →
    (∀ point ∈ (systemPath driver).parts :: (configPath driver).parts :: servicePoints,
      Apart point target.parts)
  anchored : ∀ target ∈ targetPaths host driver,
    target.anchor = .root ∨ target.anchor = .doubleRoot
  mounts : ∃ before, (∀ m ∈ before, m.purpose ≠ .target) ∧
    ns.mounts = before ++ (targetPaths host driver).map targetMount ++
    privateMounts host ns.state (systemPath driver) (configPath driver) (host.resolve directory)

theorem expectation_eq_ok {env : Dict String String} {key default : String} {path : PurePath}
    (h : expectation env key default = .ok path) :
    path = expected env key default ∧ path.isAbsolute = true ∧ path ≠ .ofString "/" := by
  obtain ⟨_, hchecks, hpath⟩ := bind_eq_ok.mp h
  have hnot := raiseIf_eq_ok.mp hchecks
  push Not at hnot
  cases hpath
  exact ⟨rfl, by simpa using hnot.1, hnot.2.1⟩

theorem checkLocations_cons {path : PurePath} {others : List PurePath}
    (h : checkLocations (path :: others) = .ok ()) :
    (∀ other ∈ others, other.isRelativeTo path = false ∧ path.isRelativeTo other = false) ∧
      (∀ root ∈ privateRoots, root.isRelativeTo path = false) ∧
      checkLocations others = .ok () := by
  obtain ⟨_, hoverlap, h⟩ := bind_eq_ok.mp h
  obtain ⟨_, hroots, hothers⟩ := bind_eq_ok.mp h
  have hoverlap := raiseIf_eq_ok.mp hoverlap
  have hroots := raiseIf_eq_ok.mp hroots
  refine ⟨fun other hother => ?_, fun root hroot => ?_, hothers⟩
  · simp only [List.any_eq_true, Bool.or_eq_true, not_exists, not_and, not_or,
      Bool.not_eq_true] at hoverlap
    exact hoverlap other hother
  · simp only [List.any_eq_true, not_exists, not_and, Bool.not_eq_true] at hroots
    exact hroots root hroot

theorem checkTarget_eq_ok {host : Host} {parents contents : List PurePath} {path : PurePath}
    (h : checkTarget host parents contents path = .ok ()) :
    path.isAbsolute = true ∧
      ∀ root ∈ contents, root.isRelativeTo path = false ∧ path.isRelativeTo root = false := by
  obtain ⟨_, hpath, h⟩ := bind_eq_ok.mp h
  have hpath := raiseIf_eq_ok.mp hpath
  push Not at hpath
  refine ⟨by simpa using hpath.1, fun root hroot => ?_⟩
  obtain ⟨_, _, hcontents⟩ := bind_eq_ok.mp (forM_eq_ok.mp h path (List.mem_cons_self ..))
  have hcontents := raiseIf_eq_ok.mp hcontents
  simp only [List.any_eq_true, Bool.or_eq_true, not_exists, not_and, not_or,
    Bool.not_eq_true] at hcontents
  exact hcontents root hroot

/-- Two paths that were found unrelated lie apart, if their anchors agree. -/
theorem apart_of_isRelativeTo {path other : PurePath} (hanchor : path.anchor = other.anchor)
    (h : path.isRelativeTo other = false) (h' : other.isRelativeTo path = false) :
    Apart path.parts other.parts := by
  constructor
  · intro hprefix
    exact Bool.false_ne_true (h'.symm.trans (PurePath.isRelativeTo_iff.mpr ⟨hanchor.symm, hprefix⟩))
  · intro hprefix
    exact Bool.false_ne_true (h.symm.trans (PurePath.isRelativeTo_iff.mpr ⟨hanchor, hprefix⟩))

/-- A path that the kernel lists as a mount point has one leading slash. -/
theorem anchor_of_mountTable {host : Host} {mounts : List Mount} {path : PurePath}
    (habsolute : path.isAbsolute = true) {readOnly : Bool}
    (h : (host.mountTable mounts).get? path.text = some readOnly) : path.anchor = .root := by
  refine (PurePath.isAbsolute_iff.mp habsolute).resolve_right fun hdouble => ?_
  have hkey := ((host.mountTable mounts).mem_keys_iff path.text).mpr ⟨_, h⟩
  have hslash := host.mountTable_slash mounts _ hkey
  rw [PurePath.text_doubleRoot hdouble] at hslash
  cases hslash

/-- The checks of one expectation. -/
theorem expectation_checked {path : PurePath} {others : List PurePath}
    (hanchor : path.anchor = .root) (hroot : path ≠ .ofString "/")
    (h : checkLocations (path :: others) = .ok ()) :
    path.anchor = .root ∧ path.parts ≠ [] ∧
      ∀ root ∈ privateRoots, ¬ path.parts <+: root.parts := by
  refine ⟨hanchor, fun hparts => hroot ?_, fun root hmem hprefix => ?_⟩
  · obtain ⟨anchor, parts, valid⟩ := path
    obtain rfl : anchor = .root := hanchor
    obtain rfl : parts = [] := hparts
    have hslash : (PurePath.ofString "/").anchor = .root := by rfl
    exact (PurePath.mk.injEq ..).mpr ⟨hslash.symm, parts_slash.symm⟩
  · have hnot := (checkLocations_cons h).2.1 root hmem
    rw [PurePath.isRelativeTo_iff.mpr ⟨by rw [hanchor, privateRoots_anchor root hmem], hprefix⟩]
      at hnot
    cases hnot

/-- The four locations were compared with each other. -/
theorem locations_apart {system config : PurePath} (hsystem : system.anchor = .root)
    (hconfig : config.anchor = .root) (h : checkLocations [system, config, named, user] = .ok ()) :
    Apart config.parts system.parts ∧ Apart system.parts named.parts ∧
      Apart config.parts named.parts ∧ Apart config.parts user.parts := by
  obtain ⟨hfirst, _, hrest⟩ := checkLocations_cons h
  obtain ⟨hsecond, _, _⟩ := checkLocations_cons hrest
  have hnamed : named.anchor = .root := by rfl
  have huser : user.anchor = .root := by rfl
  have hconfigSystem := hfirst config (by simp)
  have hsystemNamed := hfirst named (by simp)
  have hconfigNamed := hsecond named (by simp)
  have hconfigUser := hsecond user (by simp)
  exact ⟨apart_of_isRelativeTo (hconfig.trans hsystem.symm) hconfigSystem.1 hconfigSystem.2,
    apart_of_isRelativeTo (hsystem.trans hnamed.symm) hsystemNamed.2 hsystemNamed.1,
    apart_of_isRelativeTo (hconfig.trans hnamed.symm) hconfigNamed.2 hconfigNamed.1,
    apart_of_isRelativeTo (hconfig.trans huser.symm) hconfigUser.2 hconfigUser.1⟩

/-- A target path with one leading slash was compared with every later mount point but two. -/
theorem contents_apart {target system config state : PurePath} (hanchor : target.anchor = .root)
    (hsystem : system.anchor = .root) (hconfig : config.anchor = .root)
    (h : ∀ root ∈ privateContents [system, config, named, user] state,
      root.isRelativeTo target = false ∧ target.isRelativeTo root = false) :
    ∀ point ∈ system.parts :: config.parts :: servicePoints, Apart point target.parts := by
  have hapart : ∀ root ∈ privateContents [system, config, named, user] state,
      root.anchor = .root → Apart root.parts target.parts := fun root hroot hrootAnchor =>
    apart_of_isRelativeTo (hrootAnchor.trans hanchor.symm) (h root hroot).1 (h root hroot).2
  have hmem : ∀ path ∈ servicePaths,
      path ∈ privateContents [system, config, named, user] state := by
    intro path hpath
    simp only [servicePaths, List.mem_cons, List.not_mem_nil, or_false] at hpath
    rcases hpath with rfl | rfl | rfl | rfl | rfl <;> simp [privateContents]
  intro point hpoint
  rcases List.mem_cons.mp hpoint with rfl | hpoint
  · exact hapart system (by simp [privateContents]) hsystem
  rcases List.mem_cons.mp hpoint with rfl | hpoint
  · exact hapart config (by simp [privateContents]) hconfig
  obtain ⟨path, hpath, rfl⟩ := List.mem_map.mp hpoint
  exact hapart path (hmem path hpath) (servicePaths_anchor path hpath)

/-- What `init` returns has passed its checks. -/
theorem accepted_of_init {host : Host} {driver : NamespaceDriver} {directory : PurePath}
    {ns : Namespace} (h : init host driver directory = .ok ns) :
    Accepted host driver directory ns := by
  obtain ⟨_, _, h⟩ := bind_eq_ok.mp h
  obtain ⟨system, hsystem, h⟩ := bind_eq_ok.mp h
  obtain ⟨config, hconfig, h⟩ := bind_eq_ok.mp h
  obtain ⟨_, hlocations, h⟩ := bind_eq_ok.mp h
  obtain ⟨_, _, h⟩ := bind_eq_ok.mp h
  obtain ⟨_, _, h⟩ := bind_eq_ok.mp h
  obtain ⟨parents, _, h⟩ := bind_eq_ok.mp h
  obtain ⟨_, htargets, h⟩ := bind_eq_ok.mp h
  obtain ⟨_, htable, h⟩ := bind_eq_ok.mp h
  obtain ⟨rfl, hsystemAbs, hsystemRoot⟩ := expectation_eq_ok hsystem
  obtain ⟨rfl, hconfigAbs, hconfigRoot⟩ := expectation_eq_ok hconfig
  split at h
  · cases h
  · cases h
    have htable := raiseIf_eq_ok.mp htable
    simp only [mountsExpected, Bool.and_eq_true, decide_eq_true_eq, Bool.not_eq_false] at htable
    have hsystemAnchor := anchor_of_mountTable hsystemAbs htable.1.2
    have hconfigAnchor := anchor_of_mountTable hconfigAbs htable.2.1
    have hsystem := expectation_checked hsystemAnchor hsystemRoot hlocations
    have hrest := (checkLocations_cons hlocations).2.2
    have hconfig := expectation_checked hconfigAnchor hconfigRoot hrest
    have htarget : ∀ target ∈ targetPaths host driver, target.isAbsolute = true ∧ _ :=
      fun target hmem => checkTarget_eq_ok (forM_eq_ok.mp htargets target hmem)
    refine ⟨hsystem, hconfig, locations_apart hsystemAnchor hconfigAnchor hlocations,
      fun target hmem hanchor => ?_,
      fun target hmem => PurePath.isAbsolute_iff.mp (htarget target hmem).1, ?_⟩
    · exact contents_apart hanchor hsystemAnchor hconfigAnchor (htarget target hmem).2
    · refine ⟨hostRootMount :: scaffoldMounts parents, fun m hm => ?_,
        by simp only [List.append_assoc]; rfl⟩
      rcases List.mem_cons.mp hm with rfl | hm
      · decide
      · obtain ⟨parent, _, rfl⟩ := List.mem_map.mp hm
        intro hpurpose
        cases hpurpose

/-! ## The regions -/

/-- The second bubblewrap mounts over the first namespace only what it shows there anyway. -/
theorem visible_eq {ns : Namespace} {before : List Mount}
    (h : ns.mounts = before ++ [procMount, devMount]) (node : List String) :
    ns.visible node = provider Mount.point ns.mounts node := by
  have hroot : provider Mount.point [⟨.outer, .bind (.ofString "/"), .ofString "/"⟩] node =
      some ⟨.outer, .bind (.ofString "/"), .ofString "/"⟩ := by
    have hcovers : (PurePath.ofString "/").parts.isPrefixOf node = true := by
      rw [parts_slash]
      rfl
    simp [provider, Mount.point, hcovers]
  have hinner : provider Mount.point innerMounts node =
      (provider Mount.point [procMount, devMount] node).or
        (some ⟨.outer, .bind (.ofString "/"), .ofString "/"⟩) := by
    rw [← hroot, ← provider_append]
    rfl
  rw [visible, hinner, h, provider_append]
  cases hlast : provider Mount.point [procMount, devMount] node with
  | none => rfl
  | some m =>
      have hpurpose : m.purpose ≠ .outer := by
        rcases List.mem_cons.mp (mem_of_provider hlast) with rfl | hm
        · decide
        · rw [List.mem_singleton.mp hm]
          decide
      show (if m.purpose = .outer then _ else some m) = some m
      exact if_neg hpurpose

theorem mounts_last {host : Host} {driver : NamespaceDriver} {directory : PurePath}
    {ns : Namespace} (h : Accepted host driver directory ns) :
    ∃ before, ns.mounts = before ++ [procMount, devMount] := by
  obtain ⟨before, _, hmounts⟩ := h.mounts
  exact ⟨before ++ (targetPaths host driver).map targetMount ++
    (privateMounts host ns.state (systemPath driver) (configPath driver)
      (host.resolve directory)).take 7, by rw [hmounts]; simp [privateMounts]⟩

/-- One private mount shows the region below it if nothing that follows overlaps the region. -/
theorem shows_iff {host : Host} {driver : NamespaceDriver} {directory : PurePath}
    {ns : Namespace} (h : Accepted host driver directory ns) (before : List Mount)
    {after : List Mount} {m : Mount} {region : List String}
    (hprivate : privateMounts host ns.state (systemPath driver) (configPath driver)
      (host.resolve directory) = before ++ m :: after)
    (hcovers : m.point <+: region) (hfresh : m ∉ after) :
    (∀ node, region <+: node → ns.visible node = some m) ↔
      ∀ m' ∈ after, Apart m'.point region := by
  obtain ⟨first, _, hmounts⟩ := h.mounts
  obtain ⟨_, hlast⟩ := mounts_last h
  have hsplit : ns.mounts =
      (first ++ (targetPaths host driver).map targetMount ++ before) ++ [m] ++ after := by
    rw [hmounts, hprivate]
    simp only [List.append_assoc, List.cons_append, List.nil_append]
  have hiff : ShowsAmong Mount.point ((first ++ (targetPaths host driver).map targetMount ++ before)
      ++ [m] ++ after) [m] region ↔ ∀ m' ∈ after, Apart m'.point region :=
    showsAmong_iff ⟨m, List.mem_singleton_self m, hcovers⟩
      fun m' hm' => List.mem_singleton.mp hm' ▸ hfresh
  rw [← hiff, ← hsplit]
  refine forall₂_congr fun node _ => ?_
  rw [visible_eq hlast]
  simp

/-- The target paths show the host if nothing that is mounted after them overlaps them. -/
theorem targets_iff {host : Host} {driver : NamespaceDriver} {directory : PurePath}
    {ns : Namespace} (h : Accepted host driver directory ns) {target : PurePath}
    (htarget : target ∈ targetPaths host driver) :
    (∀ node, target.parts <+: node → ∃ m, ns.visible node = some m ∧ m.purpose = .target ∧
        m.source? node = some node ∧ m.readOnly = true) ↔
      ∀ m' ∈ privateMounts host ns.state (systemPath driver) (configPath driver)
        (host.resolve directory), Apart m'.point target.parts := by
  obtain ⟨before, hbefore, hmounts⟩ := h.mounts
  obtain ⟨_, hlast⟩ := mounts_last h
  generalize hafter : privateMounts host ns.state (systemPath driver) (configPath driver)
    (host.resolve directory) = after at hmounts
  have hpurpose : ∀ m ∈ after, m.purpose ≠ .target := by
    intro m hm
    simp only [← hafter, privateMounts, List.mem_cons, List.not_mem_nil, or_false] at hm
    rcases hm with rfl | rfl | rfl | rfl | rfl | rfl | rfl | rfl | rfl <;>
      exact fun hpurpose => nomatch hpurpose
  have hfresh : ∀ m ∈ (targetPaths host driver).map targetMount, m ∉ after := by
    intro m hm hmem
    obtain ⟨path, _, rfl⟩ := List.mem_map.mp hm
    exact hpurpose _ hmem rfl
  have hiff : ShowsAmong Mount.point (before ++ (targetPaths host driver).map targetMount ++ after)
      ((targetPaths host driver).map targetMount) target.parts ↔
      ∀ m' ∈ after, Apart m'.point target.parts :=
    showsAmong_iff ⟨targetMount target, List.mem_map_of_mem htarget, List.prefix_refl _⟩ hfresh
  rw [← hiff, ← hmounts]
  refine forall₂_congr fun node _ => ?_
  rw [visible_eq hlast]
  constructor
  · rintro ⟨m, hm, htargetPurpose, _⟩
    refine ⟨m, ?_, hm⟩
    have hmem := mem_of_provider hm
    rw [hmounts] at hmem
    rcases List.mem_append.mp hmem with hmem | hmem
    · exact (List.mem_append.mp hmem).resolve_left fun hmem => hbefore m hmem htargetPurpose
    · exact absurd htargetPurpose (hpurpose m hmem)
  · rintro ⟨m, hm, hprovider⟩
    obtain ⟨path, _, rfl⟩ := List.mem_map.mp hm
    have hcovers : (targetMount path).point <+: node := prefix_of_provider hprovider
    refine ⟨_, hprovider, rfl, ?_, rfl⟩
    exact congrArg some (List.prefix_iff_eq_append.mp hcovers)

theorem point_var (state : PurePath) : (varMount state).point = ["var"] := by rfl

theorem point_home (state : PurePath) : (homeMount state).point = ["root"] := by rfl

/-- The mounts that follow the one of the configuration. -/
abbrev serviceMounts (host : Host) (state directory : PurePath) : List Mount :=
  [inputsMount state, fixturesMount directory, bootstrapMount host, procMount, devMount]

theorem forall_service_iff {host : Host} {state directory : PurePath} {region : List String} :
    (∀ m ∈ serviceMounts host state directory, Apart m.point region) ↔
      ∀ point ∈ servicePoints, Apart point region := by
  have hpoints : servicePoints = (serviceMounts host state directory).map Mount.point := rfl
  rw [hpoints, List.forall_mem_map]

/-- An expectation that passed its checks does not cover a service mount. -/
theorem service_apart_iff {path : PurePath} (hne : path.parts ≠ [])
    (hroots : ∀ root ∈ privateRoots, ¬ path.parts <+: root.parts) {point : List String}
    (hpoint : point ∈ servicePoints) : Apart point path.parts ↔ ¬ point <+: path.parts := by
  have hcovered : ∀ point ∈ servicePoints, ∀ p ∈ point.inits,
      p = [] ∨ p <+: (PurePath.ofString "/tmp").parts ∨ p = point := by
    simp [servicePoints_eq, parts_tmp, List.inits, -List.mem_inits]
  have htmp := hroots (.ofString "/tmp") (by simp [privateRoots])
  refine ⟨And.left, fun h => ⟨h, fun hprefix => ?_⟩⟩
  rcases hcovered point hpoint _ ((List.mem_inits _ _).mpr hprefix) with h' | h' | h'
  · exact hne h'
  · exact htmp h'
  · exact h (h' ▸ List.prefix_refl _)

/-! ## The theorem -/

section

variable {host : Host} {driver : NamespaceDriver} {directory : PurePath} {ns : Namespace}

theorem system_iff (h : Accepted host driver directory ns) :
    (∀ node, (systemPath driver).parts <+: node →
      ns.visible node = some (systemMount ns.state (systemPath driver))) ↔
      ∀ point ∈ ["root"] :: servicePoints, ¬ point <+: (systemPath driver).parts := by
  obtain ⟨_, hne, hroots⟩ := h.system
  have hroot : ¬ (systemPath driver).parts <+: ["root"] := by
    rw [← parts_root]
    exact hroots (.ofString "/root") (by simp [privateRoots])
  have hshows : (∀ node, (systemPath driver).parts <+: node →
      ns.visible node = some (systemMount ns.state (systemPath driver))) ↔
      ∀ m' ∈ homeMount ns.state :: configMount ns.state (configPath driver) ::
        serviceMounts host ns.state (host.resolve directory),
        Apart m'.point (systemPath driver).parts :=
    shows_iff h [varMount ns.state] rfl (List.prefix_refl _) (by simp [systemMount, homeMount,
      configMount, inputsMount, fixturesMount, bootstrapMount, procMount, devMount])
  rw [hshows, List.forall_mem_cons, List.forall_mem_cons, forall_service_iff, List.forall_mem_cons,
    point_home]
  constructor
  · rintro ⟨hhome, _, hservice⟩
    exact ⟨hhome.1, fun point hpoint => (hservice point hpoint).1⟩
  · rintro ⟨hhome, hservice⟩
    exact ⟨⟨hhome, hroot⟩, h.locations.1, fun point hpoint =>
      (service_apart_iff hne hroots hpoint).mpr (hservice point hpoint)⟩

theorem config_iff (h : Accepted host driver directory ns) :
    (∀ node, (configPath driver).parts <+: node →
      ns.visible node = some (configMount ns.state (configPath driver))) ↔
      ∀ point ∈ servicePoints, ¬ point <+: (configPath driver).parts := by
  obtain ⟨_, hne, hroots⟩ := h.config
  have hshows : (∀ node, (configPath driver).parts <+: node →
      ns.visible node = some (configMount ns.state (configPath driver))) ↔
      ∀ m' ∈ serviceMounts host ns.state (host.resolve directory),
        Apart m'.point (configPath driver).parts :=
    shows_iff h [varMount ns.state, systemMount ns.state (systemPath driver), homeMount ns.state]
      rfl (List.prefix_refl _) (by simp [configMount, inputsMount, fixturesMount, bootstrapMount,
        procMount, devMount])
  rw [hshows, forall_service_iff]
  exact forall₂_congr fun point hpoint => service_apart_iff hne hroots hpoint

/-- The named installation lies in the private `/var`, which no later mount disturbs there. -/
theorem named_shown (h : Accepted host driver directory ns) :
    ∀ node, named.parts <+: node → ns.visible node = some (varMount ns.state) := by
  have hcovers : (varMount ns.state).point <+: named.parts := by
    rw [point_var, named_parts]
    simp
  have hservice : ∀ point ∈ servicePoints, Apart point named.parts := by
    simp [servicePoints_eq, named_parts, Apart]
  have hhome : ¬ named.parts <+: ["root"] := by simp [named_parts]
  refine (shows_iff h [] rfl hcovers (by simp [varMount, systemMount, homeMount, configMount,
    inputsMount, fixturesMount, bootstrapMount, procMount, devMount])).mpr ?_
  rw [List.forall_mem_cons, List.forall_mem_cons, List.forall_mem_cons,
    forall_service_iff, point_home]
  exact ⟨h.locations.2.1, ⟨by simp [named_parts], hhome⟩, h.locations.2.2.1, hservice⟩

/-- The user installation lies in the private `/root`. -/
theorem user_shown (h : Accepted host driver directory ns) :
    ∀ node, user.parts <+: node → ns.visible node = some (homeMount ns.state) := by
  have hcovers : (homeMount ns.state).point <+: user.parts := by
    rw [point_home, user_parts]
    simp
  have hservice : ∀ point ∈ servicePoints, Apart point user.parts := by
    simp [servicePoints_eq, user_parts, Apart]
  refine (shows_iff h [varMount ns.state, systemMount ns.state (systemPath driver)] rfl hcovers
    (by simp [homeMount, configMount, inputsMount, fixturesMount, bootstrapMount, procMount,
      devMount])).mpr ?_
  rw [List.forall_mem_cons, forall_service_iff]
  exact ⟨h.locations.2.2.2, hservice⟩

theorem fixtures_shown (h : Accepted host driver directory ns) :
    ∀ node, fixtures.parts <+: node →
      ns.visible node = some (fixturesMount (host.resolve directory)) := by
  refine (shows_iff h [varMount ns.state, systemMount ns.state (systemPath driver),
    homeMount ns.state, configMount ns.state (configPath driver), inputsMount ns.state] rfl
    (List.prefix_refl _) (by simp [fixturesMount, bootstrapMount, procMount, devMount])).mpr ?_
  rw [List.forall_mem_cons, List.forall_mem_cons, List.forall_mem_singleton]
  have hservice : ∀ point ∈ [["tmp", "selector-bootstrap.py"], ["proc"], ["dev"]],
      Apart point fixtures.parts := by
    simp [fixtures_parts, Apart]
  exact ⟨hservice bootstrap.parts (.head _), hservice procMount.point (.tail _ (.head _)),
    hservice devMount.point (.tail _ (.tail _ (.head _)))⟩

/-- What is mounted after the target paths, by mount points. -/
theorem target_apart_iff (h : Accepted host driver directory ns) {target : PurePath}
    (htarget : target ∈ targetPaths host driver) :
    (∀ m' ∈ privateMounts host ns.state (systemPath driver) (configPath driver)
        (host.resolve directory), Apart m'.point target.parts) ↔
      (Apart ["var"] target.parts ∧ Apart ["root"] target.parts) ∧
        (target.anchor = .doubleRoot →
          ∀ point ∈ (systemPath driver).parts :: (configPath driver).parts :: servicePoints,
            Apart point target.parts) := by
  have hall : (∀ m' ∈ privateMounts host ns.state (systemPath driver) (configPath driver)
        (host.resolve directory), Apart m'.point target.parts) ↔
      (Apart ["var"] target.parts ∧ Apart ["root"] target.parts) ∧
        ∀ point ∈ (systemPath driver).parts :: (configPath driver).parts :: servicePoints,
          Apart point target.parts := by
    rw [privateMounts, List.forall_mem_cons, List.forall_mem_cons, List.forall_mem_cons,
      List.forall_mem_cons, forall_service_iff, point_var, point_home, List.forall_mem_cons,
      List.forall_mem_cons]
    exact ⟨fun ⟨h₁, h₂, h₃, h₄, h₅⟩ => ⟨⟨h₁, h₃⟩, h₂, h₄, h₅⟩,
      fun ⟨⟨h₁, h₃⟩, h₂, h₄, h₅⟩ => ⟨h₁, h₂, h₃, h₄, h₅⟩⟩
  rw [hall]
  refine and_congr_right fun _ => ⟨fun hrest _ => hrest, fun hdouble => ?_⟩
  rcases h.anchored target htarget with hanchor | hanchor
  · exact h.targets target htarget hanchor
  · exact hdouble hanchor

/-- **When the namespace shows what was validated.** -/
theorem init_showsValidated_iff (h : init host driver directory = .ok ns) :
    ShowsValidated host driver directory ns ↔ Unobstructed host driver := by
  have haccepted := accepted_of_init h
  constructor
  · intro hshows
    have htargets := fun target htarget => (target_apart_iff haccepted htarget).mp
      ((targets_iff haccepted htarget).mp (hshows.targets target htarget))
    exact ⟨fun target htarget => (htargets target htarget).1,
      fun target htarget => (htargets target htarget).2,
      (system_iff haccepted).mp hshows.system, (config_iff haccepted).mp hshows.config⟩
  · intro hclear
    exact {
      targets := fun target htarget => (targets_iff haccepted htarget).mpr
        ((target_apart_iff haccepted htarget).mpr
          ⟨hclear.targets target htarget, hclear.doubled target htarget⟩)
      system := (system_iff haccepted).mpr hclear.system
      named := named_shown haccepted
      user := user_shown haccepted
      config := (config_iff haccepted).mpr hclear.config
      fixtures := fixtures_shown haccepted }

end

/-! ## A host -/

/-- How the kernel spells a mount point. -/
def mountPointText (m : Mount) : String := "/" ++ "/".intercalate m.point

theorem mountPointText_slash (m : Mount) : startsWith (mountPointText m) "//" = false := by
  have hfirst : ∀ tail : String, ∀ part ∈ m.point,
      startsWith ("/" ++ (part ++ tail)) "//" = false := by
    intro tail part hpart
    have hvalid := m.destination.valid part hpart
    simp only [isPathPart, Bool.and_eq_true, decide_eq_true_eq] at hvalid
    cases hcs : part.toList with
    | nil => exact absurd (String.toList_eq_nil_iff.mp hcs) hvalid.1
    | cons c cs =>
        have hc : ('/' == c) = false := by
          have hnot : '/' ∉ c :: cs := by simpa [hcs] using hvalid.2
          exact beq_eq_false_iff_ne.mpr fun h => hnot (h ▸ List.mem_cons_self ..)
        rw [startsWith, String.toList_append, String.toList_append, hcs]
        show ('/' == '/' && ('/' == c && _)) = false
        rw [hc, Bool.false_and, Bool.and_false]
  unfold mountPointText
  cases hpoint : m.point with
  | nil => decide
  | cons part parts =>
      have hpart : part ∈ m.point := hpoint ▸ List.mem_cons_self ..
      by_cases hparts : parts = []
      · have h := hfirst "" part hpart
        rwa [String.append_empty, ← String.intercalate_singleton (s := "/") (t := part),
          ← hparts] at h
      · rw [String.intercalate_cons_of_ne_nil hparts, String.append_assoc]
        exact hfirst _ part hpart

/-- A host with the usual directories and without symbolic links. -/
def plainHost : Host where
  uid := 1000
  isDir path := path.parts.length ≤ 2
  pathExists _ := true
  resolve path := ⟨.root, path.parts, path.valid⟩
  which _ := some "/usr/bin/bwrap"
  suiteFile := .ofString "/opt/blackbox/system_selector_scenarios.py"
  prepareState _ := .ok ()
  mountTable mounts := Dict.tabulate (mounts.map mountPointText) fun key =>
    (mounts.findRev? (mountPointText · = key)).elim false Mount.readOnly
  mountTable_slash := by
    intro mounts key hkey
    obtain ⟨_, hget⟩ := (Dict.mem_keys_iff _ key).mp hkey
    rw [Dict.get?_tabulate] at hget
    by_cases hkey : key ∈ mounts.map mountPointText
    · obtain ⟨m, _, rfl⟩ := List.mem_map.mp hkey
      exact mountPointText_slash m
    · rw [if_neg hkey] at hget
      cases hget
  probe _ := none

/-- A driver with these target paths and otherwise the default expectations. -/
def plainDriver (readOnlyPaths : String) : NamespaceDriver where
  env := Dict.empty.set "BLACKBOX_TARGET_READONLY_PATHS" readOnlyPaths
  cli := "/opt/flatpak/bin/flatpak"
  client := none
  root := .ofString "/tmp/blackbox-run/case"

theorem init_showsValidated_small :
    ∃ ns, init plainHost (plainDriver "/opt/flatpak/lib") (.ofString "/opt/fixtures") = .ok ns ∧
      (ShowsValidated plainHost (plainDriver "/opt/flatpak/lib") (.ofString "/opt/fixtures") ns ↔
        Unobstructed plainHost (plainDriver "/opt/flatpak/lib")) := by
  have hok : (init plainHost (plainDriver "/opt/flatpak/lib")
      (.ofString "/opt/fixtures")).toBool = true := by decide +kernel
  cases hrun : init plainHost (plainDriver "/opt/flatpak/lib") (.ofString "/opt/fixtures") with
  | error e =>
      rw [hrun] at hok
      cases hok
  | ok ns => exact ⟨ns, rfl, init_showsValidated_iff hrun⟩

/-- A target path below `/var` is accepted and then hidden. -/
theorem init_hidden_small :
    ∃ ns, init plainHost (plainDriver "/var/opt/flatpak") (.ofString "/opt/fixtures") = .ok ns ∧
      ¬ ShowsValidated plainHost (plainDriver "/var/opt/flatpak")
      (.ofString "/opt/fixtures") ns := by
  have hok : (init plainHost (plainDriver "/var/opt/flatpak")
      (.ofString "/opt/fixtures")).toBool = true := by decide +kernel
  cases hrun : init plainHost (plainDriver "/var/opt/flatpak") (.ofString "/opt/fixtures") with
  | error e =>
      rw [hrun] at hok
      cases hok
  | ok ns =>
      have haccepted := accepted_of_init hrun
      have htarget : PurePath.ofString "/var/opt/flatpak" ∈
          targetPaths plainHost (plainDriver "/var/opt/flatpak") := by decide +kernel
      have hoverlap : ¬ Apart ["var"] (PurePath.ofString "/var/opt/flatpak").parts := by
        decide +kernel
      refine ⟨ns, rfl, fun hshows => hoverlap ?_⟩
      have hapart := (targets_iff haccepted htarget).mp (hshows.targets _ htarget)
      exact ((target_apart_iff haccepted htarget).mp hapart).1.1

end Namespace

end FlatpakBlackbox
