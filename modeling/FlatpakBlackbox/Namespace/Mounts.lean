import FlatpakBlackbox.Basic.Checked
import FlatpakBlackbox.Basic.Dict
import FlatpakBlackbox.Basic.Overlay
import FlatpakBlackbox.Basic.PurePath
import FlatpakBlackbox.Errors

set_option autoImplicit false

/-! # The mounts of a selector namespace

`Namespace.__init__` of `system_selector_scenarios.py`: the checks of the expectations and of the
target paths, and the mount operations that are handed to bubblewrap. The file system of the host,
bubblewrap and the kernel's table of mounts are the parameter `Host`.
-/

namespace FlatpakBlackbox

open PyLib PyException

/-- What a mount operation puts at its destination. -/
inductive MountKind where
  | roBind (source : PurePath)
  | bind (source : PurePath)
  | tmpfs
  | proc
  | dev
  deriving DecidableEq

/-- The line of the constructor that adds a mount. -/
inductive Purpose where
  | hostRoot | scaffold | target | var | system | home | config | inputs | fixtures | bootstrap
  | proc | dev | outer
  deriving DecidableEq, Repr

/-- One mount operation of bubblewrap. -/
structure Mount where
  purpose : Purpose
  kind : MountKind
  destination : PurePath
  deriving DecidableEq

/-- The destination as the kernel reads it: two leading slashes are one. -/
def Mount.point (m : Mount) : List String := m.destination.parts

/-- The host path that is seen at a node below the destination. -/
def Mount.source? (m : Mount) (node : List String) : Option (List String) :=
  match m.kind with
  | .roBind source => some (source.parts ++ node.drop m.point.length)
  | .bind source => some (source.parts ++ node.drop m.point.length)
  | _ => none

def Mount.readOnly (m : Mount) : Bool :=
  match m.kind with
  | .roBind _ => true
  | _ => false

/-- The host on which the namespace is made. -/
structure Host where
  /-- `os.getuid()`. -/
  uid : Nat
  isDir : PurePath → Bool
  pathExists : PurePath → Bool
  /-- `path.resolve()`. -/
  resolve : PurePath → PurePath
  /-- `shutil.which("bwrap", path=...)`. -/
  which : Option String → Option String
  /-- `Path(__file__).resolve()`. -/
  suiteFile : PurePath
  /-- The creation of the state directories and of `selectors.conf`. -/
  prepareState : PurePath → Except PyException Unit
  /-- `/proc/mounts` inside: whether the last mount at each mount point is read-only. -/
  mountTable : List Mount → Dict String Bool
  /-- The kernel spells every mount point with a single leading slash. -/
  mountTable_slash : ∀ mounts, ∀ key ∈ (mountTable mounts).keys, startsWith key "//" = false
  /-- The error of a probe that fails for another reason than the table of mounts. -/
  probe : List Mount → Option String

/-- The fields of the driver that the namespace reads. -/
structure NamespaceDriver where
  env : Dict String String
  cli : String
  client : Option String
  root : PurePath

/-- The attributes of `Namespace` that its mounts depend on. -/
structure Namespace where
  state : PurePath
  mounts : List Mount

namespace Namespace

def defaultSystem : String := "/var/local/lib/flatpak"
def named : PurePath := .ofString "/var/lib/flatpak-selector-alt"
def defaultConfig : String := "/usr/local/etc/flatpak"
def user : PurePath := .ofString "/root/.local/share/flatpak"
def privateRoots : List PurePath :=
  ["/etc", "/var", "/run", "/tmp", "/home", "/root"].map PurePath.ofString
def fixtures : PurePath := .ofString "/tmp/system-selector-fixtures"
def inputs : PurePath := .ofString "/tmp/selector-inputs"
def bootstrap : PurePath := .ofString "/tmp/selector-bootstrap.py"
def helpers : List String :=
  ["FLATPAK_BWRAP", "FLATPAK_DBUSPROXY", "FLATPAK_TRIGGERSDIR", "FLATPAK_VALIDATE_ICON",
    "FLATPAK_PORTAL"]

/-- `self.block(message)`. -/
def block (message : String) : PyException := .ofClass .prerequisiteError message

/-! ## The expectations -/

/-- The path that `_expectation` reads. -/
def expected (env : Dict String String) (key default : String) : PurePath :=
  .ofString (env.getD key default)

/-- `_expectation(env, key, default)`. -/
def expectation (env : Dict String String) (key default : String) :
    Except PyException PurePath := do
  let path := expected env key default
  raiseIf (path.isAbsolute = false ∨ path = .ofString "/" ∨ ".." ∈ path.parts ∨
      (env.getD key default).toList.any isSpace = true)
    (valueError s!"{key} must be an absolute path without '..' or whitespace")
  return path

def systemPath (driver : NamespaceDriver) : PurePath :=
  expected driver.env "BLACKBOX_SYSTEM_INSTALL_DIR" defaultSystem

def configPath (driver : NamespaceDriver) : PurePath :=
  expected driver.env "BLACKBOX_SYSTEM_CONFIG_DIR" defaultConfig

/-- The loop over `locations`. -/
def checkLocations : List PurePath → Except PyException Unit
  | [] => .ok ()
  | path :: others => do
      -- Each pair is compared once, in both directions.
      raiseIf (others.any (fun other => other.isRelativeTo path || path.isRelativeTo other) = true)
        (block "installation and configuration expectations must not overlap")
      raiseIf (privateRoots.any (fun root => root.isRelativeTo path) = true)
        (block "expectations must not cover namespace scaffolding directories")
      checkLocations others

/-- `while not parent.is_dir(): parent = parent.parent`; the root is a directory. -/
def nearestDirectory (host : Host) (path : PurePath) : PurePath :=
  ((path.parts.inits.reverse.filterMap fun parts =>
    if h : ∀ part ∈ parts, isPathPart part = true then some ⟨path.anchor, parts, h⟩ else none).find?
      host.isDir).getD (.ofString "/")

/-- The private parent of one expectation. -/
def addPrivateParent (host : Host) (parents : List PurePath) (location : PurePath) :
    Except PyException (List PurePath) :=
  if parents.any (fun root => location.isRelativeTo root) then .ok parents
  else do
    let parent := nearestDirectory host location.parent
    -- A `tmpfs` there would hide the programs of the host.
    raiseIf (parent = .ofString "/" ∨ parent = .ofString "/usr")
      (block s!"no suitable private parent for expectation {location.text}")
    return parents ++ [parent]

/-! ## The target paths -/

/-- `value.split(os.pathsep)` without the empty pieces. -/
def pathList (env : Dict String String) (key : String) : List String :=
  (((env.getD key "").toList.splitOn ':').map String.ofList).filter (· ≠ "")

/-- `sorted(set(target_paths), key=lambda item: (len(item.parts), str(item)))`. -/
def targetPaths (host : Host) (driver : NamespaceDriver) : List PurePath :=
  let texts := [driver.cli] ++ driver.client.toList ++
    helpers.filterMap driver.env.get? ++ pathList driver.env "LD_LIBRARY_PATH" ++
    pathList driver.env "BLACKBOX_TARGET_READONLY_PATHS"
  (host.suiteFile.parent :: texts.map PurePath.ofString).dedup.insertionSort fun a b =>
    a.partsLength < b.partsLength ∨ (a.partsLength = b.partsLength ∧ a.text ≤ b.text)

/-- What a target path must not overlap. -/
def privateContents (locations : List PurePath) (state : PurePath) : List PurePath :=
  locations ++ [state, fixtures, inputs, bootstrap] ++ ["/proc", "/dev", "/sys"].map
    PurePath.ofString

/-- The checks of one target path. -/
def checkTarget (host : Host) (parents contents : List PurePath) (path : PurePath) :
    Except PyException Unit := do
  raiseIf (path.isAbsolute = false ∨ ".." ∈ path.parts ∨ host.pathExists path = false)
    (block s!"target path must be existing and absolute: {path.text}")
  -- The destination and what it resolves to, symbolic links included.
  [path, host.resolve path].forM fun candidate => do
    raiseIf (parents.any (fun root => root.isRelativeTo candidate) = true)
      (block s!"readonly target path covers a private namespace root: {path.text}")
    raiseIf (contents.any (fun root => root.isRelativeTo candidate || candidate.isRelativeTo root)
        = true)
      (block s!"readonly target path overlaps protected namespace content: {path.text}")

/-! ## The mount operations -/

def hostRootMount : Mount := ⟨.hostRoot, .roBind (.ofString "/"), .ofString "/"⟩

/-- The private directories that lie below no other one, in order. -/
def scaffoldMounts (parents : List PurePath) : List Mount :=
  ((parents.dedup.insertionSort fun a b => a.orderKey ≤ b.orderKey).filter fun parent =>
    !parents.any fun other => parent ≠ other && parent.isRelativeTo other).map
      fun parent => ⟨.scaffold, .tmpfs, parent⟩

def targetMount (path : PurePath) : Mount := ⟨.target, .roBind path, path⟩
def varMount (state : PurePath) : Mount := ⟨.var, .bind (state.child "var"), .ofString "/var"⟩
def systemMount (state system : PurePath) : Mount := ⟨.system, .bind (state.child "system"), system⟩
def homeMount (state : PurePath) : Mount := ⟨.home, .bind (state.child "home"), .ofString "/root"⟩
def configMount (state config : PurePath) : Mount :=
  ⟨.config, .roBind (state.child "config"), config⟩
def inputsMount (state : PurePath) : Mount := ⟨.inputs, .roBind (state.child "inputs"), inputs⟩
def fixturesMount (directory : PurePath) : Mount := ⟨.fixtures, .roBind directory, fixtures⟩
def bootstrapMount (host : Host) : Mount := ⟨.bootstrap, .roBind host.suiteFile, bootstrap⟩
def procMount : Mount := ⟨.proc, .proc, .ofString "/proc"⟩
def devMount : Mount := ⟨.dev, .dev, .ofString "/dev"⟩

/-- The mounts that follow those of the targets. -/
def privateMounts (host : Host) (state system config directory : PurePath) : List Mount :=
  [varMount state, systemMount state system, homeMount state, configMount state config,
    inputsMount state, fixturesMount directory, bootstrapMount host, procMount, devMount]

/-- The assertions of `_bootstrap` on the table of mounts. -/
def mountsExpected (table : Dict String Bool) (system config : PurePath) : Bool :=
  table.get? "/" = some true &&
  ["/var", "/root", "/run", "/tmp", "/etc"].all (fun path => table.get? path = some false) &&
  table.get? system.text = some false &&
  (table.get? config.text = some true && table.get? fixtures.text = some true)

end Namespace

/-- `Namespace.__init__(driver, fixture_directory)`. -/
def Namespace.init (host : Host) (driver : NamespaceDriver) (fixtureDirectory : PurePath) :
    Except PyException Namespace := do
  raiseIf (host.uid = 0) (block "root-userns scenarios must be launched by an ordinary host user")
  let system ← expectation driver.env "BLACKBOX_SYSTEM_INSTALL_DIR" defaultSystem
  let config ← expectation driver.env "BLACKBOX_SYSTEM_CONFIG_DIR" defaultConfig
  let locations := [system, config, named, user]
  checkLocations locations
  let state := driver.root.child "system-selector-state"
  host.prepareState state
  raiseIf (host.which (driver.env.get? "PATH") = none) (block "bubblewrap is unavailable")
  let parents ← [system, config].foldlM (addPrivateParent host) privateRoots
  let targets := targetPaths host driver
  targets.forM (checkTarget host parents (privateContents locations state))
  -- A later operation hides an earlier one, so the private mounts come last.
  let mounts := hostRootMount :: scaffoldMounts parents ++ targets.map targetMount ++
    privateMounts host state system config (host.resolve fixtureDirectory)
  raiseIf (mountsExpected (host.mountTable mounts) system config = false)
    (block "root-userns isolation probe failed: AssertionError")
  match host.probe mounts with
  | some stderr => .error (block s!"root-userns isolation probe failed: {stderr}")
  | none => return ⟨state, mounts⟩

end FlatpakBlackbox
