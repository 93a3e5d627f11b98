import FlatpakBlackbox.Basic.PurePath
import FlatpakBlackbox.Schema.Report

set_option autoImplicit false

/-! # Artifact integrity

`record_artifact` of `run.py` hashes a file when the run selects it and remembers the digest under
the path; `check_artifacts` hashes every remembered path again when the run completes. Between the
calls anything may happen to the files, so a run is a list of recordings and modifications.
-/

namespace FlatpakBlackbox

open PyLib PyException

section Artifacts

variable {Bytes : Type}

/-- What reading each path gives; `none` where it raises `OSError`. -/
abbrev Files (Bytes : Type) := String → Option Bytes

/-- `record_artifact(path, artifacts)`, where `digest` is the SHA-256 of the content. -/
def recordArtifact (digest : Bytes → String) (cwd path : PurePath) (files : Files Bytes)
    (artifacts : Dict String String) :
    Except PyException (ArtifactProvenance × Dict String String) :=
  let path := path.absolute cwd
  match files path.text with
  | some bytes =>
      .ok (⟨some path.text, some (digest bytes)⟩, artifacts.set path.text (digest bytes))
  | none => .error (fileNotFound path.text)

/-- `check_artifacts(artifacts)`. -/
def checkArtifacts (digest : Bytes → String) (files : Files Bytes)
    (artifacts : Dict String String) :
    ArtifactIntegrity :=
  let changed := (artifacts.entries.filter fun (path, expected) =>
    match files (PurePath.ofString path).text with
    | some bytes => digest bytes ≠ expected
    | none => true).map Prod.fst
  ⟨some (if changed ≠ [] then "changed" else "verified"), some changed⟩

/-! ## Runs -/

/-- What happens to the artifacts of a run. -/
inductive Event (Bytes : Type) where
  /-- `record_artifact(Path(text), artifacts)`. -/
  | record (text : String)
  /-- The files become what they are, by whatever else runs on the machine. -/
  | modify (files : Files Bytes)

/-- The files, the recorded digests, and what the calls returned. -/
structure RunState (Bytes : Type) where
  files : Files Bytes
  artifacts : Dict String String
  returned : List ArtifactProvenance

/-- A call that raises neither records nor returns anything. -/
def RunState.step (digest : Bytes → String) (cwd : PurePath) (s : RunState Bytes) :
    Event Bytes → RunState Bytes
  | .record text =>
      match recordArtifact digest cwd (.ofString text) s.files s.artifacts with
      | .ok (identity, artifacts) =>
          { s with artifacts := artifacts, returned := s.returned ++ [identity] }
      | .error _ => s
  | .modify files => { s with files := files }

/-- The state of a run when it completes. -/
def completed (digest : Bytes → String) (cwd : PurePath) (files : Files Bytes)
    (events : List (Event Bytes)) : RunState Bytes :=
  events.foldl (RunState.step digest cwd) ⟨files, .empty, []⟩

/-! ## What a run recorded -/

/-- The paths that a run hashes, each with the content that it has there and then. -/
def recordings (cwd : PurePath) : Files Bytes → List (Event Bytes) → List (String × Bytes)
  | _, [] => []
  | files, .record text :: events =>
      let path := ((PurePath.ofString text).absolute cwd).text
      match files path with
      | some bytes => (path, bytes) :: recordings cwd files events
      | none => recordings cwd files events
  | _, .modify files :: events => recordings cwd files events

/-- The files when the run completes. -/
def completion : Files Bytes → List (Event Bytes) → Files Bytes
  | files, [] => files
  | files, .record _ :: events => completion files events
  | _, .modify files :: events => completion files events

/-- What `record_artifact` returns for a recording. -/
def identityOf (digest : Bytes → String) (recording : String × Bytes) : ArtifactProvenance :=
  ⟨some recording.1, some (digest recording.2)⟩

/-- The digest under its path. -/
def digestEntry (digest : Bytes → String) (recording : String × Bytes) : String × String :=
  (recording.1, digest recording.2)

variable {digest : Bytes → String} {cwd : PurePath}

/-- One call or modification. -/
theorem step_record (s : RunState Bytes) (text : String) :
    s.step digest cwd (.record text) =
      match s.files ((PurePath.ofString text).absolute cwd).text with
      | some bytes =>
          let path := ((PurePath.ofString text).absolute cwd).text
          ⟨s.files, s.artifacts.set path (digest bytes),
            s.returned ++ [identityOf digest (path, bytes)]⟩
      | none => s := by
  unfold RunState.step recordArtifact
  dsimp only
  cases s.files ((PurePath.ofString text).absolute cwd).text with
  | none => rfl
  | some bytes => rfl

/-- A run from any state. -/
theorem foldl_step (events : List (Event Bytes)) (s : RunState Bytes) :
    events.foldl (RunState.step digest cwd) s =
      ⟨completion s.files events,
        ((recordings cwd s.files events).map (digestEntry digest)).foldl
          (fun artifacts entry => artifacts.set entry.1 entry.2) s.artifacts,
        s.returned ++ (recordings cwd s.files events).map (identityOf digest)⟩ := by
  induction events generalizing s with
  | nil => simp [completion, recordings]
  | cons event events ih =>
      rw [List.foldl_cons, ih]
      cases event with
      | modify files => rfl
      | record text =>
          rw [step_record, completion, recordings]
          dsimp only
          cases s.files ((PurePath.ofString text).absolute cwd).text with
          | none => rfl
          | some bytes =>
              dsimp only
              rw [List.map_cons, List.foldl_cons, List.map_cons, List.append_assoc]
              rfl

/-- **The state of a completed run**: the last digest of every path, and the digests of all
recordings in their order. -/
theorem completed_eq (files : Files Bytes) (events : List (Event Bytes)) :
    completed digest cwd files events =
      ⟨completion files events, .ofList ((recordings cwd files events).map (digestEntry digest)),
        (recordings cwd files events).map (identityOf digest)⟩ := by
  rw [completed, foldl_step]
  rfl

/-- A recorded path is the text of a path: opening it again opens the same file. -/
theorem text_of_mem_recordings (hcwd : cwd.Plain) {files : Files Bytes}
    {events : List (Event Bytes)} {recording : String × Bytes}
    (h : recording ∈ recordings cwd files events) :
    (PurePath.ofString recording.1).text = recording.1 := by
  induction events generalizing files with
  | nil => cases h
  | cons event events ih =>
      cases event with
      | modify files' => exact ih h
      | record text =>
          rw [recordings] at h
          split at h
          · rcases List.mem_cons.mp h with rfl | h
            · exact congrArg PurePath.text
                (PurePath.ofString_text ((PurePath.plain_ofString text).absolute hcwd))
            · exact ih h
          · exact ih h

/-! ## What a check says -/

theorem checkArtifacts_verified {files : Files Bytes} {artifacts : Dict String String} :
    (checkArtifacts digest files artifacts).status = some "verified" ↔
      ∀ entry ∈ artifacts.entries,
        (files (PurePath.ofString entry.1).text).map digest = some entry.2 := by
  have hunchanged : ∀ entry : String × String, (match files (PurePath.ofString entry.1).text with
      | some bytes => decide (digest bytes ≠ entry.2)
      | none => true) = false ↔
        (files (PurePath.ofString entry.1).text).map digest = some entry.2 := by
    intro entry
    cases files (PurePath.ofString entry.1).text with
    | none => simp
    | some bytes => simp
  have hstatus : ∀ changed : List String,
      some (if changed ≠ [] then "changed" else "verified") = some "verified" ↔ changed = [] := by
    intro changed
    by_cases hchanged : changed = []
    · simp [hchanged]
    · simp [hchanged]
  unfold checkArtifacts
  rw [hstatus, List.map_eq_nil_iff, List.filter_eq_nil_iff]
  simp only [Bool.not_eq_true, hunchanged]

/-- The path of the identity has content of its digest. -/
def Vouched (digest : Bytes → String) (files : Files Bytes) (identity : ArtifactProvenance) :
    Prop :=
  ∃ bytes, identity.path.bind files = some bytes ∧ identity.sha256 = some (digest bytes)

/-- Every path is recorded with contents of one digest only. -/
def Steady (digest : Bytes → String) (recorded : List (String × Bytes)) : Prop :=
  ∀ recording ∈ recorded, ∀ other ∈ recorded, recording.1 = other.1 →
    digest recording.2 = digest other.2

/-- Every path has content of the digest that it had when it was last recorded. -/
def Untouched (digest : Bytes → String) (files : Files Bytes) (recorded : List (String × Bytes)) :
    Prop :=
  ∀ path bytes, recorded.reverse.lookup path = some bytes →
    (files path).map digest = some (digest bytes)

theorem lookup_map_digestEntry (recorded : List (String × Bytes)) (path : String) :
    (recorded.map (digestEntry digest)).lookup path = (recorded.lookup path).map digest := by
  induction recorded with
  | nil => rfl
  | cons recording recorded ih =>
      obtain ⟨key, bytes⟩ := recording
      rw [List.map_cons, digestEntry, List.lookup_cons, List.lookup_cons, ih]
      cases path == key <;> rfl

/-- The check compares every path with its last recording. -/
theorem verified_iff_untouched {files : Files Bytes} {recorded : List (String × Bytes)}
    (htext : ∀ recording ∈ recorded, (PurePath.ofString recording.1).text = recording.1) :
    (checkArtifacts digest files (.ofList (recorded.map (digestEntry digest)))).status =
      some "verified" ↔ Untouched digest files recorded := by
  have hlast : ∀ path, (Dict.ofList (recorded.map (digestEntry digest))).get? path =
      (recorded.reverse.lookup path).map digest := by
    intro path
    rw [Dict.get?_ofList, ← List.map_reverse, lookup_map_digestEntry]
  have hpath : ∀ {path bytes}, recorded.reverse.lookup path = some bytes →
      (PurePath.ofString path).text = path := fun hbytes =>
    htext _ (List.mem_reverse.mp (mem_of_lookup hbytes))
  rw [checkArtifacts_verified]
  constructor
  · intro h path bytes hbytes
    have hentry : (path, digest bytes) ∈
      (Dict.ofList (recorded.map (digestEntry digest))).entries :=
      Dict.mem_entries_of_get? ((hlast path).trans (congrArg (Option.map digest) hbytes))
    have hfile := h _ hentry
    rwa [hpath hbytes] at hfile
  · rintro h ⟨path, expected⟩ hentry
    have hget := Dict.get?_of_mem_entries hentry
    rw [hlast] at hget
    obtain ⟨bytes, hbytes, rfl⟩ := Option.map_eq_some_iff.mp hget
    rw [hpath hbytes]
    exact h path bytes hbytes

/-- **What "verified" vouches for.** For every run, a verified check means that each digest that a
call returned is still that of its file, exactly when no path is recorded under two digests, or the
file at some path is no longer the one that was last recorded there. -/
theorem verified_vouches_iff (digest : Bytes → String) (cwd : String) (files : Files Bytes)
    (events : List (Event Bytes)) :
    ((checkArtifacts digest (completed digest (.ofString cwd) files events).files
        (completed digest (.ofString cwd) files events).artifacts).status = some "verified" →
      ∀ identity ∈ (completed digest (.ofString cwd) files events).returned,
        Vouched digest (completed digest (.ofString cwd) files events).files identity) ↔
    (Steady digest (recordings (.ofString cwd) files events) ∨
      ¬ Untouched digest (completion files events) (recordings (.ofString cwd) files events)) := by
  rw [completed_eq]
  dsimp only
  rw [verified_iff_untouched fun _ hrecording =>
    text_of_mem_recordings (PurePath.plain_ofString cwd) hrecording]
  generalize recordings (.ofString cwd) files events = recorded
  generalize completion files events = final
  constructor
  · intro h
    by_cases huntouched : Untouched digest final recorded
    · -- Both digests are that of the one file at completion.
      refine .inl fun recording hrecording other hother hpath => ?_
      obtain ⟨bytes, hbytes, hdigest⟩ := h huntouched _ (List.mem_map_of_mem hrecording)
      obtain ⟨bytes', hbytes', hdigest'⟩ := h huntouched _ (List.mem_map_of_mem hother)
      have hsame : bytes = bytes' := by
        have hfiles : final recording.1 = some bytes := hbytes
        rw [hpath] at hfiles
        exact Option.some.inj (hfiles.symm.trans hbytes')
      calc digest recording.2 = digest bytes := Option.some.inj hdigest
        _ = digest bytes' := by rw [hsame]
        _ = digest other.2 := (Option.some.inj hdigest').symm
    · exact .inr huntouched
  · intro h huntouched identity hidentity
    have hsteady : Steady digest recorded := h.resolve_right fun hnot => hnot huntouched
    obtain ⟨recording, hrecording, rfl⟩ := List.mem_map.mp hidentity
    obtain ⟨last, hlast⟩ := Option.isSome_iff_exists.mp
      (isSome_lookup_of_mem (List.mem_reverse.mpr hrecording))
    have hmem : (recording.1, last) ∈ recorded := List.mem_reverse.mp (mem_of_lookup hlast)
    obtain ⟨bytes, hbytes, hdigest⟩ :=
      Option.map_eq_some_iff.mp (huntouched recording.1 last hlast)
    refine ⟨bytes, hbytes, congrArg some ?_⟩
    exact (hsteady recording hrecording _ hmem rfl).trans hdigest.symm

end Artifacts

section Small

/-- The digests of two scripts. -/
def scriptDigest (content : String) : String :=
  if content = "#!/bin/sh\nexit 0\n" then
    "306c6ca7407560340797866e077e053627ad409277d1b9da58106fce4cf717cb"
  else "275239824e00e61b0a220e61a41791c7e9b4bd726f8b0c27077a338f8131c9dc"

/-- The CLI is recorded and replaced, and then recorded again as the executable of the adapter. -/
def replacedCli : List (Event String) :=
  [.record "/opt/flatpak", .modify fun _ => some "#!/bin/sh\nexit 1\n", .record "/opt/flatpak"]

/-- The digest of the CLI that the report publishes is no longer that of its file, and the check
says "verified". -/
theorem replacedCli_verified :
    let s := completed scriptDigest (.ofString "/") (fun _ => some "#!/bin/sh\nexit 0\n")
      replacedCli
    (checkArtifacts scriptDigest s.files s.artifacts).status = some "verified" ∧
      ∃ identity ∈ s.returned, ¬ Vouched scriptDigest s.files identity := by
  have hpath : ((PurePath.ofString "/opt/flatpak").absolute (.ofString "/")).text =
      "/opt/flatpak" := by decide
  have hrecordings : recordings (.ofString "/") (fun _ => some "#!/bin/sh\nexit 0\n") replacedCli =
      [("/opt/flatpak", "#!/bin/sh\nexit 0\n"), ("/opt/flatpak", "#!/bin/sh\nexit 1\n")] := by
    simp only [replacedCli, recordings, hpath]
  have hdigests : scriptDigest "#!/bin/sh\nexit 1\n" ≠ scriptDigest "#!/bin/sh\nexit 0\n" := by
    decide
  dsimp only
  rw [completed_eq, hrecordings]
  refine ⟨(verified_iff_untouched ?_).mpr ?_, _, List.mem_cons_self .., ?_⟩
  · intro recording hrecording
    rw [← hrecordings] at hrecording
    exact text_of_mem_recordings (PurePath.plain_ofString "/") hrecording
  · intro path bytes hlast
    have hmem := mem_of_lookup hlast
    simp only [List.reverse_cons, List.reverse_nil, List.nil_append, List.cons_append,
      List.mem_cons, Prod.mk.injEq, List.not_mem_nil, or_false] at hmem
    have hname : path = "/opt/flatpak" := hmem.elim And.left And.left
    rw [hname] at hlast
    obtain rfl := Option.some.inj hlast
    rfl
  · rintro ⟨bytes, hbytes, hdigest⟩
    obtain rfl := Option.some.inj hbytes
    exact hdigests (Option.some.inj hdigest).symm

end Small

end FlatpakBlackbox
