import FlatpakBlackbox.Coverage.Verification

set_option autoImplicit false

/-! # Which arguments are options

`invoked_option` reads an option off a recorded command line. A command line is recorded directly,
or behind a wrapper together with the command line of the CLI itself. Either way only the arguments
before the payload count, so neither the payload nor the wrapper changes what was invoked.
-/

namespace FlatpakBlackbox

open PyLib

/-! ## The command line of the CLI -/

/-- An argument that may be an option of the command. -/
def IsLeading (argument : String) : Prop := startsWith argument "-" = true ∧ argument ≠ "--"

/-- An argument that gives the option, with or without a value. -/
def Gives (option argument : String) : Prop :=
  argument ≠ "--" ∧ (argument = option ∨ startsWith argument (option ++ "=") = true)

/-- The command line that counts: the recorded one, where it begins with the CLI, and otherwise the
recorded command line of the CLI, which has to be the end of the other one. -/
inductive CommandLine (record : EvidenceRecord) (cli : String) : List String → Prop where
  | direct {arguments : List String} (hargv : record.argv = some (cli :: arguments)) :
      CommandLine record cli (cli :: arguments)
  | wrapped {wrapper : String} {outer arguments : List String}
      (hargv : record.argv = some (wrapper :: outer)) (hwrapper : wrapper ≠ cli)
      (hinner : record.cliArgv = some (cli :: arguments))
      (hsuffix : cli :: arguments <:+ wrapper :: outer) : CommandLine record cli (cli :: arguments)

/-- A command line that gives the option to the command before any payload. -/
def InvokedBy (cli command option : String) (line : List String) : Prop :=
  ∃ leading argument rest, line = cli :: command :: (leading ++ argument :: rest) ∧
    (∀ a ∈ leading, IsLeading a) ∧ Gives option argument

/-! ## The scan -/

theorem leadingOption_cons (option argument : String) (rest : List String) :
    invokedOption.leadingOption option (argument :: rest) = true ↔
      IsLeading argument ∧ (argument = option ∨ startsWith argument (option ++ "=") = true ∨
        invokedOption.leadingOption option rest = true) := by
  rw [invokedOption.leadingOption, IsLeading]
  split
  · next hstop =>
      rcases hstop with hstop | hstop
      · simp [hstop]
      · simp [hstop]
  · next hstop =>
      simp only [not_or, Bool.not_eq_false] at hstop
      simp [hstop, or_assoc]

theorem IsLeading.of_gives {option argument : String} (hoption : startsWith option "-" = true)
    (h : Gives option argument) : IsLeading argument := by
  obtain ⟨hne, hgives⟩ := h
  refine ⟨?_, hne⟩
  rcases hgives with rfl | hvalue
  · exact hoption
  · unfold startsWith at hoption hvalue ⊢
    rw [List.isPrefixOf_iff_prefix] at hoption hvalue ⊢
    rw [String.toList_append] at hvalue
    exact (hoption.trans (List.prefix_append _ _)).trans hvalue

/-- The scan finds an option that only leading arguments precede. -/
theorem leadingOption_iff {option : String} (hoption : startsWith option "-" = true)
    {arguments : List String} : invokedOption.leadingOption option arguments = true ↔
      ∃ leading argument rest, arguments = leading ++ argument :: rest ∧
        (∀ a ∈ leading, IsLeading a) ∧ Gives option argument := by
  induction arguments with
  | nil =>
      rw [invokedOption.leadingOption]
      simp
  | cons first arguments ih =>
      rw [leadingOption_cons, ih]
      constructor
      · rintro ⟨hfirst, hgives⟩
        rcases or_assoc.mpr hgives with hgives | ⟨leading, argument, rest, rfl, hleading, hgives⟩
        · exact ⟨[], first, arguments, rfl, by simp, hfirst.2, hgives⟩
        · exact ⟨first :: leading, argument, rest, rfl,
            List.forall_mem_cons.mpr ⟨hfirst, hleading⟩, hgives⟩
      · rintro ⟨leading, argument, rest, hsplit, hleading, hgives⟩
        cases leading with
        | nil =>
            obtain ⟨rfl, rfl⟩ := List.cons.inj hsplit
            exact ⟨.of_gives hoption hgives, or_assoc.mp (.inl hgives.2)⟩
        | cons a leading =>
            obtain ⟨rfl, rfl⟩ := List.cons.inj hsplit
            obtain ⟨hfirst, hrest⟩ := List.forall_mem_cons.mp hleading
            exact ⟨hfirst, .inr (.inr ⟨leading, argument, rest, rfl, hrest, hgives⟩)⟩

/-- **Nothing after the first payload argument is read.** -/
theorem leadingOption_stop {option stop : String} (hstop : ¬ IsLeading stop)
    (leading payload payload' : List String) :
    invokedOption.leadingOption option (leading ++ stop :: payload) =
      invokedOption.leadingOption option (leading ++ stop :: payload') := by
  rw [Bool.eq_iff_iff]
  induction leading with
  | nil =>
      rw [List.nil_append, List.nil_append, leadingOption_cons, leadingOption_cons]
      simp [hstop]
  | cons argument leading ih =>
      rw [List.cons_append, List.cons_append, leadingOption_cons, leadingOption_cons, ih]

/-! ## Records -/

/-- The option after the CLI and the command. -/
def lineGives (command option : String) : List String → Bool
  | _ :: first :: rest => first = command && invokedOption.leadingOption option rest
  | _ => false

section

variable {record : EvidenceRecord} {cli command option : String}

theorem invokedOption_direct (hinterface : record.interface = some "cli") {arguments : List String}
    (hargv : record.argv = some (cli :: arguments)) :
    invokedOption record cli command option = lineGives command option (cli :: arguments) := by
  unfold invokedOption
  simp only [hinterface, hargv, Option.getD_some, List.head?_cons]
  simp
  rfl

theorem invokedOption_wrapped (hinterface : record.interface = some "cli") {wrapper : String}
    {outer : List String} (hargv : record.argv = some (wrapper :: outer))
    (hwrapper : wrapper ≠ cli) :
    invokedOption record cli command option = true ↔ ∃ arguments,
      record.cliArgv.getD [] = cli :: arguments ∧ cli :: arguments <:+ wrapper :: outer ∧
        lineGives command option (cli :: arguments) = true := by
  have hhead : (wrapper :: outer).head? ≠ some cli := fun h => hwrapper (Option.some.inj h)
  unfold invokedOption
  simp only [hinterface, hargv, Option.getD_some, if_pos hhead]
  rw [if_neg (by simp)]
  cases record.cliArgv.getD [] with
  | nil => simp
  | cons first arguments =>
      split
      · next hrefused =>
          rcases hrefused with ⟨-, hnil | hfirst | hdrop⟩
          · cases hnil
          · simp only [Bool.false_eq_true, false_iff]
            rintro ⟨rest, hsame, -⟩
            exact hfirst (by rw [hsame]; rfl)
          · simp only [Bool.false_eq_true, false_iff]
            rintro ⟨rest, hsame, hsuffix, -⟩
            rw [← hsame] at hsuffix
            exact hdrop (List.suffix_iff_eq_drop.mp hsuffix).symm
      · next haccepted =>
          simp only [not_and, not_or, not_not] at haccepted
          obtain ⟨-, hfirst, hdrop⟩ := haccepted hhead
          obtain rfl := Option.some.inj hfirst
          have hsuffix : first :: arguments <:+ wrapper :: outer :=
            List.suffix_iff_eq_drop.mpr hdrop.symm
          constructor
          · intro hgives
            exact ⟨arguments, rfl, hsuffix, hgives⟩
          · rintro ⟨rest, hsame, -, hgives⟩
            rw [← hsame] at hgives
            exact hgives

/-- Records of another interface, and records without a command line, give no option. -/
theorem of_invokedOption (h : invokedOption record cli command option = true) :
    record.interface = some "cli" ∧ ∃ first rest, record.argv = some (first :: rest) := by
  unfold invokedOption at h
  dsimp only at h
  split at h
  · cases h
  · next haccepted =>
      obtain ⟨hinterface, hargv⟩ := not_or.mp haccepted
      refine ⟨not_not.mp hinterface, ?_⟩
      cases hrecorded : record.argv with
      | none => exact absurd (by rw [hrecorded]; rfl) hargv
      | some argv =>
          rw [hrecorded] at hargv
          obtain ⟨first, rest, rfl⟩ := List.exists_cons_of_ne_nil hargv
          exact ⟨first, rest, rfl⟩

/-- The command line of the CLI decides. -/
theorem invokedOption_iff_line : invokedOption record cli command option = true ↔
    record.interface = some "cli" ∧ ∃ line, CommandLine record cli line ∧
      lineGives command option line = true := by
  constructor
  · intro h
    obtain ⟨hinterface, first, rest, hargv⟩ := of_invokedOption h
    by_cases hfirst : first = cli
    · subst hfirst
      rw [invokedOption_direct hinterface hargv] at h
      exact ⟨hinterface, _, .direct hargv, h⟩
    · obtain ⟨arguments, hinner, hsuffix, hgives⟩ :=
        (invokedOption_wrapped hinterface hargv hfirst).mp h
      have hrecorded : record.cliArgv = some (cli :: arguments) := by
        cases hcli : record.cliArgv with
        | none =>
            rw [hcli] at hinner
            cases hinner
        | some inner => rw [hcli] at hinner; exact congrArg some hinner
      exact ⟨hinterface, _, .wrapped hargv hfirst hrecorded hsuffix, hgives⟩
  · rintro ⟨hinterface, line, hline, hgives⟩
    cases hline with
    | direct hargv => rw [invokedOption_direct hinterface hargv, hgives]
    | wrapped hargv hwrapper hinner hsuffix =>
        exact (invokedOption_wrapped hinterface hargv hwrapper).mpr
          ⟨_, by rw [hinner]; rfl, hsuffix, hgives⟩

end

theorem lineGives_iff {cli command option : String} (hoption : startsWith option "-" = true)
    {arguments : List String} : lineGives command option (cli :: arguments) = true ↔
      InvokedBy cli command option (cli :: arguments) := by
  cases arguments with
  | nil => simp [lineGives, InvokedBy]
  | cons first rest =>
      rw [lineGives, Bool.and_eq_true, decide_eq_true_eq, leadingOption_iff hoption]
      constructor
      · rintro ⟨rfl, leading, argument, after, rfl, hleading, hgives⟩
        exact ⟨leading, argument, after, rfl, hleading, hgives⟩
      · rintro ⟨leading, argument, after, hline, hleading, hgives⟩
        obtain ⟨-, htail⟩ := List.cons.inj hline
        obtain ⟨rfl, rfl⟩ := List.cons.inj htail
        exact ⟨rfl, leading, argument, after, rfl, hleading, hgives⟩

/-- The payload of a line does not count. -/
theorem lineGives_payload {command option stop : String} (hstop : ¬ IsLeading stop)
    (first word : String) (leading payload payload' : List String) :
    lineGives command option (first :: word :: (leading ++ stop :: payload)) =
      lineGives command option (first :: word :: (leading ++ stop :: payload')) := by
  rw [lineGives, lineGives, leadingOption_stop hstop leading payload payload']

/-! ## Payload and wrappers -/

/-- The record with other command lines. -/
def EvidenceRecord.withLines (record : EvidenceRecord) (argv : List String)
    (cliArgv : Option (List String)) : EvidenceRecord :=
  { record with argv := some argv, cliArgv }

/-- The payload can be replaced on both sides of a suffix. -/
theorem suffix_payload {front tail tail' whole : List String}
    (h : front ++ tail <:+ whole ++ tail) :
    front ++ tail' <:+ whole ++ tail' := by
  obtain ⟨before, hbefore⟩ := h
  rw [← List.append_assoc] at hbefore
  refine ⟨before, ?_⟩
  rw [← List.append_assoc, List.append_cancel_right hbefore]

section

variable {record : EvidenceRecord} {cli command option stop : String}
  {leading payload payload' : List String}

theorem payload_direct (hstop : ¬ IsLeading stop) {word : String}
    {inner inner' : Option (List String)}
    (h : invokedOption (record.withLines (cli :: word :: (leading ++ stop :: payload)) inner)
      cli command option = true) :
    invokedOption (record.withLines (cli :: word :: (leading ++ stop :: payload')) inner')
      cli command option = true := by
  obtain ⟨hinterface, line, hline, hgives⟩ := invokedOption_iff_line.mp h
  refine invokedOption_iff_line.mpr ⟨hinterface, _, .direct rfl, ?_⟩
  cases hline with
  | direct hargv =>
      obtain ⟨-, rfl⟩ := List.cons.inj (Option.some.inj hargv)
      rw [← hgives]
      exact lineGives_payload hstop _ _ _ _ _
  | wrapped hargv hwrapper _ _ =>
      exact absurd (List.cons.inj (Option.some.inj hargv)).1.symm hwrapper

theorem payload_wrapped (hstop : ¬ IsLeading stop) {wrapper first word : String}
    {outer : List String} (hwrapper : wrapper ≠ cli)
    (h : invokedOption (record.withLines (wrapper :: (outer ++ stop :: payload))
      (some (first :: word :: (leading ++ stop :: payload)))) cli command option = true) :
    invokedOption (record.withLines (wrapper :: (outer ++ stop :: payload'))
      (some (first :: word :: (leading ++ stop :: payload')))) cli command option = true := by
  obtain ⟨hinterface, line, hline, hgives⟩ := invokedOption_iff_line.mp h
  cases hline with
  | direct hargv => exact absurd (List.cons.inj (Option.some.inj hargv)).1 hwrapper
  | wrapped hargv _ hinner hsuffix =>
      obtain ⟨rfl, rfl⟩ := List.cons.inj (Option.some.inj hargv)
      obtain ⟨rfl, rfl⟩ := List.cons.inj (Option.some.inj hinner)
      have hwhole : (first :: word :: leading) ++ stop :: payload <:+
          (wrapper :: outer) ++ stop :: payload := hsuffix
      have hsuffix' : first :: word :: (leading ++ stop :: payload') <:+
          wrapper :: (outer ++ stop :: payload') := suffix_payload hwhole
      refine invokedOption_iff_line.mpr
        ⟨hinterface, _, .wrapped rfl hwrapper rfl hsuffix', ?_⟩
      rw [← hgives]
      exact lineGives_payload hstop _ _ _ _ _

theorem other_wrapper {wrapper wrapper' : String} {outer outer' inner : List String}
    (hwrapper : wrapper ≠ cli) (hwrapper' : wrapper' ≠ cli)
    (h : invokedOption (record.withLines (wrapper :: (outer ++ inner)) (some inner))
      cli command option = true) :
    invokedOption (record.withLines (wrapper' :: (outer' ++ inner)) (some inner))
      cli command option = true := by
  obtain ⟨hinterface, line, hline, hgives⟩ := invokedOption_iff_line.mp h
  cases hline with
  | direct hargv => exact absurd (List.cons.inj (Option.some.inj hargv)).1 hwrapper
  | wrapped _ _ hinner _ =>
      obtain rfl := Option.some.inj hinner
      exact invokedOption_iff_line.mpr ⟨hinterface, _,
        .wrapped rfl hwrapper' rfl (List.suffix_append (wrapper' :: outer') _), hgives⟩

end

/-- **Payload never earns option credit.** An option is invoked exactly when the command line of the
CLI gives it to the command before any payload. Other payload does not change that, in a direct or
in a wrapped record, and neither does another wrapper. -/
theorem invokedOption_exact (record : EvidenceRecord) (cli command : String) {option : String}
    (hoption : startsWith option "-" = true) :
    (invokedOption record cli command option = true ↔
      record.interface = some "cli" ∧ ∃ line, CommandLine record cli line ∧
        InvokedBy cli command option line) ∧
    (∀ word leading stop payload payload' inner inner', ¬ IsLeading stop →
      invokedOption (record.withLines (cli :: word :: (leading ++ stop :: payload)) inner)
          cli command option =
        invokedOption (record.withLines (cli :: word :: (leading ++ stop :: payload')) inner')
          cli command option) ∧
    (∀ wrapper outer first word leading stop payload payload', wrapper ≠ cli → ¬ IsLeading stop →
      invokedOption (record.withLines (wrapper :: (outer ++ stop :: payload))
          (some (first :: word :: (leading ++ stop :: payload)))) cli command option =
        invokedOption (record.withLines (wrapper :: (outer ++ stop :: payload'))
          (some (first :: word :: (leading ++ stop :: payload')))) cli command option) ∧
    ∀ wrapper outer wrapper' outer' inner, wrapper ≠ cli → wrapper' ≠ cli →
      invokedOption (record.withLines (wrapper :: (outer ++ inner)) (some inner))
          cli command option =
        invokedOption (record.withLines (wrapper' :: (outer' ++ inner)) (some inner))
          cli command option := by
  refine ⟨?_, ?_, ?_, ?_⟩
  · rw [invokedOption_iff_line]
    refine and_congr_right fun _ => exists_congr fun line => and_congr_right fun hline => ?_
    cases hline with
    | direct _ => exact lineGives_iff hoption
    | wrapped _ _ _ _ => exact lineGives_iff hoption
  · intro word leading stop payload payload' inner inner' hstop
    exact Bool.eq_iff_iff.mpr ⟨payload_direct hstop, payload_direct hstop⟩
  · intro wrapper outer first word leading stop payload payload' hwrapper hstop
    exact Bool.eq_iff_iff.mpr ⟨payload_wrapped hstop hwrapper, payload_wrapped hstop hwrapper⟩
  · intro wrapper outer wrapper' outer' inner hwrapper hwrapper'
    exact Bool.eq_iff_iff.mpr ⟨other_wrapper hwrapper hwrapper', other_wrapper hwrapper' hwrapper⟩

/-- The theorem on a wrapped command line: its payload holds the option, so it gives none. -/
theorem invokedOption_exact_small :
    invokedOption (EvidenceRecord.withLines { interface := some "cli" }
        ["/wrapper", "/selected/flatpak", "run", "org.example.App", "--verbose"]
        (some ["/selected/flatpak", "run", "org.example.App", "--verbose"]))
        "/selected/flatpak" "run" "--verbose" =
      invokedOption (EvidenceRecord.withLines { interface := some "cli" }
        ["/wrapper", "/selected/flatpak", "run", "org.example.App"]
        (some ["/selected/flatpak", "run", "org.example.App"]))
        "/selected/flatpak" "run" "--verbose" := by
  have hoption : startsWith "--verbose" "-" = true := by decide
  have hstop : ¬ IsLeading "org.example.App" := fun h => absurd h.1 (by decide)
  exact (invokedOption_exact { interface := some "cli" } "/selected/flatpak" "run" hoption).2.2.1
    "/wrapper" ["/selected/flatpak", "run"] "/selected/flatpak" "run" [] "org.example.App"
    ["--verbose"] [] (by decide) hstop

end FlatpakBlackbox
