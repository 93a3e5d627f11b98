import FlatpakBlackbox.Runner.Process

set_option autoImplicit false

/-! # Call traces of the library client

The client written in C reports on one stream what it does: `CALL_API` and `TRACE_SIGNAL`
(`client-extension.h`) write a trace line, and `print_error` (`client.c`) the text of an error of
the library under test. `Driver.external_call` reads the trace lines back. An execution is the
list of what was written, in any order.
-/

namespace FlatpakBlackbox

open PyLib

/-- A name the client can trace: the functions and owners are identifiers of C, the signals are
named with letters, digits and hyphens. -/
structure TraceName where
  text : String
  valid : ∀ c ∈ text.toList, c.isAlphanum ∨ c = '_' ∨ c = '-'

/-- `GError`, with the name of its domain. The texts are those that `g_printerr` prints, converted
to the character set of the client's locale. -/
structure GError where
  domain : String
  code : Int
  message : String
  deriving DecidableEq, Repr

/-- One call of `g_printerr`. -/
inductive ClientEvent where
  /-- `CALL_API (function, ...)`. -/
  | call (function : TraceName)
  /-- `TRACE_SIGNAL (owner, name)`. -/
  | signal (owner name : TraceName)
  /-- `print_error (error)`. -/
  | error (error : Option GError)

/-- The text of `print_error`. -/
def printError : Option GError → String
  | some error =>
      "error domain=" ++ error.domain ++ " code=" ++ toString error.code ++ " message="
        ++ error.message ++ "\n"
  | none => "operation failed without a GError\n"

/-- The text of one event. -/
def ClientEvent.print : ClientEvent → String
  | .call function => "api-call " ++ function.text ++ "\n"
  | .signal owner name => "signal-event " ++ (owner.text ++ "." ++ name.text) ++ "\n"
  | .error report => printError report

/-- The error stream of an execution. -/
def clientStderr (events : List ClientEvent) : String := String.join (events.map ClientEvent.print)

/-- The functions that an execution called through `CALL_API`. -/
def calledFunctions (events : List ClientEvent) : List String :=
  events.filterMap fun
    | .call function => some function.text
    | _ => none

/-- The `Owner.name` pairs that an execution traced with `TRACE_SIGNAL`. -/
def tracedSignals (events : List ClientEvent) : List String :=
  events.filterMap fun
    | .signal owner name => some (owner.text ++ "." ++ name.text)
    | _ => none

/-- The errors that an execution reported. -/
def errorReports (events : List ClientEvent) : List (Option GError) :=
  events.filterMap fun
    | .error report => some report
    | _ => none

/-- The record names exactly the functions called and the signals traced. -/
def TracesExactly (record : CommandRecord) (events : List ClientEvent) : Prop :=
  ∃ calls signals, record.apiCalls = some calls ∧ record.signals = some signals ∧
    (∀ name, name ∈ calls ↔ name ∈ calledFunctions events) ∧
    ∀ name, name ∈ signals ↔ name ∈ tracedSignals events

/-- No line of an error report reads as a trace of something that the execution did not do. -/
def ReportsForgeNothing (events : List ClientEvent) : Prop :=
  ∀ report ∈ errorReports events, ∀ line ∈ splitLines (printError report),
    (startsWith line "api-call " = true →
      removePrefix line "api-call " ∈ calledFunctions events) ∧
    (startsWith line "signal-event " = true →
      removePrefix line "signal-event " ∈ tracedSignals events)

instance (events : List ClientEvent) : Decidable (ReportsForgeNothing events) :=
  inferInstanceAs (Decidable (∀ report ∈ errorReports events, _))

/-! ## Lines of the events -/

theorem ClientEvent.print_newline (event : ClientEvent) :
    ∃ x, event.print.toList = x ++ ['\n'] := by
  cases event with
  | call function => exact ⟨_, String.toList_append⟩
  | signal owner name => exact ⟨_, String.toList_append⟩
  | error report =>
      cases report with
      | none => exact ⟨"operation failed without a GError".toList, by decide⟩
      | some report => exact ⟨_, String.toList_append⟩

theorem splitLines_clientStderr (events : List ClientEvent) :
    splitLines (clientStderr events) = events.flatMap fun event => splitLines event.print := by
  rw [clientStderr, splitLines_join, List.flatMap_map]
  intro piece hpiece
  obtain ⟨event, _, rfl⟩ := List.mem_map.mp hpiece
  exact event.print_newline

theorem TraceName.not_isLineBreak (name : TraceName) {c : Char} (hc : c ∈ name.text.toList) :
    isLineBreak c = false := by
  rcases name.valid c hc with h | rfl | rfl
  · change (decide ('A'.val ≤ c.val ∧ c.val ≤ 'Z'.val) || ('a'.val ≤ c.val && c.val ≤ 'z'.val)
      || ('0'.val ≤ c.val && c.val ≤ '9'.val)) = true at h
    simp only [Bool.or_eq_true, Bool.and_eq_true, decide_eq_true_eq, UInt32.le_iff_toNat_le] at h
    have hval : c.toNat = c.val.toNat := rfl
    have hdigits : '0'.val.toNat = 48 ∧ '9'.val.toNat = 57 := by decide
    have hupper : 'A'.val.toNat = 65 ∧ 'Z'.val.toNat = 90 := by decide
    have hlower : 'a'.val.toNat = 97 ∧ 'z'.val.toNat = 122 := by decide
    have hbound : 48 ≤ c.toNat ∧ c.toNat ≤ 122 := by omega
    simp only [isLineBreak, Bool.or_eq_false_iff, Bool.and_eq_false_iff, decide_eq_false_iff_not,
      beq_eq_false_iff_ne]
    omega
  · rfl
  · rfl

theorem splitLines_call (function : TraceName) :
    splitLines (ClientEvent.call function).print = ["api-call " ++ function.text] := by
  have hprint : ∀ c ∈ "api-call ".toList, isLineBreak c = false := forall_mem_toList (by decide)
  refine splitLines_line fun c hc => ?_
  rw [String.toList_append] at hc
  rcases List.mem_append.mp hc with htag | hname
  · exact hprint c htag
  · exact function.not_isLineBreak hname

theorem splitLines_signal (owner name : TraceName) :
    splitLines (ClientEvent.signal owner name).print =
      ["signal-event " ++ (owner.text ++ "." ++ name.text)] := by
  have hprint : ∀ c ∈ "signal-event ".toList, isLineBreak c = false :=
    forall_mem_toList (by decide)
  have hjoin : ∀ c ∈ ".".toList, isLineBreak c = false := forall_mem_toList (by decide)
  refine splitLines_line fun c hc => ?_
  simp only [String.toList_append, List.mem_append] at hc
  rcases hc with htag | (howner | hdot) | hname
  · exact hprint c htag
  · exact owner.not_isLineBreak howner
  · exact hjoin c hdot
  · exact name.not_isLineBreak hname

theorem mem_calledFunctions {events : List ClientEvent} {name : String} :
    name ∈ calledFunctions events ↔ ∃ function, .call function ∈ events ∧ function.text = name := by
  rw [calledFunctions, List.mem_filterMap]
  constructor
  · rintro ⟨event, hevent, heq⟩
    cases event with
    | call function => exact ⟨function, hevent, Option.some.inj heq⟩
    | signal owner signal => cases heq
    | error report => cases heq
  · rintro ⟨function, hevent, rfl⟩
    exact ⟨_, hevent, rfl⟩

theorem mem_tracedSignals {events : List ClientEvent} {name : String} :
    name ∈ tracedSignals events ↔
      ∃ owner signal, .signal owner signal ∈ events ∧ owner.text ++ "." ++ signal.text = name := by
  rw [tracedSignals, List.mem_filterMap]
  constructor
  · rintro ⟨event, hevent, heq⟩
    cases event with
    | call function => cases heq
    | signal owner signal => exact ⟨owner, signal, hevent, Option.some.inj heq⟩
    | error report => cases heq
  · rintro ⟨owner, signal, hevent, rfl⟩
    exact ⟨_, hevent, rfl⟩

theorem mem_errorReports {events : List ClientEvent} {report : Option GError} :
    report ∈ errorReports events ↔ .error report ∈ events := by
  rw [errorReports, List.mem_filterMap]
  constructor
  · rintro ⟨event, hevent, heq⟩
    cases event with
    | call function => cases heq
    | signal owner signal => cases heq
    | error report' =>
        rw [← Option.some.inj heq]
        exact hevent
  · intro hevent
    exact ⟨_, hevent, rfl⟩

/-- The lines with one tag: those the events wrote themselves, and those inside an error report. -/
theorem mem_taggedLines_clientStderr {tag name : String} {events : List ClientEvent} :
    name ∈ taggedLines tag (clientStderr events) ↔
      ∃ event ∈ events, ∃ line ∈ splitLines event.print,
        startsWith line tag = true ∧ removePrefix line tag = name := by
  rw [mem_taggedLines, splitLines_clientStderr]
  constructor
  · rintro ⟨line, hline, h⟩
    obtain ⟨event, hevent, hline⟩ := List.mem_flatMap.mp hline
    exact ⟨event, hevent, line, hline, h⟩
  · rintro ⟨event, hevent, line, hline, h⟩
    exact ⟨line, List.mem_flatMap.mpr ⟨event, hevent, hline⟩, h⟩

theorem startsWith_eq_false {s t p : String} (c d : Char) (hs : s.toList.head? = some c)
    (hp : p.toList.head? = some d) (hne : c ≠ d) : startsWith (s ++ t) p = false := by
  obtain ⟨cs, hcs⟩ := List.head?_eq_some_iff.mp hs
  obtain ⟨ds, hds⟩ := List.head?_eq_some_iff.mp hp
  rw [startsWith, String.toList_append, hcs, hds]
  show (d == c && ds.isPrefixOf (cs ++ t.toList)) = false
  rw [beq_false_of_ne hne.symm, Bool.false_and]

/-- The calls that are read back. -/
theorem mem_taggedLines_call {events : List ClientEvent} {name : String} :
    name ∈ taggedLines "api-call " (clientStderr events) ↔ name ∈ calledFunctions events ∨
      ∃ report ∈ errorReports events, ∃ line ∈ splitLines (printError report),
        startsWith line "api-call " = true ∧ removePrefix line "api-call " = name := by
  rw [mem_taggedLines_clientStderr, mem_calledFunctions]
  constructor
  · rintro ⟨event, hevent, line, hline, hstarts, hname⟩
    cases event with
    | call function =>
        rw [splitLines_call, List.mem_singleton] at hline
        rw [hline, removePrefix_append] at hname
        exact .inl ⟨function, hevent, hname⟩
    | signal owner signal =>
        rw [splitLines_signal, List.mem_singleton] at hline
        rw [hline, startsWith_eq_false 's' 'a' (by decide) (by decide) (by decide)] at hstarts
        cases hstarts
    | error report =>
        exact .inr ⟨report, mem_errorReports.mpr hevent, line, hline, hstarts, hname⟩
  · rintro (⟨function, hevent, rfl⟩ | ⟨report, hevent, h⟩)
    · refine ⟨_, hevent, "api-call " ++ function.text, ?_, startsWith_append .., ?_⟩
      · rw [splitLines_call]
        exact List.mem_singleton_self _
      · exact removePrefix_append ..
    · exact ⟨_, mem_errorReports.mp hevent, h⟩

/-- The signals that are read back. -/
theorem mem_taggedLines_signal {events : List ClientEvent} {name : String} :
    name ∈ taggedLines "signal-event " (clientStderr events) ↔ name ∈ tracedSignals events ∨
      ∃ report ∈ errorReports events, ∃ line ∈ splitLines (printError report),
        startsWith line "signal-event " = true ∧ removePrefix line "signal-event " = name := by
  rw [mem_taggedLines_clientStderr, mem_tracedSignals]
  constructor
  · rintro ⟨event, hevent, line, hline, hstarts, hname⟩
    cases event with
    | call function =>
        rw [splitLines_call, List.mem_singleton] at hline
        rw [hline, startsWith_eq_false 'a' 's' (by decide) (by decide) (by decide)] at hstarts
        cases hstarts
    | signal owner signal =>
        rw [splitLines_signal, List.mem_singleton] at hline
        rw [hline, removePrefix_append] at hname
        exact .inl ⟨owner, signal, hevent, hname⟩
    | error report =>
        exact .inr ⟨report, mem_errorReports.mpr hevent, line, hline, hstarts, hname⟩
  · rintro (⟨owner, signal, hevent, rfl⟩ | ⟨report, hevent, h⟩)
    · refine ⟨_, hevent, "signal-event " ++ (owner.text ++ "." ++ signal.text), ?_,
        startsWith_append .., ?_⟩
      · rw [splitLines_signal]
        exact List.mem_singleton_self _
      · exact removePrefix_append ..
    · exact ⟨_, mem_errorReports.mp hevent, h⟩

/-! ## The recorded traces -/

section

variable {W : Type}

theorem taggedLines_readText (tag stderr : String) :
    taggedLines tag (readText stderr) = taggedLines tag stderr := by
  rw [taggedLines, splitLines_readText, taggedLines]

/-- A set with additions is the set itself exactly where every addition is one of its members. -/
theorem forall_or_iff {α : Type} {p q : α → Prop} : (∀ a, p a ∨ q a ↔ p a) ↔ ∀ a, q a → p a :=
  forall_congr' fun _ => or_iff_left_iff_imp

theorem tracesExactly_completedRecord {argv : List String} {returncode : Int} {stdout : String}
    {events : List ClientEvent} :
    TracesExactly (completedRecord argv "library" returncode stdout
      (readText (clientStderr events))) events ↔ ReportsForgeNothing events := by
  have hrecord : TracesExactly (completedRecord argv "library" returncode stdout
      (readText (clientStderr events))) events ↔
      (∀ name, name ∈ taggedLines "api-call " (clientStderr events)
        ↔ name ∈ calledFunctions events) ∧
      ∀ name, name ∈ taggedLines "signal-event " (clientStderr events)
        ↔ name ∈ tracedSignals events := by
    simp [TracesExactly, completedRecord, taggedLines_readText]
  rw [hrecord]
  simp only [mem_taggedLines_call, mem_taggedLines_signal, forall_or_iff]
  constructor
  · rintro ⟨hcalls, hsignals⟩ report hreport line hline
    exact ⟨fun h => hcalls _ ⟨report, hreport, line, hline, h, rfl⟩,
      fun h => hsignals _ ⟨report, hreport, line, hline, h, rfl⟩⟩
  · intro h
    constructor
    · rintro _ ⟨report, hreport, line, hline, hstarts, rfl⟩
      exact (h report hreport line hline).1 hstarts
    · rintro _ ⟨report, hreport, line, hline, hstarts, rfl⟩
      exact (h report hreport line hline).2 hstarts

/-- **What the traces of an execution say.** The driver records exactly the functions called and
the signals traced if and only if no line of an error report reads as another trace line. -/
theorem externalCall_tracesExactly_iff (runner : ProcessRunner W) (argv : List String) (w w' : W)
    (evidence : List CommandRecord) (returncode : Int) (stdout : String)
    (events : List ClientEvent)
    (h : runner.spawn argv w = (.exited returncode stdout (clientStderr events), w')) :
    ∃ completed record,
      externalCall runner argv "library" (w, evidence) = (.ok completed, w', evidence ++ [record]) ∧
      (TracesExactly record events ↔ ReportsForgeNothing events) :=
  ⟨_, _, externalCall_exited (.inr rfl) h, tracesExactly_completedRecord⟩

end

/-- The operating system on which every command prints the text of these events. -/
def clientRunner (events : List ClientEvent) : ProcessRunner Unit where
  spawn _ w := (.exited 1 "" (clientStderr events), w)
  timeoutText _ := "command timed out"

/-- A client that calls a function and prints an error. -/
def launchEvents (message : String) : List ClientEvent :=
  [.call ⟨"flatpak_installation_launch", forall_mem_toList (by decide)⟩,
    .error (some ⟨"g-io-error-quark", 1, message⟩)]

theorem externalCall_tracesExactly_small :
    ∃ completed record,
      externalCall (clientRunner (launchEvents "cannot run")) ["client", "run"] "library" ((), []) =
        (.ok completed, (), [] ++ [record]) ∧
      (TracesExactly record (launchEvents "cannot run") ↔
        ReportsForgeNothing (launchEvents "cannot run")) :=
  externalCall_tracesExactly_iff (clientRunner (launchEvents "cannot run")) ["client", "run"] () ()
    [] 1 "" (launchEvents "cannot run") rfl

/-- A message with a line break forges the call of a function. -/
theorem externalCall_forged_small :
    ∃ completed record,
      externalCall (clientRunner (launchEvents "cannot run\napi-call flatpak_forged"))
        ["client", "run"] "library" ((), []) = (.ok completed, (), [] ++ [record]) ∧
      record.apiCalls = some ["flatpak_forged", "flatpak_installation_launch"] ∧
      ¬ TracesExactly record (launchEvents "cannot run\napi-call flatpak_forged") := by
  have hforged : ¬ ReportsForgeNothing (launchEvents "cannot run\napi-call flatpak_forged") := by
    decide +kernel
  refine ⟨_, _, externalCall_exited (.inr rfl) rfl, ?_, ?_⟩
  · decide +kernel
  · exact fun hexact => hforged (tracesExactly_completedRecord.mp hexact)

end FlatpakBlackbox
