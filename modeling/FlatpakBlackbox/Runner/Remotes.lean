import FlatpakBlackbox.Runner.Trace

set_option autoImplicit false

/-! # Remotes over TSV

The library client lists remotes as lines of tab-separated fields (`print_remote` of `client.c`),
and the remote scenarios read the lines back (`_rows` of `remote_scenarios.py`). The writer
refuses what would need a tab, a carriage return or a line feed, and `g_print` converts the rest to
the character set of the client's locale; the reader also strips the whole output and ends a line
at every character that `str.splitlines` knows.
-/

namespace FlatpakBlackbox

open PyLib

/-! ## The client -/

/-- A string of C: it ends at its first NUL. -/
structure CString where
  text : String
  terminated : '\x00' ∉ text.toList

/-- `FlatpakRemote`, as far as `print_remote` asks for it. -/
structure Remote where
  name : CString
  url : Option CString
  title : Option CString
  prio : Int32

/-- The `fields` of `print_remote` that are not NULL. -/
def Remote.fields (remote : Remote) : List String :=
  (remote.name :: (remote.url.toList ++ remote.title.toList)).map CString.text

/-- `strpbrk (field, "\t\r\n") != NULL || strcmp (field, "\\N") == 0`. -/
def unrepresentable (field : String) : Bool :=
  field.toList.any (fun c => c == '\t' || c == '\r' || c == '\n') || field == "\\N"

/-- The character set of a locale. `client.c` calls no `setlocale`, so that the set of the client is
the one of the C locale; all that is known of it is that it holds ASCII. -/
structure Charset where
  has : Char → Bool
  ascii : ∀ c, c.toNat < 128 → has c = true

/-- `g_print` of GLib: the character set of the locale lacks some characters, and a question mark is
printed for each of these. -/
def Charset.convert (charset : Charset) (c : Char) : Char := if charset.has c then c else '?'

/-- What `g_print` prints of a text, as the runner decodes it. -/
def Charset.print (charset : Charset) (text : String) : String :=
  .ofList (text.toList.map charset.convert)

section

variable (charset : Charset)

/-- `print_remote (remote, &error)`. -/
def printRemote (remote : Remote) : Except GError String :=
  if remote.fields.any unrepresentable then
    .error ⟨"g-io-error-quark", 35, "remote property cannot be represented in fixture TSV"⟩
  else
    .ok (charset.print (remote.name.text ++ "\t" ++ remote.url.elim "" CString.text ++ "\t" ++
      remote.title.elim "\\N" CString.text ++ "\t" ++ toString remote.prio.toInt ++ "\n"))

/-- What a run of the client leaves: its status, its standard output, and the error it reports. -/
structure ClientRun where
  status : Int
  stdout : String
  error : Option GError

/-- `main` for `remote-list`, on the remotes that the library returned. -/
def remoteList : List Remote → ClientRun
  | [] => ⟨0, "", none⟩
  | remote :: remotes =>
      match printRemote charset remote with
      | .error error => ⟨1, "", some error⟩
      | .ok line => { remoteList remotes with stdout := line ++ (remoteList remotes).stdout }

end

/-! ## The driver -/

/-- `Driver`; what the environment, the directory and the timeout of its commands do is in the
process runner. -/
structure Driver where
  kind : String
  cli : String
  client : Option String

/-- `require(condition, message)`. -/
def require (condition : Prop) [Decidable condition] (message : String) : Except PyException Unit :=
  raiseIf (¬ condition) (.ofClass .contractFailure message)

/-- Unpacking a tuple of the wrong length. -/
def unpackError (expected got : Nat) : PyException :=
  .valueError (if got < expected
    then s!"not enough values to unpack (expected {expected}, got {got})"
    else s!"too many values to unpack (expected {expected})")

/-- `remote_cli_args(operation, arguments)`. -/
def remoteCliArgs (operation : String) (arguments : List String) :
    Except PyException (Option (List String)) :=
  if operation = "remote-create" ∨ operation = "remote-edit" then
    match arguments with
    | [name, url, title, priority] =>
        if operation = "remote-create" then
          .ok (some ["remote-add", "--user", "--no-gpg-verify", s!"--title={title}",
            s!"--prio={priority}", name, url])
        else
          .ok (some ["remote-modify", "--user", s!"--url={url}", s!"--title={title}",
            s!"--prio={priority}", name])
    | _ => .error (unpackError 4 arguments.length)
  else if operation = "remote-list" then
    if arguments ≠ [] then .error (.valueError "remote-list takes no arguments")
    else .ok (some ["remotes", "--user", "--show-disabled", "--columns=name,url,title,priority"])
  else if operation = "remote-delete" then
    match arguments with
    | [name] => .ok (some ["remote-delete", "--user", name])
    | _ => .error (unpackError 1 arguments.length)
  else .ok none

/-- `commands` of `Driver.call`. -/
def commands (argument : String) : List (String × List String) :=
  [("remote", ["remote-add", "--user", "--no-gpg-verify", "fixture", argument]),
   ("install", ["install", "--user", "--noninteractive", "fixture", argument]),
   ("update", ["update", "--user", "--noninteractive", argument]),
   ("uninstall", ["uninstall", "--user", "--noninteractive", argument]),
   ("query", ["info", "--user", "--show-ref", "--show-commit", argument]),
   ("list-apps", ["list", "--user", "--app", "--columns=application"]),
   ("list-refs", ["list", "--user", "--columns=ref"])]

/-- A row of the output: name, URL, title and priority. -/
structure RemoteRow where
  name : String
  url : String
  title : Option String
  priority : String
  deriving DecidableEq, Repr

section

-- `repr` of a string, which only the texts of exceptions use.
variable {W : Type} (reprText : String → String)

/-- `argv` of `Driver.call`. -/
def Driver.argv (driver : Driver) (operation : String) (arguments : List String) :
    Except PyException (List String) :=
  if operation = "run" then .ok (driver.cli :: "run" :: "--user" :: arguments)
  else if driver.kind = "library" then
    match driver.client with
    | some client => .ok (client :: operation :: arguments)
    | none => .error (.ofClass .assertionError "")
  else do
    match (← remoteCliArgs operation arguments), arguments with
    | some remoteArguments, _ => return driver.cli :: remoteArguments
    | none, [argument] =>
        match (commands argument).lookup operation with
        | some command => return driver.cli :: command
        | none => .error (.ofClass .keyError (reprText operation))
    | none, _ => .error (unpackError 1 arguments.length)

/-- `Driver.call(operation, *arguments)`. -/
def Driver.call (driver : Driver) (runner : ProcessRunner W) (operation : String)
    (arguments : List String) : Py PyException (W × List CommandRecord) CompletedProcess :=
  match driver.argv reprText operation arguments with
  | .error error => Py.raise error
  | .ok argv =>
      externalCall runner argv
        (if driver.kind = "library" ∧ operation ≠ "run" then "library" else "cli")

/-- `Driver.success(operation, *arguments)`. -/
def Driver.success (driver : Driver) (runner : ProcessRunner W) (operation : String)
    (arguments : List String) : Py PyException (W × List CommandRecord) String := do
  let result ← driver.call reprText runner operation arguments
  match require (result.returncode = 0) s!"{driver.kind} {operation} failed: {result.stderr}" with
  | .error error => Py.raise error
  | .ok () => return String.ofList (strip result.stdout.toList)

/-- One line of `_rows`. -/
def Driver.row (driver : Driver) (operation line : String) : Except PyException RemoteRow := do
  let fields := splitBy line '\t'
  require (fields.length = 4) s!"{operation}: expected four TSV fields, got {reprText line}"
  match fields with
  | [name, url, title, priority] =>
      return ⟨name, url, if driver.kind = "library" ∧ title = "\\N" then none else some title,
        priority⟩
  | _ => .error (unpackError 4 fields.length)

/-- `_rows(driver, operation, *arguments)`. -/
def Driver.rows (driver : Driver) (runner : ProcessRunner W) (operation : String)
    (arguments : List String) : Py PyException (W × List CommandRecord) (List RemoteRow) := do
  let output ← driver.success reprText runner operation arguments
  match (splitLines output).mapM (driver.row reprText operation) with
  | .error error => Py.raise error
  | .ok rows => return rows

end

/-! ## What the client prints -/

/-- The line of a remote, without its newline. -/
def Remote.line (remote : Remote) : String :=
  remote.name.text ++ "\t" ++ remote.url.elim "" CString.text ++ "\t" ++
    remote.title.elim "\\N" CString.text ++ "\t" ++ toString remote.prio.toInt

/-- What `print_remote` accepts. -/
structure Remote.Printable (remote : Remote) : Prop where
  plain : ∀ field ∈ remote.fields, ∀ c ∈ field.toList, c ≠ '\t' ∧ c ≠ '\r' ∧ c ≠ '\n'
  notNull : ∀ field ∈ remote.fields, field ≠ "\\N"

section

variable {charset : Charset}

theorem Charset.print_append (s t : String) :
    charset.print (s ++ t) = charset.print s ++ charset.print t := by
  simp [Charset.print, String.toList_append]

/-- What the character set has is printed as it is. -/
theorem Charset.print_eq_self {text : String} (h : ∀ c ∈ text.toList, charset.has c = true) :
    charset.print text = text := by
  have hmap : text.toList.map charset.convert = text.toList :=
    (List.map_congr_left fun c hc => if_pos (h c hc)).trans (List.map_id _)
  rw [Charset.print, hmap, String.ofList_toList]

/-- Only what the character set has is printed. -/
theorem Charset.has_of_mem_print {text : String} {c : Char} (h : c ∈ (charset.print text).toList) :
    charset.has c = true := by
  rw [Charset.print, String.toList_ofList] at h
  obtain ⟨d, -, rfl⟩ := List.mem_map.mp h
  unfold Charset.convert
  split
  · assumption
  · exact charset.ascii '?' (by decide)

/-- The only character that is printed for others is the question mark. -/
theorem Charset.mem_of_mem_print {text : String} {c : Char} (hc : c ≠ '?')
    (h : c ∈ (charset.print text).toList) : c ∈ text.toList := by
  rw [Charset.print, String.toList_ofList] at h
  obtain ⟨d, hd, hconvert⟩ := List.mem_map.mp h
  unfold Charset.convert at hconvert
  split at hconvert
  · rwa [← hconvert]
  · exact absurd hconvert.symm hc

theorem printRemote_eq_ok {remote : Remote} {text : String} :
    printRemote charset remote = .ok text ↔
      remote.Printable ∧ text = charset.print (remote.line ++ "\n") := by
  have hany : remote.fields.any unrepresentable = false ↔ remote.Printable := by
    simp only [List.any_eq_false, unrepresentable, Bool.or_eq_true, List.any_eq_true, beq_iff_eq,
      not_or, not_exists, not_and]
    constructor
    · intro h
      refine ⟨fun field hfield c hc => ?_, fun field hfield => (h field hfield).2⟩
      obtain ⟨⟨ht, hr⟩, hn⟩ := (h field hfield).1 c hc
      exact ⟨ht, hr, hn⟩
    · intro h field hfield
      refine ⟨fun c hc => ?_, h.notNull field hfield⟩
      obtain ⟨ht, hr, hn⟩ := h.plain field hfield c hc
      exact ⟨⟨ht, hr⟩, hn⟩
  rw [← hany, printRemote]
  cases remote.fields.any unrepresentable with
  | true => simp
  | false =>
      simp only [Bool.false_eq_true, if_false, true_and, Except.ok.injEq, Remote.line]
      exact eq_comm

/-- A list of printable remotes is printed line by line. -/
theorem remoteList_printable {remotes : List Remote} (h : ∀ remote ∈ remotes, remote.Printable) :
    remoteList charset remotes =
      ⟨0, charset.print (String.join ((remotes.map Remote.line).map (· ++ "\n"))), none⟩ := by
  induction remotes with
  | nil => rfl
  | cons remote remotes ih =>
      have hprint : printRemote charset remote = .ok _ :=
        printRemote_eq_ok.mpr ⟨h remote (by simp), rfl⟩
      have hrest := ih fun other hother => h other (List.mem_cons_of_mem remote hother)
      rw [remoteList, hprint, hrest]
      simp [String.join_cons, Charset.print_append]

end

/-! ## What the driver reads -/

/-- The row that a remote stands for. -/
def Remote.row (remote : Remote) : RemoteRow where
  name := remote.name.text
  url := remote.url.elim "" CString.text
  title := remote.title.map CString.text
  priority := toString remote.prio.toInt

/-- The lists of remotes that the reader recovers: the locale of the client has all characters of
their strings, no string among them breaks a line, and the first name does not begin with a
space. -/
structure Recoverable (charset : Charset) (remotes : List Remote) : Prop where
  represented : ∀ remote ∈ remotes, ∀ field ∈ remote.fields, ∀ c ∈ field.toList,
    charset.has c = true
  unbroken : ∀ remote ∈ remotes, ∀ field ∈ remote.fields, ∀ c ∈ field.toList,
    isLineBreak c = false
  unindented : ∀ remote, remotes.head? = some remote → ∀ c,
    remote.name.text.toList.head? = some c → isSpace c = false

section

variable {charset : Charset} {remote : Remote} {remotes : List Remote}

theorem forall_fields_iff {P : String → Prop} : (∀ field ∈ remote.fields, P field) ↔
    P remote.name.text ∧ (∀ url ∈ remote.url, P url.text) ∧ ∀ title ∈ remote.title,
    P title.text := by
  simp [Remote.fields, or_imp, forall_and]

/-- What the printed characters of a remote have in common with its strings. -/
theorem forall_line_iff {P : Char → Prop} (htab : P '\t') (hnull : P '\\' ∧ P 'N')
    (hnumber : ∀ c, c = '-' ∨ c.isDigit = true → P c) :
    (∀ c ∈ remote.line.toList, P c) ↔ ∀ field ∈ remote.fields, ∀ c ∈ field.toList, P c := by
  have hprio : ∀ c ∈ (toString remote.prio.toInt).toList, P c := fun c hc =>
    hnumber c (mem_toString hc)
  have hurl : (∀ c ∈ (remote.url.elim "" CString.text).toList, P c) ↔
      ∀ url ∈ remote.url, ∀ c ∈ url.text.toList, P c := by
    cases remote.url with
    | none => simp
    | some url => simp
  have htitle : (∀ c ∈ (remote.title.elim "\\N" CString.text).toList, P c) ↔
      ∀ title ∈ remote.title, ∀ c ∈ title.text.toList, P c := by
    cases remote.title with
    | none => simpa using hnull
    | some title => simp
  rw [forall_fields_iff, ← hurl, ← htitle]
  simp only [Remote.line, String.toList_append, List.mem_append, or_imp, forall_and]
  have hsep : ∀ c ∈ "\t".toList, P c := by simpa using htab
  constructor
  · intro h
    exact ⟨h.1.1.1.1.1.1, h.1.1.1.1.2, h.1.1.2⟩
  · intro h
    exact ⟨⟨⟨⟨⟨⟨h.1, hsep⟩, h.2.1⟩, hsep⟩, h.2.2⟩, hsep⟩, hprio⟩

/-- The line of a printable remote falls into its four columns. -/
theorem splitBy_line (h : remote.Printable) : splitBy remote.line '\t' =
    [remote.name.text, remote.url.elim "" CString.text, remote.title.elim "\\N" CString.text,
      toString remote.prio.toInt] := by
  have hplain := forall_fields_iff.mp h.plain
  have hname : '\t' ∉ remote.name.text.toList := fun ht => (hplain.1 _ ht).1 rfl
  have hurl : '\t' ∉ (remote.url.elim "" CString.text).toList := by
    cases hcase : remote.url with
    | none => simp
    | some url => exact fun ht => (hplain.2.1 url hcase _ ht).1 rfl
  have htitle : '\t' ∉ (remote.title.elim "\\N" CString.text).toList := by
    cases hcase : remote.title with
    | none => simp
    | some title => exact fun ht => (hplain.2.2 title hcase _ ht).1 rfl
  have hprio : '\t' ∉ (toString remote.prio.toInt).toList := by
    intro ht
    have hspace := not_isSpace_of_isDigit (mem_toString ht)
    exact absurd hspace (by decide)
  have htab : "\t".toList = ['\t'] := rfl
  simp only [Remote.line, String.append_assoc]
  rw [← String.append_assoc, splitBy_append htab hname, ← String.append_assoc,
    splitBy_append htab hurl, ← String.append_assoc, splitBy_append htab htitle,
    splitBy_eq_singleton hprio]

theorem Remote.Printable.unnull (h : remote.Printable) :
    (if remote.title.elim "\\N" CString.text = "\\N" then none
      else some (remote.title.elim "\\N" CString.text)) = remote.title.map CString.text := by
  cases hcase : remote.title with
  | none => simp
  | some title =>
      have hne := (forall_fields_iff.mp h.notNull).2.2 title hcase
      simp [hne]

variable {reprText : String → String} {driver : Driver} {operation : String}

/-- The reader of a line undoes its writer. -/
theorem row_line (hkind : driver.kind = "library") (h : remote.Printable) :
    driver.row reprText operation remote.line = .ok remote.row := by
  rw [Driver.row, splitBy_line h, Remote.row, ← h.unnull]
  simp only [hkind, true_and]
  rfl

/-- A row that was read is made of the pieces of its line. -/
theorem row_eq_ok {line : String} {row : RemoteRow} (hkind : driver.kind = "library")
    (h : driver.row reprText operation line = .ok row) :
    ∃ title, splitBy line '\t' = [row.name, row.url, title, row.priority] ∧
      row.title = if title = "\\N" then none else some title := by
  obtain ⟨_, hrequire, h⟩ := bind_eq_ok.mp h
  split at h
  · next name url title priority hfields =>
      obtain rfl := Except.ok.inj h
      exact ⟨title, hfields, by simp [hkind]⟩
  · cases h

/-- The output is made of lines of the remotes. -/
theorem mem_output {c : Char}
    (h : c ∈ (String.join ((remotes.map Remote.line).map (· ++ "\n"))).toList) :
    (∃ remote ∈ remotes, c ∈ remote.line.toList) ∨ c = '\n' := by
  rw [String.toList_join, List.mem_flatMap] at h
  obtain ⟨piece, hpiece, hc⟩ := h
  obtain ⟨line, hline, rfl⟩ := List.mem_map.mp hpiece
  obtain ⟨remote, hremote, rfl⟩ := List.mem_map.mp hline
  rw [String.toList_append] at hc
  rcases List.mem_append.mp hc with hc | hc
  · exact .inl ⟨remote, hremote, hc⟩
  · exact .inr (by simpa using hc)

/-- The standard output as the driver sees it. -/
theorem readText_output (h : ∀ remote ∈ remotes, remote.Printable) :
    readText (charset.print (String.join ((remotes.map Remote.line).map (· ++ "\n")))) =
      charset.print (String.join ((remotes.map Remote.line).map (· ++ "\n"))) := by
  apply readText_eq_self
  intro hprinted
  rcases mem_output (Charset.mem_of_mem_print (by decide) hprinted) with
    ⟨remote, hremote, hr⟩ | hr
  · have hplain : ∀ c ∈ remote.line.toList, c ≠ '\r' := by
      apply (forall_line_iff (P := (· ≠ '\r')) (by decide) (by decide) _).mpr
      · exact fun field hfield c hc => ((h remote hremote).plain field hfield c hc).2.1
      · rintro c hc rfl
        exact absurd (not_isSpace_of_isDigit hc) (by decide)
    exact hplain _ hr rfl
  · cases hr

/-- **Recoverable remotes are recovered.** -/
theorem splitLines_of_recoverable (hnames : ∀ remote ∈ remotes, remote.name.text ≠ "")
    (h : Recoverable charset remotes) :
    splitLines (String.ofList (strip
      (String.join ((remotes.map Remote.line).map (· ++ "\n"))).toList)) =
      remotes.map Remote.line := by
  apply splitLines_strip_join
  · intro text htext
    obtain ⟨remote, hremote, rfl⟩ := List.mem_map.mp htext
    apply (forall_line_iff (by decide) (by decide) _).mpr (h.unbroken remote hremote)
    exact fun c hc => not_isLineBreak_of_not_isSpace (not_isSpace_of_isDigit hc)
  · -- The first line begins as its name does.
    intro text htext
    rw [List.head?_map, Option.map_eq_some_iff] at htext
    obtain ⟨remote, hremote, rfl⟩ := htext
    have hmem : remote ∈ remotes := List.mem_of_head? hremote
    cases hname : remote.name.text.toList with
    | nil => exact absurd (String.toList_eq_nil_iff.mp hname) (hnames remote hmem)
    | cons c cs =>
        have hspace := h.unindented remote hremote c (by rw [hname]; rfl)
        have hline : ∃ rest, remote.line.toList = remote.name.text.toList ++ rest := by
          simp [Remote.line, String.toList_append]
        obtain ⟨rest, hrest⟩ := hline
        exact ⟨c, cs ++ rest, by rw [hrest, hname, List.cons_append], hspace⟩
  · -- The last line ends with a digit of its priority.
    intro text htext
    rw [List.getLast?_map, Option.map_eq_some_iff] at htext
    obtain ⟨remote, _, rfl⟩ := htext
    rcases List.eq_nil_or_concat' (toString remote.prio.toInt).toList with hnil | ⟨cs, c, hcs⟩
    · exact absurd hnil (toString_ne_nil _)
    · have hspace : isSpace c = false := by
        apply not_isSpace_of_isDigit
        apply mem_toString (n := remote.prio.toInt)
        rw [hcs]
        simp
      have hline : remote.line.toList = _ ++ (toString remote.prio.toInt).toList :=
        String.toList_append
      exact ⟨c, _ ++ cs, by rw [hline, hcs, List.append_assoc], hspace⟩

/-- The output of remotes that have all their characters in the locale. -/
theorem print_of_recoverable (h : Recoverable charset remotes) :
    charset.print (String.join ((remotes.map Remote.line).map (· ++ "\n"))) =
      String.join ((remotes.map Remote.line).map (· ++ "\n")) := by
  apply Charset.print_eq_self
  intro c hc
  have hascii : ∀ d, d = '-' ∨ d.isDigit = true → charset.has d = true := by
    rintro d (rfl | hd)
    · exact charset.ascii '-' (by decide)
    · have hvalue : 48 ≤ d.val ∧ d.val ≤ 57 := by simpa [Char.isDigit] using hd
      have hle : d.toNat ≤ 57 := UInt32.le_iff_toNat_le.mp hvalue.2
      exact charset.ascii d (by omega)
  rcases mem_output hc with ⟨remote, hremote, hc⟩ | rfl
  · have hline := (forall_line_iff (P := fun c => charset.has c = true)
      (charset.ascii '\t' (by decide))
      ⟨charset.ascii '\\' (by decide), charset.ascii 'N' (by decide)⟩ hascii).mpr
        (h.represented remote hremote)
    exact hline c hc
  · exact charset.ascii '\n' (by decide)

/-- The strings of recovered remotes are made of what their lines are made of. -/
theorem forall_fields_of_rows {p : Char → Prop} {lines : List String}
    (hkind : driver.kind = "library") (hlines : ∀ line ∈ lines, ∀ c ∈ line.toList, p c)
    (h : lines.mapM (driver.row reprText operation) = .ok (remotes.map Remote.row)) :
    ∀ remote ∈ remotes, ∀ field ∈ remote.fields, ∀ c ∈ field.toList, p c := by
  intro remote hremote
  obtain ⟨line, hline, hrow⟩ :=
    exists_of_forall₂ (mapM_eq_ok.mp h).flip (List.mem_map_of_mem hremote)
  obtain ⟨title, hfields, htitle⟩ := row_eq_ok hkind hrow
  have hpiece : ∀ piece ∈ splitBy line '\t', ∀ c ∈ piece.toList, p c :=
    fun piece hpiece c hc => hlines line hline c (mem_of_mem_splitBy hpiece hc)
  rw [hfields] at hpiece
  apply (forall_fields_iff (P := fun field => ∀ c ∈ field.toList, p c)).mpr
  refine ⟨hpiece remote.row.name (by simp), fun url hurl => ?_, fun value hvalue => ?_⟩
  · have hmem := hpiece remote.row.url (by simp)
    rw [Option.mem_def] at hurl
    rwa [Remote.row, hurl] at hmem
  · have hmem := hpiece title (by simp)
    rw [Option.mem_def] at hvalue
    rw [Remote.row, hvalue] at htitle
    split at htitle
    · cases htitle
    · obtain rfl := Option.some.inj htitle
      exact hmem

/-- **Remotes that are recovered are recoverable**: every character was printed, a line breaks
nowhere, and the output begins with no space. -/
theorem recoverable_of_rows {output : String} (hkind : driver.kind = "library")
    (houtput : ∀ c ∈ output.toList, charset.has c = true)
    (h : (splitLines (String.ofList (strip output.toList))).mapM (driver.row reprText operation) =
      .ok (remotes.map Remote.row)) : Recoverable charset remotes := by
  have hrows := mapM_eq_ok.mp h
  obtain ⟨front, back, hparts, -⟩ := strip_infix output.toList
  have hstripped : ∀ c ∈ strip output.toList, charset.has c = true := by
    intro c hc
    refine houtput c ?_
    rw [hparts]
    simp [hc]
  constructor
  · refine forall_fields_of_rows hkind (fun line hline => ?_) h
    refine forall_mem_splitLines (fun c hc _ => ?_) hline
    rw [String.toList_ofList] at hc
    exact hstripped c hc
  · exact forall_fields_of_rows hkind
      (fun line hline => forall_mem_splitLines (fun _ _ hbreak => hbreak) hline) h
  · intro remote hremote c hc
    cases remotes with
    | nil => cases hremote
    | cons first rest =>
        obtain rfl := Option.some.inj hremote
        obtain ⟨line, lines, hrow, _, hlines⟩ := List.forall₂_cons_right_iff.mp hrows
        obtain ⟨title, hfields, _⟩ := row_eq_ok hkind hrow
        cases hstrip : strip output.toList with
        | nil =>
            rw [hstrip] at hlines
            cases hlines
        | cons d ds =>
            -- The stripped output, the first line and the first name begin alike.
            have hspace : isSpace d = false := isSpace_head_strip (by rw [hstrip]; rfl)
            have hbreak : isLineBreak d = false := not_isLineBreak_of_not_isSpace hspace
            rw [hstrip] at hlines
            have hhead := splitLines_head String.toList_ofList hbreak hlines
            obtain ⟨es, hes⟩ : ∃ es, line.toList = d :: es := List.head?_eq_some_iff.mp hhead
            have hne : d ≠ '\t' := by
              rintro rfl
              exact absurd hspace (by decide)
            have hname := splitBy_head hes hne hfields
            rw [show first.row.name = first.name.text from rfl, hc] at hname
            obtain rfl := Option.some.inj hname
            exact hspace

/-! ## The protocol -/

variable {W : Type} {runner : ProcessRunner W} {w w' : W} {evidence : List CommandRecord}

/-- `Driver.success` on the output of a library client that succeeded. -/
theorem success_exited {client stdout stderr : String} (hkind : driver.kind = "library")
    (hclient : driver.client = some client)
    (hspawn : runner.spawn [client, "remote-list"] w = (.exited 0 stdout stderr, w')) :
    ∃ s, driver.success reprText runner "remote-list" [] (w, evidence) =
      (.ok (String.ofList (strip (readText stdout).toList)), s) := by
  have hargv : driver.argv reprText "remote-list" [] = .ok [client, "remote-list"] := by
    simp [Driver.argv, hkind, hclient]
  have hcall : driver.call reprText runner "remote-list" [] =
      externalCall runner [client, "remote-list"] "library" := by
    simp [Driver.call, hargv, hkind]
  rw [Driver.success, Py.bind_apply, hcall, externalCall_exited (.inr rfl) hspawn]
  exact ⟨_, rfl⟩

/-- `_rows` on the output of a client that listed printable remotes. -/
theorem rows_exited {client stderr : String} (hkind : driver.kind = "library")
    (hclient : driver.client = some client) (h : ∀ remote ∈ remotes, remote.Printable)
    (hspawn : runner.spawn [client, "remote-list"] w =
      (.exited (remoteList charset remotes).status (remoteList charset remotes).stdout stderr, w'))
    (rows : List RemoteRow) :
    (∃ s, driver.rows reprText runner "remote-list" [] (w, evidence) = (.ok rows, s)) ↔
      (splitLines (String.ofList (strip (charset.print
        (String.join ((remotes.map Remote.line).map (· ++ "\n")))).toList))).mapM
          (driver.row reprText "remote-list") = .ok rows := by
  rw [remoteList_printable h] at hspawn
  have hsuccess : ∃ s, driver.success reprText runner "remote-list" [] (w, evidence) = (.ok _, s) :=
    success_exited hkind hclient hspawn
  rw [readText_output h] at hsuccess
  obtain ⟨s, hsuccess⟩ := hsuccess
  rw [Driver.rows, Py.bind_apply, hsuccess]
  dsimp only
  cases (splitLines (String.ofList (strip (charset.print
    (String.join ((remotes.map Remote.line).map (· ++ "\n")))).toList))).mapM
      (driver.row reprText "remote-list") with
  | error error => simp [Py.raise]
  | ok read => simp [Py.pure_apply]

/-- **When a list of remotes survives the protocol.** -/
theorem rows_remoteList_iff (client stderr : String) (hkind : driver.kind = "library")
    (hclient : driver.client = some client)
    (hnames : ∀ remote ∈ remotes, remote.name.text ≠ "")
    (haccepted : ∀ remote ∈ remotes, ∃ text, printRemote charset remote = .ok text)
    (hspawn : runner.spawn [client, "remote-list"] w =
      (.exited (remoteList charset remotes).status (remoteList charset remotes).stdout stderr,
      w')) :
    (∃ s, driver.rows reprText runner "remote-list" [] (w, evidence) =
      (.ok (remotes.map Remote.row), s)) ↔ Recoverable charset remotes := by
  have hprintable : ∀ remote ∈ remotes, remote.Printable := by
    intro remote hremote
    obtain ⟨text, htext⟩ := haccepted remote hremote
    exact (printRemote_eq_ok.mp htext).1
  rw [rows_exited hkind hclient hprintable hspawn]
  constructor
  · exact recoverable_of_rows hkind fun _ => Charset.has_of_mem_print
  · intro h
    rw [print_of_recoverable h, splitLines_of_recoverable hnames h]
    apply mapM_eq_ok.mpr
    rw [List.forall₂_map_left_iff, List.forall₂_map_right_iff, List.forall₂_same]
    exact fun remote hremote => row_line hkind (hprintable remote hremote)

end

/-- The character set of the C locale. -/
def asciiCharset : Charset where
  has c := c.toNat < 128
  ascii _ h := decide_eq_true h

/-- A system on which the client lists these remotes. -/
def listingRunner (remotes : List Remote) : ProcessRunner Unit where
  spawn _ w := (.exited (remoteList asciiCharset remotes).status
    (remoteList asciiCharset remotes).stdout "", w)
  timeoutText _ := "command timed out"

def libraryDriver : Driver := ⟨"library", "flatpak", some "client"⟩

/-- Two remotes, one of them without URL and title. -/
def plainRemotes : List Remote :=
  [⟨⟨"fixture", by simp⟩, some ⟨"https://example.org/repo", by simp⟩,
    some ⟨" Nightly", by simp⟩, 1⟩,
   ⟨⟨"bare", by simp⟩, none, none, -1⟩]

theorem rows_remoteList_small :
    (∃ s, libraryDriver.rows id (listingRunner plainRemotes) "remote-list" [] ((), []) =
      (.ok (plainRemotes.map Remote.row), s)) ↔ Recoverable asciiCharset plainRemotes :=
  rows_remoteList_iff "client" "" rfl rfl (by simp [plainRemotes])
    (by
      intro remote hremote
      simp only [plainRemotes, List.mem_cons, List.not_mem_nil, or_false] at hremote
      rcases hremote with rfl | rfl <;> exact ⟨_, rfl⟩) rfl

/-- A remote whose title holds a file separator, which the client prints and at which the reader
ends a line. -/
def separatedRemote : Remote :=
  ⟨⟨"fixture", by simp⟩, some ⟨"https://example.org/repo", by simp⟩,
    some ⟨"Night\x1cbuilds", by simp⟩, 1⟩

theorem rows_separated :
    (∃ text, printRemote asciiCharset separatedRemote = .ok text) ∧
      ¬ ∃ s, libraryDriver.rows id (listingRunner [separatedRemote]) "remote-list" [] ((), []) =
        (.ok ([separatedRemote].map Remote.row), s) := by
  have haccepted : ∃ text, printRemote asciiCharset separatedRemote = .ok text := ⟨_, rfl⟩
  obtain ⟨text, htext⟩ := haccepted
  refine ⟨⟨text, htext⟩, fun hread => ?_⟩
  have hprintable : ∀ remote ∈ [separatedRemote], remote.Printable := by
    simpa using (printRemote_eq_ok.mp htext).1
  have hrows := (rows_exited rfl rfl hprintable rfl _).mp hread
  have hrecoverable : Recoverable asciiCharset [separatedRemote] :=
    recoverable_of_rows rfl (fun _ => Charset.has_of_mem_print) hrows
  have hunbroken := hrecoverable.unbroken separatedRemote (by simp)
    "Night\x1cbuilds" (by simp [Remote.fields, separatedRemote]) '\x1c' (by simp)
  exact absurd hunbroken (by decide)

end FlatpakBlackbox
