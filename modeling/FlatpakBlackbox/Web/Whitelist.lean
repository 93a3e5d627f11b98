import FlatpakBlackbox.Web.Diagnostics

set_option autoImplicit false

/-! # What a published case reveals

`diagnosticCase` reads a result of a report through two schemas and publishes what they keep. Two
results that agree on the fields it means to publish give the same case: no other field of the
result or of its evidence, and no details that the result brings along, can be told from the output.
-/

namespace FlatpakBlackbox

open PyLib

/-! ## Results that agree -/

/-- A property of an object: of two members with one name the later one counts. -/
def property (object : Value) (key : String) : Option Value :=
  object.asEntries?.bind fun entries => (Dict.ofList entries).get? key

/-- The phases in a `timings` object. -/
def phaseFields (timings : Value) : List (Option Value) :=
  ["setup_seconds", "execution_seconds", "cleanup_seconds"].map timings.field?

/-- The records of the evidence. -/
def evidenceRecords (raw : Value) : List Value :=
  match raw.field? "evidence" with
  | some (.list records) => records
  | _ => []

/-- Two results agree on the case and its times. -/
structure SameCase (raw raw' : Value) : Prop where
  fields : ∀ key ∈ ["behavior_id", "driver", "profile", "status", "duration_seconds"],
    raw.field? key = raw'.field? key
  timings : (raw.field? "timings").map phaseFields = (raw'.field? "timings").map phaseFields

/-- Two results agree on the errors and, record by record, on the fields that are kept. -/
structure SameDiagnostics (raw raw' : Value) : Prop where
  error : raw.field? "error" = raw'.field? "error"
  cleanupError : raw.field? "cleanup_error" = raw'.field? "cleanup_error"
  records : List.Forall₂ (fun record record' => ∀ field ∈ diagnosticFields,
    property record field.1 = property record' field.1) (evidenceRecords raw) (evidenceRecords raw')

/-! ## Parsing -/

section Parsing

variable {α β : Type}

theorem Schema.map_parse {s : Schema α} {make : α → β} {back : β → α} {h : ∀ b, make (back b) = b}
    {v : Value} {b : β} : (s.map make back h).parse v = some b ↔
    ∃ a, s.parse v = some a ∧ make a = b :=
  Option.map_eq_some_iff

theorem Fields.parse_of_schema {f : Fields α} {hkeys : f.keys.Nodup} {v : Value} {a : α}
    (h : (f.schema hkeys).parse v = some a) : f.parse v = some a := by
  obtain ⟨_, _, hparse⟩ := Option.bind_eq_some_iff.mp h
  exact hparse

theorem Fields.required_congr {key : String} {s : Schema α} {v v' : Value}
    (h : v.field? key = v'.field? key) : (required key s).parse v = (required key s).parse v' := by
  show (v.field? key).bind s.parse = _
  rw [h]
  rfl

theorem Fields.optional_congr {key : String} {s : Schema α} {v v' : Value}
    (h : v.field? key = v'.field? key) : (optional key s).parse v = (optional key s).parse v' := by
  simp only [optional, h]

/-- Timings are read by their phases. -/
theorem phaseTimings_congr {v v' : Value} (h : phaseFields v = phaseFields v') :
    Schema.phaseTimings.parse v = Schema.phaseTimings.parse v' := by
  have hfields : ∀ (v : Value) (timings : PhaseTimings), Schema.phaseTimings.parse v =
    some timings ↔
      (Fields.required "setup_seconds" Schema.seconds).parse v = some timings.setupSeconds ∧
      (Fields.required "execution_seconds" Schema.seconds).parse v = some timings.executionSeconds ∧
      (Fields.required "cleanup_seconds" Schema.seconds).parse v = some timings.cleanupSeconds := by
    intro v timings
    unfold Schema.phaseTimings
    rw [Schema.map_parse]
    constructor
    · rintro ⟨⟨setup, execution, cleanup⟩, hparse, rfl⟩
      obtain ⟨hsetup, hrest⟩ := Fields.both_eq_some.mp (Fields.parse_of_schema hparse)
      exact ⟨hsetup, Fields.both_eq_some.mp hrest⟩
    · rintro ⟨hsetup, hexecution, hcleanup⟩
      have hboth := Fields.both_eq_some.mpr ⟨hsetup, Fields.both_eq_some.mpr ⟨hexecution, hcleanup⟩⟩
      refine ⟨(timings.setupSeconds, timings.executionSeconds, timings.cleanupSeconds), ?_, rfl⟩
      cases v with
      | dict entries => exact hboth
      | _ => cases hsetup
  simp only [phaseFields, List.map_cons, List.map_nil, List.cons.injEq, and_true] at h
  obtain ⟨hsetup, hexecution, hcleanup⟩ := h
  refine Option.ext fun timings => ?_
  rw [hfields, hfields, Fields.required_congr hsetup, Fields.required_congr hexecution,
    Fields.required_congr hcleanup]

theorem timings_congr {v v' : Value}
    (h : (v.field? "timings").map phaseFields = (v'.field? "timings").map phaseFields) :
    (Fields.optional "timings" Schema.phaseTimings).parse v =
      (Fields.optional "timings" Schema.phaseTimings).parse v' := by
  cases htimings : v.field? "timings" with
  | none =>
      rw [htimings] at h
      simp only [Fields.optional, htimings, Option.map_eq_none_iff.mp h.symm]
  | some timings =>
      rw [htimings, Option.map_some] at h
      obtain ⟨timings', htimings', hphases⟩ := Option.map_eq_some_iff.mp h.symm
      simp only [Fields.optional, htimings, htimings', phaseTimings_congr hphases]

/-- What `caseTimingSchema` reads, field by field. -/
theorem caseTiming_fields {raw : Value} {item : CaseTiming}
    (h : Schema.caseTiming.parse raw = some item) :
    (Fields.required "behavior_id" Schema.string).parse raw = some item.behaviorId ∧
    (Fields.required "driver" Schema.caseDriver).parse raw = some item.driver ∧
    (Fields.required "profile" Schema.caseProfile).parse raw = some item.profile ∧
    (Fields.required "status" Schema.caseStatus).parse raw = some item.status ∧
    (Fields.optional "duration_seconds" Schema.seconds).parse raw = some item.durationSeconds ∧
    (Fields.optional "timings" Schema.phaseTimings).parse raw = some item.timings := by
  obtain ⟨⟨behaviorId, driver, profile, status, details, duration, timings⟩, hparse, rfl⟩ :=
    Schema.map_parse.mp h
  obtain ⟨hbehavior, hparse⟩ := Fields.both_eq_some.mp (Fields.parse_of_schema hparse)
  obtain ⟨hdriver, hparse⟩ := Fields.both_eq_some.mp hparse
  obtain ⟨hprofile, hparse⟩ := Fields.both_eq_some.mp hparse
  obtain ⟨hstatus, hparse⟩ := Fields.both_eq_some.mp hparse
  obtain ⟨-, hparse⟩ := Fields.both_eq_some.mp hparse
  exact ⟨hbehavior, hdriver, hprofile, hstatus, Fields.both_eq_some.mp hparse⟩

/-- What `resultSchema` reads besides. -/
theorem diagnosticResult_fields {raw : Value} {result : DiagnosticResult}
    (h : Schema.diagnosticResult.parse raw = some result) :
    (Fields.required "status" Schema.caseStatus).parse raw = some result.status ∧
    (Fields.optional "error" Schema.string).parse raw = some result.error ∧
    (Fields.optional "cleanup_error" Schema.string).parse raw = some result.cleanupError ∧
    (Fields.optional "evidence" (Schema.array (Schema.record .unknown))).parse raw =
      some result.evidence := by
  obtain ⟨⟨behaviorId, driver, profile, status, duration, timings, error, cleanup, evidence⟩,
    hparse, rfl⟩ :=
    Schema.map_parse.mp h
  obtain ⟨-, hparse⟩ := Fields.both_eq_some.mp (Fields.parse_of_schema hparse)
  obtain ⟨-, hparse⟩ := Fields.both_eq_some.mp hparse
  obtain ⟨-, hparse⟩ := Fields.both_eq_some.mp hparse
  obtain ⟨hstatus, hparse⟩ := Fields.both_eq_some.mp hparse
  obtain ⟨-, hparse⟩ := Fields.both_eq_some.mp hparse
  obtain ⟨-, hparse⟩ := Fields.both_eq_some.mp hparse
  obtain ⟨herror, hparse⟩ := Fields.both_eq_some.mp hparse
  exact ⟨hstatus, herror, Fields.both_eq_some.mp hparse⟩

/-- A record is read as its properties. -/
theorem get?_of_record {v : Value} {record : Dict String Value}
    (h : (Schema.record .unknown).parse v = some record) (key : String) :
    record.get? key = property v key := by
  have hread : ∀ entries : List (String × Value), (entries.mapM fun entry =>
      (Schema.unknown.parse entry.2).map fun a => (entry.1, a)) = some entries := by
    intro entries
    induction entries with
    | nil => rfl
    | cons entry entries ih =>
        rw [List.mapM_cons, ih]
        rfl
  obtain ⟨entries, hentries, hrecord⟩ := Option.bind_eq_some_iff.mp h
  rw [hread, Option.map_some] at hrecord
  rw [property, hentries, ← Option.some.inj hrecord]
  rfl

/-- The records that are read are the records of the evidence. -/
theorem records_of_parse {raw : Value} {evidence : Option (List (Dict String Value))}
    (h : (Fields.optional "evidence" (Schema.array (Schema.record .unknown))).parse raw =
    some evidence) :
    List.Forall₂ (fun v record => ∀ key, record.get? key = property v key)
      (evidenceRecords raw) (evidence.getD []) := by
  unfold evidenceRecords
  cases hfield : raw.field? "evidence" with
  | none =>
      simp only [Fields.optional, hfield] at h
      obtain rfl := Option.some.inj h
      exact .nil
  | some value =>
      simp only [Fields.optional, hfield] at h
      obtain ⟨records, hrecords, rfl⟩ := Option.map_eq_some_iff.mp h
      obtain ⟨items, hitems, hparse⟩ := Option.bind_eq_some_iff.mp hrecords
      obtain rfl : value = .list items := by
        cases value with
        | list items' => rw [Option.some.inj hitems]
        | _ => cases hitems
      dsimp only
      rw [Option.getD_some]
      clear hfield h hrecords hitems
      induction items generalizing records with
      | nil =>
          obtain rfl := Option.some.inj hparse
          exact .nil
      | cons item items ih =>
          rw [List.mapM_cons] at hparse
          obtain ⟨record, hrecord, hparse⟩ := Option.bind_eq_some_iff.mp hparse
          obtain ⟨rest, hrest, hresult⟩ := Option.bind_eq_some_iff.mp hparse
          obtain rfl := Option.some.inj hresult
          exact .cons (get?_of_record hrecord) (ih rest hrest)

end Parsing

/-! ## What is retained -/

/-- Two records agree on the fields that are kept. -/
def SameFields (record record' : Dict String Value) : Prop :=
  ∀ field ∈ diagnosticFields, record.get? field.1 = record'.get? field.1

/-- Records of which the properties agree. -/
theorem sameFields_of_records {values values' : List Value}
    {records records' : List (Dict String Value)}
    (h : List.Forall₂ (fun v record => ∀ key, record.get? key = property v key) values records)
    (h' : List.Forall₂ (fun v record => ∀ key, record.get? key = property v key) values' records')
    (hsame : List.Forall₂ (fun v v' => ∀ field ∈ diagnosticFields,
      property v field.1 = property v' field.1) values values') :
    List.Forall₂ SameFields records records' := by
  induction hsame generalizing records records' with
  | nil =>
      cases h
      cases h'
      exact .nil
  | cons hvalue _ ih =>
      cases h with
      | cons hrecord hrecords =>
          cases h' with
          | cons hrecord' hrecords' =>
              refine .cons (fun field hfield => ?_) (ih hrecords hrecords')
              rw [hrecord, hrecord']
              exact hvalue field hfield

section Retained

variable {stringify : Value → String}

theorem retainField_congr {record record' : Dict String Value} {field : String × String}
    (h : record.get? field.1 = record'.get? field.1) (index : Nat)
    (state : List FailureEvidence × Budget) :
    retainField stringify index record state field = retainField stringify index record'
    state field := by
  unfold retainField
  rw [h]

theorem foldl_retainField_congr {record record' : Dict String Value}
    (h : SameFields record record') (index : Nat) (state : List FailureEvidence × Budget) :
    diagnosticFields.foldl (retainField stringify index record) state =
      diagnosticFields.foldl (retainField stringify index record') state := by
  unfold SameFields at h
  generalize diagnosticFields = fields at h
  induction fields generalizing state with
  | nil => rfl
  | cons field fields ih =>
      obtain ⟨hfield, hfields⟩ := List.forall_mem_cons.mp h
      rw [List.foldl_cons, List.foldl_cons, retainField_congr hfield]
      exact ih _ hfields

/-- Records that agree are shown alike. -/
theorem retainRecords_congr {evidence evidence' : List (Dict String Value)}
    (h : List.Forall₂ SameFields evidence evidence') (budget : Budget) :
    retainRecords stringify evidence budget = retainRecords stringify evidence' budget := by
  have hlength := h.length_eq
  have hentries : List.Forall₂ (fun entry entry' : Dict String Value × Nat =>
      SameFields entry.1 entry'.1 ∧ entry.2 = entry'.2) evidence.zipIdx evidence'.zipIdx := by
    generalize 0 = start
    clear hlength
    induction h generalizing start with
    | nil => exact .nil
    | cons hrecord _ ih => exact .cons ⟨hrecord, rfl⟩ (ih (start + 1))
  have hkept := List.forall₂_drop (evidence.length - recordLimit) hentries
  unfold retainRecords
  rw [← hlength]
  generalize evidence.zipIdx.drop (evidence.length - recordLimit) = entries at hkept ⊢
  generalize evidence'.zipIdx.drop (evidence.length - recordLimit) = entries' at hkept ⊢
  induction hkept with
  | nil => rfl
  | cons hentry _ ih =>
      rw [List.foldr_cons, List.foldr_cons, ih, foldl_retainField_congr hentry.1, hentry.2]

theorem failureDetailsOf_congr {result result' : DiagnosticResult}
    (herror : result.error = result'.error)
    (hcleanup : result.cleanupError = result'.cleanupError)
    (hevidence : List.Forall₂ SameFields (result.evidence.getD []) (result'.evidence.getD [])) :
    failureDetailsOf stringify result = failureDetailsOf stringify result' := by
  unfold failureDetailsOf
  rw [herror, hcleanup]
  simp only [retainRecords_congr hevidence, hevidence.length_eq]

end Retained

/-- **Published cases reveal nothing else.** Two accepted results that agree on the case and its
times, and if it failed on the errors and the kept fields of the evidence, are published as the same
case. -/
theorem diagnosticCase_whitelist {stringify : Value → String} {raw raw' : Value}
    {item item' : CaseTiming}
    (h : diagnosticCase stringify raw = some item) (h' : diagnosticCase stringify raw' = some item')
    (hcase : SameCase raw raw') (hfailed : isFailure item.status = true →
    SameDiagnostics raw raw') :
    item = item' := by
  obtain ⟨result, hresult, h⟩ := Option.bind_eq_some_iff.mp h
  obtain ⟨timing, htiming, h⟩ := Option.bind_eq_some_iff.mp h
  obtain ⟨result', hresult', h'⟩ := Option.bind_eq_some_iff.mp h'
  obtain ⟨timing', htiming', h'⟩ := Option.bind_eq_some_iff.mp h'
  obtain rfl := Option.some.inj h
  obtain rfl := Option.some.inj h'
  obtain ⟨hbehavior, hdriver, hprofile, hstatus, hduration, htimings⟩ := caseTiming_fields htiming
  obtain ⟨hbehavior', hdriver', hprofile', hstatus', hduration', htimings'⟩ :=
    caseTiming_fields htiming'
  obtain ⟨hresultStatus, herror, hcleanup, hevidence⟩ := diagnosticResult_fields hresult
  obtain ⟨hresultStatus', herror', hcleanup', hevidence'⟩ := diagnosticResult_fields hresult'
  have hfield : ∀ {α : Type} {key : String} {schema : Schema α} {a a' : α},
      key ∈ ["behavior_id", "driver", "profile", "status", "duration_seconds"] →
      (Fields.required key schema).parse raw = some a →
      (Fields.required key schema).parse raw' = some a' → a = a' := by
    intro α key schema a a' hkey ha ha'
    rw [Fields.required_congr (hcase.fields key hkey), ha'] at ha
    exact (Option.some.inj ha).symm
  have hdurations := (Fields.optional_congr
    (hcase.fields "duration_seconds" (by decide))).symm.trans hduration
  have hphases := (timings_congr hcase.timings).symm.trans htimings
  have hstatuses : result.status = timing.status :=
    Option.some.inj (hresultStatus.symm.trans hstatus)
  have hdetails : (if isFailure result.status then some (failureDetailsOf stringify result) else
    none) =
      if isFailure result'.status then some (failureDetailsOf stringify result') else none := by
    have hsame : result.status = result'.status := hfield (by decide) hresultStatus hresultStatus'
    rw [← hsame]
    by_cases hfailure : isFailure result.status = true
    · rw [if_pos hfailure, if_pos hfailure]
      have hdiagnostics := hfailed (hstatuses ▸ hfailure)
      have herrors := (Fields.optional_congr hdiagnostics.error).symm.trans herror
      have hcleanups := (Fields.optional_congr hdiagnostics.cleanupError).symm.trans hcleanup
      refine congrArg some (failureDetailsOf_congr (Option.some.inj (herrors.symm.trans herror'))
        (Option.some.inj (hcleanups.symm.trans hcleanup')) ?_)
      exact sameFields_of_records (records_of_parse hevidence) (records_of_parse hevidence')
        hdiagnostics.records
    · rw [if_neg hfailure, if_neg hfailure]
  rw [hdetails, hfield (by decide) hbehavior hbehavior', hfield (by decide) hdriver hdriver',
    hfield (by decide) hprofile hprofile', hfield (by decide) hstatus hstatus',
    Option.some.inj (hdurations.symm.trans hduration'),
      Option.some.inj (hphases.symm.trans htimings')]

/-- A failed result: the fields are those of the result and of its evidence beyond the kept ones. -/
def failedResult (fields recordFields : List (String × Value)) : Value :=
  .dict ([("behavior_id", .str "install"), ("driver", .str "cli"), ("profile", .str "user"),
    ("status", .str "failed"), ("error", .str "exit status 1"),
    ("evidence", .list [.dict ([("stderr", .str "no remote"), ("exit_status", .int 1)] ++
      recordFields)])]
    ++ fields)

/-- A result with the state directory and details of its own, and one without. -/
theorem diagnosticCase_whitelist_small : ∃ item,
    diagnosticCase (fun _ => "1") (failedResult [] []) = some item ∧
    diagnosticCase (fun _ => "1") (failedResult
      [("failure_details", .dict [("evidence", .list []), ("truncated", .bool true)])]
      [("state_directory", .str "/home/user")]) = some item := by
  obtain ⟨item, h⟩ := Option.isSome_iff_exists.mp
    (show (diagnosticCase (fun _ => "1") (failedResult [] [])).isSome = true by decide +kernel)
  obtain ⟨item', h'⟩ := Option.isSome_iff_exists.mp
    (show (diagnosticCase (fun _ => "1") (failedResult
      [("failure_details", .dict [("evidence", .list []), ("truncated", .bool true)])]
      [("state_directory", .str "/home/user")])).isSome = true by decide +kernel)
  refine ⟨item, h, h'.trans (congrArg some (diagnosticCase_whitelist h h' ⟨?_, rfl⟩ ?_).symm)⟩
  · simp only [List.forall_mem_cons]
    exact ⟨rfl, rfl, rfl, rfl, rfl, List.forall_mem_nil _⟩
  · refine fun _ => ⟨rfl, rfl, .cons ?_ .nil⟩
    simp only [diagnosticFields, List.forall_mem_cons]
    exact ⟨rfl, rfl, rfl, rfl, rfl, rfl, rfl, rfl, rfl, rfl, rfl, rfl, rfl, rfl,
      List.forall_mem_nil _⟩

end FlatpakBlackbox
