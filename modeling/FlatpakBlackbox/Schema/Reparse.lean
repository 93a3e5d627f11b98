import FlatpakBlackbox.Schema.Documents
import FlatpakBlackbox.Schema.Lossless
import FlatpakBlackbox.Schema.Report

set_option autoImplicit false

/-! # Parsing a report again

`parseReport` is a normalizer: what it returns is the report with the default of executable gaps
filled in, and it returns that again when it is given it. A parser that replaces one field is
normalizing when the parser of the field is, so the fixture and the gaps are treated alike.
-/

namespace FlatpakBlackbox

open PyLib PyException

/-! ## Replaced fields -/

section Replaced

variable {v replaced : Value} {key path : String}
  {parse : Value → String → Except PyException Value}

/-- A field is parsed where it is there. -/
theorem replacePresent_eq_ok : replacePresent v key path parse = .ok replaced ↔
    (v.field? key = none ∧ replaced = v) ∨ ∃ item w, v.field? key = some item
      ∧ parse item s!"{path}.{key}" = .ok w ∧ replaced = v.setField key w := by
  unfold replacePresent
  cases hfield : v.field? key with
  | none =>
      constructor
      · intro h
        exact .inl ⟨rfl, (Except.ok.inj h).symm⟩
      · rintro (⟨_, rfl⟩ | ⟨_, _, h, _⟩)
        · rfl
        · cases h
  | some item =>
      constructor
      · intro h
        obtain ⟨w, hw, h⟩ := bind_eq_ok.mp h
        exact .inr ⟨item, w, rfl, hw, (Except.ok.inj h).symm⟩
      · rintro (⟨h, _⟩ | ⟨_, w, h, hw, rfl⟩)
        · cases h
        · obtain rfl := Option.some.inj h
          exact bind_eq_ok.mpr ⟨w, hw, rfl⟩

/-- The parsed field is parsed as it is: nothing is replaced the second time. -/
theorem replacePresent_again {other : Value} (h : replacePresent v key path parse = .ok replaced)
    (hagain : ∀ item w, v.field? key = some item → parse item s!"{path}.{key}" = .ok w →
      parse w s!"{path}.{key}" = .ok w)
    (hsame : other.field? key = replaced.field? key) :
    replacePresent other key path parse = .ok other := by
  rw [replacePresent_eq_ok]
  rcases replacePresent_eq_ok.mp h with ⟨hnone, rfl⟩ | ⟨item, w, hitem, hw, rfl⟩
  · exact .inl ⟨hsame.trans hnone, rfl⟩
  · have hfield := hsame.trans (Value.field?_setField_eq hitem)
    exact .inr ⟨w, w, hfield, hagain item w hitem hw, (Value.setField_self hfield).symm⟩

theorem replacePresent_isJson (hv : v.IsJson) (h : replacePresent v key path parse = .ok replaced)
    (hjson : ∀ item w, v.field? key = some item → parse item s!"{path}.{key}" = .ok w → w.IsJson) :
    replaced.IsJson := by
  rcases replacePresent_eq_ok.mp h with ⟨_, rfl⟩ | ⟨item, w, hitem, hw, rfl⟩
  · exact hv
  · exact hv.setField (hjson item w hitem hw)

theorem replacePresent_accepts {fields : List (String × Bool × TypeHint)} {isRequired : Bool}
    {a : TypeHint} (hv : (TypeHint.typedDict fields).Accepts v)
    (h : replacePresent v key path parse = .ok replaced)
    (hdeclared : fields.filter (fun field => field.1 = key) = [(key, isRequired, a)])
    (hschema : key ≠ "schema")
    (htyped : ∀ item w, v.field? key = some item → parse item s!"{path}.{key}" = .ok w →
      a.Accepts w) :
    (TypeHint.typedDict fields).Accepts replaced := by
  rcases replacePresent_eq_ok.mp h with ⟨_, rfl⟩ | ⟨item, w, hitem, hw, rfl⟩
  · exact hv
  · exact accepts_setField hv hdeclared hschema (htyped item w hitem hw)

end Replaced

/-- Objects whose fields are the same. -/
theorem Value.Same.of_lookup {a b : List (String × Value)}
    (h : ∀ key, a.lookup key = b.lookup key ∨ ∃ x y, a.lookup key = some x
      ∧ b.lookup key = some y ∧ x.Same y) : Value.Same (.dict a) (.dict b) := by
  refine .dict (fun key => ?_) fun key x y hx hy => ?_
  · rcases h key with heq | ⟨x, y, hx, hy, _⟩
    · rw [heq]
    · rw [hx, hy]
      rfl
  · rcases h key with heq | ⟨x', y', hx', hy', hsame⟩
    · obtain rfl := Option.some.inj (hx.symm.trans (heq.trans hy))
      exact .refl _
    · obtain rfl := Option.some.inj (hx.symm.trans hx')
      obtain rfl := Option.some.inj (hy.symm.trans hy')
      exact hsame

/-! ## Gaps -/

/-- An executable gap without required capabilities has none. -/
def gapDefaults : Value → Value
  | .dict data =>
      if (data.lookup "scenario").isSome then .dict
        (setDefault "required_capabilities" (.list []) data)
      else .dict data
  | v => v

theorem setDefault_self {key : String} {value : Value} (data : List (String × Value)) :
    setDefault key value (setDefault key value data) = setDefault key value data := by
  have hthere : ((setDefault key value data).lookup key).isSome = true := by
    unfold setDefault
    split
    · next h => exact h
    · have hlast : (key, value) ∈ data ++ [(key, value)] :=
        List.mem_append_right _ (List.mem_singleton.mpr rfl)
      exact isSome_lookup_of_mem hlast
  unfold setDefault at hthere ⊢
  rw [if_pos hthere]

theorem lookup_setDefault_ne {key key' : String} (value : Value) (data : List (String × Value))
    (hne : key ≠ key') : (setDefault key value data).lookup key' = data.lookup key' := by
  unfold setDefault
  split
  · rfl
  · exact lookup_append_new hne

theorem isJson_setDefault {key : String} {value : Value} {data : List (String × Value)}
    (h : (Value.dict data).IsJson) (hvalue : value.IsJson) :
    (Value.dict (setDefault key value data)).IsJson := by
  unfold setDefault
  split
  · exact h
  · refine isJson_dict (List.forall_mem_append.mpr ⟨entries_isJson h, ?_⟩)
    exact List.forall_mem_singleton.mpr hvalue

theorem isJson_gapDefaults {gap : Value} (h : gap.IsJson) : (gapDefaults gap).IsJson := by
  cases gap with
  | dict data =>
      rw [gapDefaults]
      split
      · exact isJson_setDefault h fun _ => rfl
      · exact h
  | _ => exact h

section

variable [UnicodeDatabase] {gap parsed : Value} {path : String}

/-- The default is what `parse_behavior` works with anyway. -/
theorem parseBehavior_gapDefaults (gap : Value) (path : String) :
    parseBehavior (gapDefaults gap) path = parseBehavior gap path := by
  cases gap with
  | dict data =>
      by_cases hscenario : (data.lookup "scenario").isSome = true
      · rw [gapDefaults, if_pos hscenario]
        show parseBehavior (.dict (setDefault "required_capabilities" (.list []) data)) path = _
        unfold parseBehavior objectMap
        simp only [bind, Except.bind, lookup_setDefault_ne _ _ (show "required_capabilities" ≠
          "scenario" by decide), setDefault_self]
        rw [if_pos hscenario, if_pos hscenario]
      · rw [gapDefaults, if_neg hscenario]
  | _ => rfl

/-- What `parse_behavior` makes of a JSON value. -/
theorem parseBehavior_json (hgap : gap.IsJson) (h : parseBehavior gap path = .ok parsed) :
    parsed = gapDefaults gap := by
  obtain ⟨data, hdata, hparsed⟩ := typed_of_parseBehavior h
  obtain rfl := objectMap_eq_ok.mp hdata
  have hjson := isJson_gapDefaults hgap
  rw [gapDefaults] at hjson ⊢
  by_cases hscenario : (data.lookup "scenario").isSome = true
  · rw [if_pos hscenario] at hparsed hjson ⊢
    exact ((parseTyped_eq_ok hjson).mp hparsed).1
  · rw [if_neg hscenario] at hparsed hjson ⊢
    exact ((parseTyped_eq_ok hjson).mp hparsed).1

/-- What `parse_gap` makes of a JSON value. -/
theorem parseGap_json (hgap : gap.IsJson) (h : parseGap gap path = .ok parsed) :
    parsed = gapDefaults gap ∧ parseGap parsed path = .ok parsed
      ∧ TypeHint.gapBehavior.Accepts parsed := by
  have hfirst := h
  obtain ⟨behavior, hbehavior, h⟩ := bind_eq_ok.mp h
  obtain rfl := parseBehavior_json hgap hbehavior
  obtain ⟨result, hresult, h⟩ := bind_eq_ok.mp h
  obtain ⟨_, _, h⟩ := bind_eq_ok.mp h
  obtain rfl := Except.ok.inj h
  have hjson := isJson_gapDefaults hgap
  obtain rfl := ((parseTyped_eq_ok hjson).mp hresult).1
  refine ⟨rfl, ?_, ?_⟩
  · unfold parseGap at hfirst ⊢
    rwa [parseBehavior_gapDefaults]
  · obtain ⟨_, hnormal, hresult⟩ := bind_eq_ok.mp hresult
    obtain rfl := Except.ok.inj ((hjson path).symm.trans hnormal)
    obtain ⟨_, hvalid, _⟩ := bind_eq_ok.mp hresult
    exact (accepts_iff path).mpr hvalid

/-- The gaps of a report. -/
theorem parseGaps_json {value w : Value} (hvalue : value.IsJson)
    (h : parseGaps value path = .ok w) : ∃ gaps, value = .list gaps
      ∧ w = .list (gaps.map gapDefaults) ∧ parseGaps w path = .ok w
      ∧ (TypeHint.list .gapBehavior).Accepts w ∧ w.IsJson := by
  obtain ⟨gaps, hgaps, h⟩ := bind_eq_ok.mp h
  obtain ⟨result, hresult, h⟩ := bind_eq_ok.mp h
  obtain rfl := Except.ok.inj h
  obtain rfl : value = .list gaps := by
    cases value with
    | list items => exact congrArg Value.list (Except.ok.inj hgaps)
    | _ => cases hgaps
  have hitems := items_isJson hvalue
  have hall : ∀ entry ∈ gaps.zipIdx, ∀ gap, parseGap entry.1 s!"{path}[{entry.2}]" = .ok gap →
      gap = gapDefaults entry.1 ∧ parseGap gap s!"{path}[{entry.2}]" = .ok gap
        ∧ TypeHint.gapBehavior.Accepts gap := fun entry hentry gap hgap =>
    parseGap_json (hitems entry.1 (List.fst_mem_of_mem_zipIdx hentry)) hgap
  have hmap : result = gaps.map gapDefaults := by
    have hsame : result.map id = gaps.zipIdx.map (gapDefaults ∘ Prod.fst) :=
      mapM_map_eq_ok hresult fun entry hentry gap hgap => (hall entry hentry gap hgap).1
    rw [List.map_id, ← List.map_map, List.zipIdx_map_fst] at hsame
    exact hsame
  refine ⟨gaps, rfl, congrArg Value.list hmap, ?_, accepts_list fun gap hgap => ?_,
    isJson_list fun gap hgap => ?_⟩
  · have hpairs := mapM_eq_ok.mp hresult
    obtain ⟨hlength, hread⟩ := (forall₂_zipIdx
      (R := fun gap i out => parseGap gap s!"{path}[{i}]" = .ok out)).mp hpairs
    refine bind_eq_ok.mpr ⟨result, rfl, bind_eq_ok.mpr ⟨result, mapM_eq_ok.mpr ?_, rfl⟩⟩
    refine (forall₂_zipIdx (R := fun gap i out => parseGap gap s!"{path}[{i}]" = .ok out)).mpr
      ⟨rfl, fun i x y hx hy => ?_⟩
    obtain rfl := Option.some.inj (hx.symm.trans hy)
    have hi : i < gaps.length := hlength ▸ (List.getElem?_eq_some_iff.mp hx).1
    have hgap := hread i gaps[i] x (List.getElem?_eq_getElem hi) hx
    exact (parseGap_json (hitems _ (List.getElem_mem hi)) hgap).2.1
  · obtain ⟨entry, hentry, hread⟩ := exists_of_mem_mapM hresult hgap
    exact (hall entry hentry gap hread).2.2
  · rw [hmap] at hgap
    obtain ⟨old, hold, rfl⟩ := List.mem_map.mp hgap
    exact isJson_gapDefaults (hitems old hold)

/-! ## Reports -/

/-- The report with the defaults of its gaps. -/
def withGapDefaults (report : Value) : Value :=
  match report.list? "gaps" with
  | some gaps => report.setField "gaps" (.list (gaps.map gapDefaults))
  | none => report

/-- The fields of the report with its defaults: the gaps as they are parsed, and all others. -/
theorem withGapDefaults_fields {data : List (String × Value)} {fixed result : Value}
    (hsame : fixed.field? "gaps" = (Value.dict data).field? "gaps") (hfixed : fixed.IsJson)
    (hgaps : replacePresent fixed "gaps" path parseGaps = .ok result) :
    ∃ expected, withGapDefaults (.dict data) = .dict expected
      ∧ (Value.dict expected).field? "gaps" = result.field? "gaps"
      ∧ ∀ key, key ≠ "gaps" →
        (Value.dict expected).field? key = (Value.dict data).field? key := by
  unfold withGapDefaults Value.list?
  rcases replacePresent_eq_ok.mp hgaps with ⟨hnone, rfl⟩ | ⟨item, w, hitem, hw, rfl⟩
  · rw [← hsame, hnone]
    exact ⟨data, rfl, hsame.symm.trans hnone, fun _ _ => rfl⟩
  · obtain ⟨gaps, rfl, rfl, _⟩ := parseGaps_json (hfixed.field hitem) hw
    have hthere := hsame.symm.trans hitem
    rw [hthere]
    exact ⟨_, rfl, (Value.field?_setField_eq hthere).trans (Value.field?_setField_eq hitem).symm,
      fun key hkey => Value.field?_setField_ne (.dict data) _ (Ne.symm hkey)⟩

/-- **`parse_report` is a lossless normalizer.** A parsed report is parsed to itself, and it is the
report it was parsed from with the default of its executable gaps. -/
theorem parseReport_lossless {report parsed : Value} (hreport : report.IsJson)
    (h : parseReport report path = .ok parsed) :
    parseReport parsed path = .ok parsed ∧ parsed.Same (withGapDefaults report) := by
  obtain ⟨typed, htyped, hrest⟩ := bind_eq_ok.mp h
  clear h
  have heq := ((parseTyped_eq_ok hreport).mp htyped).1
  subst heq
  obtain ⟨_, hseconds, hrest⟩ := bind_eq_ok.mp hrest
  obtain ⟨fixed, hfixture, hrest⟩ := bind_eq_ok.mp hrest
  obtain ⟨result, hgaps, hrest⟩ := bind_eq_ok.mp hrest
  obtain ⟨_, hsetup, hrest⟩ := bind_eq_ok.mp hrest
  obtain ⟨_, hresults, hrest⟩ := bind_eq_ok.mp hrest
  have heq := Except.ok.inj hrest
  subst heq
  have haccepts : TypeHint.runReport.Accepts typed := by
    obtain ⟨_, hnormal, htyped⟩ := bind_eq_ok.mp htyped
    obtain rfl := Except.ok.inj ((hreport path).symm.trans hnormal)
    obtain ⟨_, hvalid, _⟩ := bind_eq_ok.mp htyped
    exact (accepts_iff path).mpr hvalid
  -- the report with its fixture, then with its gaps
  have hfixedJson := replacePresent_isJson hreport hfixture fun _ _ _ hw =>
    parseFixture_faithful.json hw
  have hfixedAccepts := replacePresent_accepts haccepts hfixture rfl (by decide) fun _ _ _ hw =>
    parseFixture_faithful.typed hw
  have hjson : result.IsJson := replacePresent_isJson hfixedJson hgaps fun item w hitem hw => by
    obtain ⟨_, _, _, _, _, hjson⟩ := parseGaps_json (hfixedJson.field hitem) hw
    exact hjson
  have hresultAccepts : TypeHint.runReport.Accepts result :=
    replacePresent_accepts hfixedAccepts hgaps rfl (by decide) fun item w hitem hw => by
      obtain ⟨_, _, _, _, haccepts, _⟩ := parseGaps_json (hfixedJson.field hitem) hw
      exact haccepts
  have hother : ∀ key, key ≠ "fixture" → key ≠ "gaps" → result.field? key = typed.field? key :=
    fun key hf hg => (field?_replacePresent hgaps hg.symm).trans
      (field?_replacePresent hfixture hf.symm)
  constructor
  · have hagain : parseTyped .runReport result path = .ok result :=
      bind_eq_ok.mpr ⟨result, hjson path, bind_eq_ok.mpr ⟨(), hresultAccepts path, rfl⟩⟩
    have hseconds : checkPresent result "duration_seconds" path checkSeconds = .ok () := by
      rw [checkPresent, hother _ (by decide) (by decide)]
      exact hseconds
    have hfixtureAgain : replacePresent result "fixture" path parseFixture = .ok result :=
      replacePresent_again hfixture (fun _ _ _ hw => parseFixture_faithful.again hw)
        (field?_replacePresent hgaps (by decide))
    have hgapsAgain : replacePresent result "gaps" path parseGaps = .ok result :=
      replacePresent_again hgaps (fun item w hitem hw => by
        obtain ⟨_, _, _, hagain, _⟩ := parseGaps_json (hfixedJson.field hitem) hw
        exact hagain) rfl
    exact bind_eq_ok.mpr ⟨result, hagain, bind_eq_ok.mpr ⟨(), hseconds, bind_eq_ok.mpr
      ⟨result, hfixtureAgain, bind_eq_ok.mpr ⟨result, hgapsAgain, bind_eq_ok.mpr
      ⟨(), hsetup, bind_eq_ok.mpr ⟨(), hresults, rfl⟩⟩⟩⟩⟩⟩
  · obtain ⟨data, rfl⟩ := dict_of_accepts haccepts
    obtain ⟨entries, rfl⟩ := dict_of_accepts hresultAccepts
    obtain ⟨expected, hexpected, hgapsField, hotherField⟩ :=
      withGapDefaults_fields (field?_replacePresent hfixture (by decide)) hfixedJson hgaps
    rw [hexpected]
    refine .of_lookup fun key => ?_
    by_cases hkey : key = "gaps"
    · subst hkey
      exact .inl hgapsField.symm
    · rw [show expected.lookup key = data.lookup key from hotherField key hkey]
      by_cases hfix : key = "fixture"
      · subst hfix
        have hresult : entries.lookup "fixture" = fixed.field? "fixture" :=
          field?_replacePresent hgaps (by decide)
        rcases replacePresent_eq_ok.mp hfixture with ⟨_, rfl⟩ | ⟨item, w, hitem, hw, rfl⟩
        · exact .inl hresult
        · exact .inr ⟨w, item, hresult.trans (Value.field?_setField_eq hitem), hitem,
            parseFixture_faithful.same hw⟩
      · exact .inl (hother key hfix hkey)

end

section Small

/-- A report with an executable gap that leaves its capabilities out. -/
def smallGapReport : Value := .dict [
  ("schema", .int 1), ("note", .str "kept"),
  ("gaps", .list [.dict [("id", .str "offline-update"), ("gap", .str "needs a second server"),
    ("scenario", .str "update"), ("profile", .str "any"), ("drivers", .list [.str "cli"])]])]

theorem parseReport_lossless_small : ∃ parsed,
    @parseReport asciiOnly smallGapReport "report" = .ok parsed
      ∧ @parseReport asciiOnly parsed "report" = .ok parsed
      ∧ parsed.Same (withGapDefaults smallGapReport) := by
  have hjson : smallGapReport.IsJson := fun _ => rfl
  have hok : (@parseReport asciiOnly smallGapReport "report").isOk = true := by decide +kernel
  obtain ⟨parsed, hparsed⟩ := exists_of_isOk hok
  exact ⟨parsed, hparsed, @parseReport_lossless asciiOnly _ _ _ hjson hparsed⟩

end Small

end FlatpakBlackbox
