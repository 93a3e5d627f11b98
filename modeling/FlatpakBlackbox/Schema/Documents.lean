import FlatpakBlackbox.Schema.Paths

set_option autoImplicit false

/-! # Documents and their items

A document of the catalogue is an envelope around a list of items, or two. It is accepted where
the envelope without its items is, every item is, and the ids of the items are distinct. So
whether an item is accepted does not depend on the document that holds it.
-/

namespace FlatpakBlackbox

open PyLib PyException

/-! ## Ids -/

/-- A text that `indexed` takes for an id. -/
def ValidId (id : String) : Prop := '\x00' ∉ id.toList ∧ id ≠ ""

/-- The ids of the items are valid and distinct. -/
def DistinctIds {α : Type} (ident : α → String) (items : List α) : Prop :=
  (∀ item ∈ items, ValidId (ident item)) ∧ (items.map ident).Nodup

theorem DistinctIds.perm {α : Type} {ident : α → String} {items items' : List α}
    (h : DistinctIds ident items) (hperm : items.Perm items') : DistinctIds ident items' :=
  ⟨fun item hitem => h.1 item (hperm.mem_iff.mpr hitem), (hperm.map ident).nodup_iff.mp h.2⟩

theorem DistinctIds.sublist {α : Type} {ident : α → String} {items items' : List α}
    (h : DistinctIds ident items) (hsub : items'.Sublist items) : DistinctIds ident items' :=
  ⟨fun item hitem => h.1 item (hsub.subset hitem), h.2.sublist (hsub.map ident)⟩

theorem distinctIds_map {α β : Type} {ident : β → String} {f : α → β} {items : List α} :
    DistinctIds ident (items.map f) ↔ DistinctIds (fun item => ident (f item)) items := by
  rw [DistinctIds, DistinctIds, List.forall_mem_map, List.map_map]
  rfl

theorem string_isOk_iff {text path : String} :
    string true (.str text) path = .ok text ↔ ValidId text := by
  unfold string ValidId
  by_cases h : '\x00' ∈ text.toList ∨ text = ""
  · simp only [true_and, if_pos h]
    exact ⟨fun h => (nomatch h), fun hvalid => absurd h (not_or.mpr hvalid)⟩
  · simp only [true_and, if_neg h]
    exact ⟨fun _ => not_or.mp h, fun _ => trivial⟩

/-- `indexed` accepts exactly the items with valid, distinct ids. -/
theorem indexed_isOk_iff {α : Type} {label : String} {ident : α → String} {items : List α} :
    (∃ d, indexed label ident items = .ok d) ↔ DistinctIds ident items := by
  have hgeneral : ∀ (items : List α) (d : Dict String α),
      (∃ r, items.foldlM (fun (result : Dict String α) item => do
        let identifier ← string true (.str (ident item)) s!"{label}.id"
        raiseIf (identifier ∈ result.keys)
          (validationError s!"invalid or duplicate {label} ID: {identifier}")
        return result.set identifier item) d = .ok r) ↔
      DistinctIds ident items ∧ ∀ item ∈ items, ident item ∉ d.keys := by
    intro items
    induction items with
    | nil => exact fun d => ⟨fun _ => ⟨⟨by simp, by simp⟩, by simp⟩, fun _ => ⟨d, rfl⟩⟩
    | cons item items ih =>
        intro d
        simp only [DistinctIds, List.foldlM_cons, bind_eq_ok, List.forall_mem_cons, List.map_cons,
          List.nodup_cons, List.mem_map, not_exists, not_and]
        constructor
        · rintro ⟨r, d', ⟨identifier, hid, _, hnew, hset⟩, hrest⟩
          have hsame : identifier = ident item := string_str_eq_ok hid
          subst hsame
          cases hset
          obtain ⟨⟨hvalid, hnodup⟩, hfresh⟩ := (ih _).mp ⟨r, hrest⟩
          refine ⟨⟨⟨string_isOk_iff.mp hid, hvalid⟩, fun other hother heq => ?_, hnodup⟩,
            raiseIf_eq_ok.mp hnew, fun other hother hmem => ?_⟩
          · exact hfresh other hother (by rw [heq, Dict.mem_keys_set]; exact .inr rfl)
          · exact hfresh other hother (by rw [Dict.mem_keys_set]; exact .inl hmem)
        · rintro ⟨⟨⟨hvalid, hrest⟩, hne, hnodup⟩, hnew, hfresh⟩
          obtain ⟨r, hr⟩ := (ih (d.set (ident item) item)).mpr
            ⟨⟨hrest, hnodup⟩, fun other hother hmem => by
              rcases (Dict.mem_keys_set d _ _ item).mp hmem with hmem | heq
              · exact hfresh other hother hmem
              · exact hne other hother heq⟩
          exact ⟨r, _, ⟨_, string_isOk_iff.mpr hvalid, (), raiseIf_of_not hnew, rfl⟩, hr⟩
  have hstart := hgeneral items Dict.empty
  exact hstart.trans (and_iff_left fun item _ hmem => absurd hmem List.not_mem_nil)

/-! ## Envelopes -/

/-- The document without the items under a key. -/
def emptied (key : String) (entries : List (String × Value)) : List (String × Value) :=
  Dict.setEntries key (.list []) entries

theorem setEntries_setEntries (key : String) (v w : Value) (entries : List (String × Value)) :
    Dict.setEntries key w (Dict.setEntries key v entries) = Dict.setEntries key w entries := by
  induction entries with
  | nil => simp [Dict.setEntries]
  | cons entry entries ih =>
      by_cases h : entry.1 = key
      · simp [Dict.setEntries, h]
      · simp [Dict.setEntries, h, ih]

theorem setEntries_lookup {key : String} {v : Value} {entries : List (String × Value)}
    (h : entries.lookup key = some v) : Dict.setEntries key v entries = entries := by
  induction entries with
  | nil => cases h
  | cons entry entries ih =>
      rw [List.lookup_cons] at h
      by_cases hkey : key = entry.1
      · rw [beq_iff_eq.mpr hkey] at h
        cases h
        rw [Dict.setEntries, if_pos hkey.symm, hkey]
      · rw [beq_eq_false_iff_ne.mpr hkey] at h
        rw [Dict.setEntries, if_neg (Ne.symm hkey), ih h]

theorem isJson_setEntries {key : String} {v : Value} {entries : List (String × Value)}
    (hv : v.IsJson) (h : (Value.dict entries).IsJson) :
    (Value.dict (Dict.setEntries key v entries)).IsJson := by
  have hall := entries_isJson h
  clear h
  refine isJson_dict ?_
  induction entries with
  | nil => simpa [Dict.setEntries] using hv
  | cons entry entries ih =>
      obtain ⟨hentry, hrest⟩ := List.forall_mem_cons.mp hall
      unfold Dict.setEntries
      split
      · exact List.forall_mem_cons.mpr ⟨hv, hrest⟩
      · exact List.forall_mem_cons.mpr ⟨hentry, ih hrest⟩

theorem lookup_emptied (key : String) (entries : List (String × Value)) :
    (emptied key entries).lookup key = some (.list []) := by
  rw [emptied, lookup_setEntries, if_pos rfl]

theorem lookup_emptied_ne {key key' : String} (entries : List (String × Value)) (h : key ≠ key') :
    (emptied key entries).lookup key' = entries.lookup key' := by
  rw [emptied, lookup_setEntries, if_neg h]

theorem emptied_of_lookup {key : String} {entries : List (String × Value)}
    (h : entries.lookup key = some (.list [])) : emptied key entries = entries :=
  setEntries_lookup h

theorem isJson_emptied (key : String) {entries : List (String × Value)}
    (h : (Value.dict entries).IsJson) : (Value.dict (emptied key entries)).IsJson :=
  isJson_setEntries (isJson_list (by simp)) h

/-- On a JSON value `parse_typed` only checks. -/
theorem parseTyped_eq_ok {schema : TypeHint} {value r : Value} {path : String}
    (h : value.IsJson) : parseTyped schema value path = .ok r ↔
    r = value ∧ schema.Accepts value := by
  rw [parseTyped, bind_eq_ok]
  constructor
  · rintro ⟨normalized, hnormalized, hvalid⟩
    obtain rfl : value = normalized := Except.ok.inj ((h path).symm.trans hnormalized)
    obtain ⟨_, haccepts, hr⟩ := bind_eq_ok.mp hvalid
    exact ⟨(Except.ok.inj hr).symm, (accepts_iff path).mpr haccepts⟩
  · rintro ⟨rfl, haccepts⟩
    exact ⟨r, h path, bind_eq_ok.mpr ⟨(), haccepts path, rfl⟩⟩

/-- What `parse_typed` returns is an accepted JSON value. -/
theorem of_parseTyped {schema : TypeHint} {value r : Value} {path : String}
    (h : parseTyped schema value path = .ok r) : r.IsJson ∧ schema.Accepts r := by
  obtain ⟨normalized, hnormalized, hvalid⟩ := bind_eq_ok.mp h
  obtain ⟨_, haccepts, hr⟩ := bind_eq_ok.mp hvalid
  cases hr
  exact ⟨isJson_of_jsonValue value hnormalized, (accepts_iff path).mpr haccepts⟩

/-- **An object is accepted where its envelope is, and every item.** -/
theorem accepts_iff_emptied {fields : List (String × Bool × TypeHint)} {key : String}
    {isRequired : Bool} {element : TypeHint} {entries : List (String × Value)}
    {items : List Value} (hitems : entries.lookup key = some (.list items))
    (hdeclared : fields.filter (fun field => field.1 = key) = [(key, isRequired, .list element)])
    (hschema : key ≠ "schema") :
    (TypeHint.typedDict fields).Accepts (.dict entries) ↔
      (TypeHint.typedDict fields).Accepts (.dict (emptied key entries)) ∧
        ∀ item ∈ items, element.Accepts item := by
  constructor
  · intro h
    refine ⟨?_, of_accepts_list (accepts_field key h hdeclared hitems)⟩
    exact accepts_setField h hdeclared hschema (accepts_list fun item hitem => by cases hitem)
  · rintro ⟨h, hall⟩
    have hfilled := accepts_setField h hdeclared hschema (accepts_list hall)
    have hsame : (Value.dict (emptied key entries)).setField key (.list items) = .dict entries := by
      show Value.dict _ = Value.dict _
      rw [emptied, setEntries_setEntries, setEntries_lookup hitems]
    rwa [hsame] at hfilled

/-! ## Behaviors -/

section

variable [UnicodeDatabase] {entries : List (String × Value)} {items : List Value} {path : String}

/-- What `parse_behavior` returns is what the annotation of a behavior accepted. -/
theorem typed_of_parseBehavior {value r : Value} (h : parseBehavior value path = .ok r) :
    ∃ raw, objectMap value path = .ok raw ∧ parseTyped .behavior
      (.dict (if (raw.lookup "scenario").isSome = true then
        setDefault "required_capabilities" (.list []) raw else raw)) path = .ok r := by
  obtain ⟨raw, hraw, h⟩ := bind_eq_ok.mp h
  refine ⟨raw, hraw, ?_⟩
  dsimp only at h
  have htyped : ∃ data rest, (parseTyped .behavior (.dict data) path >>= rest) = .ok r ∧
      (∀ result, rest result = .ok r → result = r) ∧
      data = if (raw.lookup "scenario").isSome = true then
        setDefault "required_capabilities" (.list []) raw else raw := by
    by_cases hscenario : (raw.lookup "scenario").isSome = true
    on_goal 1 =>
      rw [if_pos hscenario] at h ⊢
      obtain ⟨_, _, h⟩ := bind_eq_ok.mp h
    on_goal 2 =>
      rw [if_neg hscenario] at h ⊢
      obtain ⟨_, _, h⟩ := bind_eq_ok.mp h
      obtain ⟨_, _, h⟩ := bind_eq_ok.mp h
      obtain ⟨_, _, h⟩ := bind_eq_ok.mp h
    all_goals
      refine ⟨_, _, h, fun result hresult => ?_, rfl⟩
      obtain ⟨_, _, hresult⟩ := bind_eq_ok.mp hresult
      cases hhandler : result.str? "handler" with
      | none =>
          rw [hhandler] at hresult
          exact Except.ok.inj hresult
      | some handler =>
          rw [hhandler] at hresult
          obtain ⟨_, _, hresult⟩ := bind_eq_ok.mp hresult
          exact Except.ok.inj hresult
  obtain ⟨_, rest, hbind, hrest, rfl⟩ := htyped
  obtain ⟨result, hresult, htail⟩ := bind_eq_ok.mp hbind
  rw [hresult, hrest result htail]

/-- So it is an accepted behavior. -/
theorem of_parseBehavior {value r : Value} (h : parseBehavior value path = .ok r) :
    r.IsJson ∧ TypeHint.behavior.Accepts r := by
  obtain ⟨_, _, hresult⟩ := typed_of_parseBehavior h
  exact of_parseTyped hresult

/-- The behaviors of a document, each parsed where it stands. -/
theorem parseBehaviors_eq_ok {data : List (String × Value)}
    (hitems : entries.lookup "behaviors" = some (.list items)) :
    parseBehaviors entries path = .ok data ↔ ∃ parsed,
      items.mapM (parseBehavior · "") = .ok parsed ∧
        data = Dict.setEntries "behaviors" (.list parsed) entries := by
  have hrequired : required entries "behaviors" path = .ok (.list items) := by
    rw [required, hitems]
  have hagree (parsed : List Value) :
      items.zipIdx.mapM (fun entry => parseBehavior entry.1 s!"{path}.behaviors[{entry.2}]") =
        .ok parsed ↔ items.mapM (parseBehavior · "") = .ok parsed :=
    Agree.mapM_zipIdx (fun item _ _ => parseBehavior_agree item _ _) 0 parsed
  constructor
  · intro h
    obtain ⟨listed, hlisted, h⟩ := bind_eq_ok.mp h
    obtain rfl := Except.ok.inj (hrequired.symm.trans hlisted)
    obtain ⟨_, harray, h⟩ := bind_eq_ok.mp h
    cases harray
    obtain ⟨parsed, hparsed, h⟩ := bind_eq_ok.mp h
    cases h
    exact ⟨parsed, (hagree parsed).mp hparsed, rfl⟩
  · rintro ⟨parsed, hparsed, rfl⟩
    exact bind_eq_ok.mpr ⟨_, hrequired, bind_eq_ok.mpr ⟨items, rfl, bind_eq_ok.mpr
      ⟨parsed, (hagree parsed).mpr hparsed, rfl⟩⟩⟩

/-- A document with behaviors: they are parsed, and the rest is checked without them. -/
theorem typedBehaviors_eq_ok (fields : List (String × Bool × TypeHint)) {r : Value}
    (hdeclared : fields.filter (fun field => field.1 = "behaviors") =
      [("behaviors", true, .list .behavior)])
    (hjson : (Value.dict entries).IsJson)
    (hitems : entries.lookup "behaviors" = some (.list items)) :
    (do
      let data ← parseBehaviors entries path
      parseTyped (.typedDict fields) (.dict data) path) = Except.ok r ↔
    ∃ parsed, items.mapM (parseBehavior · "") = .ok parsed ∧
      r = .dict (Dict.setEntries "behaviors" (.list parsed) entries) ∧
      (TypeHint.typedDict fields).Accepts (.dict (emptied "behaviors" entries)) := by
  simp only [bind_eq_ok, parseBehaviors_eq_ok hitems]
  have hparsed : ∀ {parsed : List Value}, items.mapM (parseBehavior · "") = .ok parsed →
      (parseTyped (.typedDict fields)
        (.dict (Dict.setEntries "behaviors" (.list parsed) entries)) path = .ok r ↔
      r = .dict (Dict.setEntries "behaviors" (.list parsed) entries) ∧
        (TypeHint.typedDict fields).Accepts (.dict (emptied "behaviors" entries))) := by
    intro parsed hmapM
    have hall : ∀ item ∈ parsed, item.IsJson ∧ TypeHint.behavior.Accepts item := by
      intro item hitem
      obtain ⟨_, _, h⟩ := exists_of_mem_mapM hmapM hitem
      exact of_parseBehavior h
    have hlookup : (Dict.setEntries "behaviors" (.list parsed) entries).lookup "behaviors" =
        some (.list parsed) := by
      rw [lookup_setEntries, if_pos rfl]
    rw [parseTyped_eq_ok (isJson_setEntries (isJson_list fun item h => (hall item h).1) hjson),
      accepts_iff_emptied hlookup hdeclared (by decide), emptied, setEntries_setEntries]
    exact and_congr_right fun _ => and_iff_left fun item h => (hall item h).2
  constructor
  · rintro ⟨_, ⟨parsed, hmapM, rfl⟩, h⟩
    exact ⟨parsed, hmapM, (hparsed hmapM).mp h⟩
  · rintro ⟨parsed, hmapM, h⟩
    exact ⟨_, ⟨parsed, hmapM, rfl⟩, (hparsed hmapM).mpr h⟩

omit [UnicodeDatabase] in
/-- The parsed behaviors of a document. -/
theorem behaviors_of_parsed {parsed : List Value} :
    (Value.dict (Dict.setEntries "behaviors" (.list parsed) entries)).list? "behaviors" =
      some parsed := by
  rw [Value.list?, Value.field?, lookup_setEntries, if_pos rfl]
  rfl

/-- `inventory.json`: an envelope and its behaviors. -/
theorem parseInventory_eq_ok {r : Value} (hjson : (Value.dict entries).IsJson)
    (hitems : entries.lookup "behaviors" = some (.list items)) :
    parseInventory (.dict entries) path = .ok r ↔
      ∃ parsed, items.mapM (parseBehavior · "") = .ok parsed ∧
        r = .dict (Dict.setEntries "behaviors" (.list parsed) entries) ∧
        DistinctIds Value.ident parsed ∧
        TypeHint.inventory.Accepts (.dict (emptied "behaviors" entries)) := by
  have htyped (result : Value) := @typedBehaviors_eq_ok _ entries items path
    [TypeHint.req "schema" .int, TypeHint.req "behaviors" (.list .behavior)] result rfl hjson
    hitems
  constructor
  · intro h
    obtain ⟨_, hmap, h⟩ := bind_eq_ok.mp h
    cases hmap
    obtain ⟨data, hdata, h⟩ := bind_eq_ok.mp h
    obtain ⟨result, hresult, h⟩ := bind_eq_ok.mp h
    obtain ⟨d, hd, h⟩ := bind_eq_ok.mp h
    obtain rfl := Except.ok.inj h
    obtain ⟨parsed, hparsed, rfl, haccepts⟩ :=
      (htyped result).mp (bind_eq_ok.mpr ⟨data, hdata, hresult⟩)
    rw [behaviors_of_parsed] at hd
    exact ⟨parsed, hparsed, rfl, indexed_isOk_iff.mp ⟨d, hd⟩, haccepts⟩
  · rintro ⟨parsed, hparsed, rfl, hdistinct, haccepts⟩
    obtain ⟨data, hdata, hresult⟩ :=
      bind_eq_ok.mp ((htyped _).mpr ⟨parsed, hparsed, rfl, haccepts⟩)
    obtain ⟨d, hd⟩ := indexed_isOk_iff.mpr hdistinct
    refine bind_eq_ok.mpr ⟨entries, rfl, bind_eq_ok.mpr ⟨data, hdata, bind_eq_ok.mpr ⟨_, hresult,
      bind_eq_ok.mpr ⟨d, ?_, rfl⟩⟩⟩⟩
    rw [behaviors_of_parsed]
    exact hd

/-- A scenario group: an envelope with a checked client, its behaviors and its mappings. -/
theorem parseScenarioGroup_eq_ok {r : Value} {mappings : List Value}
    (hjson : (Value.dict entries).IsJson)
    (hitems : entries.lookup "behaviors" = some (.list items))
    (hmappings : entries.lookup "mappings" = some (.list mappings)) :
    parseScenarioGroup (.dict entries) path = .ok r ↔
      ∃ parsed, items.mapM (parseBehavior · "") = .ok parsed ∧
        r = .dict (Dict.setEntries "behaviors" (.list parsed) entries) ∧
        DistinctIds Value.ident parsed ∧
        (∀ item ∈ mappings, TypeHint.coverageMapping.Accepts item) ∧
        TypeHint.scenarioGroup.Accepts (.dict (emptied "mappings" (emptied "behaviors" entries))) ∧
        ∀ client, entries.lookup "client" = some client → checkClient client "" = .ok () := by
  have htyped (result : Value) := @typedBehaviors_eq_ok _ entries items path [
    TypeHint.req "schema" .int, TypeHint.req "behaviors" (.list .behavior),
    TypeHint.req "mappings" (.list .coverageMapping), TypeHint.opt "client"
      (.typedDict [TypeHint.req "source" .str, TypeHint.req "entry" .str]),
    TypeHint.opt "notes" (.list .str)] result rfl hjson hitems
  have hlists : TypeHint.scenarioGroup.Accepts (.dict (emptied "behaviors" entries)) ↔
      TypeHint.scenarioGroup.Accepts (.dict (emptied "mappings" (emptied "behaviors" entries))) ∧
        ∀ item ∈ mappings, TypeHint.coverageMapping.Accepts item := by
    refine accepts_iff_emptied ?_ rfl (by decide)
    rw [emptied, lookup_setEntries, if_neg (by decide)]
    exact hmappings
  have hclient (parsed : List Value) :
      (Value.dict (Dict.setEntries "behaviors" (.list parsed) entries)).field? "client" =
        entries.lookup "client" := by
    rw [Value.field?, lookup_setEntries, if_neg (by decide)]
  constructor
  · intro h
    obtain ⟨_, hmap, h⟩ := bind_eq_ok.mp h
    cases hmap
    obtain ⟨data, hdata, h⟩ := bind_eq_ok.mp h
    obtain ⟨result, hresult, h⟩ := bind_eq_ok.mp h
    obtain ⟨d, hd, h⟩ := bind_eq_ok.mp h
    obtain ⟨parsed, hparsed, rfl, haccepts⟩ :=
      (htyped result).mp (bind_eq_ok.mpr ⟨data, hdata, hresult⟩)
    rw [behaviors_of_parsed] at hd
    obtain ⟨henvelope, hall⟩ := hlists.mp haccepts
    have hdistinct := indexed_isOk_iff.mp ⟨d, hd⟩
    rw [hclient] at h
    cases hlookup : entries.lookup "client" with
    | none =>
        rw [hlookup] at h
        exact ⟨parsed, hparsed, (Except.ok.inj h).symm, hdistinct, hall, henvelope,
          fun _ hsome => (nomatch hsome)⟩
    | some client =>
        rw [hlookup] at h
        obtain ⟨_, hcheck, h⟩ := bind_eq_ok.mp h
        refine ⟨parsed, hparsed, (Except.ok.inj h).symm, hdistinct, hall, henvelope,
          fun other hsome => ?_⟩
        cases hsome
        exact (checkClient_agree _ _ _).eq_ok hcheck
  · rintro ⟨parsed, hparsed, rfl, hdistinct, hall, henvelope, hcheck⟩
    obtain ⟨data, hdata, hresult⟩ :=
      bind_eq_ok.mp ((htyped _).mpr ⟨parsed, hparsed, rfl, hlists.mpr ⟨henvelope, hall⟩⟩)
    obtain ⟨d, hd⟩ := indexed_isOk_iff.mpr hdistinct
    refine bind_eq_ok.mpr ⟨entries, rfl, bind_eq_ok.mpr ⟨data, hdata, bind_eq_ok.mpr ⟨_, hresult,
      bind_eq_ok.mpr ⟨d, ?_, ?_⟩⟩⟩⟩
    · rw [behaviors_of_parsed]
      exact hd
    · rw [hclient]
      cases hlookup : entries.lookup "client" with
      | none => rfl
      | some client =>
          have hpath := (checkClient_agree client "" path).eq_ok (hcheck client hlookup)
          exact bind_eq_ok.mpr ⟨(), hpath, rfl⟩

/-- What a valid envelope of an inventory satisfies. -/
theorem inventory_envelope {empty : Value} (hjson : (Value.dict entries).IsJson)
    (h : parseInventory (.dict (emptied "behaviors" entries)) "" = .ok empty) :
    TypeHint.inventory.Accepts (.dict (emptied "behaviors" entries)) := by
  have hempty := lookup_emptied "behaviors" entries
  obtain ⟨_, _, _, _, haccepts⟩ := (parseInventory_eq_ok (isJson_emptied _ hjson) hempty).mp h
  rwa [emptied_of_lookup hempty] at haccepts

/-- What a valid envelope of a scenario group satisfies. -/
theorem scenarioGroup_envelope {empty : Value} (hjson : (Value.dict entries).IsJson)
    (h : parseScenarioGroup (.dict (emptied "mappings" (emptied "behaviors" entries))) "" =
      .ok empty) :
    TypeHint.scenarioGroup.Accepts (.dict (emptied "mappings" (emptied "behaviors" entries))) ∧
      ∀ client, entries.lookup "client" = some client → checkClient client "" = .ok () := by
  have hmappings := lookup_emptied "mappings" (emptied "behaviors" entries)
  have hbehaviors : (emptied "mappings" (emptied "behaviors" entries)).lookup "behaviors" =
      some (.list []) := by
    rw [lookup_emptied_ne _ (by decide), lookup_emptied]
  obtain ⟨_, _, _, _, _, haccepts, hclient⟩ := (parseScenarioGroup_eq_ok
    (isJson_emptied _ (isJson_emptied _ hjson)) hbehaviors hmappings).mp h
  rw [emptied_of_lookup hbehaviors, emptied_of_lookup hmappings] at haccepts
  refine ⟨haccepts, fun client hlookup => hclient client ?_⟩
  rw [lookup_emptied_ne _ (by decide), lookup_emptied_ne _ (by decide)]
  exact hlookup

end

/-! ## Mappings and requirements -/

section

variable {entries : List (String × Value)} {items : List Value} {path : String} {r : Value}
  (hjson : (Value.dict entries).IsJson)

include hjson

/-- `mapping.json`: an envelope and its mappings. -/
theorem parseMappings_eq_ok (hitems : entries.lookup "cases" = some (.list items)) :
    parseMappings (.dict entries) path = .ok r ↔ r = .dict entries ∧
      TypeHint.mappingDocument.Accepts (.dict (emptied "cases" entries)) ∧
      ∀ item ∈ items, TypeHint.coverageMapping.Accepts item := by
  rw [parseMappings, parseTyped_eq_ok hjson]
  exact and_congr_right fun _ => accepts_iff_emptied hitems rfl (by decide)

/-- A document of requirements: an envelope and its requirements. -/
theorem parseRequirements_eq_ok (hitems : entries.lookup "requirements" = some (.list items)) :
    parseRequirements (.dict entries) path = .ok r ↔ r = .dict entries ∧
      TypeHint.requirementsDocument.Accepts (.dict (emptied "requirements" entries)) ∧
      (∀ item ∈ items, TypeHint.requirement.Accepts item) ∧ DistinctIds Value.ident items := by
  have hlist : (Value.dict entries).list? "requirements" = some items := by
    rw [Value.list?, Value.field?, hitems]
    rfl
  have haccepts : TypeHint.requirementsDocument.Accepts (.dict entries) ↔
      TypeHint.requirementsDocument.Accepts (.dict (emptied "requirements" entries)) ∧
        ∀ item ∈ items, TypeHint.requirement.Accepts item :=
    accepts_iff_emptied hitems rfl (by decide)
  constructor
  · intro h
    obtain ⟨result, hresult, h⟩ := bind_eq_ok.mp h
    obtain ⟨d, hd, h⟩ := bind_eq_ok.mp h
    obtain ⟨rfl, haccepted⟩ := (parseTyped_eq_ok hjson).mp hresult
    rw [hlist] at hd
    obtain ⟨henvelope, hall⟩ := haccepts.mp haccepted
    exact ⟨(Except.ok.inj h).symm, henvelope, hall, indexed_isOk_iff.mp ⟨d, hd⟩⟩
  · rintro ⟨rfl, henvelope, hall, hdistinct⟩
    obtain ⟨d, hd⟩ := indexed_isOk_iff.mpr hdistinct
    refine bind_eq_ok.mpr ⟨_, (parseTyped_eq_ok hjson).mpr ⟨rfl, haccepts.mpr ⟨henvelope, hall⟩⟩,
      bind_eq_ok.mpr ⟨d, ?_, rfl⟩⟩
    rw [hlist]
    exact hd

/-- What a valid envelope of mappings satisfies. -/
theorem mappings_envelope {empty : Value}
    (h : parseMappings (.dict (emptied "cases" entries)) "" = .ok empty) :
    TypeHint.mappingDocument.Accepts (.dict (emptied "cases" entries)) := by
  have hempty := lookup_emptied "cases" entries
  obtain ⟨_, haccepts, _⟩ := (parseMappings_eq_ok (isJson_emptied _ hjson) hempty).mp h
  rwa [emptied_of_lookup hempty] at haccepts

/-- What a valid envelope of requirements satisfies. -/
theorem requirements_envelope {empty : Value}
    (h : parseRequirements (.dict (emptied "requirements" entries)) "" = .ok empty) :
    empty = .dict (emptied "requirements" entries) ∧
      TypeHint.requirementsDocument.Accepts (.dict (emptied "requirements" entries)) := by
  have hempty := lookup_emptied "requirements" entries
  obtain ⟨rfl, haccepts, _⟩ := (parseRequirements_eq_ok (isJson_emptied _ hjson) hempty).mp h
  rw [emptied_of_lookup hempty] at haccepts
  exact ⟨rfl, haccepts⟩

end

end FlatpakBlackbox
