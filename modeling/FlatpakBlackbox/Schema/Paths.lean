import FlatpakBlackbox.Basic.Agree
import FlatpakBlackbox.Schema.Catalogue

set_option autoImplicit false

/-! # Where a document lies does not matter

Every parser of `catalogue_schema.py` takes the path of the document for its messages. Two runs on
the same document with other paths agree: they accept with the same result, or both raise.
-/

namespace FlatpakBlackbox

open PyLib PyException

theorem required_agree (data : List (String × Value)) (key path path' : String) :
    Agree (required data key path) (required data key path') :=
  Agree.of_forall (f := required data key) (fun path' _ h => required_path path' h) path path'

theorem objectMap_agree (value : Value) (path path' : String) :
    Agree (objectMap value path) (objectMap value path') :=
  Agree.of_forall (f := objectMap value) (fun path' _ h => objectMap_path path' h) path path'

theorem array_agree (value : Value) (path path' : String) :
    Agree (array value path) (array value path') :=
  Agree.of_forall (f := array value) (fun path' _ h => array_path path' h) path path'

theorem string_agree (nonempty : Bool) (value : Value) (path path' : String) :
    Agree (string nonempty value path) (string nonempty value path') := by
  cases value with
  | str s =>
      by_cases h : '\x00' ∈ s.toList ∨ (nonempty = true ∧ s = "")
      · simp only [string, if_pos h]
        exact Agree.error _ _
      · simp only [string, if_neg h]
        exact Agree.refl _
  | _ => exact Agree.error _ _

theorem parseTyped_agree (schema : TypeHint) (value : Value) (path path' : String) :
    Agree (parseTyped schema value path) (parseTyped schema value path') := by
  refine Agree.bind
    (Agree.of_forall (f := jsonValue value) (fun path' _ h => jsonValue_path value path' h) _ _)
    fun normalized _ => ?_
  refine Agree.bind (Agree.of_forall (f := validateTyped schema normalized)
    (fun path' u h => ?_) _ _) fun _ _ => Agree.refl _
  cases u
  exact validateTyped_path schema path' h

theorem parseCatalogue_agree (value : Value) (path path' : String) :
    Agree (parseCatalogue value path) (parseCatalogue value path') := by
  refine Agree.bind (objectMap_agree value _ _) fun data _ => ?_
  refine Agree.bind (required_agree data _ _ _) fun listed _ => ?_
  refine Agree.bind (array_agree listed _ _) fun items _ => ?_
  refine Agree.bind (Agree.mapM fun entry _ => ?_) fun surfaces _ => ?_
  · exact Agree.bind (objectMap_agree entry.1 _ _) fun _ _ => Agree.refl _
  refine Agree.bind (parseTyped_agree _ _ _ _) fun result _ => ?_
  refine Agree.bind (Agree.refl _) fun _ _ => ?_
  refine Agree.bind (Agree.forM fun entry _ => ?_) fun _ _ => Agree.refl _
  refine Agree.bind (string_agree _ _ _ _) fun _ _ => ?_
  cases entry.1.str? "command" with
  | none => exact Agree.refl _
  | some command => exact Agree.raiseIf Iff.rfl _ _

theorem executableBehavior_agree (value : Value) (path path' : String) :
    Agree (executableBehavior value path) (executableBehavior value path') := by
  refine Agree.bind (objectMap_agree value _ _) fun data _ => ?_
  refine Agree.bind (parseTyped_agree _ _ _ _) fun result _ => ?_
  refine Agree.bind (string_agree _ _ _ _) fun _ _ => ?_
  exact Agree.bind (Agree.raiseIf Iff.rfl _ _) fun _ _ => Agree.refl _

theorem parseMappings_agree (value : Value) (path path' : String) :
    Agree (parseMappings value path) (parseMappings value path') :=
  parseTyped_agree _ value path path'

theorem parseRequirements_agree (value : Value) (path path' : String) :
    Agree (parseRequirements value path) (parseRequirements value path') :=
  Agree.bind (parseTyped_agree _ value path path') fun _ _ => Agree.refl _

theorem checkClient_agree (client : Value) (path path' : String) :
    Agree (checkClient client path) (checkClient client path') :=
  Agree.bind (Agree.raiseIf Iff.rfl _ _) fun _ _ => Agree.raiseIf Iff.rfl _ _

section

variable [UnicodeDatabase]

/-- The checks of `parse_behavior` that a gap and an executable behavior share. -/
theorem checkedBehavior_agree (data : List (String × Value)) (path other : String) :
    Agree (do
        let result ← parseTyped .behavior (.dict data) path
        let _ ← string true (.str result.ident) s!"{path}.id"
        match result.str? "handler" with
        | some handler => checkHandler handler result.ident path
        | none => .ok ()
        return result)
      (do
        let result ← parseTyped .behavior (.dict data) other
        let _ ← string true (.str result.ident) s!"{other}.id"
        match result.str? "handler" with
        | some handler => checkHandler handler result.ident other
        | none => .ok ()
        return result) := by
  refine Agree.bind (parseTyped_agree _ _ _ _) fun result _ => ?_
  refine Agree.bind (string_agree _ _ _ _) fun _ _ => ?_
  cases result.str? "handler" with
  | none => exact Agree.refl _
  | some handler => exact Agree.bind (Agree.raiseIf Iff.rfl _ _) fun _ _ => Agree.refl _

theorem parseBehavior_agree (value : Value) (path path' : String) :
    Agree (parseBehavior value path) (parseBehavior value path') := by
  refine Agree.bind (objectMap_agree value _ _) fun raw _ => ?_
  dsimp only
  by_cases hscenario : (raw.lookup "scenario").isSome
  · rw [if_pos hscenario, if_pos hscenario]
    refine Agree.bind (executableBehavior_agree _ _ _) fun _ _ => ?_
    exact Agree.bind (Agree.refl _) fun data _ => checkedBehavior_agree data _ _
  · rw [if_neg hscenario, if_neg hscenario]
    refine Agree.bind (parseTyped_agree _ _ _ _) fun _ _ => ?_
    refine Agree.bind (required_agree raw _ _ _) fun gap _ => ?_
    refine Agree.bind (string_agree _ gap _ _) fun _ _ => ?_
    exact Agree.bind (Agree.refl _) fun data _ => checkedBehavior_agree data _ _

theorem parseBehaviors_agree (data : List (String × Value)) (path path' : String) :
    Agree (parseBehaviors data path) (parseBehaviors data path') := by
  refine Agree.bind (required_agree data _ _ _) fun listed _ => ?_
  refine Agree.bind (array_agree listed _ _) fun items _ => ?_
  exact Agree.bind (Agree.mapM fun entry _ => parseBehavior_agree entry.1 _ _)
    fun _ _ => Agree.refl _

theorem parseInventory_agree (value : Value) (path path' : String) :
    Agree (parseInventory value path) (parseInventory value path') := by
  refine Agree.bind (objectMap_agree value _ _) fun data _ => ?_
  refine Agree.bind (parseBehaviors_agree data _ _) fun data _ => ?_
  exact Agree.bind (parseTyped_agree _ _ _ _) fun _ _ => Agree.refl _

theorem parseScenarioGroup_agree (value : Value) (path path' : String) :
    Agree (parseScenarioGroup value path) (parseScenarioGroup value path') := by
  refine Agree.bind (objectMap_agree value _ _) fun data _ => ?_
  refine Agree.bind (parseBehaviors_agree data _ _) fun data _ => ?_
  refine Agree.bind (parseTyped_agree _ _ _ _) fun result _ => ?_
  refine Agree.bind (Agree.refl _) fun _ _ => ?_
  cases result.field? "client" with
  | none => exact Agree.refl _
  | some client => exact Agree.bind (checkClient_agree client _ _) fun _ _ => Agree.refl _

end

end FlatpakBlackbox
