import Mathlib.Tactic

set_option autoImplicit false

/-! # Exceptions

The exception classes the program names in its `except` clauses, with their place in Python's
class hierarchy. An exception object is described by its method resolution order, the list of
all classes it is an instance of; handlers under test can raise classes of their own, so the
list of classes is open (`ExcClass.other`). The field `closed` says that the list contains the
superclass of each of its members: an object cannot be a `DiagnosticFailure` without being a
`ContractFailure`.
-/

namespace FlatpakBlackbox

/-- Exception classes: Python's own, those of `run.py` and of the validators. -/
inductive ExcClass where
  | exception
  | osError
  | fileNotFoundError
  | valueError
  | validationError
  | catalogueError
  | lookupError
  | keyError
  | indexError
  | typeError
  | assertionError
  | runtimeError
  | configparserError
  | prerequisiteError
  | unsupportedCapability
  | contractFailure
  | diagnosticFailure
  | other (name : String)
  deriving DecidableEq, Repr

/-- The direct superclass, `none` for `Exception` itself. -/
def ExcClass.parent : ExcClass → Option ExcClass
  | .exception => none
  | .fileNotFoundError => some .osError
  | .validationError => some .valueError
  | .catalogueError => some .valueError
  | .keyError => some .lookupError
  | .indexError => some .lookupError
  | .diagnosticFailure => some .contractFailure
  | _ => some .exception

/-- The method resolution order of a class. -/
def ExcClass.mro : ExcClass → List ExcClass
  | .exception => [.exception]
  | .fileNotFoundError => [.fileNotFoundError, .osError, .exception]
  | .validationError => [.validationError, .valueError, .exception]
  | .catalogueError => [.catalogueError, .valueError, .exception]
  | .keyError => [.keyError, .lookupError, .exception]
  | .indexError => [.indexError, .lookupError, .exception]
  | .diagnosticFailure => [.diagnosticFailure, .contractFailure, .exception]
  | c => [c, .exception]

/-- An exception object: the classes it is an instance of, and `str(error)`. -/
structure PyException where
  mro : List ExcClass
  message : String
  closed : ∀ c ∈ mro, ∀ p, c.parent = some p → p ∈ mro

theorem ExcClass.mro_closed (c : ExcClass) :
    ∀ c' ∈ c.mro, ∀ p, c'.parent = some p → p ∈ c.mro := by
  cases c <;> simp [ExcClass.mro, ExcClass.parent]

namespace PyException

/-- `cls(message)`. -/
def ofClass (cls : ExcClass) (message : String) : PyException :=
  ⟨cls.mro, message, cls.mro_closed⟩

/-- `isinstance(error, classes)`. -/
def isInstance (e : PyException) (classes : List ExcClass) : Bool :=
  classes.any fun c => decide (c ∈ e.mro)

theorem isInstance_iff (e : PyException) (classes : List ExcClass) :
    e.isInstance classes = true ↔ ∃ c ∈ classes, c ∈ e.mro := by
  simp [isInstance]

/-- `ValueError(message)`. -/
def valueError (message : String) : PyException := ofClass .valueError message

/-- `ValidationError(message)`. -/
def validationError (message : String) : PyException := ofClass .validationError message

/-- The `KeyError` of a subscript with a missing key. -/
def keyError (key : String) : PyException := ofClass .keyError key

/-- `FileNotFoundError` for the path. -/
def fileNotFound (path : String) : PyException := ofClass .fileNotFoundError path

/-- `IsADirectoryError` for the path, an `OSError`. -/
def isADirectory (path : String) : PyException where
  mro := [.other "IsADirectoryError", .osError, .exception]
  message := path
  closed := by simp [ExcClass.parent]

end PyException

end FlatpakBlackbox
