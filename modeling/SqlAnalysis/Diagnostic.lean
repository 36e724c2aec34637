/-!
# Diagnostics

What the analysis reports when it refuses a statement.

* **`Diagnostic.message`**: the text as shown; two conditions announce themselves in front of it.
-/

namespace SqlAnalysis

/-- The kinds of refusal. -/
inductive Condition where
  | undefinedTable
  | undefinedColumn
  | undefinedFunction
  | undefinedObject
  | undefinedParameter
  | duplicateAlias
  | duplicateObject
  | ambiguousColumn
  | datatypeMismatch
  | numericValueOutOfRange
  | schemaMismatch
  | invalidForeignKey
  | syntaxError
  | featureNotSupported
  | notImplemented
  | internal
  deriving DecidableEq, Repr, Inhabited

namespace Condition

def name : Condition → String
  | .undefinedTable => "UndefinedTable"
  | .undefinedColumn => "UndefinedColumn"
  | .undefinedFunction => "UndefinedFunction"
  | .undefinedObject => "UndefinedObject"
  | .undefinedParameter => "UndefinedParameter"
  | .duplicateAlias => "DuplicateAlias"
  | .duplicateObject => "DuplicateObject"
  | .ambiguousColumn => "AmbiguousColumn"
  | .datatypeMismatch => "DatatypeMismatch"
  | .numericValueOutOfRange => "NumericValueOutOfRange"
  | .schemaMismatch => "SchemaMismatch"
  | .invalidForeignKey => "InvalidForeignKey"
  | .syntaxError => "SyntaxError"
  | .featureNotSupported => "FeatureNotSupported"
  | .notImplemented => "NotImplemented"
  | .internal => "Internal"

def sqlState : Condition → String
  | .undefinedTable => "42P01"
  | .undefinedColumn => "42703"
  | .undefinedFunction => "42883"
  | .undefinedObject => "42704"
  | .undefinedParameter => "42P02"
  | .duplicateAlias => "42712"
  | .duplicateObject => "42710"
  | .ambiguousColumn => "42702"
  | .datatypeMismatch => "42804"
  | .numericValueOutOfRange => "22003"
  | .schemaMismatch => "42P18"
  | .invalidForeignKey => "42830"
  | .syntaxError => "42601"
  | .featureNotSupported => "0A000"
  | .notImplemented => "XX000"
  | .internal => "XX000"

def label (c : Condition) : String := s!"{c.name} ({c.sqlState})"

def announcement : Condition → String
  | .notImplemented => "Not implemented: "
  | .internal => "Internal error: "
  | _ => ""

end Condition

/-- A refusal: its kind and what is wrong. -/
structure Diagnostic where
  condition : Condition
  detail : String
  deriving DecidableEq, Repr, Inhabited

namespace Diagnostic

def message (d : Diagnostic) : String := d.condition.announcement ++ d.detail

def isMissingObject (d : Diagnostic) : Bool :=
  d.condition == .undefinedTable || d.condition == .undefinedObject

end Diagnostic

/-- Why a computation over a statement and its expressions ended without a result. -/
inductive Fault where
  /-- The statement is refused. -/
  | refused (d : Diagnostic)
  /-- An expression number without a node was met. -/
  | dangling (id : Nat)
  /-- The expressions nest deeper than their number allows, so they run in a circle. -/
  | circular
  deriving DecidableEq, Repr, Inhabited

end SqlAnalysis
