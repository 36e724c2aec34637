import SqlAnalysis.Diagnostic

/-!
# SQL types

* **`SqlType.implicitlyCasts`, `SqlType.explicitlyCasts`**: which conversions happen unasked, and
  which a `CAST` may ask for.
* **`SqlType.common`**: the type in which two operands are compared or combined.
* **`SqlType.decimal?`**: a decimal type with checked precision and scale.
-/

namespace SqlAnalysis

/-- A type of the SQL level. -/
inductive SqlType where
  /-- No type: an untyped NULL, an expression not yet bound, or the absence of a wish. -/
  | invalid
  | boolean
  | tinyInt
  | smallInt
  | integer
  | bigInt
  | double
  | decimal (precision scale : Nat)
  | varchar
  | date
  | timestamp
  deriving DecidableEq, Repr, Inhabited

def maxDecimalPrecision : Nat := 28

namespace SqlType

def isValid (t : SqlType) : Bool := t != .invalid

def isIntegral : SqlType → Bool
  | .tinyInt | .smallInt | .integer | .bigInt => true
  | _ => false

def isNumeric : SqlType → Bool
  | .tinyInt | .smallInt | .integer | .bigInt | .double | .decimal .. => true
  | _ => false

def isTemporal : SqlType → Bool
  | .date | .timestamp => true
  | _ => false

def text : SqlType → String
  | .invalid => "INVALID"
  | .boolean => "BOOLEAN"
  | .tinyInt => "TINYINT"
  | .smallInt => "SMALLINT"
  | .integer => "INTEGER"
  | .bigInt => "BIGINT"
  | .double => "DOUBLE"
  | .decimal precision scale => s!"DECIMAL({precision},{scale})"
  | .varchar => "VARCHAR"
  | .date => "DATE"
  | .timestamp => "TIMESTAMP"

instance : ToString SqlType := ⟨text⟩

def numericRank : SqlType → Nat
  | .tinyInt => 0
  | .smallInt => 1
  | .integer => 2
  | .bigInt => 3
  | .decimal .. => 4
  | .double => 5
  | _ => 0

def decimal? (precision scale : Nat) : Except Diagnostic SqlType :=
  if precision = 0 || maxDecimalPrecision < precision then
    .error ⟨.numericValueOutOfRange,
      s!"DECIMAL precision {precision} must be between 1 and {maxDecimalPrecision}"⟩
  else if precision < scale then
    .error ⟨.numericValueOutOfRange, s!"DECIMAL scale {scale} must not exceed precision {precision}"⟩
  else
    .ok (.decimal precision scale)

/-- Conversions between different types that happen unasked: an untyped NULL to anything, numbers to
wider numbers, dates to timestamps, and anything to text. -/
def widens : SqlType → SqlType → Bool
  | .invalid, _ => true
  | .tinyInt, .smallInt | .tinyInt, .integer | .tinyInt, .bigInt | .tinyInt, .double
  | .tinyInt, .decimal .. => true
  | .smallInt, .integer | .smallInt, .bigInt | .smallInt, .double | .smallInt, .decimal .. => true
  | .integer, .bigInt | .integer, .double | .integer, .decimal .. => true
  | .bigInt, .double | .bigInt, .decimal .. => true
  | .decimal .., .double | .decimal .., .decimal .. => true
  | .date, .timestamp => true
  | _, .varchar => true
  | _, _ => false

/-- Whether a value of the first type may stand where the second is expected. -/
def implicitlyCasts (a b : SqlType) : Bool := a == b || a.widens b

def narrows : SqlType → SqlType → Bool
  | .boolean, .integer | .integer, .boolean => true
  | .timestamp, .date => true
  | .varchar, _ => true
  | a, b => a.isNumeric && b.isNumeric

def explicitlyCasts (a b : SqlType) : Bool := a.implicitlyCasts b || a.narrows b

/-- The smallest type in which operands of both types can be compared or combined. -/
def common? (a b : SqlType) : Option SqlType :=
  if a = b then
    some a
  else
    match a, b with
    | .invalid, t => some t
    | t, .invalid => some t
    | .decimal p s, .decimal q t => some (.decimal (max p q) (max s t))
    | .date, .timestamp => some .timestamp
    | .timestamp, .date => some .timestamp
    | a, b =>
      if a.isNumeric && b.isNumeric then
        some (if b.numericRank ≤ a.numericRank then a else b)
      else if a = .varchar && b.isTemporal then
        some b
      else if b = .varchar && a.isTemporal then
        some a
      else
        none

def common (a b : SqlType) : Except Diagnostic SqlType :=
  match a.common? b with
  | some t => .ok t
  | none => .error ⟨.datatypeMismatch, s!"operator does not exist: {a} = {b}"⟩

end SqlType

end SqlAnalysis
