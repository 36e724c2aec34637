import SqlAnalysis.Calendar.Timestamp
import SqlAnalysis.Numeric.Decimal
import SqlAnalysis.SqlType

/-!
# Literal values

* **`Value.text`**: a literal as it is shown in messages and expressions.
-/

namespace SqlAnalysis

/-- The widths of whole numbers. -/
inductive IntWidth where
  | tiny
  | small
  | regular
  | big
  deriving DecidableEq, Repr, Inhabited

namespace IntWidth

/-- The first number beyond the range of the width; the smallest number in it is the negative of
this one. -/
def bound : IntWidth → Int
  | .tiny => 128
  | .small => 32768
  | .regular => 2147483648
  | .big => 9223372036854775808

def holds (w : IntWidth) (n : Int) : Bool :=
  decide (-w.bound ≤ n) && decide (n < w.bound)

def sqlType : IntWidth → SqlType
  | .tiny => .tinyInt
  | .small => .smallInt
  | .regular => .integer
  | .big => .bigInt

end IntWidth

/-- A literal value, carried by constants and parameters. -/
inductive Value where
  | null
  | boolean (b : Bool)
  | integral (width : IntWidth) (n : Int) (fits : width.holds n = true)
  | double (x : Double)
  | decimal (d : Decimal)
  | varchar (s : String)
  | date (d : Date)
  | timestamp (t : Timestamp)
  deriving DecidableEq, Repr, Inhabited

namespace Value

def ofInt? (w : IntWidth) (n : Int) : Option Value :=
  if h : w.holds n = true then some (.integral w n h) else none

/-- A whole number in the narrower of the two widths INTEGER and BIGINT that holds it. -/
def ofInt (n : Int) : Option Value := (ofInt? .regular n).or (ofInt? .big n)

def isNull : Value → Bool
  | .null => true
  | _ => false

def asInt? : Value → Option Int
  | .integral _ n _ => some n
  | _ => none

/-- The natural type of a literal: a decimal has as many digits and places as are written. -/
def sqlType : Value → SqlType
  | .null => .invalid
  | .boolean _ => .boolean
  | .integral w _ _ => w.sqlType
  | .double _ => .double
  | .decimal d => .decimal (max (max d.digitCount d.places) 1) d.places
  | .varchar _ => .varchar
  | .date _ => .date
  | .timestamp _ => .timestamp

def text : Value → String
  | .null => "NULL"
  | .boolean b => if b then "true" else "false"
  | .integral _ n _ => Text.intText n
  | .double x => x.text
  | .decimal d => d.text
  | .varchar s => "'" ++ s ++ "'"
  | .date d => "'" ++ d.text ++ "'"
  | .timestamp t => "'" ++ t.text ++ "'"

instance : ToString Value := ⟨text⟩

/-- Equality of literals: numbers with a fraction are compared by their value. -/
def same : Value → Value → Bool
  | .double x, .double y => x.same y
  | .decimal x, .decimal y => x.same y
  | x, y => x == y

end Value

end SqlAnalysis
