import SqlAnalysis.Expr.Arena
import SqlAnalysis.Text.Lowercase

/-!
# Table schemas

* **`Schema`**: the columns of a table in order of declaration.
-/

namespace SqlAnalysis

/-- A column of a table. -/
structure Column where
  name : String
  type : SqlType
  nullable : Bool := true
  id : Oid := Oid.invalid
  default : Option StoredExpr := none
  deriving Inhabited

def Column.declare (name : String) (type : SqlType) : Column :=
  { name := Text.lowercase name, type := type }

abbrev Schema := List Column

namespace Schema

def column? (s : Schema) (name : String) : Option Column := s.find? (·.name == name)

def hasColumn (s : Schema) (name : String) : Bool := (column? s name).isSome

def number (s : Schema) : Schema := s.mapIdx fun i c => { c with id := i + 1 }

end Schema

end SqlAnalysis
