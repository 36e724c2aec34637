/-!
# Names of tables
-/

namespace SqlAnalysis

/-- The name of a table reference.  Two aliases mean the same reference only if their serials
agree. -/
structure Alias where
  name : String
  serial : Option Nat := none
  deriving DecidableEq, Repr, Inhabited

def Alias.text (a : Alias) : String :=
  match a.serial with
  | some n => s!"{a.name}#{n}"
  | none => a.name

def Alias.le (a b : Alias) : Bool :=
  if a.name = b.name then
    match a.serial, b.serial with
    | none, _ => true
    | some _, none => false
    | some m, some n => decide (m ≤ n)
  else
    decide (a.name < b.name)

/-- The possibly qualified name of a catalog object. -/
structure ObjectName where
  database : Option String := none
  schema : Option String := none
  name : String
  deriving DecidableEq, Repr, Inhabited

def ObjectName.text (n : ObjectName) : String :=
  (n.database.map (· ++ ".")).getD "" ++ (n.schema.map (· ++ ".")).getD "" ++ n.name

/-- A table named in FROM or targeted by a change. -/
structure BaseTable where
  name : ObjectName
  knownAs : Alias
  deriving DecidableEq, Repr, Inhabited

end SqlAnalysis
