import SqlAnalysis.Expr.Arena

/-!
# Statements
-/

namespace SqlAnalysis

/-- Where the rows of an INSERT come from. -/
inductive InsertSource where
  | values (rows : List (List ExprId))
  | query (select : Select)
  deriving BEq

/-- INSERT. -/
structure Insert where
  table : BaseTable
  /-- The target columns; all columns of the table once the statement is bound. -/
  columns : List String
  source : InsertSource
  deriving BEq

/-- An assignment of an UPDATE. -/
structure Assignment where
  column : String
  value : ExprId
  deriving DecidableEq

/-- UPDATE. -/
structure Update where
  table : BaseTable
  assignments : List Assignment
  filter : Option ExprId
  deriving DecidableEq

/-- DELETE. -/
structure Delete where
  table : BaseTable
  filter : Option ExprId
  deriving DecidableEq

/-- A column of CREATE TABLE. -/
structure ColumnDef where
  name : String
  type : SqlType
  nullable : Bool
  default : Option ExprId := none
  check : Option ExprId := none
  deriving DecidableEq, Inhabited

/-- A foreign key of CREATE TABLE. -/
structure ForeignKey where
  columns : List String
  table : ObjectName
  references : List String
  deriving DecidableEq

/-- A key of an index: a column or an expression. -/
inductive IndexKey where
  | column (name : String)
  | expression (id : ExprId)
  deriving DecidableEq

/-- When a trigger fires. -/
inductive TriggerTiming where
  | before
  | after
  | insteadOf
  deriving DecidableEq

/-- What a trigger fires on. -/
inductive TriggerEvent where
  | insert
  | update
  | delete
  deriving DecidableEq

/-- CREATE TRIGGER. -/
structure Trigger where
  name : String
  table : ObjectName
  condition : Option ExprId
  function : String
  args : List String
  columns : List String
  timing : TriggerTiming
  events : List TriggerEvent
  deriving DecidableEq

/-- What a CREATE statement creates. -/
inductive Creation where
  | database (name : String)
  | schema (name : String)
  | table (name : ObjectName) (columns : List ColumnDef) (foreignKeys : List ForeignKey)
  | index (name : String) (table : ObjectName) (keys : List IndexKey) (unique : Bool)
  | trigger (trigger : Trigger)
  | view (name : ObjectName) (query : Select)
  deriving BEq

/-- The kinds of object that DROP removes. -/
inductive DropKind where
  | database
  | schema
  | table
  | index
  | trigger
  | view
  deriving DecidableEq

/-- DROP.  Databases and schemas use the plain name of the target only. -/
structure Drop where
  kind : DropKind
  target : ObjectName
  ifExists : Bool
  deriving DecidableEq

/-- ANALYZE; without written columns it means all of them. -/
structure Analyze where
  table : Option ObjectName
  columns : List String
  databaseId : Oid := Oid.invalid
  tableId : Oid := Oid.invalid
  columnIds : List Oid := []
  deriving DecidableEq

/-- A statement. -/
inductive Statement where
  | select (query : Select)
  | insert (insert : Insert)
  | update (update : Update)
  | delete (delete : Delete)
  | create (ifNotExists : Bool) (creation : Creation)
  | drop (drop : Drop)
  | analyze (analyze : Analyze)
  | explain (inner : Statement)
  deriving BEq

namespace Statement

def keyword : Statement → String
  | .select _ => "SELECT"
  | .insert _ => "INSERT"
  | .update _ => "UPDATE"
  | .delete _ => "DELETE"
  | .create .. => "CREATE"
  | .drop _ => "DROP"
  | .analyze _ => "ANALYZE"
  | .explain _ => "EXPLAIN"

def isDefinition : Statement → Bool
  | .create .. | .drop _ => true
  | _ => false

def weight : Statement → Nat
  | .select query => query.weight
  | .insert i =>
    match i.source with
    | .query query => query.weight
    | .values _ => 1
  | .create _ (.view _ query) => query.weight
  | .explain inner => 1 + inner.weight
  | _ => 1

end Statement

/-- A statement and its expressions. -/
structure Parsed where
  statement : Statement
  exprs : Arena

/-- A bound statement: names resolved, types known. -/
structure Bound where
  statement : Statement
  exprs : Arena
  parameterTypes : List SqlType

namespace Bound

def toParsed (b : Bound) : Parsed := ⟨b.statement, b.exprs⟩

def same (b c : Bound) : Bool :=
  b.statement == c.statement && b.exprs.same c.exprs && b.parameterTypes == c.parameterTypes

end Bound

end SqlAnalysis
