import SqlAnalysis.Binding.Query
import SqlAnalysis.Statement.Basic

/-!
# Binding INSERT, UPDATE and DELETE

* **`bindInsert`**: puts every row into the order of the table's columns, with defaults for the
  columns that are left out.
* **`bindUpdate`**, **`bindDelete`**: bind the condition and the assigned values.
-/

namespace SqlAnalysis

open Text BindM

def bindTarget (env : Accessor) (table : BaseTable) : BindM (BaseTable × Schema) := do
  let table ← bindBaseTable env false table
  match (← currentScope).table? table.knownAs.name with
  | some ⟨_, .regular _ _ schema⟩ => pure (table, schema)
  | _ => refuse .internal s!"target table {table.name.text} is not a base table"

def repeatedColumn (column : String) : Diagnostic :=
  ⟨.duplicateObject, s!"column \"{column}\" specified more than once"⟩

/-- The column names in lower case, each a column of the table and none twice. -/
def checkColumns (schema : Schema) (table : String) (seen : List String) :
    List String → Except Diagnostic (List String)
  | [] => .ok []
  | column :: rest =>
    let column := lowercase column
    if !schema.hasColumn column then
      .error (noSuchColumn column table)
    else if seen.contains column then
      .error (repeatedColumn column)
    else
      (checkColumns schema table (column :: seen) rest).map (column :: ·)

/-- The value of a column that is left out: a copy of its default, or NULL if the column takes
it. -/
def columnDefault (column : Column) : BindM ExprId :=
  match column.default with
  | some stored => onExprs (Arena.importTree stored.arena stored.root)
  | none =>
    if column.nullable then
      pushNode { ExprNode.ofExpr (.constant .null) with type := column.type }
    else
      throw (.refused (nullInColumn column.name))

/-- The expression inside an outer cast, whose target must be the type of the column. -/
def stripCast (column : Column) (value : ExprId) : BindM ExprId := do
  match ← exprOf value with
  | .cast target operand =>
    if target = column.type then
      pure operand
    else
      refuse .numericValueOutOfRange
        s!"cast to {target} does not match column \"{column.name}\" of type {column.type}"
  | _ => pure value

/-- Binds a value as the new content of a column and gives the expression to store. -/
def coerceToColumn (rec : Recur) (value : ExprId) (column : Column) : BindM ExprId := do
  let value ← match ← exprOf value with
    | .default => columnDefault column
    | _ => pure value
  let value ← stripCast column value
  expect value column.type
  bindItem rec value
  pure value

/-- The place of a column in a row: by the column list, or by the schema if there is none. -/
def insertPosition (columns : List String) (index : Nat) (column : Column) : Option Nat :=
  if columns.isEmpty then some index else columns.findIdx? (· == column.name)

def arrangeRowFrom (rec : Recur) (columns : List String) (row : List ExprId) :
    Nat → Schema → BindM (List ExprId)
  | _, [] => pure []
  | index, column :: rest => do
    let value ← match (insertPosition columns index column).bind (row[·]?) with
      | some value => pure value
      | none => columnDefault column
    let value ← coerceToColumn rec value column
    let values ← arrangeRowFrom rec columns row (index + 1) rest
    pure (value :: values)

/-- A row in the order of the schema, every value converted to the type of its column. -/
def arrangeRow (rec : Recur) (columns : List String) (schema : Schema) (row : List ExprId) :
    BindM (List ExprId) := do
  let expected := if columns.isEmpty then schema.length else columns.length
  if row.length = expected then
    arrangeRowFrom rec columns row 0 schema
  else
    refuse .syntaxError
      s!"mismatch in number of insert columns ({expected}) and insert values ({row.length})"

def bindInsertSource (rec : Recur) (columns : List String) (schema : Schema) :
    InsertSource → BindM InsertSource
  | .values rows => do pure (.values (← rows.mapM (arrangeRow rec columns schema)))
  | .query query => do
    let query ← rec.query query
    pure (.query { query with items := ← arrangeRow rec columns schema query.items })

def bindInsert (env : Accessor) (rec : Recur) (insert : Insert) : BindM Insert := do
  let (table, schema) ← bindTarget env insert.table
  let columns ← ofExcept (checkColumns schema table.name.name [] insert.columns)
  let source ← bindInsertSource rec columns schema insert.source
  pure { table := table, columns := schema.map (·.name), source := source }

def bindAssignment (rec : Recur) (schema : Schema) (table : String) (assignment : Assignment) :
    BindM Assignment := do
  let name := lowercase assignment.column
  let column ← ofExcept (requireColumn schema table name)
  let value ← coerceToColumn rec assignment.value column
  pure { column := name, value := value }

def bindUpdate (env : Accessor) (rec : Recur) (update : Update) : BindM Update := do
  let (table, schema) ← bindTarget env update.table
  update.filter.toList.forM (bindPredicate rec "WHERE")
  let assignments ← update.assignments.mapM (bindAssignment rec schema table.name.name)
  pure { update with table := table, assignments := assignments }

def bindDelete (env : Accessor) (rec : Recur) (delete : Delete) : BindM Delete := do
  let (table, _) ← bindTarget env delete.table
  delete.filter.toList.forM (bindPredicate rec "WHERE")
  pure { delete with table := table }

end SqlAnalysis
