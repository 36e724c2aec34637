import SqlAnalysis.Plan.Query
import SqlAnalysis.Statement.Dropped

/-!
# Plans of statements

* **`lower`**: the plan of a bound statement, with the statement as the building of the plan leaves
  it: subqueries in conditions become joins, and the conditions are changed accordingly.
-/

namespace SqlAnalysis

open LowerM

/-- Refuses a row with the wrong number of values, or with NULL for a column that does not take
it. -/
def checkRow (a : Arena) (columns : List Column) (row : List ExprId) : Except Diagnostic Unit :=
  if columns.length < row.length then
    .error ⟨.syntaxError, "INSERT has more expressions than target columns"⟩
  else if row.length < columns.length then
    .error ⟨.syntaxError, "INSERT has more target columns than expressions"⟩
  else
    match (row.zip columns).find? fun (value, column) => !column.nullable && (a.expr value).isNull with
    | some (_, column) => .error (nullInColumn column.name)
    | none => .ok ()

def lowerInsert (env : Accessor) (query : LowerQuery) (insert : Insert) : LowerM Plan := do
  let name := insert.table.name
  let table ← ofExcept (planTable env name)
  let schema ← ofExcept (env.requireSchema table.tableId)
  let columns ← ofExcept (insert.columns.mapM (requireColumn schema name.name))
  match insert.source with
  | .values rows => do
    let a ← exprs rows.flatten
    rows.forM fun row => ofExcept (checkRow a columns row)
    pure (.insert table (columns.map (·.id)) rows)
  | .query q => do
    ofExcept (checkRow (← exprs q.items) columns q.items)
    pure (.insertSelect table (← query [] q))

/-- The scan of the table that an UPDATE or DELETE changes, with its condition. -/
def targetScan (env : Accessor) (a : Arena) (keyword : String) (base : BaseTable)
    (filter : Option ExprId) : Except Diagnostic Get := do
  let table ← planTable env base.name
  let scan : Get := { table := table, knownAs := base.knownAs, forUpdate := true }
  match filter with
  | none => .ok scan
  | some id =>
    if (a.node id).hasSubquery then
      .error ⟨.notImplemented, s!"subqueries in {keyword} WHERE clauses are not supported"⟩
    else
      .ok { scan with predicates := a.predicates id }

def lowerUpdate (env : Accessor) (a : Arena) (update : Update) : Except Diagnostic Plan := do
  let scan ← targetScan env a "UPDATE" update.table update.filter
  let schema ← env.requireSchema scan.table.tableId
  let updates ← update.assignments.mapM fun assignment =>
    match schema.column? assignment.column with
    | some column => .ok (column.id, assignment.value)
    | none => .error (missingColumn assignment.column)
  .ok (.update scan.table scan.knownAs updates (.get scan))

def lowerDelete (env : Accessor) (a : Arena) (delete : Delete) : Except Diagnostic Plan := do
  let scan ← targetScan env a "DELETE" delete.table delete.filter
  .ok (.delete scan.table scan.knownAs (.get scan))

def indexColumn (env : Accessor) (table : ObjectName) (tableId : Oid) (schema : Schema)
    (name : String) : LowerM ExprId := do
  match schema.column? name with
  | none => throw (.refused (missingColumn name))
  | some column =>
    let ref : ColumnRef :=
      { table := some { name := table.name }, column := column.name, databaseId := env.databaseId,
        tableId := tableId, columnId := column.id }
    modifyGet fun s =>
      let (id, exprs) := s.exprs.push
        { kind := .column ref, type := column.type, depth := some 0, name := column.name }
      (id, { s with exprs := exprs })

def lowerIndex (env : Accessor) (name : String) (table : ObjectName) (keys : List IndexKey)
    (unique : Bool) : LowerM Plan := do
  let tableId ← ofExcept (env.requireTableId table)
  let schema ← ofExcept (env.requireSchema tableId)
  let keys ← keys.mapM fun key =>
    match key with
    | .expression id => pure id
    | .column column => indexColumn env table tableId schema column
  let namespaceId ← ofExcept (env.requireNamespace table)
  pure (.createIndex namespaceId tableId name unique keys)

def lowerTrigger (env : Accessor) (t : Trigger) : Except Diagnostic Plan := do
  let tableId ← env.requireTableId t.table
  let schema ← env.requireSchema tableId
  let columns ← t.columns.mapM fun name => requireColumn schema t.table.name (Text.lowercase name)
  let namespaceId ← env.requireNamespace t.table
  .ok (.createTrigger
    { namespaceId := namespaceId, tableId := tableId, name := t.name, condition := t.condition,
      function := t.function, args := t.args, columnIds := columns.map (·.id), timing := t.timing,
      events := t.events })

def lowerCreation (env : Accessor) : Creation → LowerM Plan
  | .database name => pure (.createDatabase name)
  | .schema name => pure (.createNamespace name)
  | .table name columns keys => do
    pure (.createTable (← ofExcept (env.requireNamespace name)) name.name columns keys)
  | .index name table keys unique => lowerIndex env name table keys unique
  | .trigger t => ofExcept (lowerTrigger env t)
  | .view name query => do
    pure (.createView (← ofExcept (env.requireNamespace name)) name.name query)

def lowerDrop (env : Accessor) (drop : Drop) : Except Diagnostic Plan :=
  match drop.objectId? env with
  | some id => .ok (.drop ⟨drop.kind, id⟩ drop.ifExists)
  | none => .error drop.missing

def lowerAnalyze (env : Accessor) (analyze : Analyze) : Except Diagnostic Plan :=
  match analyze.table with
  | none => .error ⟨.syntaxError, "ANALYZE requires a table"⟩
  | some table => do
    let namespaceId ← env.requireNamespace table
    let scan : Get :=
      { table := ⟨analyze.databaseId, namespaceId, analyze.tableId⟩
        knownAs := { name := table.name } }
    .ok (.analyze analyze.databaseId analyze.tableId analyze.columnIds (.aggregate [] (.get scan)))

def lowerStatementWith (env : Accessor) (query : LowerQuery) : Statement → LowerM Plan
  | .select q => query [] q
  | .insert insert => lowerInsert env query insert
  | .update update => do ofExcept (lowerUpdate env (← exprs update.filter.toList) update)
  | .delete delete => do ofExcept (lowerDelete env (← exprs delete.filter.toList) delete)
  | .create _ creation => lowerCreation env creation
  | .drop drop => ofExcept (lowerDrop env drop)
  | .analyze analyze => ofExcept (lowerAnalyze env analyze)
  | .explain inner => do pure (.explain (← lowerStatementWith env query inner))

def lowerLevels (b : Bound) : Nat := b.exprs.weight + b.statement.weight + 2

/-- What the building of a plan leaves. -/
structure LowerOutcome where
  result : Except Fault Plan
  /-- The statement with its changed conditions, also after a failure. -/
  bound : Bound
  nextTemp : Nat

def lower (env : Accessor) (b : Bound) : LowerOutcome :=
  let start : LowerState := { exprs := b.exprs, nextTemp := env.catalog.nextTemp }
  match lowerStatementWith env (lowerQuery env (lowerLevels b)) b.statement start with
  | .ok plan s =>
    { result := .ok plan, bound := { b with exprs := s.exprs }, nextTemp := s.nextTemp }
  | .error fault s =>
    { result := .error fault, bound := { b with exprs := s.exprs }, nextTemp := s.nextTemp }

end SqlAnalysis
