import SqlAnalysis.Binding.Change
import SqlAnalysis.Statement.Dropped

/-!
# Binding CREATE, DROP and ANALYZE

* **`bindCreation`**: what a CREATE statement creates, with names in lower case, the object's name
  not taken and the expressions bound.
* **`bindDrop`**: requires the object to be there.
* **`bindAnalyze`**: finds the table and its columns.
-/

namespace SqlAnalysis

open Text BindM

def oldRowName : String := "old"

def newRowName : String := "new"

def checkRelationFree (env : Accessor) (name : ObjectName) : Except Diagnostic Unit :=
  if (env.tableId? name).isSome || (env.viewId? name).isSome then
    .error (Catalog.duplicate "relation" name.name)
  else
    .ok ()

def checkNewColumns (seen : List String) : List ColumnDef → Except Diagnostic (List ColumnDef)
  | [] => .ok []
  | column :: rest =>
    let column := { column with name := lowercase column.name }
    if seen.contains column.name then
      .error (repeatedColumn column.name)
    else
      (checkNewColumns (column.name :: seen) rest).map (column :: ·)

def bindBoolean (rec : Recur) (clause : String) (id : ExprId) : BindM Unit := do
  expectBooleanLiteral id
  rec.expr id
  requireBoolean id clause
  finishExpr id

def bindColumnDef (rec : Recur) (column : ColumnDef) : BindM Unit := do
  column.default.toList.forM fun value => do
    expect value column.type
    bindItem rec value
  column.check.toList.forM (bindBoolean rec "CHECK")

def noKeyColumn (column : String) : Diagnostic :=
  ⟨.invalidForeignKey, s!"column \"{column}\" referenced in foreign key constraint does not exist"⟩

def checkKeyPair (columns : List ColumnDef) (schema : Schema) (source target : String) :
    Except Diagnostic Unit :=
  match columns.find? (·.name == source) with
  | none => .error (noKeyColumn source)
  | some s =>
    match schema.column? target with
    | none => .error (noKeyColumn target)
    | some t =>
      if s.type = t.type then
        .ok ()
      else
        .error ⟨.invalidForeignKey,
          s!"foreign key constraint cannot be implemented: key columns \"{source}\" and " ++
            s!"\"{target}\" are of incompatible types: {s.type} and {t.type}"⟩

/-- The foreign key in lower case, checked against the new columns and the referenced table. -/
def checkForeignKey (env : Accessor) (columns : List ColumnDef) (key : ForeignKey) :
    Except Diagnostic ForeignKey := do
  let table := key.table.normalize
  let (_, schema) ← env.requireTable table
  if key.columns.length ≠ key.references.length then
    .error ⟨.invalidForeignKey,
      "number of referencing and referenced columns for foreign key disagree"⟩
  else
    let sources := key.columns.map lowercase
    let targets := key.references.map lowercase
    (sources.zip targets).forM fun (source, target) => checkKeyPair columns schema source target
    .ok { columns := sources, table := table, references := targets }

/-- Binds CREATE TABLE.  The new table is visible to its own CHECK constraints. -/
def bindNewTable (env : Accessor) (rec : Recur) (name : ObjectName) (columns : List ColumnDef)
    (keys : List ForeignKey) : BindM Creation := do
  let name := name.normalize
  ofExcept (checkDatabase env name.database)
  ofExcept (checkRelationFree env name)
  let columns ← ofExcept (checkNewColumns [] columns)
  let knownAs ← registerAlias { name := name.name }
  let visible ← columns.mapM fun column => do
    let knownAs : Alias := { name := column.name, serial := some (← takeSerial) }
    pure ({ knownAs := knownAs, type := column.type } : DerivedColumn)
  modifyScope (·.addTable knownAs (.derived visible))
  columns.forM (bindColumnDef rec)
  let keys ← keys.mapM fun key => ofExcept (checkForeignKey env columns key)
  pure (.table name columns keys)

/-- Makes the table of an index or trigger visible and gives its checked name. -/
def bindOwner (env : Accessor) (table : ObjectName) : BindM ObjectName := do
  let base ← bindBaseTable env false { name := table, knownAs := { name := table.name } }
  pure base.name

def bindIndexKey (rec : Recur) (schema : Schema) : IndexKey → BindM IndexKey
  | .column name => do
    let name := lowercase name
    if schema.hasColumn name then
      pure (.column name)
    else
      throw (.refused (missingColumn name))
  | .expression id => do
    bindItem rec id
    pure (.expression id)

def bindNewIndex (env : Accessor) (rec : Recur) (name : String) (table : ObjectName)
    (keys : List IndexKey) (unique : Bool) : BindM Creation := do
  let name := lowercase name
  let table ← bindOwner env table
  if (env.indexId? { table with name := name }).isSome then
    throw (.refused (Catalog.duplicate "relation" name))
  else
    let (_, schema) ← ofExcept (env.requireTable table)
    let keys ← keys.mapM (bindIndexKey rec schema)
    pure (.index name table keys unique)

def addRow (env : Accessor) (table : Oid × Schema) (name : String) : BindM Unit := do
  let knownAs ← registerAlias { name := name }
  addRegularTable env knownAs table

/-- Binds CREATE TRIGGER.  Its condition sees the affected row before and after the change. -/
def bindNewTrigger (env : Accessor) (rec : Recur) (t : Trigger) : BindM Creation := do
  let name := lowercase t.name
  let table ← bindOwner env t.table
  if (env.triggerId? { table with name := name }).isSome then
    refuse .duplicateObject s!"trigger \"{name}\" for relation \"{table.name}\" already exists"
  else
    let row ← ofExcept (env.requireTable table)
    addRow env row oldRowName
    addRow env row newRowName
    t.condition.toList.forM (bindBoolean rec "WHEN")
    pure (.trigger { t with name := name, table := table })

def bindCreation (env : Accessor) (rec : Recur) : Creation → BindM Creation
  | .database name => do
    let name := lowercase name
    if (env.databaseIdOf? name).isSome then
      throw (.refused (Catalog.duplicate "database" name))
    else
      pure (.database name)
  | .schema name => do
    let name := lowercase name
    if (env.namespaceIdOf? name).isSome then
      throw (.refused (Catalog.duplicate "schema" name))
    else
      pure (.schema name)
  | .table name columns keys => bindNewTable env rec name columns keys
  | .index name table keys unique => bindNewIndex env rec name table keys unique
  | .trigger t => bindNewTrigger env rec t
  | .view name query => do
    let name := name.normalize
    ofExcept (checkDatabase env name.database)
    ofExcept (checkRelationFree env name)
    let query ← rec.query query
    pure (.view name query)

def bindDrop (env : Accessor) (drop : Drop) : Except Diagnostic Drop := do
  let drop := { drop with target := drop.target.normalize }
  if drop.kind = .table then
    checkDatabase env drop.target.database
  if (drop.objectId? env).isSome then .ok drop else .error drop.missing

def analyzedColumn (schema : Schema) (table : String) (name : String) :
    Except Diagnostic (String × Oid) :=
  (requireColumn schema table (lowercase name)).map fun column => (lowercase name, column.id)

def bindAnalyze (env : Accessor) (analyze : Analyze) : Except Diagnostic Analyze :=
  match analyze.table with
  | none => .error ⟨.syntaxError, "ANALYZE requires a table"⟩
  | some table => do
    let table := table.normalize
    checkDatabase env table.database
    let (id, schema) ← env.requireTable table
    let columns ← analyze.columns.mapM (analyzedColumn schema table.name)
    let ids := if columns.isEmpty then schema.map (·.id) else columns.map (·.2)
    .ok { table := some table, columns := columns.map (·.1), databaseId := env.databaseId,
          tableId := id, columnIds := ids }

end SqlAnalysis
