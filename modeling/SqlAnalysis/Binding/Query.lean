import SqlAnalysis.Binding.Expression

/-!
# Binding queries

A query block is bound clause by clause: WITH, FROM, WHERE, GROUP BY and HAVING, the select list,
the further branches of its UNION, and ORDER BY at the end, where the select list is known.

* **`bindSource`**: makes the tables of a FROM item visible, from left to right.
* **`bindBranchWith`**, **`bindQueryWith`**: bind a query block in the current scope, or in a new
  one.
-/

namespace SqlAnalysis

open Text BindM

/-! ### Clauses -/

/-- Binds a condition of a clause, which is a truth value without aggregates. -/
def bindPredicate (rec : Recur) (clause : String) (id : ExprId) : BindM Unit := do
  expectBooleanLiteral id
  rec.expr id
  if (← get).exprs.hasAggregate id then
    refuse .syntaxError s!"aggregate functions are not allowed in {clause}"
  requireBoolean id clause
  finishExpr id

def bindItem (rec : Recur) (id : ExprId) : BindM Unit := do
  rec.expr id
  finishExpr id

def checkBounds (b : Bounds) : BindM Unit := do
  if b.limit.any (· < 0) then
    refuse .syntaxError "LIMIT must not be negative"
  if b.offset.any (· < 0) then
    refuse .syntaxError "OFFSET must not be negative"

def bindGrouping (rec : Recur) (g : Grouping) : BindM Unit := do
  g.keys.forM (bindItem rec)
  g.having.toList.forM fun having => do
    expectBooleanLiteral having
    bindItem rec having

/-! ### Tables -/

def ObjectName.normalize (n : ObjectName) : ObjectName :=
  { database := n.database.map lowercase
    schema := n.schema.map lowercase
    name := lowercase n.name }

/-- Refuses a database qualifier that does not name the session's own database. -/
def checkDatabase (env : Accessor) : Option String → Except Diagnostic Unit
  | none => .ok ()
  | some name =>
    match env.databaseIdOf? name with
    | none => .error ⟨.undefinedObject, s!"database \"{name}\" does not exist"⟩
    | some id =>
      if id = env.databaseId then
        .ok ()
      else
        .error ⟨.featureNotSupported, s!"cross-database references are not implemented: \"{name}\""⟩

def registerAlias (knownAs : Alias) : BindM Alias := do
  let serial ← match knownAs.serial with
    | some serial => pure serial
    | none => takeSerial
  let knownAs : Alias := { name := lowercase knownAs.name, serial := some serial }
  modifyScope fun scope => .ok (scope.registerAlias knownAs)
  pure knownAs

def addRegularTable (env : Accessor) (knownAs : Alias) (table : Oid × Schema) : BindM Unit :=
  modifyScope (·.addTable knownAs (.regular env.databaseId table.1 table.2))

/-- Makes a named table visible.  Where WITH entries are allowed, a name without qualifier that a
visible entry has means that entry and not the catalog's table. -/
def bindBaseTable (env : Accessor) (allowCte : Bool) (base : BaseTable) : BindM BaseTable := do
  let name := base.name.normalize
  ofExcept (checkDatabase env name.database)
  let knownAs ← registerAlias base.knownAs
  let scopes := (← get).scopes
  match if allowCte && name.schema.isNone then scopes.cte? name.name else none with
  | some columns => modifyScope (·.addTable knownAs (.derived columns))
  | none => do
    let table ← ofExcept (env.requireTable name)
    addRegularTable env knownAs table
  pure { name := name, knownAs := knownAs }

/-- The output columns of a derived table; the serials of their aliases number them. -/
def derivedColumn (id : ExprId) : BindM DerivedColumn := do
  let a := (← get).exprs
  let name := a.outputName id
  let serial ← match (a.node id).knownAs.bind (·.serial) with
    | some serial => pure serial
    | none => takeSerial
  let knownAs : Alias := { name := name, serial := some serial }
  modifyExprs (·.update id ({ · with knownAs := some knownAs }))
  pure { knownAs := knownAs, type := ← typeOf id }

mutual

def bindSource (env : Accessor) (rec : Recur) : TableRef → BindM TableRef
  | .table base => do pure (.table (← bindBaseTable env true base))
  | .derived query knownAs => do
    if knownAs.name.isEmpty then
      refuse .undefinedTable "alias not found for query derived table"
    else
      let knownAs ← registerAlias knownAs
      let query ← rec.query query
      let columns ← query.items.mapM derivedColumn
      modifyScope (·.addTable knownAs (.derived columns))
      pure (.derived query knownAs)
  | .join kind left right condition => do
    let left ← bindSource env rec left
    let right ← bindSource env rec right
    condition.toList.forM (bindPredicate rec "JOIN/ON")
    pure (.join kind left right condition)
  | .list items => do pure (.list (← bindSources env rec items))

def bindSources (env : Accessor) (rec : Recur) : List TableRef → BindM (List TableRef)
  | [] => pure []
  | item :: rest => do
    let item ← bindSource env rec item
    let rest ← bindSources env rec rest
    pure (item :: rest)

end

/-! ### WITH -/

/-- Names an output column of a WITH entry: by the alias given for it, or else by its own name.  A
given serial is kept. -/
def cteColumn (id : ExprId) (given : Option Alias) : BindM DerivedColumn := do
  let own := (← get).exprs.outputName id
  let name := match given with
    | some knownAs => if knownAs.name.isEmpty then own else lowercase knownAs.name
    | none => own
  let serial ← match given.bind (·.serial) with
    | some serial => pure serial
    | none => takeTemp
  let knownAs : Alias := { name := name, serial := some serial }
  modifyExprs fun a => ((a.update id ({ · with knownAs := some knownAs })).deriveName id).2
  pure { knownAs := knownAs, type := ← typeOf id }

def cteColumnsFrom : List ExprId → List Alias → BindM (List DerivedColumn)
  | [], _ => pure []
  | id :: ids, given => do
    let column ← cteColumn id given.head?
    let columns ← cteColumnsFrom ids given.tail
    pure (column :: columns)

/-- The output columns of a WITH entry, one for each entry of its select list. -/
def cteColumns (c : Cte) : BindM (List DerivedColumn) :=
  if c.query.items.length < c.columns.length then
    refuse .schemaMismatch
      (s!"WITH query {c.name} has {c.query.items.length} columns available but " ++
        s!"{c.columns.length} columns specified")
  else
    cteColumnsFrom c.query.items c.columns

def defineCte (c : Cte) : BindM Cte := do
  let columns ← cteColumns c
  modifyScope (·.addCte c.name columns)
  pure { c with columns := columns.map (·.knownAs) }

/-- Binds a WITH entry.  Of a recursive one the base case is bound first, alone: it fixes the
columns that the recursive part sees. -/
def bindCte (rec : Recur) (c : Cte) : BindM Cte := do
  let c : Cte := { c with name := lowercase c.name }
  if c.isInductive then
    let base ← rec.query { c.query with union := none }
    let c ← defineCte { c with query := { base with union := c.query.union } }
    let query ← rec.query c.query
    pure { c with query := query }
  else
    let query ← rec.query c.query
    defineCte { c with query := query }

/-! ### Select list -/

def ResolvedColumn.node (c : ResolvedColumn) : ExprNode :=
  { kind := .column c.ref, type := c.type, depth := some c.depth, name := c.column }

/-- The tables whose columns a star stands for: all of them, or the one it names. -/
def starTables (scope : Scope) (table : Option String) : Except Diagnostic (List ScopeTable) :=
  if scope.tables.isEmpty then
    .error starWithoutTables
  else
    match table with
    | none => .ok scope.tables
    | some name =>
      match scope.table? (lowercase name) with
      | some t => .ok [t]
      | none => .error (missingTable (lowercase name))

/-- Adds the columns that a star stands for, in FROM order and in the order of each table. -/
def expandStar (table : Option String) : BindM (List ExprId) := do
  let scope ← currentScope
  let tables ← ofExcept (starTables scope table)
  (tables.flatMap (·.columns scope.depth)).mapM fun c => pushNode c.node

/-- Binds an entry of a select list and gives the entries it stands for.  NULL that nothing is
expected of becomes a text. -/
def bindSelectItem (rec : Recur) (hasSource : Bool) (id : ExprId) : BindM (List ExprId) := do
  let star (table : Option String) : BindM (List ExprId) :=
    if hasSource then expandStar table else throw (.refused starWithoutTables)
  match ← exprOf id with
  | .star => star none
  | .tableStar table => star (some table)
  | e => do
    if e.isNull && !(← expectedOf id).isValid then
      expect id .varchar
    bindItem rec id
    pure [id]

/-! ### UNION and ORDER BY -/

/-- Refuses branches that differ in the number or in the types of their columns. -/
def checkUnionTypes (a : Arena) : List ExprId → List ExprId → Except Diagnostic Unit
  | l :: left, r :: right =>
    if a.typeOf l = a.typeOf r then
      checkUnionTypes a left right
    else
      .error ⟨.datatypeMismatch, s!"UNION types {a.typeOf l} and {a.typeOf r} cannot be matched"⟩
  | _, _ => .ok ()

def checkUnion (a : Arena) (left right : List ExprId) : Except Diagnostic Unit :=
  if left.length = right.length then
    checkUnionTypes a left right
  else
    .error ⟨.datatypeMismatch, "each UNION query must have the same number of columns"⟩

def sortPosition (v : Value) : Except Diagnostic Int :=
  match v with
  | .double x => .ok x.toInt64
  | .integral _ n _ => .ok n
  | _ => .error ⟨.undefinedColumn, s!"non-integer constant {v} in ORDER BY"⟩

/-- The expression that an ORDER BY item means: a position or an output name stands for an entry of
the select list, anything else for itself. -/
def sortTarget (a : Arena) (items : List ExprId) (id : ExprId) : Except Diagnostic ExprId :=
  match a.expr id with
  | .constant v => do
    let position ← sortPosition v
    let outside : Except Diagnostic ExprId :=
      .error ⟨.undefinedColumn, s!"ORDER BY position {Text.intText position} is not in select list"⟩
    if position < 1 then outside else (items[position.toNat - 1]?).elim outside .ok
  | .column ref =>
    if ref.table.isNone && !ref.isResolved then
      .ok ((items.find? (a.outputName · == lowercase ref.column)).getD id)
    else
      .ok id
  | _ => .ok id

def bindOrdering (rec : Recur) (items : List ExprId) (keys : List SortKey) : BindM (List SortKey) :=
  do
  let a := (← get).exprs
  let keys ← keys.mapM fun key => do
    pure { key with expr := ← ofExcept (sortTarget a items key.expr) }
  keys.forM fun key => bindItem rec key.expr
  pure keys

/-! ### Query blocks -/

def bindUnion (rec : Recur) (items : List ExprId) (depth : Nat) (right : Select) : BindM Select :=
  do
  let right ← inSibling (rec.branch right depth)
  ofExcept (checkUnion (← get).exprs items right.items)
  pure right

def bindOptional {α β : Type} (act : α → BindM β) : Option α → BindM (Option β)
  | none => pure none
  | some a => do pure (some (← act a))

def bindBranchWith (env : Accessor) (rec : Recur) (q : Select) (depth : Nat) : BindM Select := do
  let ctes ← q.ctes.mapM (bindCte rec)
  let source ← bindOptional (bindSource env rec) q.source
  q.filter.toList.forM (bindPredicate rec "WHERE")
  q.bounds.toList.forM checkBounds
  q.grouping.toList.forM (bindGrouping rec)
  let items := (← q.items.mapM (bindSelectItem rec q.source.isSome)).flatten
  let union ← bindOptional (bindUnion rec items depth) q.union
  let ordering ← bindOptional (bindOrdering rec items) q.ordering
  pure { q with
    ctes := ctes
    source := source
    items := items
    union := union
    ordering := ordering
    depth := some depth }

def bindQueryWith (rec : Recur) (q : Select) : BindM Select := do
  let depth := (← get).scopes.length
  inScope (rec.branch q depth)

end SqlAnalysis
