import SqlAnalysis.Catalog.Lookup
import SqlAnalysis.Expr.Display
import SqlAnalysis.Plan.Predicate

/-!
# Plans of queries

A bound query becomes a tree of joins under filters, aggregation, sorting and unions.

* **`LowerM`**: computations that build plans; they may change the expressions and end early.
* **`lowerBody`**: the plan of a query block alone.
* **`lowerQueryWith`**: the plan of a query with its WITH entries and UNION branches.
-/

namespace SqlAnalysis

/-- What changes while a plan is built. -/
structure LowerState where
  exprs : Arena
  /-- The next number for a statement-local object. -/
  nextTemp : Nat

abbrev LowerM := EStateM Fault LowerState

/-- A WITH entry in force. -/
structure VisibleCte where
  name : String
  columns : List DerivedColumn
  tableId : Oid
  expressions : List (List ExprId)
  recursive : Bool

/-- How to build the plan of a nested query, given the WITH entries in force, innermost first. -/
abbrev LowerQuery := List VisibleCte → Select → LowerM Plan

namespace LowerM

def refuse {α : Type} (condition : Condition) (detail : String) : LowerM α :=
  throw (.refused ⟨condition, detail⟩)

def ofExcept {α : Type} : Except Diagnostic α → LowerM α
  | .ok a => pure a
  | .error e => throw (.refused e)

/-- The store, after a look at the expressions that are going to be read in it. -/
def exprs (read : List ExprId) : LowerM Arena := do
  let a := (← get).exprs
  match a.look read with
  | .ok _ => pure a
  | .error fault => throw fault

def modifyExprs (f : Arena → Arena) : LowerM Unit := modify fun s => { s with exprs := f s.exprs }

/-- The next temporary number; so many as `Oid.tempMark` are told apart. -/
def takeTemp : LowerM Nat := modifyGet fun s => (s.nextTemp, { s with nextTemp := s.nextTemp + 1 })

/-- Runs a computation on the query of a subquery node.  The node holds an empty query meanwhile and
gets its own back, however the computation ends. -/
def onQuery {α : Type} (id : ExprId) (act : Select → LowerM α) : LowerM α := fun s =>
  let query := (s.exprs.query? id).getD {}
  let restored (s : LowerState) : LowerState := { s with exprs := s.exprs.setQuery id query }
  match act query { s with exprs := s.exprs.setQuery id {} } with
  | .ok a s' => .ok a (restored s')
  | .error e s' => .error e (restored s')

end LowerM

open LowerM

def planTable (env : Accessor) (name : ObjectName) : Except Diagnostic TableId := do
  let namespaceId ← env.requireNamespace name
  let tableId ← env.requireTableId name
  .ok ⟨env.databaseId, namespaceId, tableId⟩

/-! ### FROM -/

def VisibleCte.scan (c : VisibleCte) (knownAs : Alias) : CteScan :=
  { knownAs := knownAs, cte := c.name, tableId := c.tableId, columns := c.columns,
    expressions := c.expressions, recursive := c.recursive }

/-- The plan of a named table: a name without qualifier means a WITH entry if one is in force. -/
def lowerBaseTable (env : Accessor) (ctes : List VisibleCte) (base : BaseTable) :
    Except Diagnostic Plan :=
  match if base.name.schema.isNone then ctes.find? (·.name == base.name.name) else none with
  | some c => .ok (.cteScan (c.scan base.knownAs))
  | none => do
    let table ← planTable env base.name
    .ok (.get { table := table, knownAs := base.knownAs })

def JoinKind.inPlan : JoinKind → PlanJoin
  | .inner => .inner
  | .outer => .outer
  | .left => .left
  | .right => .right
  | .semi => .semi

def joinPredicates (condition : Option ExprId) : LowerM (List Predicate) := do
  match condition with
  | none => pure []
  | some id =>
    let a ← exprs [id]
    if (a.node id).hasSubquery then
      refuse .notImplemented "subqueries in join conditions are not supported"
    else
      pure (a.predicates id)

/-- The output names of a select list with their expressions; of equal names the last counts. -/
def outputColumns (a : Arena) (items : List ExprId) : Keyed String ExprId :=
  items.foldl (fun columns id => columns.insert (a.outputName id) id) []

mutual

def lowerSource (env : Accessor) (lower : LowerQuery) (ctes : List VisibleCte) :
    TableRef → LowerM Plan
  | .table base => ofExcept (lowerBaseTable env ctes base)
  | .derived query knownAs => do
    let input ← lower ctes query
    pure (.derivedGet knownAs (outputColumns (← exprs query.items) query.items) input)
  | .join kind left right condition => do
    let left ← lowerSource env lower ctes left
    let right ← lowerSource env lower ctes right
    let predicates ← joinPredicates condition
    pure (.join kind.inPlan predicates left right)
  | .list [] => refuse .internal "empty FROM list"
  | .list (first :: rest) => do
    let first ← lowerSource env lower ctes first
    lowerSources env lower ctes first rest

def lowerSources (env : Accessor) (lower : LowerQuery) (ctes : List VisibleCte) (plan : Plan) :
    List TableRef → LowerM Plan
  | [] => pure plan
  | item :: rest => do
    let item ← lowerSource env lower ctes item
    lowerSources env lower ctes (.join .inner [] plan item) rest

end

/-! ### Subqueries in WHERE -/

/-- Whether some column that a subquery mentions belongs to a block further out than the next. -/
def reachesTooFar (a : Arena) (depth : Nat) (q : Select) : Bool :=
  (q.items ++ q.filter.toList).any fun id => (a.columnDepths id).any (· + 1 < depth)

def isAggregating (a : Arena) (q : Select) : Bool := q.grouping.isSome || q.items.any a.hasAggregate

/-- Whether a condition uses columns of enclosing blocks only to equate one of them with an
expression of this block. -/
def isPlainCorrelation (a : Arena) (depth : Nat) (id : ExprId) : Bool :=
  let outer (id : ExprId) : Bool := (a.expr id).column?.isSome && (a.node id).depth.any (· < depth)
  let inner (id : ExprId) : Bool := (a.node id).depth == some depth
  match a.expr id with
  | .compare .equal left right => (outer left && inner right) || (outer right && inner left)
  | _ => false

/-- The first conjunct of an aggregating subquery that is correlated in an unsupported way. -/
def badCorrelation? (a : Arena) (depth : Nat) (filter : ExprId) : Option ExprId :=
  (a.conjuncts filter).find? fun c =>
    (a.node c).depth.any (· < depth) && !isPlainCorrelation a depth c

def checkSubquery (a : Arena) (q : Select) : Except Diagnostic Unit :=
  match q.depth with
  | none => .error ⟨.internal, "subquery was not bound"⟩
  | some depth =>
    if reachesTooFar a depth q then
      .error ⟨.notImplemented, "correlated subquery referencing a query more than one level out"⟩
    else
      match if isAggregating a q then q.filter.bind (badCorrelation? a depth) else none with
      | some c =>
        .error ⟨.notImplemented, s!"correlated predicate {a.display c} in an aggregating subquery"⟩
      | none => .ok ()

/-- How a condition uses its subquery: the kind of join, the subquery, and whether it must have
exactly one column. -/
structure SubqueryUse where
  join : PlanJoin
  subquery : ExprId
  singleColumn : Bool

def unsupportedSubquery : Diagnostic :=
  ⟨.notImplemented, "subquery in this predicate position is not supported"⟩

/-- The use of the subquery in a condition: one side of a comparison, or the operand of EXISTS. -/
def subqueryUse (a : Arena) (predicate : ExprId) : Except Diagnostic SubqueryUse :=
  match a.expr predicate with
  | .compare op left right =>
    let join : PlanJoin := if op = .isIn then .mark else .single
    match (a.expr left).isSubquery, (a.expr right).isSubquery with
    | true, true =>
      .error ⟨.featureNotSupported, "comparison between two subqueries is not supported"⟩
    | false, true => .ok ⟨join, right, true⟩
    | true, false => .ok ⟨join, left, true⟩
    | false, false => .error unsupportedSubquery
  | .operate .exists [operand] =>
    if (a.expr operand).isSubquery then .ok ⟨.mark, operand, false⟩ else .error unsupportedSubquery
  | _ => .error unsupportedSubquery

/-- The condition after its subquery became a join: EXISTS asks whether the subquery's first column
is there, IN becomes an equality, and other comparisons keep their operator. -/
def decorrelatedPredicate (subquery first : ExprId) : Expr → Expr
  | .operate _ _ => .operate .isNotNull [first]
  | .compare op left right =>
    let replace (id : ExprId) : ExprId := if id = subquery then first else id
    .compare (if op = .isIn then .equal else op) (replace left) (replace right)
  | e => e

def lowerSubquery (lower : LowerQuery) (ctes : List VisibleCte) (singleColumn : Bool) (q : Select) :
    LowerM Plan := do
  if singleColumn && q.items.length != 1 then
    refuse .notImplemented "array in predicates not supported"
  ofExcept (checkSubquery (← exprs (q.items ++ q.filter.toList)) q)
  lower ctes q

/-- Turns a condition with a subquery into a join of a plan with the plan of the subquery. -/
def decorrelate (lower : LowerQuery) (ctes : List VisibleCte) (predicate : ExprId) (plan : Plan) :
    LowerM Plan := do
  let use ← ofExcept (subqueryUse (← exprs [predicate]) predicate)
  let (right, items) ← onQuery use.subquery fun query => do
    pure (← lowerSubquery lower ctes use.singleColumn query, query.items)
  match items with
  | [] => refuse .internal "subquery without output columns"
  | first :: _ => do
    modifyExprs (·.update predicate fun n =>
      { n with kind := decorrelatedPredicate use.subquery first n.kind })
    pure (.join use.join [] plan right)

/-- Joins a plan with the subqueries of those conditions that have one, from left to right. -/
def decorrelateAll (lower : LowerQuery) (ctes : List VisibleCte) : List ExprId → Plan → LowerM Plan
  | [], plan => pure plan
  | c :: rest, plan => do
    if ((← exprs [c]).node c).hasSubquery then
      let plan ← decorrelate lower ctes c plan
      decorrelateAll lower ctes rest plan
    else
      decorrelateAll lower ctes rest plan

def lowerFilter (lower : LowerQuery) (ctes : List VisibleCte) (filter : ExprId) (plan : Plan) :
    LowerM Plan := do
  let plan ← decorrelateAll lower ctes ((← exprs [filter]).conjuncts filter) plan
  pure (.filter ((← exprs [filter]).predicates filter) plan)

/-! ### Aggregation, sorting, limits -/

def lowerGrouping (a : Arena) (g : Grouping) (plan : Plan) : Except Diagnostic Plan :=
  let grouped : Plan := .aggregate g.keys plan
  match g.having with
  | none => .ok grouped
  | some having =>
    if (a.node having).hasSubquery then
      .error ⟨.notImplemented, "subqueries in HAVING are not supported"⟩
    else
      .ok (.filter (a.predicates having) grouped)

def lowerAggregation (a : Arena) (depth : Nat) (q : Select) (plan : Plan) :
    Except Diagnostic Plan :=
  let aggregates := q.items.any a.hasAggregate
  if aggregates && q.grouping.isNone && q.items.any (a.hasBareColumn depth) then
    .error ⟨.syntaxError, "mixing aggregate and non-aggregate columns without GROUP BY"⟩
  else
    match q.grouping with
    | some g => lowerGrouping a g plan
    | none =>
      if aggregates then
        .ok (.aggregate [] plan)
      else if q.distinct then
        .ok (.aggregate q.items plan)
      else
        .ok plan

def rowCount (n : Int) : Except Diagnostic Nat :=
  if n < 0 then .error ⟨.syntaxError, "LIMIT and OFFSET must not be negative"⟩ else .ok n.toNat

def rowCount? : Option Int → Except Diagnostic (Option Nat)
  | none => .ok none
  | some n => (rowCount n).map some

def lowerLimit (q : Select) (plan : Plan) : Except Diagnostic Plan :=
  if q.ordering.isNone && q.bounds.isNone then
    .ok plan
  else do
    let bounds := q.bounds.getD {}
    let count ← rowCount? bounds.limit
    let offset ← rowCount? bounds.offset
    .ok (.limit count (offset.getD 0) (q.ordering.getD []) plan)

/-! ### Query blocks -/

/-- The expressions that see groups: the select list and HAVING. -/
def Select.afterGrouping (q : Select) : List ExprId := q.items ++ (q.grouping.bind (·.having)).toList

def lowerBody (env : Accessor) (lower : LowerQuery) (ctes : List VisibleCte) (q : Select) : LowerM Plan :=
  do
  match q.depth with
  | none => refuse .internal "query block was not bound"
  | some depth => do
    let plan ← match q.source with
      | some source => lowerSource env lower ctes source
      | none => pure (.get Get.empty)
    let plan ← match q.filter with
      | some filter => lowerFilter lower ctes filter plan
      | none => pure plan
    let plan ← ofExcept (lowerAggregation (← exprs q.afterGrouping) depth q plan)
    ofExcept (lowerLimit q plan)

def visibleCte (c : Cte) : LowerM VisibleCte := do
  let a ← exprs c.query.items
  let inductiveItems := if c.recursive then c.query.union.map (·.items) else none
  let serial ← takeTemp
  pure
    { name := c.name
      columns := (c.columns.zip c.query.items).map fun (knownAs, id) => ⟨knownAs, a.typeOf id⟩
      tableId := Oid.temp serial
      expressions := c.query.items :: inductiveItems.toList
      recursive := c.recursive }

/-- The plans of WITH entries by name, and the entries in force after them.  A recursive entry is
visible to its own body. -/
def lowerCtes (lower : LowerQuery) (ctes : List VisibleCte) :
    List Cte → LowerM (List (String × Plan) × List VisibleCte)
  | [] => pure ([], ctes)
  | c :: rest => do
    let visible ← visibleCte c
    let plan ← lower (if c.recursive then visible :: ctes else ctes) c.query
    let (plans, ctes) ← lowerCtes lower (visible :: ctes) rest
    pure ((c.name, plan) :: plans, ctes)

/-- The plan with the plans of WITH entries attached, later entries first, so that an entry used
only by a later one finds its reference.  An entry that is not used is left out. -/
def attachCtes (plans : List (String × Plan)) (plan : Plan) : Plan :=
  plans.foldr (fun (name, body) plan => (plan.attachCte name body).getD plan) plan

def lowerQueryWith (env : Accessor) (lower : LowerQuery) (ctes : List VisibleCte) (q : Select) :
    LowerM Plan := do
  let (plans, ctes) ← lowerCtes lower ctes q.ctes
  let plan ← lowerBody env lower ctes q
  let plan ← match q.union with
    | none => pure plan
    | some right => do pure (.union plan (← lower ctes right))
  pure (attachCtes plans plan)

/-- The plan of a query in which queries nest at most the given number of levels. -/
def lowerQuery (env : Accessor) : Nat → LowerQuery
  | 0, _, _ => throw .circular
  | n + 1, ctes, q => lowerQueryWith env (lowerQuery env n) ctes q

end SqlAnalysis
