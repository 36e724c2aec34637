import SqlAnalysis.Binding.Scope
import SqlAnalysis.Statement.Basic

/-!
# Logical plans

* **`Plan.children`**: the inputs of an operator, from left to right.
* **`Plan.text`**: the tree as indented lines.
-/

namespace SqlAnalysis

/-- A condition with the table references whose columns it uses, in order and each once. -/
structure Predicate where
  expr : ExprId
  aliases : List Alias
  deriving DecidableEq

/-- The kinds of join in a plan. -/
inductive PlanJoin where
  | inner
  | left
  | right
  | outer
  | semi
  /-- Adds a truth value that says whether there is a partner. -/
  | mark
  /-- Adds at most one partner. -/
  | single
  deriving DecidableEq

def PlanJoin.name : PlanJoin → String
  | .inner => "Inner"
  | .left => "Left"
  | .right => "Right"
  | .outer => "Outer"
  | .semi => "Semi"
  | .mark => "Mark"
  | .single => "Single"

/-- The table that an operator reads or changes. -/
structure TableId where
  databaseId : Oid
  namespaceId : Oid
  tableId : Oid
  deriving DecidableEq

/-- A scan of a table. -/
structure Get where
  table : TableId
  knownAs : Alias
  predicates : List Predicate := []
  forUpdate : Bool := false
  deriving DecidableEq

def Get.empty : Get :=
  { table := ⟨Oid.invalid, Oid.invalid, Oid.invalid⟩, knownAs := { name := "" } }

/-- A reference to a WITH entry.  The select lists are those of the base case and, for a recursive
entry, of the inductive case. -/
structure CteScan where
  knownAs : Alias
  cte : String
  tableId : Oid
  columns : List DerivedColumn
  expressions : List (List ExprId)
  recursive : Bool
  deriving DecidableEq

/-- An object to drop. -/
structure DropTarget where
  kind : DropKind
  id : Oid
  deriving DecidableEq

def DropTarget.text (t : DropTarget) : String :=
  let word := match t.kind with
    | .database => "Database"
    | .schema => "Namespace"
    | .table => "Table"
    | .index => "Index"
    | .trigger => "Trigger"
    | .view => "View"
  s!"{word}({word}Id({t.id}))"

/-- A trigger to create, with the numbers of the columns it watches. -/
structure NewTrigger where
  namespaceId : Oid
  tableId : Oid
  name : String
  condition : Option ExprId
  function : String
  args : List String
  columnIds : List Oid
  timing : TriggerTiming
  events : List TriggerEvent
  deriving DecidableEq

/-- An operator tree. -/
inductive Plan where
  | get (scan : Get)
  /-- The rows of a derived table; each output name with the expression that produces it. -/
  | derivedGet (knownAs : Alias) (columns : Keyed String ExprId) (input : Plan)
  /-- A reference to a WITH entry whose plan is elsewhere or not yet attached. -/
  | cteScan (scan : CteScan)
  /-- A reference to a WITH entry with the plan of the entry. -/
  | cteBody (scan : CteScan) (input : Plan)
  | filter (predicates : List Predicate) (input : Plan)
  | join (kind : PlanJoin) (predicates : List Predicate) (left right : Plan)
  | aggregate (keys : List ExprId) (input : Plan)
  /-- Sort keys, and how many rows are passed over and kept. -/
  | limit (count : Option Nat) (offset : Nat) (keys : List SortKey) (input : Plan)
  | union (left right : Plan)
  | insert (table : TableId) (columns : List Oid) (rows : List (List ExprId))
  | insertSelect (table : TableId) (input : Plan)
  | update (table : TableId) (knownAs : Alias) (updates : List (Oid × ExprId)) (input : Plan)
  | delete (table : TableId) (knownAs : Alias) (input : Plan)
  | createDatabase (name : String)
  | createNamespace (name : String)
  | createTable (namespaceId : Oid) (name : String) (columns : List ColumnDef)
      (foreignKeys : List ForeignKey)
  | createIndex (namespaceId tableId : Oid) (name : String) (unique : Bool) (keys : List ExprId)
  | createTrigger (trigger : NewTrigger)
  | createView (namespaceId : Oid) (name : String) (query : Select)
  | drop (target : DropTarget) (ifExists : Bool)
  | analyze (databaseId tableId : Oid) (columnIds : List Oid) (input : Plan)
  | explain (input : Plan)

namespace Plan

def children : Plan → List Plan
  | .derivedGet _ _ input => [input]
  | .cteBody _ input => [input]
  | .filter _ input => [input]
  | .join _ _ left right => [left, right]
  | .aggregate _ input => [input]
  | .limit _ _ _ input => [input]
  | .union left right => [left, right]
  | .insertSelect _ input => [input]
  | .update _ _ _ input => [input]
  | .delete _ _ input => [input]
  | .analyze _ _ _ input => [input]
  | .explain input => [input]
  | _ => []

/-- The plan with `body` under its first open reference to a WITH entry, operators before their
inputs and inputs from left to right; nothing if there is no such reference. -/
def attachCte (plan : Plan) (name : String) (body : Plan) : Option Plan :=
  match plan with
  | .cteScan scan => if scan.cte = name then some (.cteBody scan body) else none
  | .cteBody scan input => (input.attachCte name body).map (.cteBody scan)
  | .derivedGet knownAs columns input =>
    (input.attachCte name body).map (.derivedGet knownAs columns)
  | .filter predicates input => (input.attachCte name body).map (.filter predicates)
  | .join kind predicates left right =>
    ((left.attachCte name body).map (.join kind predicates · right)).or
      ((right.attachCte name body).map (.join kind predicates left))
  | .aggregate keys input => (input.attachCte name body).map (.aggregate keys)
  | .limit count offset keys input => (input.attachCte name body).map (.limit count offset keys)
  | .union left right =>
    ((left.attachCte name body).map (.union · right)).or
      ((right.attachCte name body).map (.union left))
  | .insertSelect table input => (input.attachCte name body).map (.insertSelect table)
  | .update table knownAs updates input =>
    (input.attachCte name body).map (.update table knownAs updates)
  | .delete table knownAs input => (input.attachCte name body).map (.delete table knownAs)
  | .analyze databaseId tableId columnIds input =>
    (input.attachCte name body).map (.analyze databaseId tableId columnIds)
  | .explain input => (input.attachCte name body).map .explain
  | _ => none

/-! ### Text -/

def predicateCount (predicates : List Predicate) : String :=
  if predicates.isEmpty then "" else s!" predicates={predicates.length}"

def cteLabel (scan : CteScan) : String :=
  s!"CteScan {scan.knownAs.text} cte={scan.cte} table={scan.tableId}" ++
    if scan.recursive then " recursive" else ""

def label : Plan → String
  | .get scan =>
    if scan.table.tableId.isValid then
      s!"Get {scan.knownAs.text} table={scan.table.tableId}" ++ predicateCount scan.predicates ++
        if scan.forUpdate then " for update" else ""
    else
      "Get (no table)"
  | .derivedGet knownAs columns _ =>
    s!"QueryDerivedGet {knownAs.text} columns=[" ++ ", ".intercalate columns.keys ++ "]"
  | .cteScan scan => cteLabel scan
  | .cteBody scan _ => cteLabel scan
  | .filter predicates _ => "Filter" ++ predicateCount predicates
  | .join kind predicates _ _ => s!"{kind.name}Join" ++ predicateCount predicates
  | .aggregate keys _ => s!"Aggregate group_by={keys.length}"
  | .limit count offset keys _ =>
    let kept := match count with
      | some n => s!"{n}"
      | none => "all"
    s!"Limit limit={kept} offset={offset} sort_keys={keys.length}"
  | .union _ _ => "Union"
  | .insert table _ rows => s!"Insert table={table.tableId} rows={rows.length}"
  | .insertSelect table _ => s!"InsertSelect table={table.tableId}"
  | .update table _ updates _ => s!"Update table={table.tableId} set={updates.length}"
  | .delete table _ _ => s!"Delete table={table.tableId}"
  | .createDatabase name => s!"CreateDatabase {name}"
  | .createNamespace name => s!"CreateNamespace {name}"
  | .createTable namespaceId name columns _ =>
    s!"CreateTable {name} namespace={namespaceId} columns={columns.length}"
  | .createIndex _ tableId name unique _ =>
    s!"CreateIndex {name} table={tableId}" ++ if unique then " unique" else ""
  | .createTrigger trigger => s!"CreateTrigger {trigger.name} table={trigger.tableId}"
  | .createView namespaceId name _ => s!"CreateView {name} namespace={namespaceId}"
  | .drop target _ => s!"Drop {target.text}"
  | .analyze _ tableId columnIds _ => s!"Analyze table={tableId} columns={columnIds.length}"
  | .explain _ => "Explain"

def line (depth : Nat) (label : String) : String :=
  String.join (List.replicate depth "  ") ++ label ++ "\n"

def textAt (depth : Nat) (p : Plan) : String :=
  match p with
  | .derivedGet _ _ input | .cteBody _ input | .filter _ input | .aggregate _ input
  | .limit _ _ _ input | .insertSelect _ input | .update _ _ _ input | .delete _ _ input
  | .analyze _ _ _ input | .explain input => line depth p.label ++ textAt (depth + 1) input
  | .join _ _ left right | .union left right =>
    line depth p.label ++ textAt (depth + 1) left ++ textAt (depth + 1) right
  | p => line depth p.label

def text (p : Plan) : String := p.textAt 0

end Plan

end SqlAnalysis
