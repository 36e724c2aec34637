import SqlAnalysis.Query.Name

/-!
# SELECT statements

Queries as trees whose expressions are numbers of nodes kept elsewhere.

* **`Select.weight`**: the number of parts of a query, which bounds how deep queries nest in it.
-/

namespace SqlAnalysis

abbrev ExprId := Nat

/-- The kinds of explicit join. -/
inductive JoinKind where
  | inner
  | outer
  | left
  | right
  | semi
  deriving DecidableEq, Repr, Inhabited

/-- The direction of a sort key. -/
inductive SortDirection where
  | ascending
  | descending
  deriving DecidableEq, Repr, Inhabited

/-- One ORDER BY item. -/
structure SortKey where
  expr : ExprId
  direction : SortDirection
  deriving DecidableEq, Repr, Inhabited

/-- GROUP BY and HAVING. -/
structure Grouping where
  keys : List ExprId
  having : Option ExprId := none
  deriving DecidableEq, Repr, Inhabited

/-- LIMIT and OFFSET. -/
structure Bounds where
  limit : Option Int := none
  offset : Option Int := none
  deriving DecidableEq, Repr, Inhabited

mutual

/-- An entry of a WITH list.  The column aliases are those written, completed when the query is
bound. -/
structure Cte where
  name : String
  columns : List Alias := []
  query : Select
  recursive : Bool := false

/-- A query block, with the further branches of its UNION ALL. -/
structure Select where
  ctes : List Cte := []
  distinct : Bool := false
  items : List ExprId := []
  source : Option TableRef := none
  filter : Option ExprId := none
  grouping : Option Grouping := none
  ordering : Option (List SortKey) := none
  bounds : Option Bounds := none
  /-- The right-hand side of UNION ALL. -/
  union : Option Select := none
  /-- How many query blocks enclose this one, once it is bound. -/
  depth : Option Nat := none

/-- An item of a FROM clause. -/
inductive TableRef where
  | table (base : BaseTable)
  | derived (query : Select) (knownAs : Alias)
  | join (kind : JoinKind) (left right : TableRef) (condition : Option ExprId)
  /-- A comma-separated list. -/
  | list (items : List TableRef)

end

instance : Inhabited Select := ⟨{}⟩

instance : Inhabited TableRef := ⟨.list []⟩

instance : Inhabited Cte := ⟨⟨"", [], {}, false⟩⟩

def Cte.isInductive (c : Cte) : Bool := c.recursive && c.query.union.isSome

/-! ### Size -/

mutual

def Select.weight : Select → Nat
  | ⟨ctes, _, _, source, _, _, _, _, union, _⟩ =>
    1 + Cte.weightAll ctes + TableRef.weightOpt source + Select.weightOpt union

def Select.weightOpt : Option Select → Nat
  | none => 0
  | some s => s.weight

def Cte.weightAll : List Cte → Nat
  | [] => 0
  | ⟨_, _, query, _⟩ :: rest => 1 + query.weight + Cte.weightAll rest

def TableRef.weightOpt : Option TableRef → Nat
  | none => 0
  | some t => t.weight

def TableRef.weight : TableRef → Nat
  | .table _ => 1
  | .derived query _ => 1 + query.weight
  | .join _ left right _ => 1 + left.weight + right.weight
  | .list items => 1 + TableRef.weightAll items

def TableRef.weightAll : List TableRef → Nat
  | [] => 0
  | t :: rest => t.weight + TableRef.weightAll rest

end

/-! ### Expressions of a query -/

def Grouping.exprs (g : Grouping) : List ExprId := g.keys ++ g.having.toList

mutual

/-- Every expression number that a query block and the blocks nested in it mention. -/
def Select.exprs : Select → List ExprId
  | ⟨ctes, _, items, source, filter, grouping, ordering, _, union, _⟩ =>
    Cte.exprsAll ctes ++ items ++ TableRef.exprsOpt source ++ filter.toList ++
      (grouping.map (·.exprs)).getD [] ++ ((ordering.getD []).map (·.expr)) ++ Select.exprsOpt union

def Select.exprsOpt : Option Select → List ExprId
  | none => []
  | some s => s.exprs

def Cte.exprsAll : List Cte → List ExprId
  | [] => []
  | ⟨_, _, query, _⟩ :: rest => query.exprs ++ Cte.exprsAll rest

def TableRef.exprsOpt : Option TableRef → List ExprId
  | none => []
  | some t => t.exprs

def TableRef.exprs : TableRef → List ExprId
  | .table _ => []
  | .derived query _ => query.exprs
  | .join _ left right condition => left.exprs ++ right.exprs ++ condition.toList
  | .list items => TableRef.exprsAll items

def TableRef.exprsAll : List TableRef → List ExprId
  | [] => []
  | t :: rest => t.exprs ++ TableRef.exprsAll rest

end

/-! ### Equality -/

mutual

def Select.eq : Select → Select → Bool
  | ⟨ctes, distinct, items, source, filter, grouping, ordering, bounds, union, depth⟩,
    ⟨ctes', distinct', items', source', filter', grouping', ordering', bounds', union', depth'⟩ =>
    Cte.eqAll ctes ctes' && distinct == distinct' && items == items' &&
      TableRef.eqOpt source source' && filter == filter' && grouping == grouping' &&
      ordering == ordering' && bounds == bounds' && Select.eqOpt union union' && depth == depth'

def Select.eqOpt : Option Select → Option Select → Bool
  | none, none => true
  | some s, some t => s.eq t
  | _, _ => false

def Cte.eqAll : List Cte → List Cte → Bool
  | [], [] => true
  | ⟨name, columns, query, recursive⟩ :: rest, ⟨name', columns', query', recursive'⟩ :: rest' =>
    name == name' && columns == columns' && query.eq query' && recursive == recursive' &&
      Cte.eqAll rest rest'
  | _, _ => false

def TableRef.eqOpt : Option TableRef → Option TableRef → Bool
  | none, none => true
  | some s, some t => s.eq t
  | _, _ => false

def TableRef.eq : TableRef → TableRef → Bool
  | .table base, .table base' => base == base'
  | .derived query knownAs, .derived query' knownAs' => query.eq query' && knownAs == knownAs'
  | .join kind left right condition, .join kind' left' right' condition' =>
    kind == kind' && left.eq left' && right.eq right' && condition == condition'
  | .list items, .list items' => TableRef.eqAll items items'
  | _, _ => false

def TableRef.eqAll : List TableRef → List TableRef → Bool
  | [], [] => true
  | s :: rest, t :: rest' => s.eq t && TableRef.eqAll rest rest'
  | _, _ => false

end

instance : BEq Select := ⟨Select.eq⟩

instance : BEq TableRef := ⟨TableRef.eq⟩

end SqlAnalysis
