import SqlAnalysis.Expr.Arena

/-!
# Derived attributes of expressions

Three attributes are computed from the operands upwards and kept on every node on the way.

* **`Arena.deriveDepth`**: the depth of the outermost query block whose columns are used.

Two more are only computed: **`Arena.outputName`** and **`Arena.hasAggregate`**.
-/

namespace SqlAnalysis

def placeholderName : String := "?column?"

def leastDepth (depths : List (Option Nat)) : Option Nat := (depths.filterMap id).min?

/-- The expressions that decide about a depth: for a subquery its select list and its WHERE,
otherwise the operands. -/
def Expr.depthInputs : Expr → List ExprId
  | .subquery query => query.items ++ query.filter.toList
  | e => e.children

namespace Arena

/-- Depth of an expression nested less than the bound; a column without a depth has none. -/
def deriveDepthFrom : Nat → ExprId → StateM Arena (Option Nat)
  | 0, _ => pure none
  | fuel + 1, id => do
    let n := (← get).node id
    match n.depth, n.kind with
    | some d, _ => pure (some d)
    | none, .column _ => pure none
    | none, kind => do
      let depths ← kind.depthInputs.mapM (deriveDepthFrom fuel)
      let depth := leastDepth depths
      modify (·.update id ({ · with depth := depth }))
      pure depth

def deriveDepth (a : Arena) (id : ExprId) : Option Nat × Arena := (deriveDepthFrom a.bound id).run a

def deriveSubqueryFlagFrom : Nat → ExprId → StateM Arena Bool
  | 0, _ => pure false
  | fuel + 1, id => do
    let kind := (← get).expr id
    let flags ← kind.children.mapM (deriveSubqueryFlagFrom fuel)
    let flag := kind.isSubquery || flags.any (·)
    modify (·.update id ({ · with hasSubquery := flag }))
    pure flag

/-- Whether a subquery occurs in an expression, kept on all nodes it is computed from. -/
def deriveSubqueryFlag (a : Arena) (id : ExprId) : Bool × Arena :=
  (deriveSubqueryFlagFrom a.bound id).run a

def deriveNameFrom : Nat → ExprId → StateM Arena String
  | 0, _ => pure ""
  | fuel + 1, id => do
    let n := (← get).node id
    let name ← match n.knownAs, n.kind with
      | some knownAs, _ => pure knownAs.name
      | none, .column ref => pure ref.column
      | none, .call name _ _ => pure name
      | none, .aggregate function _ _ => pure function.name
      | none, .cast _ operand => deriveNameFrom fuel operand
      | none, .subquery query =>
        match query.items with
        | first :: _ => deriveNameFrom fuel first
        | [] => pure ""
      | none, _ => pure ""
    modify (·.update id ({ · with name := name }))
    pure name

/-- The natural name of an expression, kept on all nodes it is computed from: its alias, or the name
of a column, function or aggregate, looking through casts and subqueries. -/
def deriveName (a : Arena) (id : ExprId) : String × Arena := (deriveNameFrom a.bound id).run a

def outputName (a : Arena) (id : ExprId) : String :=
  let n := a.node id
  match n.knownAs with
  | some knownAs => knownAs.name
  | none => if n.name.isEmpty then placeholderName else n.name

def hasAggregateFrom (a : Arena) : Nat → ExprId → Bool
  | 0, _ => false
  | fuel + 1, id =>
    let kind := a.expr id
    kind.isAggregate || kind.children.any (hasAggregateFrom a fuel)

def hasAggregate (a : Arena) (id : ExprId) : Bool := a.hasAggregateFrom a.bound id

end Arena

end SqlAnalysis
