import SqlAnalysis.Expr.Attributes
import SqlAnalysis.Plan.Basic

/-!
# Predicates

* **`Arena.look`**: fails at a number without a node, and at expressions that run in a circle.
* **`Arena.conjuncts`**: the conditions that a nested conjunction is made of, from left to right.
* **`Arena.predicates`**: the conjuncts with their table references.
* **`Arena.columnDepths`**, **`Arena.hasBareColumn`**: which query blocks the columns belong to.

None of them looks into subqueries.
-/

namespace SqlAnalysis

def Alias.insertSorted (a : Alias) : List Alias → List Alias
  | [] => [a]
  | b :: rest =>
    if a = b then b :: rest else if a.le b then a :: b :: rest else b :: insertSorted a rest

namespace Arena

def lookFrom (a : Arena) : Nat → ExprId → Except Fault Unit
  | 0, _ => .error .circular
  | fuel + 1, id =>
    match a.node? id with
    | none => .error (.dangling id)
    | some n => n.kind.children.forM (lookFrom a fuel)

/-- Looks at expressions and at all that they are made of. -/
def look (a : Arena) (ids : List ExprId) : Except Fault Unit := ids.forM (a.lookFrom a.bound)

def conjunctsFrom (a : Arena) : Nat → ExprId → List ExprId
  | 0, _ => []
  | fuel + 1, id =>
    match a.expr id with
    | .connect .and operands => operands.flatMap (conjunctsFrom a fuel)
    | _ => [id]

def conjuncts (a : Arena) (id : ExprId) : List ExprId := a.conjunctsFrom a.bound id

/-- The columns of an expression nested less than the bound, from left to right. -/
def columnsFrom (a : Arena) : Nat → ExprId → List ExprId
  | 0, _ => []
  | fuel + 1, id =>
    match a.expr id with
    | .column _ => [id]
    | e => e.children.flatMap (columnsFrom a fuel)

def columns (a : Arena) (id : ExprId) : List ExprId := a.columnsFrom a.bound id

/-- The table references whose columns occur in an expression, sorted and each once. -/
def aliasesOf (a : Arena) (id : ExprId) : List Alias :=
  ((a.columns id).filterMap fun c => (a.expr c).column?.bind (·.table)).foldr Alias.insertSorted []

def predicates (a : Arena) (id : ExprId) : List Predicate :=
  (a.conjuncts id).map fun c => ⟨c, a.aliasesOf c⟩

def columnDepths (a : Arena) (id : ExprId) : List Nat :=
  (a.columns id).filterMap fun c => (a.node c).depth

/-- Whether a column of a depth occurs outside all aggregates of an expression nested less than the
bound. -/
def hasBareColumnFrom (a : Arena) (depth : Nat) : Nat → ExprId → Bool
  | 0, _ => false
  | fuel + 1, id =>
    match a.expr id with
    | .aggregate .. => false
    | .column _ => (a.node id).depth == some depth
    | e => e.children.any (hasBareColumnFrom a depth fuel)

def hasBareColumn (a : Arena) (depth : Nat) (id : ExprId) : Bool :=
  a.hasBareColumnFrom depth a.bound id

end Arena

end SqlAnalysis
