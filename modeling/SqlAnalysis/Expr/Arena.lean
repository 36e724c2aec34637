import SqlAnalysis.Expr.Basic

/-!
# The expression store

All expressions of a statement are kept in one store and refer to each other by number.

* **`Arena.push`**, **`Arena.update`**: adding a node, changing one.
* **`Arena.importTree`**: copies an expression from another store, operands before what uses them.
* **`Arena.bound`**: a bound on the nesting of expressions that do not run in a circle.
-/

namespace SqlAnalysis

/-- The expressions of a statement. -/
structure Arena where
  nodes : Array ExprNode := #[]
  deriving Inhabited

namespace Arena

def size (a : Arena) : Nat := a.nodes.size

def node? (a : Arena) (id : ExprId) : Option ExprNode := a.nodes[id]?

/-- The node with a number; an empty conjunction for a number without a node. -/
def node (a : Arena) (id : ExprId) : ExprNode := a.nodes.getD id default

def expr (a : Arena) (id : ExprId) : Expr := (a.node id).kind

def typeOf (a : Arena) (id : ExprId) : SqlType := (a.node id).type

def push (a : Arena) (n : ExprNode) : ExprId × Arena := (a.nodes.size, ⟨a.nodes.push n⟩)

def update (a : Arena) (id : ExprId) (f : ExprNode → ExprNode) : Arena := ⟨a.nodes.modify id f⟩

def setExpr (a : Arena) (id : ExprId) (e : Expr) : Arena := a.update id ({ · with kind := e })

def setType (a : Arena) (id : ExprId) (t : SqlType) : Arena := a.update id ({ · with type := t })

def replaceChild (a : Arena) (parent old new : ExprId) : Arena :=
  a.update parent fun n => { n with kind := n.kind.mapChildren fun c => if c = old then new else c }

def query? (a : Arena) (id : ExprId) : Option Select := (a.expr id).subquery?

def setQuery (a : Arena) (id : ExprId) (query : Select) : Arena :=
  a.update id fun n => if n.kind.isSubquery then { n with kind := .subquery query } else n

def takeQuery (a : Arena) (id : ExprId) : Except Diagnostic (Select × Arena) :=
  match a.query? id with
  | some query => .ok (query, a.setQuery id {})
  | none => .error ⟨.internal, s!"expected subquery at #{id}"⟩

def pushExists (a : Arena) (query : Select) : ExprId × Arena :=
  let (sub, a) := a.push (.ofExpr (.subquery query))
  a.push (.ofExpr (.operate .exists [sub]))

def bound (a : Arena) : Nat := a.size + 1

def weight (a : Arena) : Nat :=
  a.nodes.foldl (fun total n => total + 1 + ((n.kind.subquery?).map (·.weight)).getD 0) 0

def same (a b : Arena) : Bool :=
  a.size == b.size && (a.nodes.zip b.nodes).all fun (m, n) => m.same n

/-- Copies the expression `root` of another store, operands first; the copy's number is the result.
A subquery cannot be copied; what was copied before it was met stays. -/
def importFrom (other : Arena) : Nat → ExprId → EStateM Fault Arena ExprId
  | 0, _ => throw .circular
  | fuel + 1, root =>
    match other.node? root with
    | none => throw (.dangling root)
    | some n =>
      if n.kind.isSubquery then
        throw (.refused ⟨.featureNotSupported, "cannot copy a subquery out of a stored expression"⟩)
      else do
        let e ← n.kind.traverse (importFrom other fuel)
        modifyGet (·.push { n with kind := e })

def importTree (other : Arena) (root : ExprId) : EStateM Fault Arena ExprId :=
  importFrom other other.bound root

end Arena

/-- An expression kept in the catalog, apart from any statement. -/
structure StoredExpr where
  arena : Arena
  root : ExprId
  deriving Inhabited

def StoredExpr.constant (v : Value) : StoredExpr := ⟨⟨#[.ofExpr (.constant v)]⟩, 0⟩

end SqlAnalysis
