import SqlAnalysis.Binding.Expectation
import SqlAnalysis.Binding.Scope
import SqlAnalysis.Catalog.Basic
import SqlAnalysis.Expr.Attributes
import SqlAnalysis.Value.Promotion

/-!
# The state of a binding

* **`BindM`**: computations over that state that may end early; the state they leave is kept in
  either case.
* **`inScope`**, **`inSibling`**: run a computation in a new scope and take the scope away, however
  the computation ends.
-/

namespace SqlAnalysis

/-- What changes while a statement is bound. -/
structure BindState where
  exprs : Arena
  expectations : Expectations
  scopes : ScopeStack := []
  parameters : List Value
  /-- The next number for a statement-local object. -/
  nextTemp : Nat

abbrev BindM := EStateM Fault BindState

/-- How to bind what is nested inside an expression or a query block. -/
structure Recur where
  /-- Binds an expression. -/
  expr : ExprId → BindM Unit
  /-- Binds a query in a scope of its own. -/
  query : Select → BindM Select
  /-- Binds a branch of a UNION in the current scope, given the depth of the block. -/
  branch : Select → Nat → BindM Select

namespace BindM

def refuse {α : Type} (condition : Condition) (detail : String) : BindM α :=
  throw (.refused ⟨condition, detail⟩)

def ofExcept {α : Type} : Except Diagnostic α → BindM α
  | .ok a => pure a
  | .error e => throw (.refused e)

def getNode (id : ExprId) : BindM ExprNode := do
  match (← get).exprs.node? id with
  | some n => pure n
  | none => throw (.dangling id)

def exprOf (id : ExprId) : BindM Expr := do pure ((← get).exprs.expr id)

def typeOf (id : ExprId) : BindM SqlType := do pure ((← get).exprs.typeOf id)

def isLiteral (id : ExprId) : BindM Bool := do pure (← exprOf id).isLiteral

def modifyExprs (f : Arena → Arena) : BindM Unit := modify fun s => { s with exprs := f s.exprs }

def setType (id : ExprId) (t : SqlType) : BindM Unit := modifyExprs (·.setType id t)

def pushNode (n : ExprNode) : BindM ExprId :=
  modifyGet fun s =>
    let (id, exprs) := s.exprs.push n
    (id, { s with exprs := exprs })

def onExprs {α : Type} (act : EStateM Fault Arena α) : BindM α := fun s =>
  match act s.exprs with
  | .ok a exprs => .ok a { s with exprs := exprs }
  | .error e exprs => .error e { s with exprs := exprs }

def expectedOf (id : ExprId) : BindM SqlType := do pure ((← get).expectations.expectedOf id)

def expect (id : ExprId) (t : SqlType) : BindM Unit :=
  modify fun s => { s with expectations := s.expectations.expect id t }

def expectBooleanLiteral (id : ExprId) : BindM Unit := do
  if ← isLiteral id then expect id .boolean

def expectPair (left right : ExprId) : BindM Unit := do
  let s ← get
  let x ← ofExcept (s.expectations.expectPair s.exprs left right)
  set { s with expectations := x }

def checkExpected (id : ExprId) : BindM Unit := do
  let s ← get
  ofExcept (s.expectations.check s.exprs id)

def takeSerial : BindM Nat :=
  modifyGet fun s =>
    let (serial, x) := s.expectations.takeSerial
    (serial, { s with expectations := x })

/-- The next temporary number; so many as `Oid.tempMark` are told apart. -/
def takeTemp : BindM Nat := modifyGet fun s => (s.nextTemp, { s with nextTemp := s.nextTemp + 1 })

def currentScope : BindM Scope := do ofExcept (← get).scopes.current

def modifyScope (f : Scope → Except Diagnostic Scope) : BindM Unit := do
  let s ← get
  match s.scopes with
  | [] => refuse .internal "no active bind scope"
  | scope :: outer => do
    let scope ← ofExcept (f scope)
    set { s with scopes := scope :: outer }

def inScope {α : Type} (act : BindM α) : BindM α := fun s =>
  match act { s with scopes := s.scopes.open_ } with
  | .ok a s' => .ok a { s' with scopes := s'.scopes.tail }
  | .error e s' => .error e { s' with scopes := s'.scopes.tail }

def inSibling {α : Type} (act : BindM α) : BindM α := fun s =>
  match s.scopes with
  | [] => .error (.refused ⟨.internal, "no scope for UNION"⟩) s
  | scope :: outer =>
    match act { s with scopes := scope.sibling :: outer } with
    | .ok a s' => .ok a { s' with scopes := scope :: s'.scopes.tail }
    | .error e s' => .error e { s' with scopes := scope :: s'.scopes.tail }

def finishExpr (id : ExprId) : BindM Unit :=
  modifyExprs fun a => (((a.deriveDepth id).2.deriveSubqueryFlag id).2.deriveName id).2

end BindM

end SqlAnalysis
