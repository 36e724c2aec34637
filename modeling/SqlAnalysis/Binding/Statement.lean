import SqlAnalysis.Binding.Definition

/-!
# Binding statements

* **`bindExpr`**, **`bindQuery`**, **`bindBranch`**: the binding of expressions and queries, down to
  a given number of levels.
* **`bind`**: binds a statement and promotes its parameters to the types it infers for them; after a
  failure the parameters are what they were.
-/

namespace SqlAnalysis

open BindM

mutual

def bindExpr (env : Accessor) : Nat → ExprId → BindM Unit
  | 0, _ => throw .circular
  | n + 1, id => bindExprWith env ⟨bindExpr env n, bindQuery env n, bindBranch env n⟩ id

def bindQuery (env : Accessor) : Nat → Select → BindM Select
  | 0, _ => throw .circular
  | n + 1, q => bindQueryWith ⟨bindExpr env n, bindQuery env n, bindBranch env n⟩ q

def bindBranch (env : Accessor) : Nat → Select → Nat → BindM Select
  | 0, _, _ => throw .circular
  | n + 1, q, depth =>
    bindBranchWith env ⟨bindExpr env n, bindQuery env n, bindBranch env n⟩ q depth

end

def recurTo (env : Accessor) (levels : Nat) : Recur :=
  ⟨bindExpr env levels, bindQuery env levels, bindBranch env levels⟩

def Statement.isExplainable : Statement → Bool
  | .select _ | .insert _ | .update _ | .delete _ | .analyze _ => true
  | .create .. | .drop _ | .explain _ => false

def bindStatementWith (env : Accessor) (rec : Recur) : Statement → BindM Statement
  | .select query => do pure (.select (← rec.query query))
  | .insert insert => inScope do pure (.insert (← bindInsert env rec insert))
  | .update update => inScope do pure (.update (← bindUpdate env rec update))
  | .delete delete => inScope do pure (.delete (← bindDelete env rec delete))
  | .create ifNotExists creation =>
    inScope do pure (.create ifNotExists (← bindCreation env rec creation))
  | .drop drop => inScope do pure (.drop (← ofExcept (bindDrop env drop)))
  | .analyze analyze => inScope do pure (.analyze (← ofExcept (bindAnalyze env analyze)))
  | .explain inner =>
    if inner.isExplainable then do
      pure (.explain (← bindStatementWith env rec inner))
    else
      refuse .syntaxError s!"EXPLAIN is not supported for {inner.keyword} statements"

def Catalog.storedWeight (c : Catalog) : Nat :=
  let ofColumn (column : Column) : Nat := (column.default.map (·.arena.weight)).getD 0
  let ofSchema (schema : Schema) : Nat := schema.foldl (fun n column => n + ofColumn column) 0
  c.schemas.foldl (fun n e => n + ofSchema e.2) 0

/-- As many levels as a statement can need: on the way down no node and no part of a query is met
twice between two subqueries, no subquery is entered twice, and a query takes two levels. -/
def bindLevels (env : Accessor) (p : Parsed) : Nat :=
  (p.exprs.size + 1) * (2 * (p.exprs.weight + p.statement.weight + env.catalog.storedWeight) + 16)

/-- What a binding leaves. -/
structure BindOutcome where
  result : Except Fault Bound
  /-- The parameters: promoted after a success, untouched after a failure. -/
  parameters : List Value
  /-- The counter of statement-local objects, which also a failure moves on. -/
  nextTemp : Nat

def BindState.initial (env : Accessor) (p : Parsed) (parameters : List Value) : BindState :=
  { exprs := p.exprs
    expectations := Expectations.initial parameters.length
    parameters := parameters
    nextTemp := env.catalog.nextTemp }

def bind (env : Accessor) (p : Parsed) (parameters : List Value) : BindOutcome :=
  let rec_ := recurTo env (bindLevels env p)
  match bindStatementWith env rec_ p.statement (BindState.initial env p parameters) with
  | .ok statement s =>
    { result := .ok ⟨statement, s.exprs, s.expectations.parameterTypes⟩
      parameters := s.parameters
      nextTemp := s.nextTemp }
  | .error fault s => { result := .error fault, parameters := parameters, nextTemp := s.nextTemp }

end SqlAnalysis
