import SqlAnalysis.Expr.Display
import SqlAnalysis.Keyed

/-!
# Expected types

An expression is first bound to learn its natural type.  What it stands in then records the type it
expects, and the expression is bound again, so that literals and placeholders can adopt that type.

* **`Expectations.expectPair`**: gives both sides of a comparison one type.
* **`Expectations.check`**: refuses an expression whose type does not fit what is expected.
-/

namespace SqlAnalysis

/-- What is expected of expressions and parameters. -/
structure Expectations where
  expected : Keyed ExprId SqlType := []
  parameterTypes : List SqlType := []
  nextSerial : Nat := 1

namespace Expectations

def initial (parameters : Nat) : Expectations :=
  { parameterTypes := List.replicate parameters .invalid }

def expect (x : Expectations) (id : ExprId) (t : SqlType) : Expectations :=
  { x with expected := x.expected.insert id t }

def expectedOf (x : Expectations) (id : ExprId) : SqlType := (x.expected.find? id).getD .invalid

def effective (x : Expectations) (a : Arena) (id : ExprId) : SqlType :=
  if (x.expectedOf id).isValid then x.expectedOf id else a.typeOf id

/-- The common type of the two sides of a comparison.  A literal facing something else adopts the
type of the other side. -/
def pairType (x : Expectations) (a : Arena) (left right : ExprId) : Except Diagnostic SqlType :=
  let s := x.effective a left
  let t := x.effective a right
  let leftLiteral := (a.expr left).isLiteral
  let rightLiteral := (a.expr right).isLiteral
  if s = t then
    .ok s
  else if leftLiteral && !rightLiteral && t.isValid then
    .ok t
  else if rightLiteral && !leftLiteral && s.isValid then
    .ok s
  else
    match s.common? t with
    | some u => .ok u
    | none =>
      .error ⟨.datatypeMismatch,
        s!"cannot compare {a.display left} ({s}) with {a.display right} ({t})"⟩

def expectPair (x : Expectations) (a : Arena) (left right : ExprId) :
    Except Diagnostic Expectations :=
  (x.pairType a left right).map fun t => (x.expect left t).expect right t

def fits (x : Expectations) (a : Arena) (id : ExprId) : Bool :=
  !(x.expectedOf id).isValid || (a.typeOf id).implicitlyCasts (x.expectedOf id)

def check (x : Expectations) (a : Arena) (id : ExprId) : Except Diagnostic Unit :=
  if x.fits a id then
    .ok ()
  else
    .error ⟨.datatypeMismatch,
      s!"expression {a.display id} is of type {a.typeOf id} but {x.expectedOf id} was expected"⟩

def setParameterType (x : Expectations) (index : Nat) (t : SqlType) : Expectations :=
  let padded := x.parameterTypes ++ List.replicate (index + 1 - x.parameterTypes.length) .invalid
  { x with parameterTypes := padded.set index t }

def takeSerial (x : Expectations) : Nat × Expectations :=
  (x.nextSerial, { x with nextSerial := x.nextSerial + 1 })

end Expectations

end SqlAnalysis
