import SqlAnalysis.Oid
import SqlAnalysis.Query.Select
import SqlAnalysis.Value.Basic

/-!
# Expressions
-/

namespace SqlAnalysis

/-- Comparison operators. -/
inductive CompareOp where
  | equal
  | notEqual
  | lessThan
  | lessThanOrEqual
  | greaterThan
  | greaterThanOrEqual
  | isIn
  | like
  | notLike
  deriving DecidableEq, Repr, Inhabited

def CompareOp.symbol : CompareOp → String
  | .equal => "="
  | .notEqual => "<>"
  | .lessThan => "<"
  | .lessThanOrEqual => "<="
  | .greaterThan => ">"
  | .greaterThanOrEqual => ">="
  | .isIn => "IN"
  | .like => "LIKE"
  | .notLike => "NOT LIKE"

/-- The two connectives. -/
inductive Connective where
  | and
  | or
  deriving DecidableEq, Repr, Inhabited

/-- Operators other than comparisons and connectives. -/
inductive Operator where
  | not
  | isNull
  | isNotNull
  | «exists»
  | negate
  | plus
  | minus
  | multiply
  | divide
  | modulo
  deriving DecidableEq, Repr, Inhabited

namespace Operator

def isPredicate : Operator → Bool
  | .not | .isNull | .isNotNull | .exists => true
  | _ => false

def symbol : Operator → String
  | .not => "NOT"
  | .isNull => "IS NULL"
  | .isNotNull => "IS NOT NULL"
  | .exists => "EXISTS"
  | .negate => "-"
  | .plus => "+"
  | .minus => "-"
  | .multiply => "*"
  | .divide => "/"
  | .modulo => "%"

end Operator

/-- Aggregate functions. -/
inductive Aggregate where
  | count
  | countStar
  | sum
  | avg
  | min
  | max
  deriving DecidableEq, Repr, Inhabited

def Aggregate.name : Aggregate → String
  | .count => "count"
  | .countStar => "count"
  | .sum => "sum"
  | .avg => "avg"
  | .min => "min"
  | .max => "max"

/-- A reference to a column.  It is resolved once it has a column number; columns of derived tables
and of WITH entries have no table number. -/
structure ColumnRef where
  table : Option Alias := none
  column : String
  databaseId : Oid := Oid.invalid
  tableId : Oid := Oid.invalid
  columnId : Oid := Oid.invalid
  deriving DecidableEq, Repr, Inhabited

def ColumnRef.isResolved (c : ColumnRef) : Bool := c.columnId.isValid

/-- The kinds of expression. -/
inductive Expr where
  | constant (value : Value)
  /-- A placeholder of a prepared statement, counted from 0. -/
  | parameter (index : Nat)
  | column (ref : ColumnRef)
  | star
  | tableStar (table : String)
  | compare (op : CompareOp) (left right : ExprId)
  | connect (op : Connective) (operands : List ExprId)
  | operate (op : Operator) (operands : List ExprId)
  | call (name : String) (args : List ExprId) (procId : Oid)
  | aggregate (function : Aggregate) (arg : Option ExprId) (distinct : Bool)
  | cast (target : SqlType) (operand : ExprId)
  | case (branches : List (ExprId × ExprId)) (otherwise : Option ExprId)
  | subquery (query : Select)
  /-- The marker DEFAULT in a row of VALUES. -/
  | default
  deriving BEq

namespace Expr

def isConstant : Expr → Bool
  | .constant _ => true
  | _ => false

def isLiteral : Expr → Bool
  | .constant _ | .parameter _ => true
  | _ => false

def isNull : Expr → Bool
  | .constant .null => true
  | _ => false

def isSubquery : Expr → Bool
  | .subquery _ => true
  | _ => false

def isAggregate : Expr → Bool
  | .aggregate .. => true
  | _ => false

def column? : Expr → Option ColumnRef
  | .column ref => some ref
  | _ => none

def subquery? : Expr → Option Select
  | .subquery query => some query
  | _ => none

def initialType : Expr → SqlType
  | .constant v => v.sqlType
  | .cast target _ => target
  | .compare .. | .connect .. => .boolean
  | .operate op _ => if op.isPredicate then .boolean else .invalid
  | _ => .invalid

/-- The direct operands in order of evaluation; what a subquery mentions is not an operand. -/
def children : Expr → List ExprId
  | .compare _ left right => [left, right]
  | .connect _ operands => operands
  | .operate _ operands => operands
  | .call _ args _ => args
  | .aggregate _ arg _ => arg.toList
  | .cast _ operand => [operand]
  | .case branches otherwise => branches.flatMap (fun (c, t) => [c, t]) ++ otherwise.toList
  | _ => []

def mapChildren (f : ExprId → ExprId) : Expr → Expr
  | .compare op left right => .compare op (f left) (f right)
  | .connect op operands => .connect op (operands.map f)
  | .operate op operands => .operate op (operands.map f)
  | .call name args procId => .call name (args.map f) procId
  | .aggregate function arg distinct => .aggregate function (arg.map f) distinct
  | .cast target operand => .cast target (f operand)
  | .case branches otherwise =>
    .case (branches.map fun (c, t) => (f c, f t)) (otherwise.map f)
  | e => e

/-- The expression with each operand replaced by an action, in order of evaluation. -/
def traverse {m : Type → Type} [Monad m] (f : ExprId → m ExprId) : Expr → m Expr
  | .compare op left right => do
    let left ← f left
    let right ← f right
    pure (.compare op left right)
  | .connect op operands => do pure (.connect op (← operands.mapM f))
  | .operate op operands => do pure (.operate op (← operands.mapM f))
  | .call name args procId => do pure (.call name (← args.mapM f) procId)
  | .aggregate function (some arg) distinct => do
    pure (.aggregate function (some (← f arg)) distinct)
  | .cast target operand => do pure (.cast target (← f operand))
  | .case branches otherwise => do
    let branches ← branches.mapM fun (c, t) => do
      let c ← f c
      let t ← f t
      pure (c, t)
    match otherwise with
    | some e => do pure (.case branches (some (← f e)))
    | none => pure (.case branches none)
  | e => pure e

def same : Expr → Expr → Bool
  | .constant v, .constant w => v.same w
  | e, f => e == f

end Expr

/-- An expression with what is known about it. -/
structure ExprNode where
  kind : Expr
  type : SqlType
  /-- The output alias, as in `expr AS name`. -/
  knownAs : Option Alias := none
  /-- The depth of the outermost query block whose columns the expression uses. -/
  depth : Option Nat := none
  hasSubquery : Bool := false
  /-- The natural output name. -/
  name : String := ""

namespace ExprNode

def ofExpr (e : Expr) : ExprNode := { kind := e, type := e.initialType }

/-- A node that stands for nothing: the empty conjunction. -/
instance : Inhabited ExprNode := ⟨ofExpr (.connect .and [])⟩

def same (m n : ExprNode) : Bool :=
  m.kind.same n.kind && m.type == n.type && m.knownAs == n.knownAs && m.depth == n.depth &&
    m.hasSubquery == n.hasSubquery && m.name == n.name

end ExprNode

end SqlAnalysis
