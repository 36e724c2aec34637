import SqlAnalysis.Binding.State
import SqlAnalysis.Catalog.Lookup
import SqlAnalysis.Text.EditDistance

/-!
# Binding expressions

Operands are bound first, to learn their natural types.  Where an expression needs a certain type of
an operand it records the expectation and binds the operand again, which converts literals and
placeholders.

* **`resolveColumn`**: the column that a written name means.
* **`bindExprWith`**: binds one expression, given how to bind its operands.
-/

namespace SqlAnalysis

open Text BindM

/-- The candidate nearest to a name, at most two edits away; of several the first. -/
def closest? (name : String) (candidates : List String) : Option String :=
  let better (best : Option (Nat × String)) (candidate : String) : Option (Nat × String) :=
    let distance := editDistance name candidate
    match best with
    | none => if distance ≤ 2 then some (distance, candidate) else none
    | some (least, _) => if distance < least then some (distance, candidate) else best
  (candidates.foldl better none).map (·.2)

/-- The refusal of a name that no visible table has as a column, with a hint at a similar one. -/
def undefinedColumn (scopes : ScopeStack) (name : String) : Diagnostic :=
  match closest? name scopes.columnNames with
  | some candidate =>
    ⟨.undefinedColumn, s!"column \"{name}\" does not exist, did you mean \"{candidate}\"?"⟩
  | none => missingColumn name

def missingTable (name : String) : Diagnostic :=
  ⟨.undefinedTable, s!"missing FROM-clause entry for table \"{name}\""⟩

def starWithoutTables : Diagnostic :=
  ⟨.syntaxError, "SELECT * with no tables specified is not valid"⟩

def resolveColumn (scopes : ScopeStack) (ref : ColumnRef) : Except Diagnostic ResolvedColumn := do
  let name := lowercase ref.column
  match ref.table with
  | none =>
    match ← scopes.unqualified name with
    | some c => .ok c
    | none => .error (undefinedColumn scopes name)
  | some knownAs =>
    let table := (scopes.aliasOf (lowercase knownAs.name)).name
    match ← scopes.qualified table name with
    | some c => .ok c
    | none => .error (missingTable table)

def ResolvedColumn.ref (c : ResolvedColumn) : ColumnRef :=
  { table := some c.knownAs, column := c.column, databaseId := c.databaseId, tableId := c.tableId,
    columnId := c.columnId }

def bindConstant (id : ExprId) (v : Value) : BindM Unit := do
  let expected ← expectedOf id
  if expected.isValid then
    let v ← ofExcept (v.promote expected)
    modifyExprs fun a => (a.setExpr id (.constant v)).setType id expected
  else if !v.isNull then
    setType id v.sqlType

/-- Converts the value of a placeholder and records the type of the parameter. -/
def bindParameter (id : ExprId) (index : Nat) : BindM Unit := do
  match (← get).parameters[index]? with
  | none => refuse .undefinedParameter s!"there is no parameter ${index + 1}"
  | some v => do
    let expected ← expectedOf id
    let v ← ofExcept (v.promote expected)
    let t := if expected.isValid then expected else v.sqlType
    modify fun s =>
      { s with
        parameters := s.parameters.set index v
        exprs := s.exprs.setType id t
        expectations := s.expectations.setParameterType index t }

/-- Attaches a column to the table it belongs to, unless that was done before.  Its own type is what
is expected of it unless something else is. -/
def bindColumn (id : ExprId) (ref : ColumnRef) : BindM Unit := do
  if !ref.isResolved then
    let c ← ofExcept (resolveColumn (← get).scopes ref)
    modifyExprs (·.update id fun n =>
      { n with kind := .column c.ref, type := c.type, depth := some c.depth })
  if !(← expectedOf id).isValid then
    expect id (← typeOf id)
  checkExpected id

def bindStar : BindM Unit := do
  if (← currentScope).tables.isEmpty then
    throw (.refused starWithoutTables)

def dropLiteralCast (parent operand : ExprId) : BindM Unit := do
  match ← exprOf operand with
  | .cast _ inner =>
    if ← isLiteral inner then
      modifyExprs (·.replaceChild parent operand inner)
  | _ => pure ()

def bindComparison (rec : Recur) (id left right : ExprId) : BindM Unit := do
  rec.expr left
  rec.expr right
  setType id .boolean
  checkExpected id
  expectPair left right
  rec.expr left
  rec.expr right
  dropLiteralCast id left
  dropLiteralCast id right

def bindConnective (rec : Recur) (id : ExprId) (operands : List ExprId) : BindM Unit := do
  operands.forM rec.expr
  setType id .boolean
  checkExpected id
  operands.forM fun operand => do
    expect operand .boolean
    rec.expr operand

def singleOperand (op : Operator) : List ExprId → BindM ExprId
  | [operand] => pure operand
  | _ => refuse .internal s!"operator {op.symbol} expects one operand"

def convertLiteral (rec : Recur) (t : SqlType) (id : ExprId) : BindM Unit := do
  if (← isLiteral id) && (← typeOf id) != t then
    expect id t
    rec.expr id

/-- The type of a binary arithmetic operation, to which literal operands are converted. -/
def bindArithmetic (rec : Recur) (op : Operator) (left right : ExprId) : BindM SqlType := do
  let s ← typeOf left
  let t ← typeOf right
  let mismatch : Diagnostic :=
    ⟨.undefinedFunction, s!"operator does not exist: {s} {op.symbol} {t}"⟩
  match s.common? t with
  | none => throw (.refused mismatch)
  | some result =>
    if result.isValid && !result.isNumeric then
      throw (.refused mismatch)
    else do
      convertLiteral rec result left
      convertLiteral rec result right
      pure result

def operationType (rec : Recur) (op : Operator) (operands : List ExprId) : BindM SqlType := do
  match op with
  | .not => do
    let operand ← singleOperand op operands
    expect operand .boolean
    rec.expr operand
    pure .boolean
  | .isNull | .isNotNull | .exists => pure .boolean
  | .negate => do
    let t ← typeOf (← singleOperand op operands)
    if t.isValid && !t.isNumeric then
      refuse .undefinedFunction s!"operator does not exist: - {t}"
    else
      pure t
  | .plus | .minus | .multiply | .divide | .modulo =>
    match operands with
    | [left, right] => bindArithmetic rec op left right
    | _ => refuse .internal s!"operator {op.symbol} expects two operands"

def bindOperation (rec : Recur) (id : ExprId) (op : Operator) (operands : List ExprId) : BindM Unit :=
  do
  operands.forM rec.expr
  let t ← operationType rec op operands
  setType id t
  checkExpected id

/-- Binds a function call: the overload is chosen by the types of the arguments, then literal
arguments are converted to its parameters. -/
def bindCall (env : Accessor) (rec : Recur) (id : ExprId) (name : String) (args : List ExprId) :
    BindM Unit := do
  let lower := lowercase name
  args.forM rec.expr
  let types ← args.mapM typeOf
  match env.routine? lower types with
  | none =>
    let listed := ", ".intercalate (types.map SqlType.text)
    refuse .undefinedFunction s!"function {lower}({listed}) does not exist"
  | some routine => do
    (args.zip routine.parameters).forM fun (arg, t) => convertLiteral rec t arg
    modifyExprs (·.update id fun n =>
      { n with kind := .call name args routine.procId, type := routine.returns })
    checkExpected id

def Aggregate.resultType? (f : Aggregate) (t : SqlType) : Option SqlType :=
  let overNumbers (whole : SqlType) : Option SqlType :=
    if t.isIntegral then
      some whole
    else
      match t with
      | .decimal .. | .double | .invalid => some t
      | _ => none
  match f with
  | .count | .countStar => some .bigInt
  | .min | .max => some t
  | .sum => overNumbers .bigInt
  | .avg => overNumbers .double

def bindAggregateArg (rec : Recur) (f : Aggregate) : Option ExprId → BindM SqlType
  | some arg => do
    rec.expr arg
    if (← get).exprs.hasAggregate arg then
      refuse .syntaxError "aggregate function calls cannot be nested"
    else
      typeOf arg
  | none =>
    if f = .countStar then pure .invalid else refuse .syntaxError s!"{f.name} requires an argument"

def bindAggregate (rec : Recur) (id : ExprId) (f : Aggregate) (arg : Option ExprId) : BindM Unit :=
  do
  let t ← bindAggregateArg rec f arg
  match f.resultType? t with
  | none => refuse .undefinedFunction s!"function {f.name}({t}) does not exist"
  | some result => do
    setType id result
    checkExpected id

/-- Binds a cast: a literal adopts the target type, anything else must be convertible. -/
def bindCast (rec : Recur) (id : ExprId) (target : SqlType) (operand : ExprId) : BindM Unit := do
  if ← isLiteral operand then
    expect operand target
    rec.expr operand
  else
    rec.expr operand
    let t ← typeOf operand
    if !t.explicitlyCasts target then
      refuse .datatypeMismatch s!"cannot cast type {t} to {target}"
  setType id target
  checkExpected id

/-- Refuses an expression that is not a truth value in a clause that needs one. -/
def requireBoolean (id : ExprId) (clause : String) : BindM Unit := do
  let t ← typeOf id
  if t.isValid && t != .boolean then
    refuse .datatypeMismatch s!"argument of {clause} must be type boolean, not type {t}"

def caseType : SqlType → List SqlType → Except Diagnostic SqlType
  | found, [] => .ok found
  | found, t :: rest =>
    match found.common? t with
    | some u => caseType u rest
    | none => .error ⟨.datatypeMismatch, s!"CASE types {found} and {t} cannot be matched"⟩

def bindCase (rec : Recur) (id : ExprId) (branches : List (ExprId × ExprId))
    (otherwise : Option ExprId) :
    BindM Unit := do
  branches.forM fun (condition, result) => do
    expectBooleanLiteral condition
    rec.expr condition
    requireBoolean condition "CASE/WHEN"
    rec.expr result
  otherwise.toList.forM rec.expr
  let results := branches.map (·.2) ++ otherwise.toList
  let t ← ofExcept (caseType .invalid (← results.mapM typeOf))
  results.forM (convertLiteral rec t)
  setType id t
  checkExpected id

/-- Binds a subquery once; its type is that of its first column.  While it is bound, its node holds
an empty query. -/
def bindSubquery (rec : Recur) (id : ExprId) (query : Select) : BindM Unit := do
  let query ← if query.depth.isSome then pure query else do
    modifyExprs (·.setQuery id {})
    let query ← rec.query query
    modifyExprs (·.setQuery id query)
    pure query
  let t ← match query.items with
    | first :: _ => typeOf first
    | [] => pure .invalid
  modifyExprs (·.update id ({ · with type := t, hasSubquery := true }))
  checkExpected id

def bindExprWith (env : Accessor) (rec : Recur) (id : ExprId) : BindM Unit := do
  match (← getNode id).kind with
  | .constant v => bindConstant id v
  | .parameter index => bindParameter id index
  | .column ref => bindColumn id ref
  | .star => bindStar
  | .tableStar _ => bindStar
  | .compare _ left right => bindComparison rec id left right
  | .connect _ operands => bindConnective rec id operands
  | .operate op operands => bindOperation rec id op operands
  | .call name args _ => bindCall env rec id name args
  | .aggregate f arg _ => bindAggregate rec id f arg
  | .cast target operand => bindCast rec id target operand
  | .case branches otherwise => bindCase rec id branches otherwise
  | .subquery query => bindSubquery rec id query
  | .default => refuse .syntaxError "DEFAULT is not allowed in this context"

end SqlAnalysis
