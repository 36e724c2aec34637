import SqlAnalysis.Expr.Arena

/-!
# Expressions as text

* **`Arena.display`**: an expression in SQL-like notation, as it stands in messages.
-/

namespace SqlAnalysis

def Expr.displayWith (show_ : ExprId → String) : Expr → String
  | .constant v => v.text
  | .parameter index => s!"${index + 1}"
  | .column ref =>
    match ref.table with
    | some knownAs => s!"{knownAs.name}.{ref.column}"
    | none => ref.column
  | .star => "*"
  | .tableStar table => s!"{table}.*"
  | .compare op left right => s!"({show_ left} {op.symbol} {show_ right})"
  | .connect op operands =>
    let separator := match op with
      | .and => " AND "
      | .or => " OR "
    "(" ++ separator.intercalate (operands.map show_) ++ ")"
  | .operate op [operand] =>
    match op with
    | .isNull | .isNotNull => s!"({show_ operand} {op.symbol})"
    | _ => s!"({op.symbol} {show_ operand})"
  | .operate op [left, right] => s!"({show_ left} {op.symbol} {show_ right})"
  | .operate op _ => op.symbol
  | .call name args _ => s!"{name}(" ++ ", ".intercalate (args.map show_) ++ ")"
  | .aggregate .countStar _ _ => "count(*)"
  | .aggregate function (some arg) distinct =>
    if distinct then s!"{function.name}(DISTINCT {show_ arg})" else s!"{function.name}({show_ arg})"
  | .aggregate function none _ => s!"{function.name}()"
  | .cast target operand => s!"CAST({show_ operand} AS {target})"
  | .case branches otherwise =>
    let whens := branches.map fun (c, t) => s!" WHEN {show_ c} THEN {show_ t}"
    let fallback := match otherwise with
      | some e => s!" ELSE {show_ e}"
      | none => ""
    "CASE" ++ String.join whens ++ fallback ++ " END"
  | .subquery _ => "(subquery)"
  | .default => "DEFAULT"

namespace Arena

def displayFrom (a : Arena) : Nat → ExprId → String
  | 0, _ => ""
  | fuel + 1, id => (a.expr id).displayWith (displayFrom a fuel)

def display (a : Arena) (id : ExprId) : String := a.displayFrom a.bound id

end Arena

def StoredExpr.display (e : StoredExpr) : String := e.arena.display e.root

end SqlAnalysis
