import SqlAnalysis.Query.Select

/-!
# Parts of queries

Lists of what is nested in a query: blocks, table references and WITH entries.  The queries of
subqueries are expressions and belong to the store, so that they are not looked into.
-/

namespace SqlAnalysis

open TableRef

/-- What is looked for in a query. -/
structure Probe (α : Type) where
  block : Select → List α := fun _ => []
  reference : TableRef → List α := fun _ => []
  entry : Cte → List α := fun _ => []

variable {α : Type}

mutual

def Select.gather (p : Probe α) : Select → List α
  | ⟨ctes, distinct, items, source, filter, grouping, ordering, bounds, union, depth⟩ =>
    p.block ⟨ctes, distinct, items, source, filter, grouping, ordering, bounds, union, depth⟩ ++
      Cte.gatherAll p ctes ++ TableRef.gatherOpt p source ++ Select.gatherOpt p union

def Select.gatherOpt (p : Probe α) : Option Select → List α
  | none => []
  | some q => q.gather p

def Cte.gatherAll (p : Probe α) : List Cte → List α
  | [] => []
  | ⟨name, columns, query, recursive⟩ :: rest =>
    p.entry ⟨name, columns, query, recursive⟩ ++ query.gather p ++ Cte.gatherAll p rest

def TableRef.gatherOpt (p : Probe α) : Option TableRef → List α
  | none => []
  | some item => item.gather p

def TableRef.gather (p : Probe α) : TableRef → List α
  | .table base => p.reference (.table base)
  | .derived query knownAs => p.reference (.derived query knownAs) ++ query.gather p
  | .join _ left right _ => left.gather p ++ right.gather p
  | .list items => TableRef.gatherAll p items

def TableRef.gatherAll (p : Probe α) : List TableRef → List α
  | [] => []
  | item :: rest => item.gather p ++ TableRef.gatherAll p rest

end

theorem Select.gather_eq (p : Probe α) (q : Select) :
    q.gather p = p.block q ++ Cte.gatherAll p q.ctes ++ TableRef.gatherOpt p q.source ++
      Select.gatherOpt p q.union := by
  cases q
  rw [Select.gather]

theorem Cte.gatherAll_cons (p : Probe α) (c : Cte) (cs : List Cte) :
    Cte.gatherAll p (c :: cs) = p.entry c ++ c.query.gather p ++ Cte.gatherAll p cs := by
  cases c
  rw [Cte.gatherAll]

/-! ### Named parts -/

/-- A part of a query that names something, with what a second binding leaves alone. -/
inductive NamedPart where
  | table (base : BaseTable)
  /-- A derived table with its select list. -/
  | derived (items : List ExprId) (knownAs : Alias)
  /-- A WITH entry with the serials of its columns and its select list. -/
  | entry (name : String) (serials : List (Option Nat)) (items : List ExprId)
  deriving DecidableEq

namespace NamedPart

/-- The alias of a table reference. -/
def alias? : NamedPart → Option Alias
  | .table base => some base.knownAs
  | .derived _ knownAs => some knownAs
  | .entry .. => none

def items : NamedPart → List ExprId
  | .table _ => []
  | .derived items _ => items
  | .entry _ _ items => items

def ofReference : TableRef → List NamedPart
  | .table base => [.table base]
  | .derived query knownAs => [.derived query.items knownAs]
  | .join .. | .list _ => []

def ofEntry (c : Cte) : NamedPart := .entry c.name (c.columns.map (·.serial)) c.query.items

def probe : Probe NamedPart := { reference := ofReference, entry := fun c => [ofEntry c] }

end NamedPart

def Select.named (q : Select) : List NamedPart := q.gather NamedPart.probe

def outputProbe : Probe ExprId := { block := (·.items) }

/-- The items of all select lists of a query and of the queries nested in it. -/
def Select.outputs (q : Select) : List ExprId := q.gather outputProbe

def blockProbe : Probe Select := { block := fun q => [q] }

def Select.blocks (q : Select) : List Select := q.gather blockProbe

theorem Select.mem_blocks_self (q : Select) : q ∈ q.blocks := by
  rw [blocks, gather_eq]
  simp [blockProbe]

/-! ### Items of a FROM clause -/

mutual

/-- A FROM item with all items that it consists of, the queries of derived tables apart. -/
def TableRef.items : TableRef → List TableRef
  | .table base => [.table base]
  | .derived query knownAs => [.derived query knownAs]
  | .join kind left right condition => .join kind left right condition :: (left.items ++ right.items)
  | .list refs => .list refs :: itemsAll refs

def TableRef.itemsAll : List TableRef → List TableRef
  | [] => []
  | item :: rest => item.items ++ itemsAll rest

end

/-- The items of a FROM clause, if there is one. -/
def TableRef.itemsOpt (source : Option TableRef) : List TableRef := (source.map items).getD []

end SqlAnalysis
