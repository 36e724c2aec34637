import SqlAnalysis.Diagnostic
import SqlAnalysis.Oid

/-!
# Transactions

* **`Transaction.commit`**, **`Transaction.abort`**: end an active transaction; the hooks of one
  list are due then, in order of registration, and none ever after.
-/

namespace SqlAnalysis

/-- The states of a transaction. -/
inductive TransactionState where
  | active
  | committed
  | aborted
  deriving DecidableEq, Repr, Inhabited

def TransactionState.name : TransactionState → String
  | .active => "Active"
  | .committed => "Committed"
  | .aborted => "Aborted"

/-- How a change of the catalog is undone.  Objects inside a namespace are found under the
namespace's number and their name. -/
inductive Undo where
  /-- Removes a database and all its namespaces. -/
  | database (name : String) (id : Oid)
  | «namespace» (database : Oid) (name : String)
  | table (space : Oid) (name : String) (id : Oid)
  | index (space : Oid) (name : String)
  | view (space : Oid) (name : String)
  | trigger (space : Oid) (name : String)
  deriving DecidableEq, Repr

/-- Something due at the end of a transaction. -/
inductive Hook where
  | undo (change : Undo)
  | announce (label : String)
  deriving DecidableEq, Repr

/-- A transaction. -/
structure Transaction where
  /-- How messages call the transaction. -/
  id : String
  state : TransactionState := .active
  mustAbort : Bool := false
  onCommit : List Hook := []
  onAbort : List Hook := []
  deriving DecidableEq, Repr, Inhabited

namespace Transaction

def setMustAbort (t : Transaction) : Transaction := { t with mustAbort := true }

def addOnCommit (t : Transaction) (h : Hook) : Transaction :=
  { t with onCommit := t.onCommit ++ [h] }

def addOnAbort (t : Transaction) (h : Hook) : Transaction := { t with onAbort := t.onAbort ++ [h] }

/-- Ends an active transaction in a state and gives the hooks due; refused if it has ended. -/
def finish (t : Transaction) (outcome : TransactionState) :
    Except Diagnostic (List Hook × Transaction) :=
  if t.state = .active then
    let due := if outcome = .committed then t.onCommit else t.onAbort
    .ok (due, { t with state := outcome, onCommit := [], onAbort := [] })
  else
    .error ⟨.internal, s!"transaction {t.id} is already {t.state.name}"⟩

def abort (t : Transaction) : Except Diagnostic (List Hook × Transaction) := t.finish .aborted

def commit (t : Transaction) : Except Diagnostic (List Hook × Transaction) :=
  t.finish (if t.mustAbort then .aborted else .committed)

end Transaction

end SqlAnalysis
