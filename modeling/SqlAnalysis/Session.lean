import SqlAnalysis.Planner

/-!
# Sessions

A catalog with named transactions, planner settings and the last prepared statement.

* **`Session.begin`**, **`commit`**, **`abort`**: the life of a transaction; the hooks due at its
  end run at once.
* **`Session.create`**: adds an object to the catalog under a transaction.
* **`Session.plan`**, **`bind`**, **`rebind`**, **`lower`**, **`transform`**: work on statements.
-/

namespace SqlAnalysis

/-- The state of a session. -/
structure Session where
  catalog : Catalog := .initial
  settings : Settings := {}
  transactions : Keyed String Transaction := []
  /-- The labels announced by hooks so far. -/
  announced : List String := []
  /-- The statement that was bound last. -/
  prepared : Option Bound := none

namespace Session

def transaction (s : Session) (name : String) : Transaction :=
  (s.transactions.find? name).getD default

def setTransaction (s : Session) (name : String) (t : Transaction) : Session :=
  { s with transactions := s.transactions.insert name t }

def modifyTransaction (s : Session) (name : String) (f : Transaction → Transaction) : Session :=
  s.setTransaction name (f (s.transaction name))

def begin (s : Session) (name id : String) : Session := s.setTransaction name { id := id }

def runHook (s : Session) : Hook → Session
  | .undo change => { s with catalog := s.catalog.undo change }
  | .announce label => { s with announced := s.announced ++ [label] }

/-- The session after an attempt to end a transaction, and the state it ended in. -/
def settle (s : Session) (name : String) (ended : Except Diagnostic (List Hook × Transaction)) :
    Except Diagnostic TransactionState × Session :=
  match ended with
  | .error e => (.error e, s)
  | .ok (due, t) => (.ok t.state, due.foldl runHook (s.setTransaction name t))

def commit (s : Session) (name : String) : Except Diagnostic TransactionState × Session :=
  s.settle name (s.transaction name).commit

def abort (s : Session) (name : String) : Except Diagnostic TransactionState × Session :=
  s.settle name (s.transaction name).abort

def create (s : Session) (name : String) (act : Catalog → Transaction → Catalog.Created) :
    Except Diagnostic Oid × Session :=
  let (result, catalog, t) := act s.catalog (s.transaction name)
  (result, { s with catalog := catalog }.setTransaction name t)

def registerRoutine (s : Session) (name : String) (parameters : List SqlType) (returns : SqlType) :
    Oid × Session :=
  let (id, catalog) := s.catalog.registerRoutine name parameters returns
  (id, { s with catalog := catalog })

def accessor (s : Session) : Except Diagnostic Accessor :=
  s.catalog.accessor s.settings.database s.settings.defaultNamespace

def takeTemp (s : Session) : Nat × Session :=
  (s.catalog.nextTemp, { s with catalog := { s.catalog with nextTemp := s.catalog.nextTemp + 1 } })

def setNextTemp (s : Session) (n : Nat) : Session :=
  { s with catalog := { s.catalog with nextTemp := n } }

def bind (s : Session) (p : Parsed) (parameters : List Value) :
    Except Fault Bound × List Value × Session :=
  match s.accessor with
  | .error e => (.error (.refused e), parameters, s)
  | .ok env =>
    let outcome := SqlAnalysis.bind env p parameters
    let s := s.setNextTemp outcome.nextTemp
    match outcome.result with
    | .error fault => (.error fault, outcome.parameters, s)
    | .ok b => (.ok b, outcome.parameters, { s with prepared := some b })

def plan (s : Session) (name : String) (p : Parsed) (parameters : List Value) :
    Except Fault Planned × List Value × Session :=
  match s.accessor with
  | .error e => (.error (.refused e), parameters, s)
  | .ok env =>
    let outcome := SqlAnalysis.plan s.settings env p parameters
    let s := s.setNextTemp outcome.nextTemp
    let s := if outcome.dooms then s.modifyTransaction name (·.setMustAbort) else s
    match outcome.result with
    | .ok (.plan b tree) => (.ok (.plan b tree), outcome.parameters, { s with prepared := some b })
    | result => (result, outcome.parameters, s)

/-- Binds the remembered statement again; also says whether the result is the same. -/
def rebind (s : Session) (b : Bound) (parameters : List Value) :
    Except Fault (Bound × Bool) × List Value × Session :=
  let (result, parameters, s) := s.bind b.toParsed parameters
  (result.map fun c => (c, c.same b), parameters, s)

def lower (s : Session) (b : Bound) : Except Fault Plan × Bound × Session :=
  match s.accessor with
  | .error e => (.error (.refused e), b, s)
  | .ok env =>
    let outcome := SqlAnalysis.lower env b
    (outcome.result, outcome.bound, s.setNextTemp outcome.nextTemp)

def transform (s : Session) (b : Bound) : Except Fault Plan × Bound × Session :=
  let (result, b, s) := s.lower b
  (result, b, { s with prepared := some b })

end Session

end SqlAnalysis
