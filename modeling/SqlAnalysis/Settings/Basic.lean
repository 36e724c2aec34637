import SqlAnalysis.Diagnostic
import SqlAnalysis.Settings.Json

/-!
# Planner settings

* **`Settings.ofJson`**: settings from a JSON document: an object that names some of them, or an
  array that gives them in order; what is not given keeps its default.
-/

namespace SqlAnalysis

/-- What a session's planner is told. -/
structure Settings where
  /-- The database every statement is bound against. -/
  database : String := "prism"
  /-- The namespace of unqualified names. -/
  defaultNamespace : String := "public"
  /-- Whether plans are logged. -/
  logPlans : Bool := false
  /-- Whether dropping a missing object with IF EXISTS is only a notice. -/
  dropNotice : Bool := true
  deriving DecidableEq, Repr, Inhabited

namespace Settings

/-- The settings by name, in the order in which an array gives them. -/
inductive Key where
  | database
  | defaultNamespace
  | logPlans
  | dropNotice
  deriving DecidableEq

def Key.all : List Key := [.database, .defaultNamespace, .logPlans, .dropNotice]

def Key.name : Key → String
  | .database => "database"
  | .defaultNamespace => "default_namespace"
  | .logPlans => "log_plans"
  | .dropNotice => "drop_if_exists_notice"

def set? (s : Settings) : Key → Json → Option Settings
  | .database, .text (some v) => some { s with database := v }
  | .defaultNamespace, .text (some v) => some { s with defaultNamespace := v }
  | .logPlans, .bool v => some { s with logPlans := v }
  | .dropNotice, .bool v => some { s with dropNotice := v }
  | _, _ => none

/-- Settings from the members of an object: unknown names do not count, a known one counts once. -/
def ofMembers? (s : Settings) (free : List Key) : List (Option String × Json) → Option Settings
  | [] => some s
  | (none, _) :: _ => none
  | (some name, value) :: rest =>
    match Key.all.find? (·.name == name) with
    | none => ofMembers? s free rest
    | some key =>
      if free.contains key then do
        ofMembers? (← s.set? key value) (free.erase key) rest
      else
        none

def ofItems? (s : Settings) : List Key → List Json → Option Settings
  | _, [] => some s
  | key :: keys, value :: rest => do ofItems? (← s.set? key value) keys rest
  | [], _ :: _ => none

def ofDocument? : Json → Option Settings
  | .object members => ofMembers? {} Key.all members
  | .array items => ofItems? {} Key.all items
  | _ => none

def ofJson (text : String) : Except Diagnostic Settings :=
  match (Json.read? text).bind ofDocument? with
  | some s => .ok s
  | none => .error ⟨.syntaxError, "invalid planner configuration"⟩

end Settings

end SqlAnalysis
