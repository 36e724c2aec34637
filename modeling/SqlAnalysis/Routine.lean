import SqlAnalysis.Oid
import SqlAnalysis.SqlType
import SqlAnalysis.Text.Lowercase

/-!
# Scalar functions

* **`Routines.register`**: adds an overload at the end.
* **`Routines.resolve?`**: the overload a call means: the first with exactly the types of the
  arguments, otherwise the first of the same arity that every argument implicitly casts to.
-/

namespace SqlAnalysis

/-- One overload of a scalar function. -/
structure Routine where
  procId : Oid
  name : String
  parameters : List SqlType
  returns : SqlType
  deriving DecidableEq, Repr

/-- The known overloads in order of registration. -/
structure Routines where
  overloads : List Routine := []
  nextId : Oid := 1
  deriving Repr

namespace Routines

def register (r : Routines) (name : String) (parameters : List SqlType) (returns : SqlType) :
    Oid × Routines :=
  (r.nextId,
    { overloads := r.overloads ++ [⟨r.nextId, Text.lowercase name, parameters, returns⟩]
      nextId := r.nextId + 1 })

def named (r : Routines) (name : String) : List Routine :=
  r.overloads.filter (·.name == Text.lowercase name)

/-- Whether arguments of these types may be passed without a cast being written. -/
def accepts (parameters args : List SqlType) : Bool :=
  parameters.length == args.length &&
    (args.zip parameters).all fun (arg, param) => arg.implicitlyCasts param

def resolve? (r : Routines) (name : String) (args : List SqlType) : Option Routine :=
  ((r.named name).find? (·.parameters == args)).or
    ((r.named name).find? fun f => accepts f.parameters args)

def builtins : Routines :=
  let signatures : List (String × List SqlType × SqlType) :=
    [("lower", [.varchar], .varchar),
     ("upper", [.varchar], .varchar),
     ("length", [.varchar], .integer),
     ("substr", [.varchar, .integer, .integer], .varchar),
     ("concat", [.varchar, .varchar], .varchar),
     ("abs", [.integer], .integer),
     ("abs", [.bigInt], .bigInt),
     ("abs", [.double], .double),
     ("round", [.double], .double),
     ("sqrt", [.double], .double),
     ("now", [], .timestamp),
     ("date_trunc", [.varchar, .timestamp], .timestamp)]
  signatures.foldl (fun r (name, parameters, returns) => (r.register name parameters returns).2) {}

end Routines

end SqlAnalysis
