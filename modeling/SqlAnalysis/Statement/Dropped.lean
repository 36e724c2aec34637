import SqlAnalysis.Catalog.Lookup
import SqlAnalysis.Statement.Basic

/-!
# Objects of DROP

* **`Drop.objectId?`**: the number of the object that a DROP means.
* **`Drop.missing`**: the refusal of a DROP whose object is not there.
-/

namespace SqlAnalysis

def DropKind.word : DropKind → String
  | .database => "database"
  | .schema => "schema"
  | .table => "table"
  | .index => "index"
  | .trigger => "trigger"
  | .view => "view"

namespace Drop

def objectId? (drop : Drop) (env : Accessor) : Option Oid :=
  match drop.kind with
  | .database => env.databaseIdOf? drop.target.name
  | .schema => env.namespaceIdOf? drop.target.name
  | .table => env.tableId? drop.target
  | .index => env.indexId? drop.target
  | .trigger => env.triggerId? drop.target
  | .view => env.viewId? drop.target

def missing (drop : Drop) : Diagnostic :=
  ⟨if drop.kind = .table then .undefinedTable else .undefinedObject,
    s!"{drop.kind.word} \"{drop.target.name}\" does not exist"⟩

end Drop

end SqlAnalysis
