import SqlAnalysis.Catalog.Basic

/-!
# Required objects

Lookups in the catalog that refuse the statement when the object is not there.

* **`requireNamespace`**, **`requireTableId`**, **`requireSchema`**, **`requireTable`**: the parts
  of a table that a name means.
* **`noSuchColumn`**, **`missingColumn`**, **`nullInColumn`**: refusals about columns.
-/

namespace SqlAnalysis

def noSuchColumn (column table : String) : Diagnostic :=
  ⟨.undefinedColumn, s!"column \"{column}\" of relation \"{table}\" does not exist"⟩

def missingColumn (name : String) : Diagnostic :=
  ⟨.undefinedColumn, s!"column \"{name}\" does not exist"⟩

def nullInColumn (name : String) : Diagnostic :=
  ⟨.syntaxError, s!"null value in column \"{name}\" violates not-null constraint"⟩

def requireColumn (schema : Schema) (table name : String) : Except Diagnostic Column :=
  match schema.column? name with
  | some column => .ok column
  | none => .error (noSuchColumn name table)

namespace Accessor

def requireNamespace (env : Accessor) (name : ObjectName) : Except Diagnostic Oid :=
  match name.schema with
  | none => .ok env.namespaceId
  | some space =>
    match env.namespaceIdOf? space with
    | some id => .ok id
    | none => .error ⟨.undefinedObject, s!"schema \"{space}\" does not exist"⟩

def requireTableId (env : Accessor) (name : ObjectName) : Except Diagnostic Oid :=
  match env.tableId? name with
  | some id => .ok id
  | none => .error ⟨.undefinedTable, s!"relation \"{name.name}\" does not exist"⟩

def requireSchema (env : Accessor) (tableId : Oid) : Except Diagnostic Schema :=
  match env.schema? tableId with
  | some schema => .ok schema
  | none => .error ⟨.internal, s!"no schema for table {tableId}"⟩

def requireTable (env : Accessor) (name : ObjectName) : Except Diagnostic (Oid × Schema) := do
  let id ← env.requireTableId name
  let schema ← env.requireSchema id
  .ok (id, schema)

end Accessor

end SqlAnalysis
