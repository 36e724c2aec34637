import SqlAnalysis.Catalog.Schema
import SqlAnalysis.Catalog.Transaction
import SqlAnalysis.Keyed
import SqlAnalysis.Routine

/-!
# The catalog

Databases, namespaces and the objects in them, all numbered from one counter.

* **`Catalog.createDatabase`, `createTable`, ...**: add an object under a transaction, which learns
  how to undo it.
* **`Catalog.undo`**: takes such a change back.
-/

namespace SqlAnalysis

def defaultNamespaceName : String := "public"

def defaultDatabaseName : String := "prism"

/-- All known objects. -/
structure Catalog where
  databases : Keyed String Oid := []
  namespaces : Keyed (Oid × String) Oid := []
  tables : Keyed (Oid × String) Oid := []
  schemas : Keyed Oid Schema := []
  indexes : Keyed (Oid × String) Oid := []
  views : Keyed (Oid × String) Oid := []
  triggers : Keyed (Oid × String) Oid := []
  routines : Routines := {}
  nextId : Oid := 1
  nextTemp : Nat := 1

namespace Catalog

/-- The first catalog: the default database with its namespace, and the built-in functions. -/
def initial : Catalog :=
  { databases := [(defaultDatabaseName, 1)]
    namespaces := [((1, defaultNamespaceName), 2)]
    routines := .builtins
    nextId := 3 }

def databaseId? (c : Catalog) (name : String) : Option Oid := c.databases.find? name

def namespaceId? (c : Catalog) (database : Oid) (name : String) : Option Oid :=
  c.namespaces.find? (database, name)

/-- The next number.  Fewer than 2^31 - 1 creations never need more than 32 bits. -/
def takeId (c : Catalog) : Oid × Catalog := (c.nextId, { c with nextId := c.nextId + 1 })

def undo (c : Catalog) : Undo → Catalog
  | .database name id =>
    { c with
      databases := c.databases.erase name
      namespaces := c.namespaces.filter fun e => e.1.1 != id }
  | .namespace database name => { c with namespaces := c.namespaces.erase (database, name) }
  | .table space name id =>
    { c with tables := c.tables.erase (space, name), schemas := c.schemas.erase id }
  | .index space name => { c with indexes := c.indexes.erase (space, name) }
  | .view space name => { c with views := c.views.erase (space, name) }
  | .trigger space name => { c with triggers := c.triggers.erase (space, name) }

/-- What the creation of an object leaves: the number or the refusal, the catalog and the
transaction. -/
abbrev Created := Except Diagnostic Oid × Catalog × Transaction

def duplicate (kind name : String) : Diagnostic :=
  ⟨.duplicateObject, s!"{kind} \"{name}\" already exists"⟩

def createNamespace (c : Catalog) (t : Transaction) (database : Oid) (name : String) : Created :=
  if c.namespaces.has (database, name) then
    (.error (duplicate "schema" name), c, t)
  else
    let (id, c) := c.takeId
    (.ok id, { c with namespaces := c.namespaces.insert (database, name) id },
      t.addOnAbort (.undo (.namespace database name)))

def createDatabase (c : Catalog) (t : Transaction) (name : String) : Created :=
  if c.databases.has name then
    (.error (duplicate "database" name), c, t)
  else
    let (id, c) := c.takeId
    let c := { c with databases := c.databases.insert name id }
    match c.createNamespace t id defaultNamespaceName with
    | (.error e, c, t) => (.error e, c, t)
    | (.ok _, c, t) => (.ok id, c, t.addOnAbort (.undo (.database name id)))

def homeOf (c : Catalog) (database : Oid) (name : ObjectName) : Except Diagnostic Oid :=
  let space := name.schema.getD defaultNamespaceName
  match c.namespaceId? database space with
  | some id => .ok id
  | none => .error ⟨.undefinedObject, s!"schema \"{space}\" does not exist"⟩

/-- Creates an object in the namespace its name says, unless `taken` finds the key in use. -/
def createIn (c : Catalog) (t : Transaction) (database : Oid) (name : ObjectName) (kind : String)
    (taken : Catalog → Oid × String → Bool) (add : Catalog → Oid × String → Oid → Catalog)
    (change : Oid × String → Oid → Undo) : Created :=
  match c.homeOf database name with
  | .error e => (.error e, c, t)
  | .ok space =>
    let key := (space, Text.lowercase name.name)
    if taken c key then
      (.error (duplicate kind name.name), c, t)
    else
      let (id, c) := c.takeId
      (.ok id, add c key id, t.addOnAbort (.undo (change key id)))

def createTable (c : Catalog) (t : Transaction) (database : Oid) (name : ObjectName)
    (columns : Schema) : Created :=
  c.createIn t database name "relation" (fun c key => c.tables.has key)
    (fun c key id =>
      { c with tables := c.tables.insert key id, schemas := c.schemas.insert id columns.number })
    (fun key id => .table key.1 key.2 id)

def createIndex (c : Catalog) (t : Transaction) (database : Oid) (name : ObjectName) : Created :=
  c.createIn t database name "relation" (fun c key => c.indexes.has key)
    (fun c key id => { c with indexes := c.indexes.insert key id })
    (fun key _ => .index key.1 key.2)

def createView (c : Catalog) (t : Transaction) (database : Oid) (name : ObjectName) : Created :=
  c.createIn t database name "relation" (fun c key => c.views.has key || c.tables.has key)
    (fun c key id => { c with views := c.views.insert key id })
    (fun key _ => .view key.1 key.2)

def createTrigger (c : Catalog) (t : Transaction) (database : Oid) (name : ObjectName) : Created :=
  c.createIn t database name "trigger" (fun c key => c.triggers.has key)
    (fun c key id => { c with triggers := c.triggers.insert key id })
    (fun key _ => .trigger key.1 key.2)

def registerRoutine (c : Catalog) (name : String) (parameters : List SqlType) (returns : SqlType) :
    Oid × Catalog :=
  let (id, routines) := c.routines.register name parameters returns
  (id, { c with routines := routines })

end Catalog

/-- The catalog from the point of view of a session. -/
structure Accessor where
  catalog : Catalog
  /-- The database that statements are bound against. -/
  databaseId : Oid
  /-- The namespace of unqualified names. -/
  namespaceId : Oid

def Catalog.accessor (c : Catalog) (database space : String) : Except Diagnostic Accessor :=
  match c.databaseId? database with
  | none => .error ⟨.undefinedObject, s!"database \"{database}\" does not exist"⟩
  | some databaseId =>
    match c.namespaceId? databaseId space with
    | none => .error ⟨.undefinedObject, s!"schema \"{space}\" does not exist"⟩
    | some namespaceId => .ok ⟨c, databaseId, namespaceId⟩

namespace Accessor

def databaseIdOf? (a : Accessor) (name : String) : Option Oid := a.catalog.databaseId? name

def namespaceIdOf? (a : Accessor) (name : String) : Option Oid :=
  a.catalog.namespaceId? a.databaseId name

def key? (a : Accessor) (name : ObjectName) : Option (Oid × String) := do
  let space ← match name.schema with
    | some space => a.namespaceIdOf? space
    | none => some a.namespaceId
  some (space, Text.lowercase name.name)

def tableId? (a : Accessor) (name : ObjectName) : Option Oid :=
  (a.key? name).bind a.catalog.tables.find?

def indexId? (a : Accessor) (name : ObjectName) : Option Oid :=
  (a.key? name).bind a.catalog.indexes.find?

def viewId? (a : Accessor) (name : ObjectName) : Option Oid :=
  (a.key? name).bind a.catalog.views.find?

def triggerId? (a : Accessor) (name : ObjectName) : Option Oid :=
  (a.key? name).bind a.catalog.triggers.find?

def schema? (a : Accessor) (table : Oid) : Option Schema := a.catalog.schemas.find? table

def routine? (a : Accessor) (name : String) (args : List SqlType) : Option Routine :=
  a.catalog.routines.resolve? name args

end Accessor

end SqlAnalysis
