import SqlAnalysis.Catalog.Schema
import SqlAnalysis.Keyed

/-!
# Scopes

What names mean inside a query block.

* **`Scope.sibling`**: the scope of the next branch of a UNION, which still sees the WITH entries.
* **`ScopeStack`**: the scopes of the enclosing blocks, innermost first.
-/

namespace SqlAnalysis

/-- An output column of a derived table or of a WITH entry. -/
structure DerivedColumn where
  knownAs : Alias
  type : SqlType
  deriving DecidableEq, Repr, Inhabited

/-- The statement-local number of an output column, made from the serial of its alias. -/
def DerivedColumn.id (c : DerivedColumn) : Oid :=
  match c.knownAs.serial with
  | some serial => Oid.temp serial
  | none => Oid.invalid

/-- What a table reference stands for. -/
inductive TableSource where
  | regular (databaseId tableId : Oid) (schema : Schema)
  | derived (columns : List DerivedColumn)

/-- A table reference that is visible in a scope. -/
structure ScopeTable where
  knownAs : Alias
  source : TableSource

/-- A column of a visible table: where it comes from and the depth of the scope that has the
table. -/
structure ResolvedColumn where
  knownAs : Alias
  column : String
  databaseId : Oid
  tableId : Oid
  columnId : Oid
  type : SqlType
  depth : Nat
  deriving DecidableEq, Repr, Inhabited

namespace ScopeTable

def isRegular (t : ScopeTable) : Bool :=
  match t.source with
  | .regular .. => true
  | .derived _ => false

/-- The columns of the reference in order, as seen in a scope of the given depth. -/
def columns (t : ScopeTable) (depth : Nat) : List ResolvedColumn :=
  match t.source with
  | .regular databaseId tableId schema =>
    schema.map fun c => ⟨t.knownAs, c.name, databaseId, tableId, c.id, c.type, depth⟩
  | .derived columns =>
    columns.map fun c => ⟨t.knownAs, c.knownAs.name, Oid.invalid, Oid.invalid, c.id, c.type, depth⟩

def column? (t : ScopeTable) (name : String) (depth : Nat) : Option ResolvedColumn :=
  (t.columns depth).find? (·.column == name)

def columnNames (t : ScopeTable) : List String := (t.columns 0).map (·.column)

end ScopeTable

/-- The names of one query block. -/
structure Scope where
  /-- How many scopes enclose this one. -/
  depth : Nat
  /-- The visible tables in FROM order, under different names. -/
  tables : List ScopeTable := []
  ctes : Keyed String (List DerivedColumn) := []
  /-- The WITH entries of the UNION branches to the left. -/
  inheritedCtes : Keyed String (List DerivedColumn) := []
  /-- The last alias registered for each name. -/
  aliases : Keyed String Alias := []

namespace Scope

def sibling (s : Scope) : Scope :=
  { depth := s.depth
    inheritedCtes :=
      s.ctes.foldl (fun known (name, columns) => Keyed.insert known name columns) s.inheritedCtes }

/-- The columns of a WITH entry: the block's own entries hide those of earlier branches. -/
def cte? (s : Scope) (name : String) : Option (List DerivedColumn) :=
  (s.ctes.find? name).or (s.inheritedCtes.find? name)

def table? (s : Scope) (name : String) : Option ScopeTable :=
  s.tables.find? (·.knownAs.name == name)

def addTable (s : Scope) (knownAs : Alias) (source : TableSource) : Except Diagnostic Scope :=
  if (s.table? knownAs.name).isSome then
    .error ⟨.duplicateAlias, s!"table name \"{knownAs.name}\" specified more than once"⟩
  else
    .ok { s with tables := s.tables ++ [⟨knownAs, source⟩] }

def addCte (s : Scope) (name : String) (columns : List DerivedColumn) : Except Diagnostic Scope :=
  if s.ctes.has name then
    .error ⟨.duplicateAlias, s!"WITH query name \"{name}\" specified more than once"⟩
  else
    .ok { s with ctes := s.ctes.insert name columns }

def registerAlias (s : Scope) (knownAs : Alias) : Scope :=
  { s with aliases := s.aliases.insert knownAs.name knownAs }

def matches_ (s : Scope) (name : String) : List ResolvedColumn :=
  ((s.tables.filter (·.isRegular)) ++ (s.tables.filter (!·.isRegular))).filterMap
    (·.column? name s.depth)

/-- The column that an unqualified name means in this scope alone; at most one table may have it. -/
def unqualified (s : Scope) (name : String) : Except Diagnostic (Option ResolvedColumn) :=
  match s.matches_ name with
  | [] => .ok none
  | [c] => .ok (some c)
  | _ => .error ⟨.ambiguousColumn, s!"column reference \"{name}\" is ambiguous"⟩

/-- The column that a qualified name means in this scope alone; nothing if the table is not here. -/
def qualified (s : Scope) (table name : String) : Except Diagnostic (Option ResolvedColumn) :=
  match s.table? table with
  | none => .ok none
  | some t =>
    match t.column? name s.depth with
    | some c => .ok (some c)
    | none => .error ⟨.undefinedColumn, s!"column {table}.{name} does not exist"⟩

end Scope

abbrev ScopeStack := List Scope

namespace ScopeStack

/-- The stack with a new innermost scope, whose depth is the number of scopes around it. -/
def open_ (s : ScopeStack) : ScopeStack := { depth := s.length } :: s

def depth? : ScopeStack → Option Nat
  | [] => none
  | _ :: outer => some outer.length

def current : ScopeStack → Except Diagnostic Scope
  | [] => .error ⟨.internal, "no active bind scope"⟩
  | scope :: _ => .ok scope

def search (look : Scope → Except Diagnostic (Option ResolvedColumn)) :
    ScopeStack → Except Diagnostic (Option ResolvedColumn)
  | [] => .ok none
  | scope :: outer =>
    match look scope with
    | .error e => .error e
    | .ok (some c) => .ok (some c)
    | .ok none => search look outer

def unqualified (s : ScopeStack) (name : String) : Except Diagnostic (Option ResolvedColumn) :=
  search (·.unqualified name) s

def qualified (s : ScopeStack) (table name : String) : Except Diagnostic (Option ResolvedColumn) :=
  search (·.qualified table name) s

/-- The alias registered for a name in the innermost scope that has one; otherwise the bare name. -/
def aliasOf (s : ScopeStack) (name : String) : Alias :=
  (s.findSome? (·.aliases.find? name)).getD { name := name }

def cte? (s : ScopeStack) (name : String) : Option (List DerivedColumn) := s.findSome? (·.cte? name)

def columnNames (s : ScopeStack) : List String :=
  s.reverse.flatMap fun scope => scope.tables.flatMap (·.columnNames)

end ScopeStack

end SqlAnalysis
