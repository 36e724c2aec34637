import Mathlib.Data.List.Forall2
import SqlAnalysis.Binding.Statement
import SqlAnalysis.Proofs.Expr.Literals

/-!
# Derivations of bindings

What a run that binds has done, as rules without a monad.  The rules leave out what is expected of
expressions and the values of the parameters: neither decides what a name means.
-/

namespace SqlAnalysis

open Text

/-- The state of a binding, as far as it decides what names mean. -/
structure BindView where
  exprs : Arena
  scopes : ScopeStack
  nextSerial : Nat
  nextTemp : Nat

def BindState.view (s : BindState) : BindView :=
  ⟨s.exprs, s.scopes, s.expectations.nextSerial, s.nextTemp⟩

def Arena.finish (a : Arena) (id : ExprId) : Arena :=
  (((a.deriveDepth id).2.deriveSubqueryFlag id).2.deriveName id).2

/-! ### Parts of rules -/

/-- How a node changes while an expression that was `e` is bound, apart from columns and
subqueries.  A literal is promoted or gets a type that it conforms to, and a star gets none. -/
inductive LocalChange (id : ExprId) (e : Expr) (a : Arena) : Arena → Prop where
  | type (t : SqlType) : e.isStar = false →
    (∀ v, e = .constant v → a.expr id = .constant v ∧ v.conforms t = true) →
    LocalChange id e a (a.setType id t)
  | constant {v v' : Value} {t : SqlType} :
    e = .constant v → a.expr id = .constant v → v.promote t = .ok v' → v'.conforms t = true →
    LocalChange id e a ((a.setExpr id (.constant v')).setType id t)
  | call {name : String} {args : List ExprId} {procId : Oid} (procId' : Oid) (t : SqlType) :
    e = .call name args procId →
    LocalChange id e a (a.update id fun n => { n with kind := .call name args procId', type := t })
  | cast {op : CompareOp} {left right operand inner : ExprId} {t : SqlType} :
    e = .compare op left right → operand = left ∨ operand = right →
    a.expr operand = .cast t inner → (a.expr inner).isLiteral = true →
    LocalChange id e a (a.replaceChild id operand inner)

/-- A given number is kept; otherwise the next one is taken. -/
inductive Takes (next : Nat) : Option Nat → Nat → Nat → Prop where
  | given (n : Nat) : Takes next (some n) n next
  | fresh : Takes next none next (next + 1)

/-- An alias gets its serial and is recorded in the innermost scope. -/
inductive Aliases (given : Alias) (v : BindView) : Alias → BindView → Prop where
  | intro {scope : Scope} {outer : ScopeStack} {serial next : Nat} :
    v.scopes = scope :: outer → Takes v.nextSerial given.serial serial next →
    Aliases given v ⟨lowercase given.name, some serial⟩
      { v with
        scopes := scope.registerAlias ⟨lowercase given.name, some serial⟩ :: outer
        nextSerial := next }

/-- The innermost scope changes. -/
inductive Rescopes (f : Scope → Except Diagnostic Scope) (v : BindView) : BindView → Prop where
  | intro {scope scope' : Scope} {outer : ScopeStack} :
    v.scopes = scope :: outer → f scope = .ok scope' →
    Rescopes f v { v with scopes := scope' :: outer }

/-- What a named table of a FROM clause stands for: a visible WITH entry if the name is not
qualified, and otherwise a table of the catalog. -/
inductive NamedSource (env : Accessor) (scopes : ScopeStack) (name : ObjectName) :
    TableSource → Prop where
  | entry {columns : List DerivedColumn} :
    name.schema = none → scopes.cte? name.name = some columns →
    NamedSource env scopes name (.derived columns)
  | table {table : Oid × Schema} :
    (name.schema = none → scopes.cte? name.name = none) → env.requireTable name = .ok table →
    NamedSource env scopes name (.regular env.databaseId table.1 table.2)

/-- The output columns of a derived table get serials. -/
inductive NamesDerived : List ExprId → BindView → List DerivedColumn → BindView → Prop where
  | nil {v : BindView} : NamesDerived [] v [] v
  | cons {id : ExprId} {ids : List ExprId} {columns : List DerivedColumn} {serial next : Nat}
      {v v' : BindView} :
    Takes v.nextSerial ((v.exprs.node id).knownAs.bind (·.serial)) serial next →
    NamesDerived ids
      { v with
        exprs := v.exprs.update id fun n =>
          { n with knownAs := some ⟨v.exprs.outputName id, some serial⟩ }
        nextSerial := next } columns v' →
    NamesDerived (id :: ids) v
      (⟨⟨v.exprs.outputName id, some serial⟩, v.exprs.typeOf id⟩ :: columns) v'

def entryColumnName (a : Arena) (id : ExprId) (given : Option Alias) : String :=
  match given with
  | some knownAs => if knownAs.name.isEmpty then a.outputName id else lowercase knownAs.name
  | none => a.outputName id

def Arena.nameColumn (a : Arena) (id : ExprId) (knownAs : Alias) : Arena :=
  ((a.update id fun n => { n with knownAs := some knownAs }).deriveName id).2

/-- The output columns of a WITH entry get names and serials. -/
inductive NamesEntry :
    List ExprId → List Alias → BindView → List DerivedColumn → BindView → Prop where
  | nil {given : List Alias} {v : BindView} : NamesEntry [] given v [] v
  | cons {id : ExprId} {ids : List ExprId} {given : List Alias} {columns : List DerivedColumn}
      {known : Alias} {serial next : Nat} {v v' : BindView} :
    Takes v.nextTemp (given.head?.bind (·.serial)) serial next →
    known = ⟨entryColumnName v.exprs id given.head?, some serial⟩ →
    NamesEntry ids given.tail
      { v with exprs := v.exprs.nameColumn id known, nextTemp := next } columns v' →
    NamesEntry (id :: ids) given v
      (⟨known, (v.exprs.nameColumn id known).typeOf id⟩ :: columns) v'

/-- The table that a star names, if the expression is one. -/
inductive IsStar : Expr → Option String → Prop where
  | all : IsStar .star none
  | table {name : String} : IsStar (.tableStar name) (some name)

def starNodes (depth : Nat) (tables : List ScopeTable) : List ExprNode :=
  (tables.flatMap (·.columns depth)).map (·.node)

/-- What the keys of an ORDER BY become. -/
inductive Sorts (a : Arena) (items : List ExprId) :
    Option (List SortKey) → Option (List SortKey) → Prop where
  | none : Sorts a items none none
  | some {keys keys' : List SortKey} :
    List.Forall₂ (fun key key' : SortKey => sortTarget a items key.expr = .ok key'.expr ∧
      key'.direction = key.direction) keys keys' →
    Sorts a items (some keys) (some keys')

/-! ### Judgements and rules -/

/-- What is bound, and what it becomes. -/
inductive BindTask where
  | expr (id : ExprId)
  /-- The work on a node that was `e`: its operands are bound, some of them more than once. -/
  | acts (id : ExprId) (e : Expr) (visited : List ExprId)
  /-- Expressions of a clause. -/
  | roots (ids : List ExprId)
  /-- A select list. -/
  | items (ids ids' : List ExprId)
  | source (item item' : TableRef)
  | sources (items items' : List TableRef)
  | from_ (source source' : Option TableRef)
  | entry (c c' : Cte)
  | entries (cs cs' : List Cte)
  /-- The further branches of a UNION beside a block of the given depth. -/
  | union (right right' : Option Select) (depth : Nat)
  /-- A query block in the current scope. -/
  | branch (q : Select) (depth : Nat) (q' : Select)
  | query (q q' : Select)

/-- How the parts of a statement are bound. -/
inductive Binds (env : Accessor) : BindTask → BindView → BindView → Prop where
  | columnDone {id ref v} :
    id < v.exprs.size → v.exprs.expr id = .column ref → ref.isResolved = true →
    Binds env (.expr id) v v
  | columnFresh {id ref c v} :
    id < v.exprs.size → v.exprs.expr id = .column ref → ref.isResolved = false →
    resolveColumn v.scopes ref = .ok c →
    Binds env (.expr id) v
      { v with exprs := v.exprs.update id fun n =>
          { n with kind := .column c.ref, type := c.type, depth := some c.depth } }
  | subqueryDone {id q t v} :
    id < v.exprs.size → v.exprs.expr id = .subquery q → q.depth.isSome = true →
    Binds env (.expr id) v
      { v with exprs := v.exprs.update id fun n => { n with type := t, hasSubquery := true } }
  | subqueryFresh {id q q' t v v1} :
    id < v.exprs.size → v.exprs.expr id = .subquery q → q.depth = none →
    Binds env (.query q q') { v with exprs := v.exprs.setQuery id {} } v1 →
    Binds env (.expr id) v
      { v1 with exprs := (v1.exprs.setQuery id q').update id fun n =>
          { n with type := t, hasSubquery := true } }
  | node {id visited v v'} :
    id < v.exprs.size → (v.exprs.expr id).column? = none → (v.exprs.expr id).isSubquery = false →
    Binds env (.acts id (v.exprs.expr id) visited) v v' →
    (∀ c ∈ (v.exprs.expr id).children, c ∈ visited) →
    Binds env (.expr id) v v'
  | actsNil {id e v} : Binds env (.acts id e []) v v
  | actsLocal {id e visited a v v'} :
    LocalChange id e v.exprs a →
    Binds env (.acts id e visited) { v with exprs := a } v' →
    Binds env (.acts id e visited) v v'
  | actsVisit {id e c visited v v1 v'} :
    c ∈ e.children →
    Binds env (.expr c) v v1 →
    Binds env (.acts id e visited) v1 v' →
    Binds env (.acts id e (c :: visited)) v v'
  | rootsNil {v} : Binds env (.roots []) v v
  | rootsCons {id ids v v1 v'} :
    Binds env (.expr id) v v1 →
    Binds env (.roots ids) { v1 with exprs := v1.exprs.finish id } v' →
    Binds env (.roots (id :: ids)) v v'
  | itemsNil {v} : Binds env (.items [] []) v v
  | itemsStar {id ids ids' table scope outer tables v v'} :
    IsStar (v.exprs.expr id) table → v.scopes = scope :: outer →
    starTables scope table = .ok tables →
    Binds env (.items ids ids')
      { v with exprs := v.exprs.pushAll (starNodes scope.depth tables) } v' →
    Binds env (.items (id :: ids)
      (List.range' v.exprs.size (starNodes scope.depth tables).length ++ ids')) v v'
  | itemsRoot {id ids ids' v v1 v'} :
    (∀ table, ¬IsStar (v.exprs.expr id) table) →
    Binds env (.expr id) v v1 →
    Binds env (.items ids ids') { v1 with exprs := v1.exprs.finish id } v' →
    Binds env (.items (id :: ids) (id :: ids')) v v'
  | table {base known source v v1 v2} :
    Aliases base.knownAs v known v1 →
    NamedSource env v1.scopes base.name.normalize source →
    Rescopes (·.addTable known source) v1 v2 →
    checkDatabase env base.name.normalize.database = .ok () →
    Binds env (.source (.table base) (.table { name := base.name.normalize, knownAs := known })) v v2
  | derived {q q' given known columns v v1 v2 v3 v4} :
    Aliases given v known v1 →
    Binds env (.query q q') v1 v2 →
    NamesDerived q'.items v2 columns v3 →
    Rescopes (·.addTable known (.derived columns)) v3 v4 →
    Binds env (.source (.derived q given) (.derived q' known)) v v4
  | join {kind left left' right right' condition v v1 v2 v3} :
    Binds env (.source left left') v v1 →
    Binds env (.source right right') v1 v2 →
    Binds env (.roots condition.toList) v2 v3 →
    Binds env (.source (.join kind left right condition) (.join kind left' right' condition)) v v3
  | list {items items' v v'} :
    Binds env (.sources items items') v v' →
    Binds env (.source (.list items) (.list items')) v v'
  | sourcesNil {v} : Binds env (.sources [] []) v v
  | sourcesCons {item item' rest rest' v v1 v'} :
    Binds env (.source item item') v v1 →
    Binds env (.sources rest rest') v1 v' →
    Binds env (.sources (item :: rest) (item' :: rest')) v v'
  | fromNone {v} : Binds env (.from_ none none) v v
  | fromSome {item item' v v'} :
    Binds env (.source item item') v v' → Binds env (.from_ (some item) (some item')) v v'
  | entryPlain {c q' columns v v1 v2 v3} :
    c.isInductive = false →
    Binds env (.query c.query q') v v1 →
    c.columns.length ≤ q'.items.length →
    NamesEntry q'.items c.columns v1 columns v2 →
    Rescopes (·.addCte (lowercase c.name) columns) v2 v3 →
    Binds env (.entry c
      { name := lowercase c.name, columns := columns.map (·.knownAs), query := q',
        recursive := c.recursive }) v v3
  | entryInductive {c base q' columns v v1 v2 v3 v4} :
    c.isInductive = true →
    Binds env (.query { c.query with union := none } base) v v1 →
    c.columns.length ≤ base.items.length →
    NamesEntry base.items c.columns v1 columns v2 →
    Rescopes (·.addCte (lowercase c.name) columns) v2 v3 →
    Binds env (.query { base with union := c.query.union } q') v3 v4 →
    Binds env (.entry c
      { name := lowercase c.name, columns := columns.map (·.knownAs), query := q',
        recursive := c.recursive }) v v4
  | entriesNil {v} : Binds env (.entries [] []) v v
  | entriesCons {c c' cs cs' v v1 v'} :
    Binds env (.entry c c') v v1 →
    Binds env (.entries cs cs') v1 v' →
    Binds env (.entries (c :: cs) (c' :: cs')) v v'
  | unionNone {depth v} : Binds env (.union none none depth) v v
  | unionSome {right right' depth scope outer v v1} :
    v.scopes = scope :: outer →
    Binds env (.branch right depth right') { v with scopes := scope.sibling :: outer } v1 →
    Binds env (.union (some right) (some right') depth) v
      { v1 with scopes := scope :: v1.scopes.tail }
  | branch {q depth ctes source items union ordering v v1 v2 v3 v4 v5 v6} :
    Binds env (.entries q.ctes ctes) v v1 →
    Binds env (.from_ q.source source) v1 v2 →
    Binds env (.roots (q.filter.toList ++ (q.grouping.map (·.exprs)).getD [])) v2 v3 →
    Binds env (.items q.items items) v3 v4 →
    Binds env (.union q.union union depth) v4 v5 →
    Sorts v5.exprs items q.ordering ordering →
    Binds env (.roots ((ordering.getD []).map (·.expr))) v5 v6 →
    (∀ right ∈ union, right.items.length = items.length) →
    Binds env (.branch q depth
      { q with
        ctes := ctes, source := source, items := items, union := union, ordering := ordering,
        depth := some depth }) v v6
  | query {q q' v v1} :
    Binds env (.branch q v.scopes.length q') { v with scopes := v.scopes.open_ } v1 →
    Binds env (.query q q') v { v1 with scopes := v1.scopes.tail }

end SqlAnalysis
