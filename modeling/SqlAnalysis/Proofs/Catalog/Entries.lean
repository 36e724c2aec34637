import SqlAnalysis.Proofs.Keyed
import SqlAnalysis.Session

/-!
# Entries of a catalog

A catalog is seven tables.  Here an entry of any of them is found under a slot, so that what a change
does to the catalog can be said once for all tables.

* **`Catalog.lookup_undo`**: undoing a change empties the slots that the change is about.
* **`NewObject.creates`**: what creating an object does to a catalog and a transaction.
-/

namespace SqlAnalysis

/-! ### Slots -/

/-- A place for an entry in one of the tables of a catalog. -/
inductive Slot where
  | database (name : String)
  | space (database : Oid) (name : String)
  | table (space : Oid) (name : String)
  | schema (table : Oid)
  | index (space : Oid) (name : String)
  | view (space : Oid) (name : String)
  | trigger (space : Oid) (name : String)
  deriving DecidableEq

/-- What a slot holds: the number of an object or the columns of a table. -/
inductive Content where
  | number (id : Oid)
  | columns (schema : Schema)

def Slot.isSingle : Slot → Bool
  | .table .. | .schema _ => false
  | _ => true

def Undo.clears : Undo → Slot → Bool
  | .database name _, .database name' => name' = name
  | .database _ id, .space d _ => d = id
  | .namespace d name, .space d' name' => d' = d && name' = name
  | .table space name _, .table space' name' => space' = space && name' = name
  | .table _ _ id, .schema id' => id' = id
  | .index space name, .index space' name' => space' = space && name' = name
  | .view space name, .view space' name' => space' = space && name' = name
  | .trigger space name, .trigger space' name' => space' = space && name' = name
  | _, _ => false

namespace Catalog

variable {c c' : Catalog}

/-- What a catalog has in a slot. -/
def lookup (c : Catalog) : Slot → Option Content
  | .database name => (c.databases.find? name).map .number
  | .space database name => (c.namespaces.find? (database, name)).map .number
  | .table space name => (c.tables.find? (space, name)).map .number
  | .schema table => (c.schemas.find? table).map .columns
  | .index space name => (c.indexes.find? (space, name)).map .number
  | .view space name => (c.views.find? (space, name)).map .number
  | .trigger space name => (c.triggers.find? (space, name)).map .number

theorem lookup_undo (c : Catalog) (change : Undo) (x : Slot) :
    (c.undo change).lookup x = if change.clears x then none else c.lookup x := by
  have hspaces (id d : Oid) (n : String) :
      Keyed.find? (c.namespaces.filter fun e => e.1.1 != id) (d, n) =
        if d != id then c.namespaces.find? (d, n) else none :=
    Keyed.find?_filter c.namespaces (fun k => k.1 != id) _
  cases change <;> cases x <;>
    simp only [undo, lookup, Undo.clears, Keyed.find?_erase, hspaces, Bool.false_eq_true, if_false,
      decide_eq_true_eq, Bool.and_eq_true, Prod.mk.injEq, bne_iff_ne, ne_eq, ite_not]
  all_goals grind

/-- A catalog with an object more, in a slot that was empty, under the next number. -/
structure Puts (c : Catalog) (x : Slot) (c' : Catalog) : Prop where
  free : c.lookup x = none
  next : c'.nextId = c.nextId + 1
  lookup : ∀ y, c'.lookup y = if y = x then some (.number c.nextId) else c.lookup y

theorem Puts.kept {x y : Slot} {content : Content} (h : c.Puts x c') (hy : c.lookup y = some content) :
    c'.lookup y = some content := by
  rw [h.lookup, if_neg, hy]
  rintro rfl
  rw [h.free] at hy
  cases hy

/-- A catalog with a table more and its columns, under the next number. -/
structure PutsTable (c : Catalog) (space : Oid) (name : String) (columns : Schema) (c' : Catalog) :
    Prop where
  free : c.lookup (.table space name) = none
  next : c'.nextId = c.nextId + 1
  lookup : ∀ y, c'.lookup y =
    if y = .table space name then some (.number c.nextId)
    else if y = .schema c.nextId then some (.columns columns.number)
    else c.lookup y

end Catalog

/-! ### Creations -/

/-- An object to be created. -/
inductive NewObject where
  | database (name : String)
  | space (database : Oid) (name : String)
  | table (database : Oid) (name : ObjectName) (columns : Schema)
  | index (database : Oid) (name : ObjectName)
  | view (database : Oid) (name : ObjectName)
  | trigger (database : Oid) (name : ObjectName)

namespace NewObject

/-- Creates the object under a transaction. -/
def create : NewObject → Catalog → Transaction → Catalog.Created
  | .database name, c, t => c.createDatabase t name
  | .space d name, c, t => c.createNamespace t d name
  | .table d name columns, c, t => c.createTable t d name columns
  | .index d name, c, t => c.createIndex t d name
  | .view d name, c, t => c.createView t d name
  | .trigger d name, c, t => c.createTrigger t d name

def database? : NewObject → Option Oid
  | .database _ => none
  | .space d _ | .table d .. | .index d _ | .view d _ | .trigger d _ => some d

end NewObject

/-- What an attempt to create an object does to a catalog and a transaction. -/
inductive Creates (c : Catalog) (t : Transaction) : NewObject → Catalog.Created → Prop where
  | refused {k : NewObject} (e : Diagnostic) : Creates c t k (.error e, c, t)
  /-- The slot of a namespace is the one that was asked for. -/
  | single {k : NewObject} {c' : Catalog} (x : Slot) (change : Undo) (id : Oid) :
    x.isSingle = true → (∀ d n, x = .space d n → k = .space d n) → (∀ n, x ≠ .database n) →
    c.Puts x c' → (∀ y, change.clears y = true ↔ y = x) →
    Creates c t k (.ok id, c', t.addOnAbort (.undo change))
  | table {c' : Catalog} (database space : Oid) (asked : ObjectName) (name : String) (columns : Schema)
    (id : Oid) : c.PutsTable space name columns c' →
    Creates c t (.table database asked columns)
      (.ok id, c', t.addOnAbort (.undo (.table space name c.nextId)))
  | database {c1 c2 : Catalog} (name : String) (id : Oid) : c.Puts (.database name) c1 →
    c1.Puts (.space c.nextId defaultNamespaceName) c2 →
    Creates c t (.database name)
      (.ok id, c2, (t.addOnAbort (.undo (.namespace c.nextId defaultNamespaceName))).addOnAbort
        (.undo (.database name c.nextId)))
  /-- The new database seems to have its namespace already: it stays, and nothing undoes it. -/
  | stray {c' : Catalog} (name : String) (e : Diagnostic) : c.Puts (.database name) c' →
    c'.lookup (.space c.nextId defaultNamespaceName) ≠ none →
    Creates c t (.database name) (.error e, c', t)

namespace NewObject

variable {c : Catalog} {t : Transaction}

theorem map_find?_eq_none {κ : Type} [DecidableEq κ] {entries : Keyed κ Oid} {key : κ}
    (h : ¬entries.has key = true) : (entries.find? key).map Content.number = none :=
  Option.map_eq_none_iff.mpr (Option.not_isSome_iff_eq_none.mp h)

theorem creates_space (c : Catalog) (t : Transaction) (database : Oid) (name : String) :
    (∃ e, c.createNamespace t database name = (.error e, c, t) ∧
        c.lookup (.space database name) ≠ none) ∨
      ∃ c', c.createNamespace t database name =
          (.ok c.nextId, c', t.addOnAbort (.undo (.namespace database name))) ∧
        c.Puts (.space database name) c' := by
  unfold Catalog.createNamespace
  split
  · rename_i hhas
    refine .inl ⟨_, rfl, ?_⟩
    rw [Catalog.lookup, ne_eq, Option.map_eq_none_iff, ← ne_eq, ← Option.isSome_iff_ne_none]
    exact hhas
  · rename_i hhas
    refine .inr ⟨_, rfl, ?_, rfl, fun y => ?_⟩
    · exact map_find?_eq_none hhas
    · cases y <;> simp only [Catalog.lookup, Keyed.find?_insert, Slot.space.injEq,
        reduceCtorEq, if_false, Prod.mk.injEq]
      grind

theorem creates_in {k : NewObject} (database : Oid) (name : ObjectName) (kind : String)
    (taken : Catalog → Oid × String → Bool) (add : Catalog → Oid × String → Oid → Catalog)
    (change : Oid × String → Oid → Undo)
    (h : ∀ key, taken c key = false →
      Creates c t k (.ok c.nextId, add c.takeId.2 key c.nextId,
        t.addOnAbort (.undo (change key c.nextId)))) :
    Creates c t k (c.createIn t database name kind taken add change) := by
  unfold Catalog.createIn
  split
  · exact .refused _
  · dsimp only
    split
    · exact .refused _
    · rename_i htaken
      exact h _ (Bool.eq_false_iff.mpr htaken)

theorem creates (k : NewObject) (c : Catalog) (t : Transaction) : Creates c t k (k.create c t) := by
  cases k with
  | database name =>
    show Creates c t _ (c.createDatabase t name)
    unfold Catalog.createDatabase
    split
    · exact .refused _
    · rename_i hhas
      have hputs : c.Puts (.database name)
          { c.takeId.2 with databases := c.databases.insert name c.nextId } := by
        refine ⟨?_, rfl, fun y => ?_⟩
        · exact map_find?_eq_none hhas
        · cases y <;> simp only [Catalog.lookup, Catalog.takeId, Keyed.find?_insert,
            Slot.database.injEq, reduceCtorEq, if_false]
          grind
      rcases creates_space _ t c.nextId defaultNamespaceName with ⟨e, heq, hused⟩ | ⟨c2, heq, hputs'⟩
      · dsimp only [Catalog.takeId] at heq ⊢
        rw [heq]
        exact .stray name e hputs hused
      · dsimp only [Catalog.takeId] at heq ⊢
        rw [heq]
        exact .database name c.nextId hputs hputs'
  | space database name =>
    show Creates c t _ (c.createNamespace t database name)
    rcases creates_space c t database name with ⟨e, heq, _⟩ | ⟨c', heq, hputs⟩
    · rw [heq]
      exact .refused e
    · rw [heq]
      refine .single (.space database name) _ _ rfl (fun d n h => ?_) (fun _ h => by cases h) hputs
        fun y => ?_
      · cases h
        rfl
      · cases y <;> simp [Undo.clears]
  | table database name columns =>
    rw [create, Catalog.createTable]
    refine creates_in database name _ _ _ _ fun key htaken => ?_
    refine .table database key.1 name key.2 columns _ ⟨?_, rfl, fun y => ?_⟩
    · exact map_find?_eq_none (Bool.eq_false_iff.mp htaken)
    · cases y <;> simp only [Catalog.lookup, Catalog.takeId, Keyed.find?_insert, Slot.table.injEq,
        Slot.schema.injEq, reduceCtorEq, if_false, Prod.ext_iff] <;> grind
  | index database name =>
    rw [create, Catalog.createIndex]
    refine creates_in database name _ _ _ _ fun key htaken => ?_
    refine .single (.index key.1 key.2) _ _ rfl (fun _ _ h => by cases h) (fun _ h => by cases h)
      ⟨?_, rfl, fun y => ?_⟩ fun y => ?_
    · exact map_find?_eq_none (Bool.eq_false_iff.mp htaken)
    · cases y <;> simp only [Catalog.lookup, Catalog.takeId, Keyed.find?_insert, Slot.index.injEq,
        reduceCtorEq, if_false, Prod.ext_iff]
      grind
    · cases y <;> simp [Undo.clears]
  | view database name =>
    rw [create, Catalog.createView]
    refine creates_in database name _ _ _ _ fun key htaken => ?_
    refine .single (.view key.1 key.2) _ _ rfl (fun _ _ h => by cases h) (fun _ h => by cases h)
      ⟨?_, rfl, fun y => ?_⟩ fun y => ?_
    · exact map_find?_eq_none (Bool.eq_false_iff.mp (Bool.or_eq_false_iff.mp htaken).1)
    · cases y <;> simp only [Catalog.lookup, Catalog.takeId, Keyed.find?_insert, Slot.view.injEq,
        reduceCtorEq, if_false, Prod.ext_iff]
      grind
    · cases y <;> simp [Undo.clears]
  | trigger database name =>
    rw [create, Catalog.createTrigger]
    refine creates_in database name _ _ _ _ fun key htaken => ?_
    refine .single (.trigger key.1 key.2) _ _ rfl (fun _ _ h => by cases h) (fun _ h => by cases h)
      ⟨?_, rfl, fun y => ?_⟩ fun y => ?_
    · exact map_find?_eq_none (Bool.eq_false_iff.mp htaken)
    · cases y <;> simp only [Catalog.lookup, Catalog.takeId, Keyed.find?_insert, Slot.trigger.injEq,
        reduceCtorEq, if_false, Prod.ext_iff]
      grind
    · cases y <;> simp [Undo.clears]

end NewObject

end SqlAnalysis
