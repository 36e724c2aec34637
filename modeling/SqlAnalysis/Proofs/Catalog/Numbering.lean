import SqlAnalysis.Proofs.Binding.Registration
import SqlAnalysis.Proofs.Catalog.Consistency

/-!
# Numbers of catalog objects

A table and its columns have numbers other than zero, which marks what is not resolved.  Binding and
planning depend on that, so it is shown for every catalog that objects were created in, under whatever
transaction.  The catalogs of sessions are among them.

* **`Catalog.Reachable.numbered`**: the numbers in every catalog are valid.
* **`Catalog.nextId_createAll_lt`**: numbers of 32 bits are enough for fewer than 2^31 - 1 creations.
* **`Session.Reached.reachable`**: the calls of a session lead to such catalogs only.
-/

namespace SqlAnalysis

/-- Tables, their columns and the next object have valid numbers. -/
structure Catalog.Numbered (c : Catalog) : Prop where
  next : c.nextId.isValid = true
  tables : ∀ {key id}, c.tables.find? key = some id → id.isValid = true
  columns : ∀ {id schema}, c.schemas.find? id = some schema → ∀ column ∈ schema, column.id.isValid = true

/-- The catalogs that creating objects and taking this back lead to. -/
inductive Catalog.Reachable : Catalog → Prop where
  | initial : Reachable .initial
  | create {c : Catalog} (k : NewObject) (t : Transaction) : Reachable c → Reachable (k.create c t).2.1
  | routine {c : Catalog} (name : String) (parameters : List SqlType) (returns : SqlType) :
    Reachable c → Reachable (c.registerRoutine name parameters returns).2
  | undo {c : Catalog} (change : Undo) : Reachable c → Reachable (c.undo change)
  | withNextTemp {c : Catalog} (n : Nat) : Reachable c → Reachable { c with nextTemp := n }

namespace Catalog

variable {c : Catalog}

theorem Numbered.takeId (h : c.Numbered) : c.takeId.2.Numbered :=
  ⟨bne_iff_ne.mpr (Nat.succ_ne_zero _), h.tables, h.columns⟩

theorem Numbered.createNamespace (h : c.Numbered) (t : Transaction) (database : Oid) (name : String) :
    (c.createNamespace t database name).2.1.Numbered := by
  unfold Catalog.createNamespace
  split
  · exact h
  · exact ⟨h.takeId.next, h.tables, h.columns⟩

theorem Numbered.createDatabase (h : c.Numbered) (t : Transaction) (name : String) :
    (c.createDatabase t name).2.1.Numbered := by
  unfold Catalog.createDatabase
  split
  · exact h
  · have hspace := Numbered.createNamespace
      (c := { c.takeId.2 with databases := c.databases.insert name c.nextId })
      ⟨h.takeId.next, h.tables, h.columns⟩ t c.nextId defaultNamespaceName
    dsimp only [Catalog.takeId] at hspace ⊢
    split
    · rename_i heq
      rw [heq] at hspace
      exact hspace
    · rename_i heq
      rw [heq] at hspace
      exact hspace

theorem Numbered.createIn (h : c.Numbered) (t : Transaction) (database : Oid) (name : ObjectName)
    (kind : String) (taken : Catalog → Oid × String → Bool)
    {add : Catalog → Oid × String → Oid → Catalog} (change : Oid × String → Oid → Undo)
    (hadd : ∀ (c : Catalog) key (id : Oid), c.Numbered → id.isValid = true → (add c key id).Numbered) :
    (c.createIn t database name kind taken add change).2.1.Numbered := by
  unfold Catalog.createIn
  split
  · exact h
  · dsimp only
    split
    · exact h
    · exact hadd _ _ _ h.takeId h.next

theorem Numbered.addTable (h : c.Numbered) (key : Oid × String) {id : Oid} (hid : id.isValid = true)
    (columns : Schema) :
    Numbered { c with tables := c.tables.insert key id, schemas := c.schemas.insert id columns.number } := by
  refine ⟨h.next, fun {key' id'} hfind => ?_, fun {id' schema} hfind => ?_⟩
  · rw [Keyed.find?_insert] at hfind
    split at hfind
    · cases hfind
      exact hid
    · exact h.tables hfind
  · rw [Keyed.find?_insert] at hfind
    split at hfind
    · cases hfind
      intro column hcolumn
      rw [Schema.number, List.mem_mapIdx] at hcolumn
      obtain ⟨i, _, rfl⟩ := hcolumn
      exact bne_iff_ne.mpr (Nat.succ_ne_zero i)
    · exact h.columns hfind

theorem Numbered.undo (h : c.Numbered) (change : Undo) : (c.undo change).Numbered := by
  cases change with
  | table =>
    refine ⟨h.next, fun {key' id'} hfind => ?_, fun {id' schema} hfind => ?_⟩
    · rw [Catalog.undo, Keyed.find?_erase] at hfind
      split at hfind
      · cases hfind
      · exact h.tables hfind
    · rw [Catalog.undo, Keyed.find?_erase] at hfind
      split at hfind
      · cases hfind
      · exact h.columns hfind
  | _ => exact ⟨h.next, h.tables, h.columns⟩

theorem Reachable.numbered (h : c.Reachable) : c.Numbered := by
  induction h with
  | initial => exact ⟨rfl, (fun h => by cases h), (fun h => by cases h)⟩
  | create k t _ ih =>
    cases k with
    | database name => exact ih.createDatabase t name
    | space database name => exact ih.createNamespace t database name
    | table database name columns =>
      exact ih.createIn t database name _ _ _ fun _ key _ hc hid => hc.addTable key hid columns
    | index database name | view database name | trigger database name =>
      exact ih.createIn t database name _ _ _ fun _ _ _ hc _ => ⟨hc.next, hc.tables, hc.columns⟩
  | routine _ _ _ _ ih | withNextTemp _ _ ih => exact ⟨ih.next, ih.tables, ih.columns⟩
  | undo change _ ih => exact ih.undo change

end Catalog

theorem Catalog.Reachable.accessor {env : Accessor} (h : env.catalog.Reachable) : env.Numbered where
  tables hid := by
    obtain ⟨_, _, hfind⟩ := Option.bind_eq_some_iff.mp hid
    exact h.numbered.tables hfind
  columns hschema := h.numbered.columns hschema

theorem NewObject.nextId_create_le (k : NewObject) (c : Catalog) (t : Transaction) :
    (k.create c t).2.1.nextId ≤ c.nextId + 2 := by
  have h := creates k c t
  generalize k.create c t = r at h
  cases h with
  | refused => exact Nat.le_add_right _ _
  | single _ _ _ _ _ _ hputs | stray _ _ hputs => exact hputs.next.trans_le (Nat.le_succ _)
  | table _ _ _ _ _ _ hputs => exact hputs.next.trans_le (Nat.le_succ _)
  | database _ _ hputs hputs' => exact (hputs'.next.trans (congrArg (· + 1) hputs.next)).le

/-- Creates objects one after the other, each under its transaction. -/
def Catalog.createAll (c : Catalog) (ks : List (NewObject × Transaction)) : Catalog :=
  ks.foldl (fun c k => (k.1.create c k.2).2.1) c

theorem Catalog.nextId_createAll_le (c : Catalog) (ks : List (NewObject × Transaction)) :
    (c.createAll ks).nextId ≤ c.nextId + 2 * ks.length := by
  induction ks generalizing c with
  | nil => exact le_rfl
  | cons k ks ih =>
    calc
      _ ≤ (k.1.create c k.2).2.1.nextId + 2 * ks.length := ih _
      _ ≤ c.nextId + 2 + 2 * ks.length := Nat.add_le_add_right (k.1.nextId_create_le c k.2) _
      _ = c.nextId + 2 * (ks.length + 1) := by rw [Nat.mul_succ, Nat.add_assoc, Nat.add_comm 2]

theorem Catalog.nextId_createAll_lt {ks : List (NewObject × Transaction)} (h : ks.length < 2147483647) :
    (initial.createAll ks).nextId < 4294967296 := by
  have hlt : 3 + 2 * ks.length < 4294967296 := by omega
  exact Nat.lt_of_le_of_lt (initial.nextId_createAll_le ks) hlt

/-! ### Sessions -/

namespace Session

variable {s : Session}

theorem reachable_foldl_runHook {due : List Hook} (h : s.catalog.Reachable) :
    (due.foldl runHook s).catalog.Reachable := by
  induction due generalizing s with
  | nil => exact h
  | cons hook due ih =>
    refine ih ?_
    cases hook with
    | undo change => exact h.undo change
    | announce => exact h

theorem reachable_settle (h : s.catalog.Reachable) (who : String)
    (ended : Except Diagnostic (List Hook × Transaction)) : (s.settle who ended).2.catalog.Reachable := by
  unfold settle
  split
  · exact h
  · exact reachable_foldl_runHook h

theorem Reached.reachable {allowed : Catalog → NewObject → Prop} (h : s.Reached allowed) :
    s.catalog.Reachable := by
  induction h with
  | initial => exact .initial
  | begin _ _ _ ih => exact ih
  | @create s who k _ _ ih => exact ih.create k (s.transaction who)
  | @call s who x _ ih =>
    by_cases hx : x.ends = false
    · obtain ⟨n, hcatalog⟩ := (perform_frame hx s who).1
      rw [hcatalog]
      exact ih.withNextTemp n
    · cases x with
      | commit | abort => exact reachable_settle ih who _
      | _ => exact (hx rfl).elim

end Session

end SqlAnalysis
