import SqlAnalysis.Proofs.Catalog.Consistency

/-!
# Names of tables and views

A view is refused under the name of a table, but a table is not refused under the name of a view.

* **`NewObject.apart_create_iff`**: just the second gives a table and a view one name.
* **`relations_apart_iff`**: so all names stay apart just as long as there is none.
-/

namespace SqlAnalysis

/-- No table and view of a namespace have the same name. -/
def Catalog.Apart (c : Catalog) : Prop := ∀ key, ¬(c.tables.has key = true ∧ c.views.has key = true)

/-- The object is a table whose name, in its namespace, is that of a view. -/
def NewObject.OverView (c : Catalog) : NewObject → Prop
  | .table d name _ => ∃ space, c.homeOf d name = .ok space ∧
    c.views.has (space, Text.lowercase name.name) = true
  | _ => False

namespace Catalog

variable {c c' : Catalog}

theorem Apart.congr (h : c.Apart) (htables : c'.tables = c.tables) (hviews : c'.views = c.views) :
    c'.Apart := by
  rw [Apart, htables, hviews]
  exact h

theorem Apart.insert_table_iff (h : c.Apart) {key : Oid × String} {id : Oid}
    (htables : c'.tables = c.tables.insert key id) (hviews : c'.views = c.views) :
    c'.Apart ↔ c.views.has key = false := by
  simp only [Apart, htables, hviews, Keyed.has_insert, Bool.or_eq_true, decide_eq_true_eq]
  constructor
  · exact fun hapart => Bool.eq_false_iff.mpr fun hview => hapart key ⟨.inl rfl, hview⟩
  · rintro hview key' ⟨rfl | htable, hview'⟩
    · exact Bool.false_ne_true (hview.symm.trans hview')
    · exact h key' ⟨htable, hview'⟩

theorem Apart.insert_view (h : c.Apart) {key : Oid × String} {id : Oid}
    (hfree : c.tables.has key = false) (htables : c'.tables = c.tables)
    (hviews : c'.views = c.views.insert key id) : c'.Apart := by
  simp only [Apart, htables, hviews, Keyed.has_insert, Bool.or_eq_true, decide_eq_true_eq]
  rintro key' ⟨htable, rfl | hview⟩
  · exact Bool.false_ne_true (hfree.symm.trans htable)
  · exact h key' ⟨htable, hview⟩

theorem Apart.undo (h : c.Apart) (change : Undo) : (c.undo change).Apart := by
  have hold {κ α : Type} [DecidableEq κ] {t : Keyed κ α} {k j : κ}
      (hj : (t.erase k).has j = true) : t.has j = true := by
    rw [Keyed.has, Keyed.find?_erase] at hj
    split at hj
    · cases hj
    · exact hj
  rintro key ⟨htable, hview⟩
  cases change with
  | table => exact h key ⟨hold htable, hview⟩
  | view => exact h key ⟨htable, hold hview⟩
  | _ => exact h key ⟨htable, hview⟩

theorem createNamespace_relations (c : Catalog) (t : Transaction) (d : Oid) (name : String) :
    (c.createNamespace t d name).2.1.tables = c.tables ∧
      (c.createNamespace t d name).2.1.views = c.views := by
  unfold createNamespace
  split <;> exact ⟨rfl, rfl⟩

theorem createDatabase_relations (c : Catalog) (t : Transaction) (name : String) :
    (c.createDatabase t name).2.1.tables = c.tables ∧ (c.createDatabase t name).2.1.views = c.views := by
  unfold createDatabase
  split
  · exact ⟨rfl, rfl⟩
  · have hspace := createNamespace_relations
      { c.takeId.2 with databases := c.databases.insert name c.nextId } t c.nextId defaultNamespaceName
    dsimp only [takeId] at hspace ⊢
    split <;> simpa only [*] using hspace

theorem createIn_cases (c : Catalog) (t : Transaction) (database : Oid) (name : ObjectName) (kind : String)
    (taken : Catalog → Oid × String → Bool) (add : Catalog → Oid × String → Oid → Catalog)
    (change : Oid × String → Oid → Undo) :
    ((c.createIn t database name kind taken add change).2.1 = c ∧
        ∀ space, c.homeOf database name = .ok space → taken c (space, Text.lowercase name.name) = true) ∨
      ∃ space, c.homeOf database name = .ok space ∧ taken c (space, Text.lowercase name.name) = false ∧
        (c.createIn t database name kind taken add change).2.1 =
          add c.takeId.2 (space, Text.lowercase name.name) c.nextId := by
  unfold createIn
  split
  · rename_i hhome
    exact .inl ⟨rfl, fun _ hspace => nomatch hhome.symm.trans hspace⟩
  · rename_i space hhome
    dsimp only
    split
    · rename_i htaken
      refine .inl ⟨rfl, fun space' hspace => ?_⟩
      cases hhome.symm.trans hspace
      exact htaken
    · rename_i htaken
      exact .inr ⟨space, hhome, Bool.eq_false_iff.mpr htaken, rfl⟩

end Catalog

theorem NewObject.apart_create_iff {c : Catalog} (h : c.Apart) (k : NewObject) (t : Transaction) :
    (k.create c t).2.1.Apart ↔ ¬k.OverView c := by
  -- all other creations leave the names apart
  have hkept {c' : Catalog} (hc' : c'.Apart) : c'.Apart ↔ ¬False := iff_of_true hc' id
  cases k with
  | database name =>
    obtain ⟨htables, hviews⟩ := c.createDatabase_relations t name
    exact hkept (h.congr htables hviews)
  | space d name =>
    obtain ⟨htables, hviews⟩ := c.createNamespace_relations t d name
    exact hkept (h.congr htables hviews)
  | index d name | trigger d name =>
    refine hkept ?_
    rcases c.createIn_cases t d name _ _ _ _ with ⟨hsame, _⟩ | ⟨_, _, _, hadd⟩
    · exact h.congr (congrArg _ hsame) (congrArg _ hsame)
    · exact h.congr ((congrArg Catalog.tables hadd).trans rfl) ((congrArg Catalog.views hadd).trans rfl)
  | view d name =>
    refine hkept ?_
    rcases c.createIn_cases t d name _ _ _ _ with ⟨hsame, _⟩ | ⟨_, _, hfree, hadd⟩
    · exact h.congr (congrArg _ hsame) (congrArg _ hsame)
    · exact h.insert_view (Bool.or_eq_false_iff.mp hfree).2 ((congrArg Catalog.tables hadd).trans rfl)
        ((congrArg Catalog.views hadd).trans rfl)
  | table d name =>
    rcases c.createIn_cases t d name _ _ _ _ with ⟨hsame, htaken⟩ | ⟨space, hhome, _, hadd⟩
    · -- a refused table has the name of a table, which no view has
      refine iff_of_true (h.congr (congrArg _ hsame) (congrArg _ hsame)) ?_
      rintro ⟨space, hhome, hview⟩
      exact h _ ⟨htaken space hhome, hview⟩
    · refine (h.insert_table_iff ((congrArg Catalog.tables hadd).trans rfl)
        ((congrArg Catalog.views hadd).trans rfl)).trans ?_
      rw [← Bool.not_eq_true, not_iff_not]
      refine ⟨fun hview => ⟨space, hhome, hview⟩, ?_⟩
      rintro ⟨space', hhome', hview⟩
      cases hhome.symm.trans hhome'
      exact hview

namespace Session

variable {s : Session}

theorem apart_foldl_runHook (due : List Hook) (h : s.catalog.Apart) :
    (due.foldl runHook s).catalog.Apart := by
  induction due generalizing s with
  | nil => exact h
  | cons hook _ ih =>
    refine ih ?_
    cases hook with
    | undo change => exact h.undo change
    | announce => exact h

theorem apart_perform (h : s.catalog.Apart) (who : String) (x : Call) :
    (s.perform who x).catalog.Apart := by
  by_cases hx : x.ends = false
  · obtain ⟨⟨n, hcatalog⟩, _⟩ := perform_frame hx s who
    exact h.congr ((congrArg Catalog.tables hcatalog).trans rfl) ((congrArg Catalog.views hcatalog).trans rfl)
  · have hsettle (outcome : TransactionState) :
        (s.settle who ((s.transaction who).finish outcome)).2.catalog.Apart := by
      unfold Transaction.finish
      split
      · exact apart_foldl_runHook (s := s.setTransaction who _) _ h
      · exact h
    cases x with
    | commit | abort => exact hsettle _
    | _ => exact (hx rfl).elim

theorem Reached.apart (h : s.Reached fun c k => ¬k.OverView c) : s.catalog.Apart := by
  induction h with
  | initial => exact fun _ hboth => Bool.false_ne_true hboth.1
  | begin _ _ _ ih => exact ih
  | @create s who k _ hk ih => exact (NewObject.apart_create_iff ih k (s.transaction who)).mpr hk
  | call who x _ ih => exact apart_perform ih who x

end Session

/-- As long as no table was created under the name of a view, no table and view have the same name, and
they still have not after one more creation unless it is that of a table under the name of a view. -/
theorem relations_apart_iff {s : Session} (h : s.Reached fun c k => ¬k.OverView c) :
    s.catalog.Apart ∧
      ∀ who (k : NewObject), (s.create who k.create).2.catalog.Apart ↔ ¬k.OverView s.catalog :=
  ⟨h.apart, fun who k => NewObject.apart_create_iff h.apart k (s.transaction who)⟩

def tableBesideView : Session :=
  let s := (({} : Session).create "a" (NewObject.table 1 { name := "T" } []).create).2
  let s := (s.create "a" (NewObject.view 1 { name := "v" }).create).2
  ((s.create "b" (NewObject.view 1 { name := "w" }).create).2).perform "b" .abort

def tableOverView : Session :=
  let s := (({} : Session).create "a" (NewObject.view 1 { name := "v" }).create).2
  (s.create "a" (NewObject.table 1 { name := "V" } []).create).2

theorem tableBesideView_facts : (tableBesideView.catalog.tables.has (2, "t") &&
    tableBesideView.catalog.views.has (2, Text.lowercase "V") && !tableBesideView.catalog.views.has (2, "w") &&
    (tableBesideView.catalog.homeOf 1 { name := "V" }).toOption == some 2 &&
    tableOverView.catalog.tables.has (2, "v") && tableOverView.catalog.views.has (2, "v")) = true := by
  decide +kernel

theorem tableBesideView_apart : tableBesideView.catalog.tables.has (2, "t") = true ∧
    tableBesideView.catalog.views.has (2, "w") = false ∧ tableBesideView.catalog.Apart ∧
    ¬(tableBesideView.create "a" (NewObject.table 1 { name := "V" } []).create).2.catalog.Apart := by
  have hreached : tableBesideView.Reached fun c k => ¬k.OverView c := by
    refine .call "b" .abort (.create "b" _ (.create "a" _ (.create "a" _ .initial ?_) id) id)
    rintro ⟨_, _, hview⟩
    cases hview
  have hfacts := tableBesideView_facts
  simp only [Bool.and_eq_true, Bool.not_eq_true', beq_iff_eq] at hfacts
  obtain ⟨⟨⟨⟨⟨htable, hview⟩, hundone⟩, hhome⟩, _⟩, _⟩ := hfacts
  have hover : (NewObject.table 1 { name := "V" } []).OverView tableBesideView.catalog := by
    refine ⟨2, ?_, hview⟩
    cases hspace : tableBesideView.catalog.homeOf 1 { name := "V" } <;> rw [hspace] at hhome <;> cases hhome
    rfl
  obtain ⟨hapart, hiff⟩ := relations_apart_iff hreached
  exact ⟨htable, hundone, hapart, fun hafter => (hiff "a" _).mp hafter hover⟩

theorem tableOverView_not_apart :
    tableOverView.Reached (fun _ _ => True) ∧ ¬tableOverView.catalog.Apart := by
  have hfacts := tableBesideView_facts
  simp only [Bool.and_eq_true] at hfacts
  exact ⟨.create "a" _ (.create "a" _ .initial trivial) trivial,
    fun hapart => hapart (2, "v") ⟨hfacts.1.2, hfacts.2⟩⟩

end SqlAnalysis
