import SqlAnalysis.Proofs.Binding.Ending

/-!
# Binding of well-formed statements

A statement is well formed if every expression it mentions is in its store and the store is well
formed.  Binding such a statement gives a well-formed statement or refuses.

* **`StatementRun.lt_size`**: everything that a bound statement mentions is in the store.
* **`endsWell_bind`**: a well-formed statement is bound or refused.
-/

namespace SqlAnalysis

open Text BindM

/-! ### Well-formed statements -/

/-- Every expression of the statement is in the store, and the store is well formed. -/
structure Parsed.WellFormed (p : Parsed) : Prop where
  store : p.exprs.WellFormed
  lt_size : ∀ y ∈ p.statement.exprs, y < p.exprs.size

/-- The defaults of the columns of all tables are well formed. -/
def Catalog.WellFormed (c : Catalog) : Prop :=
  ∀ table ∈ c.schemas, ∀ column ∈ table.2, ∀ stored ∈ column.default, stored.WellFormed

/-! ### What a statement becomes -/

section

variable {env : Accessor} {rec : Recur} {s s' : BindState}

theorem bindIndexKeys_exprs {schema : Schema} {keys keys' : List IndexKey}
    (h : keys.mapM (bindIndexKey rec schema) s = .ok keys' s') :
    keys'.flatMap (·.exprs) = keys.flatMap (·.exprs) := by
  replace h := run_mapM h
  induction h with
  | nil => rfl
  | @cons key _ key' _ _ _ _ hkey _ ih =>
    have hexprs : key'.exprs = key.exprs := by
      cases key with
      | column =>
        simp only [bindIndexKey, run_ite, run_pure, run_throw, and_false, or_false] at hkey
        obtain ⟨_, rfl, _⟩ := hkey
        rfl
      | expression =>
        simp only [bindIndexKey, run_bind, run_pure] at hkey
        obtain ⟨_, _, _, rfl, _⟩ := hkey
        rfl
    rw [List.flatMap_cons, List.flatMap_cons, ih, hexprs]

theorem bindCreation_lt_size (hrec : rec.Derived env) {c c' : Creation}
    (h : bindCreation env rec c s = .ok c' s') (hc : ∀ y ∈ c.exprs, y < s'.exprs.size) :
    ∀ y ∈ c'.exprs, y < s'.exprs.size := by
  cases c with
  | database name | schema name =>
    simp only [bindCreation, run_ite, run_throw, run_pure, and_false, false_or] at h
    obtain ⟨_, rfl, _⟩ := h
    exact hc
  | table =>
    simp only [bindCreation, bindNewTable, run_bind, run_ofExcept, run_pure] at h
    obtain ⟨_, _, _, _, _, _, _, _, ⟨hcolumns, _⟩, _, _, _, _, _, _, _, _, _, _, _, _, _, _, _,
      rfl, _⟩ := h
    rw [Creation.exprs, checkNewColumns_exprs hcolumns]
    exact hc
  | index =>
    simp only [bindCreation, bindNewIndex, run_bind, run_ite, run_throw, run_ofExcept, run_pure,
      and_false, false_or] at h
    obtain ⟨_, _, _, _, _, _, _, _, _, hkeys, rfl, rfl⟩ := h
    rw [Creation.exprs, bindIndexKeys_exprs hkeys]
    exact hc
  | trigger =>
    simp only [bindCreation, bindNewTrigger, run_bind, run_ite, run_refuse, run_pure, and_false,
      false_or] at h
    obtain ⟨_, _, _, _, _, _, _, _, _, _, _, _, _, _, _, _, rfl, _⟩ := h
    exact hc
  | view =>
    simp only [bindCreation, run_bind, run_pure] at h
    obtain ⟨_, _, _, _, _, _, _, _, hquery, rfl, rfl⟩ := h
    exact Arena.Sound.lt_size ((hrec.query hquery).progress trivial).finished

theorem StatementRun.lt_size {st st' : Statement} (h : StatementRun env rec s st st' s')
    (hrec : rec.Derived env) (hst : ∀ y ∈ st.exprs, y < s'.exprs.size) :
    ∀ y ∈ st'.exprs, y < s'.exprs.size := by
  induction h with
  | select hquery => exact Arena.Sound.lt_size ((hrec.query hquery).progress trivial).finished
  | insert hinsert =>
    obtain ⟨_, _, _, _, hsource⟩ := bindInsert_run hinsert
    exact Arena.Sound.lt_size (bindInsertSource_progress hrec hsource).finished
  | update hupdate =>
    simp only [bindUpdate, run_bind, run_pure] at hupdate
    obtain ⟨⟨_, _⟩, _, _, _, _, _, _, _, hassign, rfl, rfl⟩ := hupdate
    exact List.forall_mem_append.mpr ⟨(List.forall_mem_append.mp hst).1,
      Arena.Sound.lt_size (bindAssignments_progress hrec hassign).finished⟩
  | delete hdelete =>
    simp only [bindDelete, run_bind, run_pure] at hdelete
    obtain ⟨_, _, _, _, _, _, rfl, rfl⟩ := hdelete
    exact hst
  | create hcreate =>
    have hlt := bindCreation_lt_size hrec hcreate hst
    exact hlt
  | drop | analyze => exact hst
  | explain _ ih => exact ih hst

end

/-! ### Enough levels -/

theorem le_foldl_add {α : Type} {f : α → Nat} {xs : List α} {x : α} (hx : x ∈ xs) (start : Nat) :
    f x ≤ xs.foldl (fun n y => n + f y) start := by
  have hstart (ys : List α) (k : Nat) : k ≤ ys.foldl (fun n y => n + f y) k := by
    induction ys generalizing k with
    | nil => exact le_rfl
    | cons _ _ ih => exact (Nat.le_add_right _ _).trans (ih _)
  induction xs generalizing start with
  | nil => cases hx
  | cons y ys ih =>
    rcases List.mem_cons.mp hx with rfl | hx
    · exact (Nat.le_add_left _ _).trans (hstart ys _)
    · exact ih hx _

theorem Catalog.weight_le_storedWeight {c : Catalog} {table : Oid × Schema} (htable : table ∈ c.schemas)
    {column : Column} (hcolumn : column ∈ table.2) {stored : StoredExpr}
    (hstored : stored ∈ column.default) : stored.arena.weight ≤ c.storedWeight := by
  let ofColumn (column : Column) : Nat := (column.default.map (·.arena.weight)).getD 0
  let ofSchema (schema : Schema) : Nat := schema.foldl (fun n column => n + ofColumn column) 0
  calc stored.arena.weight = ofColumn column := by
        rw [show ofColumn column = (column.default.map (·.arena.weight)).getD 0 from rfl, hstored]
        rfl
    _ ≤ ofSchema table.2 := le_foldl_add (f := ofColumn) hcolumn 0
    _ ≤ c.storedWeight := le_foldl_add (f := fun e : Oid × Schema => ofSchema e.2) htable 0

theorem Accessor.mem_schemas_of_requireTable {env : Accessor} {name : ObjectName} {id : Oid}
    {schema : Schema} (h : env.requireTable name = .ok (id, schema)) :
    ∃ table ∈ env.catalog.schemas, table.2 = schema := by
  obtain ⟨_, _, h⟩ := except_bind.mp h
  obtain ⟨_, hschema, h⟩ := except_bind.mp h
  cases h
  unfold requireSchema at hschema
  split at hschema
  · rename_i hfound
    cases hschema
    obtain ⟨table, htable, rfl⟩ := Option.map_eq_some_iff.mp hfound
    exact ⟨table, List.mem_of_find?_eq_some htable, rfl⟩
  · cases hschema

section

variable {env : Accessor} {p : Parsed}

/-- As many levels as the expressions of a statement and the defaults of the catalog can need. -/
def exprLevels (env : Accessor) (p : Parsed) : Nat :=
  (p.exprs.size + 1) * (2 * p.exprs.weight + 2 * env.catalog.storedWeight + 14)

theorem le_exprLevels (env : Accessor) (p : Parsed) : 2 * env.catalog.storedWeight + 14 ≤ exprLevels env p :=
  Nat.le_trans (by omega) (Nat.le_mul_of_pos_left _ (Nat.succ_pos _))

theorem copies_bindLevels (henv : env.catalog.WellFormed) :
    (endingClauses (bindLevels env p) (exprLevels env p)).Copies env := by
  intro name id schema hschema column hcolumn
  have hlevels := le_exprLevels env p
  refine ⟨by omega, fun stored hstored => ?_⟩
  obtain ⟨table, htable, rfl⟩ := env.mem_schemas_of_requireTable hschema
  have hweight := Catalog.weight_le_storedWeight htable hcolumn hstored
  have hsize := stored.arena.size_le_weight
  refine ⟨henv table htable column hcolumn stored hstored, ?_⟩
  unfold Arena.bound
  omega

theorem exprLevels_add_le (env : Accessor) (p : Parsed) :
    exprLevels env p + 2 * p.statement.weight ≤ bindLevels env p := by
  have hstatement : 2 * p.statement.weight ≤ (p.exprs.size + 1) * (2 * p.statement.weight) :=
    Nat.le_mul_of_pos_left _ (Nat.succ_pos _)
  calc exprLevels env p + 2 * p.statement.weight
      ≤ (p.exprs.size + 1) *
          (2 * p.exprs.weight + 2 * env.catalog.storedWeight + 14 + 2 * p.statement.weight) := by
        rw [Nat.mul_add _ (2 * p.exprs.weight + 2 * env.catalog.storedWeight + 14)]
        exact Nat.add_le_add_left hstatement _
    _ ≤ bindLevels env p := Nat.mul_le_mul_left _ (by omega)

/-- A bound statement is well formed if it is as the input of another binding. -/
def Bound.WellFormed (b : Bound) : Prop := b.toParsed.WellFormed

theorem endsWell_bind (hp : p.WellFormed) (henv : env.catalog.WellFormed) (parameters : List Value) :
    EndsWell BindState.exprs (bindStatementWith env (recurTo env (bindLevels env p)) p.statement)
      (fun _ _ => True) (BindState.initial env p parameters) := by
  have hlevels : ∀ y ∈ p.statement.exprs, p.exprs.BindsIn (exprLevels env p) y := fun y hy =>
    (hp.store.bindsIn (hp.lt_size y hy)).mono (Nat.mul_le_mul_left _ (by omega))
  have hfits := exprLevels_add_le env p
  have hagree := Clauses.agree_bindStatementWith (S := (· ∈ p.statement.exprs))
    ((recurTo_able env (bindLevels env p)).agree (m := exprLevels env p) (by omega))
    (recurTo_derived _) (copies_bindLevels henv) hfits (fun _ h => h)
    (s := BindState.initial env p parameters) ⟨hp.store, hlevels⟩
  exact endsWell_of_follows (P := fun _ => True) hp.store hagree.2

theorem bind_refused (hp : p.WellFormed) (henv : env.catalog.WellFormed) {parameters : List Value}
    {fault : Fault} (h : (bind env p parameters).result = .error fault) : ∃ d, fault = .refused d := by
  unfold bind at h
  dsimp only at h
  split at h
  · cases h
  · rename_i hrun
    cases h
    exact ((endsWell_bind hp henv parameters).error hrun).2

theorem bind_refines (hp : p.WellFormed) (henv : env.catalog.WellFormed) {parameters : List Value}
    {b : Bound} (h : (bind env p parameters).result = .ok b) :
    p.exprs.Refines b.exprs ∧ b.WellFormed := by
  unfold bind at h
  dsimp only at h
  split at h
  · rename_i hrun
    cases h
    obtain ⟨hrefines, _⟩ := (endsWell_bind hp henv parameters).ok hrun
    refine ⟨hrefines, hrefines.wellFormed hp.store,
      (bindStatementWith_run hrun).lt_size (recurTo_derived _) ?_⟩
    exact fun y hy => (hp.lt_size y hy).trans_le hrefines.size_le
  · cases h

end

end SqlAnalysis
