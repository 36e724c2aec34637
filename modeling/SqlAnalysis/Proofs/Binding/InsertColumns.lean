import SqlAnalysis.Proofs.Binding.InsertRows

/-!
# Column lists of INSERT

The rows of an INSERT are arranged in the order of the table's columns.  The order in which the
statement names the columns only says where a row has the value for each of them, so that order is
free as long as the rows follow it.

* **`bind?_findIdx?_eq_some_iff`**: the value for a column is the one that is paired with its name.
* **`arrangeRow_reorder`**, **`arrangeRow_names`**: a row and a column list in another order, and a
  row for all columns, are arranged alike.
* **`bind_insertRows_congr`**: INSERTs whose rows are arranged alike are bound alike.
* **`insert_columns_orderFree`**: neither the order of the column list nor leaving out a list of all
  columns changes what binding an INSERT gives.
-/

namespace SqlAnalysis

open Text BindM List

/-! ### Lists in another order -/

/-- The entries of a list at the given places. -/
def reorder {α : Type} (order : List Nat) (l : List α) : List α := order.filterMap (l[·]?)

section Reorder

variable {α β : Type} {order : List Nat}

theorem reorder_range (l : List α) : reorder (range l.length) l = l := by
  induction l with
  | nil => rfl
  | cons a l ih =>
    simp only [reorder, length_cons, range_succ_eq_map, filterMap_cons,
      getElem?_cons_zero, filterMap_map]
    exact congrArg (a :: ·) ih

theorem reorder_perm {l : List α} (h : order.Perm (range l.length)) : (reorder order l).Perm l := by
  have hperm := h.filterMap (l[·]?)
  rwa [show (range l.length).filterMap (l[·]?) = l from reorder_range l] at hperm

theorem reorder_map (f : α → β) (order : List Nat) (l : List α) :
    (reorder order l).map f = reorder order (l.map f) := by
  simp only [reorder, map_filterMap, getElem?_map]

theorem zip_reorder (order : List Nat) {l : List α} {m : List β} (h : l.length = m.length) :
    (reorder order l).zip (reorder order m) = reorder order (l.zip m) := by
  induction order with
  | nil => rfl
  | cons i order ih =>
    simp only [reorder] at ih
    by_cases hi : i < l.length
    · have hm : i < m.length := h ▸ hi
      simp [reorder, hi, hm, ih]
    · have hl : l[i]? = none := getElem?_eq_none (by omega)
      have hm : m[i]? = none := getElem?_eq_none (by omega)
      have hz : (l.zip m)[i]? = none := getElem?_eq_none (by simp; omega)
      simp [reorder, hl, hm, hz, ih]

theorem bind?_findIdx?_eq_some_iff {names : List String} (hnodup : names.Nodup) (row : List α)
    (name : String) (v : α) :
    (names.findIdx? (· == name)).bind (row[·]?) = some v ↔ (name, v) ∈ names.zip row := by
  induction names generalizing row with
  | nil => simp
  | cons n names ih =>
    obtain ⟨hnot, hnodup⟩ := nodup_cons.mp hnodup
    cases row with
    | nil => simp
    | cons w row =>
      by_cases hn : n = name
      · subst hn
        have hfirst : (n, v) ∉ names.zip row := fun hmem => hnot (of_mem_zip hmem).1
        simp [findIdx?_cons, hfirst, eq_comm]
      · have hne : name ≠ n := fun h => hn h.symm
        simp [findIdx?_cons, hn, hne, ← ih hnodup row, Option.bind_map]

end Reorder

/-! ### Rows -/

section Rows

variable {columns columns' : List String} {schema : Schema} {row row' : List ExprId} {order : List Nat}

theorem arrangeRowFrom_congr (rec : Recur) {index : Nat}
    (h : rowValues columns row index schema = rowValues columns' row' index schema) :
    arrangeRowFrom rec columns row index schema = arrangeRowFrom rec columns' row' index schema := by
  induction schema generalizing index with
  | nil => rfl
  | cons _ _ ih =>
    obtain ⟨hgiven, hrest⟩ := cons.inj h
    simp only [arrangeRowFrom, hgiven, ih hrest]

theorem arrangeRow_reorder (rec : Recur) (schema : Schema) (hnodup : columns.Nodup)
    (hrow : row.length = columns.length) (horder : order.Perm (range columns.length)) :
    arrangeRow rec (reorder order columns) schema (reorder order row) =
      arrangeRow rec columns schema row := by
  have hcolumns := reorder_perm horder
  have hvalues := reorder_perm (l := row) (hrow ▸ horder)
  have hempty : (reorder order columns).isEmpty = columns.isEmpty := by
    rw [Bool.eq_iff_iff, List.isEmpty_iff, List.isEmpty_iff, ← List.length_eq_zero_iff,
      hcolumns.length_eq, length_eq_zero_iff]
  have hpairs : ((reorder order columns).zip (reorder order row)).Perm (columns.zip row) := by
    rw [zip_reorder order hrow.symm]
    exact reorder_perm (by simpa [hrow] using horder)
  have hgiven (index : Nat) (column : Column) :
      (insertPosition (reorder order columns) index column).bind ((reorder order row)[·]?) =
        (insertPosition columns index column).bind (row[·]?) := by
    cases columns with
    | nil =>
      obtain rfl := length_eq_zero_iff.mp hrow
      obtain rfl := perm_nil.mp horder
      rfl
    | cons =>
      rw [insertPosition, insertPosition, hempty]
      apply Option.ext
      intro v
      rw [isEmpty_cons, if_neg Bool.false_ne_true, if_neg Bool.false_ne_true,
        bind?_findIdx?_eq_some_iff (hcolumns.nodup_iff.mpr hnodup), bind?_findIdx?_eq_some_iff hnodup,
        hpairs.mem_iff]
  have hrows : rowValues (reorder order columns) (reorder order row) 0 schema =
      rowValues columns row 0 schema := by
    apply ext_getElem?
    intro i
    simp only [getElem?_rowValues, hgiven]
  rw [arrangeRow, arrangeRow, hempty, hcolumns.length_eq, hvalues.length_eq,
    arrangeRowFrom_congr rec hrows]

theorem mapM_arrangeRow_reorder (rec : Recur) (schema : Schema) (hnodup : columns.Nodup)
    (horder : order.Perm (range columns.length)) {rows : List (List ExprId)}
    (hrows : ∀ row ∈ rows, row.length = columns.length) :
    (rows.map (reorder order)).mapM (arrangeRow rec (reorder order columns) schema) =
      rows.mapM (arrangeRow rec columns schema) := by
  induction rows with
  | nil => rfl
  | cons _ _ ih =>
    obtain ⟨hrow, hrows⟩ := forall_mem_cons.mp hrows
    rw [map_cons, mapM_cons, mapM_cons, arrangeRow_reorder rec schema hnodup hrow horder,
      ih hrows]

theorem arrangeRow_names (rec : Recur) (hnodup : (schema.map (·.name)).Nodup) (row : List ExprId) :
    arrangeRow rec (schema.map (·.name)) schema row = arrangeRow rec [] schema row := by
  have hrows : rowValues (schema.map (·.name)) row 0 schema = rowValues [] row 0 schema := by
    apply ext_getElem?
    intro i
    rw [getElem?_rowValues, getElem?_rowValues]
    cases hc : schema[i]? with
    | none => rfl
    | some =>
      obtain ⟨hi, rfl⟩ := List.getElem?_eq_some_iff.mp hc
      have hplace : (schema.map (·.name)).findIdx? (· == (schema.get ⟨i, hi⟩).name) = some i := by
        rw [findIdx?_eq_some_iff_getElem]
        refine ⟨by simpa using hi, by simp, fun j hj => ?_⟩
        have hne := nodup_iff_getElem?_ne_getElem?.mp hnodup j i hj (by simpa using hi)
        simpa [getElem?_eq_getElem, hi, hj.trans hi] using hne
      cases schema with
      | nil => cases hi
      | cons => simpa [insertPosition] using congrArg (·.bind (row[·]?)) hplace
  have hexpected : (if (schema.map (·.name)).isEmpty then schema.length else
      (schema.map (·.name)).length) = schema.length := by
    rw [length_map, ite_self]
  rw [arrangeRow, arrangeRow, hexpected, arrangeRowFrom_congr rec hrows]
  rfl

end Rows

/-! ### Statements -/

theorem checkColumns_of_known {schema : Schema} (table : String) {seen columns : List String}
    (hknown : ∀ c ∈ columns, schema.hasColumn (lowercase c) = true)
    (hseen : ∀ c ∈ columns, lowercase c ∉ seen) (hnodup : (columns.map lowercase).Nodup) :
    checkColumns schema table seen columns = .ok (columns.map lowercase) := by
  induction columns generalizing seen with
  | nil => rfl
  | cons c columns ih =>
    obtain ⟨hnot, hnodup⟩ := nodup_cons.mp hnodup
    have hrest : checkColumns schema table (lowercase c :: seen) columns = .ok (columns.map lowercase) := by
      refine ih (fun d hd => hknown d (.tail _ hd)) (fun d hd => ?_) hnodup
      rw [mem_cons, not_or]
      exact ⟨fun he => hnot (he ▸ mem_map_of_mem hd), hseen d (.tail _ hd)⟩
    simp [checkColumns, hknown c (.head _), hseen c (.head _), hrest, Except.map]

/-- An INSERT of rows of values. -/
def insertRows (table : BaseTable) (columns : List String) (rows : List (List ExprId)) (exprs : Arena) :
    Parsed :=
  ⟨.insert ⟨table, columns, .values rows⟩, exprs⟩

def ArrangedAlike (env : Accessor) (table : BaseTable) (columns columns' : List String)
    (rows rows' : List (List ExprId)) : Prop :=
  ∀ id schema, env.requireTable table.name.normalize = .ok (id, schema) → ∀ name rec,
    checkColumns schema name [] columns = .ok (columns.map lowercase) ∧
      checkColumns schema name [] columns' = .ok (columns'.map lowercase) ∧
      rows.mapM (arrangeRow rec (columns.map lowercase) schema) =
        rows'.mapM (arrangeRow rec (columns'.map lowercase) schema)

section Statements

variable {env : Accessor} {table : BaseTable} {columns columns' : List String}
  {rows rows' : List (List ExprId)}

theorem bindInsert_congr (h : ArrangedAlike env table columns columns' rows rows') (rec : Recur)
    {s : BindState} (hs : s.scopes = [{ depth := 0 }]) :
    bindInsert env rec ⟨table, columns, .values rows⟩ s =
      bindInsert env rec ⟨table, columns', .values rows'⟩ s := by
  show EStateM.bind (bindTarget env table) _ s = EStateM.bind (bindTarget env table) _ s
  unfold EStateM.bind
  cases htarget : bindTarget env table s with
  | error => rfl
  | ok r t =>
    obtain ⟨id, hrequire⟩ := bindTarget_schema hs rfl htarget
    obtain ⟨hchecked, hchecked', hrows⟩ := h id r.2 hrequire r.1.name.name rec
    simp only [hchecked, hchecked', bindInsertSource]
    show (bindInsertSource rec _ r.2 (.values rows) >>= _) t =
      (bindInsertSource rec _ r.2 (.values rows') >>= _) t
    rw [bindInsertSource, bindInsertSource, hrows]

theorem bind_insertRows_congr (h : ArrangedAlike env table columns columns' rows rows') (exprs : Arena)
    (parameters : List Value) :
    bind env (insertRows table columns rows exprs) parameters =
      bind env (insertRows table columns' rows' exprs) parameters := by
  have hrun (rec : Recur) (s : BindState) (hs : s.scopes = []) :
      bindStatementWith env rec (.insert ⟨table, columns, .values rows⟩) s =
        bindStatementWith env rec (.insert ⟨table, columns', .values rows'⟩) s := by
    have hopened : ({ s with scopes := s.scopes.open_ } : BindState).scopes = [{ depth := 0 }] := by
      rw [hs]
      rfl
    have hwrapped : (bindInsert env rec ⟨table, columns, .values rows⟩ >>= fun i => pure (.insert i))
          { s with scopes := s.scopes.open_ } =
        (bindInsert env rec ⟨table, columns', .values rows'⟩ >>= fun i => pure (Statement.insert i))
          { s with scopes := s.scopes.open_ } := by
      show EStateM.bind _ _ _ = EStateM.bind _ _ _
      unfold EStateM.bind
      rw [bindInsert_congr h rec hopened]
    rw [bindStatementWith, bindStatementWith, inScope, inScope, hwrapped]
  simp only [bind, insertRows, bindLevels, Statement.weight]
  rw [hrun _ _ rfl]
  rfl

end Statements

/-- What binding `INSERT INTO table (columns) VALUES rows` gives does not depend on the order of the
columns, if the rows follow it; and a list of all columns in the order of the table may be left out.
The names of the columns of a table are kept in lower case. -/
theorem insert_columns_orderFree (env : Accessor) (table : BaseTable) (rows : List (List ExprId))
    (exprs : Arena) (parameters : List Value) :
    (∀ columns order, (columns.map lowercase).Nodup →
      (∀ id schema, env.requireTable table.name.normalize = .ok (id, schema) →
        ∀ c ∈ columns, schema.hasColumn (lowercase c) = true) →
      (∀ row ∈ rows, row.length = columns.length) → order.Perm (List.range columns.length) →
      bind env (insertRows table (reorder order columns) (rows.map (reorder order)) exprs) parameters =
        bind env (insertRows table columns rows exprs) parameters) ∧
    ∀ id schema, env.requireTable table.name.normalize = .ok (id, schema) →
      (schema.map (·.name)).Nodup → (∀ c ∈ schema, lowercase c.name = c.name) →
      bind env (insertRows table [] rows exprs) parameters =
        bind env (insertRows table (schema.map (·.name)) rows exprs) parameters := by
  constructor
  · intro columns order hnodup hknown hwidth horder
    refine bind_insertRows_congr (fun id schema hrequire name rec => ?_) exprs parameters
    have hperm := reorder_perm horder
    have hknown := hknown id schema hrequire
    refine ⟨checkColumns_of_known name (fun c hc => hknown c (hperm.mem_iff.mp hc)) (by simp)
      ((hperm.map lowercase).nodup_iff.mpr hnodup), checkColumns_of_known name hknown (by simp) hnodup, ?_⟩
    rw [reorder_map]
    exact mapM_arrangeRow_reorder rec schema hnodup (by rwa [length_map])
      fun row hrow => (hwidth row hrow).trans (columns.length_map lowercase).symm
  · intro id schema hrequire hnodup hlower
    refine bind_insertRows_congr (fun id' schema' hrequire' name rec => ?_) exprs parameters
    obtain ⟨rfl, rfl⟩ := Prod.mk.inj (Except.ok.inj (hrequire.symm.trans hrequire'))
    have hnames : (schema.map (·.name)).map lowercase = schema.map (·.name) := by
      rw [map_map]
      exact map_congr_left hlower
    refine ⟨rfl, checkColumns_of_known name (fun n hn => ?_) (by simp) (by rwa [hnames]), ?_⟩
    · obtain ⟨c, hc, rfl⟩ := mem_map.mp hn
      rwa [hlower c hc, Schema.hasColumn_iff]
    · rw [hnames, funext (arrangeRow_names rec hnodup)]
      rfl

theorem swappedColumns_facts :
    ((twoColumns.requireTable (ObjectName.normalize { name := "t" })).toOption.map fun r =>
      r.2.map (·.name)) = some ["a", "b"] ∧ ["A", "b"].map lowercase = ["a", "b"] ∧
        ["a", "b"].map lowercase = ["a", "b"] := by
  decide +kernel

/-- `INSERT INTO t (columns) VALUES (row)`, where a row is made of 1 and 2. -/
def insertPair (columns : List String) (row : List ExprId) : Parsed :=
  insertRows (.named "t" "t") columns [row]
    (.ofExprs [.constant (.ofByte 1), .constant (.ofByte 2)])

/-- `INSERT INTO t (b, A) VALUES (2, 1)` may as well name its columns in the order of the table, and
the list of all columns may be left out. -/
theorem swappedColumns_orderFree :
    bind twoColumns (insertPair ["b", "A"] [1, 0]) [] = bind twoColumns (insertPair ["A", "b"] [0, 1]) [] ∧
      bind twoColumns (insertPair [] [0, 1]) [] = bind twoColumns (insertPair ["a", "b"] [0, 1]) [] := by
  obtain ⟨horder, hlist⟩ := insert_columns_orderFree twoColumns
    (.named "t" "t") [[0, 1]]
    (.ofExprs [.constant (.ofByte 1), .constant (.ofByte 2)]) []
  obtain ⟨hnames, hupper, hlower⟩ := swappedColumns_facts
  have hschema {id : Oid} {schema : Schema}
      (h : twoColumns.requireTable (ObjectName.normalize { name := "t" }) = .ok (id, schema)) :
      schema.map (·.name) = ["a", "b"] := by
    rw [h] at hnames
    exact Option.some.inj hnames
  constructor
  · refine horder ["A", "b"] [1, 0] ?_ (fun id schema h c hc => ?_) (by simp) (by decide)
    · rw [hupper]
      decide
    · rw [Schema.hasColumn_iff, hschema h, ← hupper]
      exact mem_map_of_mem hc
  · cases h : twoColumns.requireTable (ObjectName.normalize { name := "t" }) with
    | error =>
      rw [h] at hnames
      cases hnames
    | ok r =>
      have hr := hschema h
      have hcase : (r.2.map (·.name)).map lowercase = r.2.map (·.name) := by rw [hr, hlower]
      rw [← hr]
      refine hlist r.1 r.2 h (by rw [hr]; decide) fun c hc => ?_
      rw [map_map] at hcase
      exact map_inj_left.mp hcase c hc

end SqlAnalysis
