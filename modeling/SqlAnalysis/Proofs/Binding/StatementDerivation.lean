import SqlAnalysis.Proofs.Binding.Completeness
import SqlAnalysis.Proofs.Binding.NamedParts
import SqlAnalysis.Proofs.Binding.WellFormed

/-!
# Derivations of statements

What a run that binds a SELECT or a change of a table has done, in terms of the rules for queries.  Its
parts are bound one after the other; between them scopes are opened and closed, and stored defaults are
copied (`BindsSeq`).

* **`bind_derives`**: every binding that ends well is described by the parts of its statement.
-/

namespace SqlAnalysis

open BindM Text List Arena

variable {ids row : List ExprId} {a a' : Arena} {id : ExprId} {column : Column}
  {tasks : List BindTask} {v v1 v' : BindView} {columns : List String} {schema : Schema}
  {table : BaseTable} {q : Select} {env : Accessor} {p : Parsed} {parameters : List Value}
  {b : Bound}

/-! ### Stored defaults -/

/-- No stored default of the columns has a resolved column. -/
def Schema.Unresolved (schema : Schema) : Prop :=
  ∀ column ∈ schema, ∀ stored, column.default = some stored → ∀ x ref,
    stored.arena.expr x = .column ref → ref.isResolved = false

def Accessor.HasColumn (env : Accessor) (column : Column) : Prop :=
  ∃ name table, env.requireTable name = .ok table ∧ column ∈ table.2

def Accessor.Unresolved (env : Accessor) : Prop :=
  ∀ {name table}, env.requireTable name = .ok table → table.2.Unresolved

/-- New nodes are added, among them no subquery and no resolved column. -/
structure Arena.Copies (a a' : Arena) : Prop extends a.Appends a' where
  unresolved : ∀ {y ref}, a.size ≤ y → a'.expr y = .column ref → ref.isResolved = false

namespace Arena.Copies

variable {a'' : Arena}

theorem refl (a : Arena) : a.Copies a :=
  ⟨.refl a, fun hy h => by rw [expr_of_size_le hy] at h; cases h⟩

theorem trans (h : a.Copies a') (h' : a'.Copies a'') : a.Copies a'' := by
  refine ⟨h.toAppends.trans h'.toAppends, fun {y ref} hy hc => ?_⟩
  rcases Nat.lt_or_ge y a'.size with hlt | hge
  · rw [h'.expr hlt] at hc
    exact h.unresolved hy hc
  · exact h'.unresolved hge hc

theorem push (h : a.Copies a') {n : ExprNode} (happends : a.Appends (a'.push n).2)
    (hn : ∀ ref, n.kind = .column ref → ref.isResolved = false) : a.Copies (a'.push n).2 := by
  refine ⟨happends, fun {y ref} hy hc => ?_⟩
  rcases Nat.lt_trichotomy y a'.size with hlt | rfl | hgt
  · rw [expr, node_push_of_lt n hlt] at hc
    exact h.unresolved hy hc
  · rw [expr, node_push_size] at hc
    exact hn ref hc
  · rw [expr_of_size_le (by rw [size_push]; exact hgt)] at hc
    cases hc

end Arena.Copies

theorem Expr.column_of_withOperands {e : Expr} {ref : ColumnRef}
    (h : e.withOperands ids = .column ref) : e = .column ref := by
  unfold withOperands at h
  split at h <;> first | exact h | cases h

theorem Arena.Imports.copies {other : Arena} {fuel : Nat} {roots : List ExprId}
    (h : other.Imports fuel roots a ids a')
    (hother : ∀ x ref, other.expr x = .column ref → ref.isResolved = false) : a.Copies a' := by
  induction h with
  | nil => exact .refl _
  | @cons _ root _ _ _ _ _ _ _ hn hplain hids _ ih ih' =>
    have happends := (Imports.cons hn hplain hids .nil).appends.1
    refine (ih.push happends fun ref href => hother root ref ?_).trans ih'
    rw [expr, node_of_node? hn]
    exact Expr.column_of_withOperands href

/-- The default of a column is copied behind the nodes of a store: the stored one, or a NULL of the
type of the column. -/
inductive CopiesDefault (column : Column) (a : Arena) : Arena → Prop where
  | stored {stored : StoredExpr} {id : ExprId} {a' : Arena} : column.default = some stored →
    importTree stored.arena stored.root a = .ok id a' → CopiesDefault column a a'
  | null : CopiesDefault column a
      (a.push { ExprNode.ofExpr (.constant .null) with type := column.type }).2

theorem CopiesDefault.appends (h : CopiesDefault column a a') : a.Appends a' := by
  cases h with
  | stored _ himport => exact (importFrom_appends himport).1
  | null => exact .of_push rfl rfl

theorem CopiesDefault.copies (h : CopiesDefault column a a')
    (hcolumn : ∀ stored, column.default = some stored → ∀ x ref,
      stored.arena.expr x = .column ref → ref.isResolved = false) : a.Copies a' := by
  have happends := h.appends
  cases h with
  | stored hdefault himport => exact (importFrom_imports himport).copies (hcolumn _ hdefault)
  | null => exact (Arena.Copies.refl _).push happends fun ref href => nomatch href

theorem columnDefault_copies {s s' : BindState} (h : columnDefault column s = .ok id s') :
    CopiesDefault column s.exprs s'.exprs ∧ s'.view = { s.view with exprs := s'.exprs } := by
  rcases run_columnDefault h with ⟨_, _, hdefault, himport, rfl⟩ | ⟨_, _, _, rfl⟩
  · exact ⟨.stored hdefault himport, rfl⟩
  · exact ⟨.null, rfl⟩

/-! ### One part after the other -/

/-- Parts of a statement are bound one after the other, in scopes that are opened and closed on the
way; defaults of columns may be copied in between. -/
inductive BindsSeq (env : Accessor) : List BindTask → BindView → BindView → Prop where
  | nil {v : BindView} : BindsSeq env [] v v
  | part {task : BindTask} {tasks : List BindTask} {v v1 v' : BindView} :
    Binds env task v v1 → (∀ a, task.Ready a) → task.Plain → BindsSeq env tasks v1 v' →
    BindsSeq env (task :: tasks) v v'
  | copy {column : Column} {tasks : List BindTask} {a : Arena} {v v' : BindView} :
    env.HasColumn column → CopiesDefault column v.exprs a →
    BindsSeq env tasks { v with exprs := a } v' → BindsSeq env tasks v v'
  | opened {tasks : List BindTask} {v v' : BindView} :
    BindsSeq env tasks { v with scopes := v.scopes.open_ } v' → BindsSeq env tasks v v'
  | closed {tasks : List BindTask} {v v' : BindView} :
    BindsSeq env tasks { v with scopes := v.scopes.tail } v' → BindsSeq env tasks v v'

def valueTasks (ids : List ExprId) : List BindTask := ids.map fun id => .roots [id]

section

variable {rec : Recur} {s s' : BindState}

theorem BindsSeq.append {tasks' : List BindTask} (h : BindsSeq env tasks v v1)
    (h' : BindsSeq env tasks' v1 v') : BindsSeq env (tasks ++ tasks') v v' := by
  induction h with
  | nil => exact h'
  | part hbinds hready hplain _ ih => exact .part hbinds hready hplain (ih h')
  | copy hcolumn hcopy _ ih => exact .copy hcolumn hcopy (ih h')
  | opened _ ih => exact .opened (ih h')
  | closed _ ih => exact .closed (ih h')

theorem BindsSeq.appendValues {ids' : List ExprId} (h : BindsSeq env (valueTasks ids) v v1)
    (h' : BindsSeq env (valueTasks ids') v1 v') : BindsSeq env (valueTasks (ids ++ ids')) v v' := by
  rw [valueTasks, map_append]
  exact h.append h'

theorem RootStep.roots (h : RootStep env id v v') : Binds env (.roots [id]) v v' := by
  obtain ⟨_, hexpr, rfl⟩ := h
  exact .rootsCons hexpr .rootsNil

theorem columnDefault_values (hcolumn : env.HasColumn column)
    (h : columnDefault column s = .ok id s') (hrest : BindsSeq env (valueTasks ids) s'.view v') :
    BindsSeq env (valueTasks ids) s.view v' := by
  obtain ⟨hcopies, hview⟩ := columnDefault_copies h
  rw [hview] at hrest
  exact .copy hcolumn hcopies hrest

section

variable (hrec : rec.Derived env)

include hrec

theorem coerceToColumn_values (hcolumn : env.HasColumn column)
    {value : ExprId} (h : coerceToColumn rec value column s = .ok id s') :
    BindsSeq env (valueTasks [id]) s.view s'.view := by
  obtain ⟨_, s1, hfrom, _, hitem⟩ := coerceToColumn_run h
  have hbound : BindsSeq env (valueTasks [id]) s1.view s'.view :=
    .part (bindItem_root hrec hitem).roots (fun _ => trivial) trivial .nil
  rcases hfrom with ⟨_, hdefault⟩ | ⟨_, rfl, rfl⟩
  · exact columnDefault_values hcolumn hdefault hbound
  · exact hbound

theorem arrangeRowFrom_values (hschema : ∀ column ∈ schema, env.HasColumn column) {index : Nat}
    (h : arrangeRowFrom rec columns row index schema s = .ok ids s') :
    BindsSeq env (valueTasks ids) s.view s'.view := by
  induction schema generalizing s index ids with
  | nil =>
    rw [arrangeRowFrom] at h
    obtain ⟨rfl, rfl⟩ := run_pure.mp h
    exact .nil
  | cons _ _ ih =>
    obtain ⟨hcolumn, hschema⟩ := forall_mem_cons.mp hschema
    obtain ⟨_, _, _, _, _, hgiven, hvalue, hvalues, rfl⟩ := arrangeRowFrom_cons_run h
    have hrow := (coerceToColumn_values hrec hcolumn hvalue).appendValues (ih hschema hvalues)
    rcases hgiven with ⟨_, rfl⟩ | ⟨_, hdefault⟩
    · exact hrow
    · exact columnDefault_values hcolumn hdefault hrow

theorem arrangeRow_values (hschema : ∀ column ∈ schema, env.HasColumn column)
    (h : arrangeRow rec columns schema row s = .ok ids s') :
    BindsSeq env (valueTasks ids) s.view s'.view :=
  arrangeRowFrom_values hrec hschema (arrangeRow_run h).2

theorem arrangeRows_values {rows rows' : List (List ExprId)}
    (hschema : ∀ column ∈ schema, env.HasColumn column)
    (h : rows.mapM (arrangeRow rec columns schema) s = .ok rows' s') :
    BindsSeq env (valueTasks rows'.flatten) s.view s'.view := by
  replace h := run_mapM h
  induction h with
  | nil => exact .nil
  | cons hfirst _ ih =>
    exact (arrangeRow_values hrec hschema hfirst).appendValues ih

theorem bindAssignments_values (hschema : ∀ column ∈ schema, env.HasColumn column) {table : String}
    {assignments assignments' : List Assignment}
    (h : assignments.mapM (bindAssignment rec schema table) s = .ok assignments' s') :
    BindsSeq env (valueTasks (assignments'.map (·.value))) s.view s'.view := by
  replace h := run_mapM h
  induction h with
  | nil => exact .nil
  | cons hfirst _ ih =>
    simp only [bindAssignment, run_bind, run_ofExcept, run_pure] at hfirst
    obtain ⟨column, _, ⟨hcolumn, rfl⟩, _, _, hvalue, rfl, rfl⟩ := hfirst
    exact (coerceToColumn_values hrec (hschema column (requireColumn_mem hcolumn))
      hvalue).appendValues ih

end

/-! ### Statements -/

namespace Statement

/-- The table references and WITH entries of a statement, those in subqueries apart. -/
def named : Statement → List NamedPart
  | .select q => q.named
  | .insert i =>
    .table i.table :: match i.source with
      | .query q => q.named
      | .values _ => []
  | .update u => [.table u.table]
  | .delete d => [.table d.table]
  | .explain inner => inner.named
  | .create .. | .drop _ | .analyze _ => []

/-- The expressions that a statement mentions. -/
def roots : Statement → List ExprId
  | .select q => q.exprs
  | .insert i =>
    match i.source with
    | .query q => q.exprs
    | .values rows => rows.flatten
  | .update u => u.filter.toList ++ u.assignments.map (·.value)
  | .delete d => d.filter.toList
  | .explain inner => inner.roots
  | .create .. | .drop _ | .analyze _ => []

/-- The items of the select lists of a statement, those in subqueries apart. -/
def outputs : Statement → List ExprId
  | .select q => q.outputs
  | .insert i =>
    match i.source with
    | .query q => q.outputs
    | .values _ => []
  | .create _ (.view _ q) => q.outputs
  | .explain inner => inner.outputs
  | .update _ | .delete _ | .create .. | .drop _ | .analyze _ => []

/-- Queries and changes of tables, also under EXPLAIN. -/
def isData : Statement → Bool
  | .select _ | .insert _ | .update _ | .delete _ => true
  | .explain inner => inner.isData
  | .create .. | .drop _ | .analyze _ => false

end Statement

/-- The parts that a statement is bound from: together they have its select lists, its table references
and WITH entries before and after, and the expressions that it mentions afterwards. -/
structure BindsStatement (env : Accessor) (statement statement' : Statement) (tasks : List BindTask)
    (v v' : BindView) : Prop where
  binds : BindsSeq env tasks v v'
  outputs : tasks.flatMap BindTask.outputs = statement.outputs
  given : tasks.flatMap BindTask.given = statement.named
  made : tasks.flatMap BindTask.made = statement'.named
  reached : statement'.roots ⊆ tasks.flatMap BindTask.reached

theorem flatMap_valueTasks {α : Type} (f : BindTask → List α) (g : ExprId → List α) (ids : List ExprId)
    (h : ∀ id, f (.roots [id]) = g id) : (valueTasks ids).flatMap f = ids.flatMap g := by
  rw [valueTasks, flatMap_map]
  exact flatMap_congr fun id _ => h id

@[simp] theorem outputs_valueTasks (ids : List ExprId) : (valueTasks ids).flatMap BindTask.outputs = [] := by
  rw [flatMap_valueTasks _ (fun _ => []) ids fun _ => rfl]
  simp

@[simp] theorem given_valueTasks (ids : List ExprId) : (valueTasks ids).flatMap BindTask.given = [] := by
  rw [flatMap_valueTasks _ (fun _ => []) ids fun _ => rfl]
  simp

@[simp] theorem made_valueTasks (ids : List ExprId) : (valueTasks ids).flatMap BindTask.made = [] := by
  rw [flatMap_valueTasks _ (fun _ => []) ids fun _ => rfl]
  simp

@[simp] theorem reached_valueTasks (ids : List ExprId) :
    (valueTasks ids).flatMap BindTask.reached = ids := by
  rw [flatMap_valueTasks _ (fun id => [id]) ids fun _ => rfl]
  simp

theorem bindBaseTable_target {base base' : BaseTable} (hs : s.scopes = [{ depth := 0 }])
    (h : bindBaseTable env false base s = .ok base' s') :
    Binds env (.source (.table base) (.table base')) s.view s'.view := by
  simp only [bindBaseTable, run_bind, run_ofExcept, run_get, Bool.false_and, Bool.false_eq_true,
    if_false, addRegularTable, run_pure] at h
  obtain ⟨_, _, ⟨hdatabase, rfl⟩, _, _, halias, _, _, ⟨rfl, rfl⟩, _, _, ⟨htable, rfl⟩, _, _,
    hadd, rfl, rfl⟩ := h
  have halias := registerAlias_run halias
  refine .table halias (.table (fun _ => ?_) htable) (rescopes_of_run hadd) hdatabase
  have hentries := congrFun halias.addsTables.entries base.name.normalize.name
  rw [show s.view.scopes = _ from hs] at hentries
  exact Option.map_eq_none_iff.mp hentries

theorem bindTarget_binds {r : BaseTable × Schema} (hs : s.scopes = [{ depth := 0 }])
    (h : bindTarget env table s = .ok r s') :
    Binds env (.source (.table table) (.table r.1)) s.view s'.view ∧
      ∀ column ∈ r.2, env.HasColumn column := by
  obtain ⟨_, hid⟩ := bindTarget_schema hs rfl h
  refine ⟨?_, fun column hcolumn => ⟨_, _, hid, hcolumn⟩⟩
  simp only [bindTarget, run_bind, run_currentScope] at h
  obtain ⟨base, _, hbase, scope, _, ⟨_, rfl⟩, h⟩ := h
  cases htable : scope.table? base.knownAs.name with
  | none =>
    rw [htable] at h
    simp at h
  | some t =>
    obtain ⟨_, source⟩ := t
    cases source with
    | derived =>
      rw [htable] at h
      simp at h
    | regular =>
      rw [htable] at h
      obtain ⟨rfl, rfl⟩ := run_pure.mp h
      exact bindBaseTable_target hs hbase

theorem bindFilter_binds (hrec : rec.Derived env) {filter : Option ExprId} {u : Unit}
    (h : filter.toList.forM (bindPredicate rec "WHERE") s = .ok u s') :
    Binds env (.roots filter.toList) s.view s'.view :=
  binds_roots (fun _ _ _ _ _ => bindPredicate_root hrec) h

theorem BindsSeq.target {table' : BaseTable} {v2 : BindView}
    (htable : Binds env (.source (.table table) (.table table')) { v with scopes := v.scopes.open_ } v1)
    (h : BindsSeq env tasks v1 v2) :
    BindsSeq env (.source (.table table) (.table table') :: tasks) v
      { v2 with scopes := v2.scopes.tail } := by
  have hclosed : BindsSeq env [] v2 { v2 with scopes := v2.scopes.tail } := .closed .nil
  have h := h.append hclosed
  rw [append_nil] at h
  exact .opened (.part htable (fun _ => trivial) trivial h)

theorem BindsStatement.select {q' : Select} (h : Binds env (.query q q') v v') :
    BindsStatement env (.select q) (.select q') [.query q q'] v v' where
  binds := .part h (fun _ => trivial) trivial .nil
  outputs := append_nil _
  given := append_nil _
  made := append_nil _
  reached := subset_append_left _ _

/-- **What a run that binds a statement has done.** -/
theorem StatementRun.binds {st st' : Statement} (h : StatementRun env rec s st st' s')
    (hrec : rec.Derived env) (hdata : st.isData = true) (hs : s.scopes = []) :
    ∃ tasks, BindsStatement env st st' tasks s.view s'.view := by
  induction h with
  | select hquery => exact ⟨_, .select (hrec.query hquery)⟩
  | @insert i _ _ hinsert =>
    obtain ⟨table, columns, source⟩ := i
    simp only [run_bind, run_pure, bindInsert, run_ofExcept] at hinsert
    obtain ⟨⟨table', schema⟩, s1, htarget, columns', _, ⟨_, rfl⟩, source', _, hsource, rfl, rfl⟩ := hinsert
    obtain ⟨htable, hschema⟩ := bindTarget_binds (by rw [hs]; rfl) htarget
    cases source with
    | values =>
      simp only [bindInsertSource, run_bind, run_pure] at hsource
      obtain ⟨rows', _, hrows, rfl, rfl⟩ := hsource
      refine ⟨_, .target htable (arrangeRows_values hrec hschema hrows), ?_, ?_, ?_, ?_⟩
      · rw [flatMap_cons, outputs_valueTasks]
        rfl
      · rw [flatMap_cons, given_valueTasks]
        rfl
      · rw [flatMap_cons, made_valueTasks]
        rfl
      · rw [flatMap_cons, reached_valueTasks]
        exact subset_append_right _ _
    | query q =>
      simp only [bindInsertSource, run_bind, run_pure] at hsource
      obtain ⟨q', s2, hquery, row, s3, hrow, rfl, rfl⟩ := hsource
      refine ⟨_, .target htable (.part (hrec.query hquery) (fun _ => trivial) trivial
        (arrangeRow_values hrec hschema hrow)), ?_, ?_, ?_, ?_⟩
      · rw [flatMap_cons, flatMap_cons, outputs_valueTasks, append_nil]
        rfl
      · rw [flatMap_cons, flatMap_cons, given_valueTasks, append_nil]
        rfl
      · rw [flatMap_cons, flatMap_cons, made_valueTasks, append_nil]
        show NamedPart.table table' :: q'.named = NamedPart.table table' :: Select.named { q' with items := row }
        rw [Select.named_eq, Select.named_eq]
      · rw [flatMap_cons, flatMap_cons, reached_valueTasks]
        -- apart from the select list the query mentions what it did
        show Select.exprs { q' with items := row } ⊆ [] ++ (q'.exprs ++ row)
        rw [Select.exprs_eq, Select.exprs_eq]
        simp only [append_subset, nil_append]
        grind
  | update hupdate =>
    simp only [run_bind, run_pure, bindUpdate] at hupdate
    obtain ⟨⟨_, _⟩, _, htarget, _, _, hfilter, _, _, hassign, rfl, rfl⟩ := hupdate
    obtain ⟨htable, hschema⟩ := bindTarget_binds (by rw [hs]; rfl) htarget
    refine ⟨_, .target htable (.part (bindFilter_binds hrec hfilter) (fun _ => trivial) trivial
      (bindAssignments_values hrec hschema hassign)), ?_, ?_, ?_, ?_⟩
    · rw [flatMap_cons, flatMap_cons, outputs_valueTasks]
      rfl
    · rw [flatMap_cons, flatMap_cons, given_valueTasks]
      rfl
    · rw [flatMap_cons, flatMap_cons, made_valueTasks]
      rfl
    · rw [flatMap_cons, flatMap_cons, reached_valueTasks]
      exact subset_append_right _ _
  | delete hdelete =>
    simp only [run_bind, run_pure, bindDelete] at hdelete
    obtain ⟨⟨_, _⟩, _, htarget, _, _, hfilter, rfl, rfl⟩ := hdelete
    obtain ⟨htable, _⟩ := bindTarget_binds (by rw [hs]; rfl) htarget
    refine ⟨_, .target htable (.part (bindFilter_binds hrec hfilter) (fun _ => trivial) trivial .nil),
      rfl, rfl, rfl, ?_⟩
    rw [flatMap_cons, flatMap_cons]
    exact subset_append_of_subset_right _ (subset_append_left _ _)
  | explain _ ih =>
    obtain ⟨tasks, hbinds⟩ := ih hdata
    exact ⟨tasks, hbinds.binds, hbinds.outputs, hbinds.given, hbinds.made, hbinds.reached⟩
  | _ => cases hdata

end

/-- **What binding a SELECT has done.** -/
theorem bind_select_binds (hp : p.statement = .select q)
    (h : (bind env p parameters).result = .ok b) :
    ∃ q' v, b.statement = .select q' ∧ b.exprs = v.exprs ∧
      Binds env (.query q q') (BindState.initial env p parameters).view v := by
  obtain ⟨_, hrun, hexprs, _⟩ := bind_run h
  rw [hp] at hrun
  simp only [bindStatementWith, run_bind, run_pure] at hrun
  obtain ⟨q', s1, hquery, hq, rfl⟩ := hrun
  exact ⟨q', s1.view, hq.symm, hexprs, (recurTo_derived _).query hquery⟩

end SqlAnalysis
