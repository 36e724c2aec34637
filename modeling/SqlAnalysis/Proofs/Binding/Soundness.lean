import SqlAnalysis.Proofs.Binding.Evolution
import SqlAnalysis.Proofs.Binding.Runs

/-!
# Sound conditions of bound statements

* **`bind_sound`**: the subquery flags in the conditions of a bound statement can be relied on.
-/

namespace SqlAnalysis

open BindM BindTask

variable {u : Unit} {column : Column} {value : ExprId} {columns : List String}
  {row ids : List ExprId} {index : Nat} {schema : Schema} {insert insert' : Insert} {env : Accessor}
  {p : Parsed} {parameters : List Value} {b : Bound}

/-! ### Parts of statements -/

section

variable {rec : Recur} {s s' : BindState} {id : ExprId}

theorem exprs_of_bindBaseTable {base base' : BaseTable}
    (h : bindBaseTable env false base s = .ok base' s') : s'.exprs = s.exprs := by
  simp only [bindBaseTable, run_bind, run_ofExcept, run_get, Bool.false_and, Bool.false_eq_true,
    if_false, addRegularTable, run_pure] at h
  obtain ⟨_, _, ⟨_, rfl⟩, _, _, halias, _, _, ⟨rfl, rfl⟩, _, _, ⟨_, rfl⟩, _, _, hadd, _,
    rfl⟩ := h
  exact (rescopes_of_run hadd).exprs_eq.trans (registerAlias_run halias).exprs_eq

theorem bindTarget_exprs {table : BaseTable} {r : BaseTable × Schema}
    (h : bindTarget env table s = .ok r s') : s'.exprs = s.exprs := by
  simp only [bindTarget, run_bind, run_currentScope] at h
  obtain ⟨base, s1, hbase, scope, _, ⟨_, rfl⟩, h⟩ := h
  generalize scope.table? base.knownAs.name = found at h
  have hkept : s' = s1 := by
    rcases found with _ | ⟨_, _ | _⟩
    · simp at h
    · exact (run_pure.mp h).2.symm
    · simp at h
  rw [hkept]
  exact exprs_of_bindBaseTable hbase

theorem RootStep.progress {v v' : BindView} (h : RootStep env id v v') :
    (roots [id]).Progress v.exprs v'.exprs := by
  obtain ⟨_, hexpr, rfl⟩ := h
  exact hexpr.progress.finish

theorem bindItem_progress (hrec : rec.Derived env) (h : bindItem rec id s = .ok u s') :
    (roots [id]).Progress s.exprs s'.exprs :=
  (bindItem_root hrec h).progress

theorem run_columnDefault (h : columnDefault column s = .ok id s') :
    (∃ stored a, column.default = some stored ∧
      Arena.importTree stored.arena stored.root s.exprs = .ok id a ∧ { s with exprs := a } = s') ∨
    (column.default = none ∧ column.nullable = true ∧ s.exprs.size = id ∧ { s with exprs :=
      (s.exprs.push { ExprNode.ofExpr (.constant .null) with type := column.type }).2 } = s') := by
  unfold columnDefault at h
  cases hdefault : column.default with
  | some =>
    rw [hdefault] at h
    obtain ⟨_, himport⟩ := run_onExprs.mp h
    exact .inl ⟨_, _, rfl, himport⟩
  | none =>
    simp only [hdefault, run_ite] at h
    rcases h with ⟨hnullable, h⟩ | ⟨_, h⟩
    · exact .inr ⟨rfl, hnullable, run_pushNode.mp h⟩
    · simp at h

theorem columnDefault_appends (h : columnDefault column s = .ok id s') :
    s.exprs.Appends s'.exprs ∧ s.exprs.size ≤ id ∧ id < s'.exprs.size ∧
      s'.expectations = s.expectations := by
  rcases run_columnDefault h with ⟨_, _, _, himport, rfl⟩ | ⟨_, _, rfl, rfl⟩
  · obtain ⟨happends, hle, hlt⟩ := Arena.importFrom_appends himport
    exact ⟨happends, hle, hlt, rfl⟩
  · refine ⟨.of_push rfl rfl, le_rfl, ?_, rfl⟩
    show s.exprs.size < (s.exprs.push _).2.size
    rw [Arena.size_push]
    exact Nat.lt_succ_self _

theorem columnDefault_advances (h : columnDefault column s = .ok id s') :
    Advances s.exprs s'.exprs :=
  (Adjusts.of_appends (columnDefault_appends h).1).advances

/-- What is left of a value when an outer cast to a type is taken off. -/
def Arena.Sheds (a : Arena) (t : SqlType) (value id : ExprId) : Prop :=
  a.expr value = .cast t id ∨ id = value ∧ ∀ t' operand, a.expr value ≠ .cast t' operand

theorem stripCast_run (h : stripCast column value s = .ok id s') :
    s' = s ∧ s.exprs.Sheds column.type value id := by
  simp only [stripCast, run_bind, run_exprOf] at h
  obtain ⟨e, _, ⟨he, rfl⟩, h⟩ := h
  cases e with
  | cast =>
    simp only [run_ite] at h
    rcases h with ⟨htarget, h⟩ | ⟨_, h⟩
    · obtain ⟨rfl, rfl⟩ := run_pure.mp h
      exact ⟨rfl, .inl (by rw [he, htarget])⟩
    · simp at h
  | _ =>
    obtain ⟨rfl, rfl⟩ := run_pure.mp h
    exact ⟨rfl, .inr ⟨rfl, fun _ _ hcast => by rw [he] at hcast; cases hcast⟩⟩

theorem coerceToColumn_sheds (h : coerceToColumn rec value column s = .ok id s') :
    ∃ value' s1,
      (s.exprs.expr value = .default ∧ columnDefault column s = .ok value' s1 ∨
        s.exprs.expr value ≠ .default ∧ value' = value ∧ s1 = s) ∧
      s1.exprs.Sheds column.type value' id ∧
      bindItem rec id { s1 with expectations := s1.expectations.expect id column.type } =
        .ok () s' := by
  have hrest {value : ExprId} {s : BindState} (h : (do
      let value ← stripCast column value
      expect value column.type
      bindItem rec value
      pure value : BindM ExprId) s = .ok id s') :
      s.exprs.Sheds column.type value id ∧
        bindItem rec id { s with expectations := s.expectations.expect id column.type } =
          .ok () s' := by
    simp only [run_bind, run_expect, run_pure] at h
    obtain ⟨_, _, hstrip, _, _, rfl, _, _, hitem, rfl, rfl⟩ := h
    obtain ⟨rfl, hid⟩ := stripCast_run hstrip
    exact ⟨hid, hitem⟩
  simp only [coerceToColumn, run_bind, run_exprOf] at h
  obtain ⟨e, _, ⟨he, rfl⟩, h⟩ := h
  cases e with
  | default =>
    obtain ⟨value', s1, hdefault, h⟩ := run_bind.mp h
    exact ⟨value', s1, .inl ⟨he, hdefault⟩, hrest h⟩
  | _ => exact ⟨value, s, .inr ⟨by rw [he]; exact Expr.noConfusion, rfl, rfl⟩, hrest h⟩

theorem coerceToColumn_run (h : coerceToColumn rec value column s = .ok id s') :
    ∃ value' s1,
      (s.exprs.expr value = .default ∧ columnDefault column s = .ok value' s1 ∨
        s.exprs.expr value ≠ .default ∧ value' = value ∧ s1 = s) ∧
      (id = value' ∨ s1.exprs.expr value' = .cast column.type id) ∧
      bindItem rec id { s1 with expectations := s1.expectations.expect id column.type } =
        .ok () s' := by
  obtain ⟨value', s1, hfrom, hsheds, hitem⟩ := coerceToColumn_sheds h
  exact ⟨value', s1, hfrom, hsheds.symm.imp_left And.left, hitem⟩

theorem coerceToColumn_progress (hrec : rec.Derived env)
    (h : coerceToColumn rec value column s = .ok id s') :
    (roots [id]).Progress s.exprs s'.exprs := by
  obtain ⟨_, _, hfrom, _, hitem⟩ := coerceToColumn_run h
  have hitem := bindItem_progress hrec hitem
  rcases hfrom with ⟨_, hdefault⟩ | ⟨_, rfl, rfl⟩
  · exact ⟨(columnDefault_advances hdefault).trans hitem.toAdvances, hitem.finished⟩
  · exact hitem

theorem arrangeRowFrom_cons_run {rest : Schema}
    (h : arrangeRowFrom rec columns row index (column :: rest) s = .ok ids s') :
    ∃ value s0 id s1 ids',
      ((insertPosition columns index column).bind (row[·]?) = some value ∧ s0 = s ∨
        (insertPosition columns index column).bind (row[·]?) = none ∧
          columnDefault column s = .ok value s0) ∧
      coerceToColumn rec value column s0 = .ok id s1 ∧
      arrangeRowFrom rec columns row (index + 1) rest s1 = .ok ids' s' ∧ ids = id :: ids' := by
  rw [arrangeRowFrom] at h
  have hrest {value : ExprId} {s : BindState} (h : (do
      let value ← coerceToColumn rec value column
      let values ← arrangeRowFrom rec columns row (index + 1) rest
      pure (value :: values) : BindM (List ExprId)) s = .ok ids s') :
      ∃ id s1 ids', coerceToColumn rec value column s = .ok id s1 ∧
        arrangeRowFrom rec columns row (index + 1) rest s1 = .ok ids' s' ∧ ids = id :: ids' := by
    simp only [run_bind, run_pure] at h
    obtain ⟨id, s1, hvalue, ids', _, hvalues, rfl, rfl⟩ := h
    exact ⟨id, s1, ids', hvalue, hvalues, rfl⟩
  cases hvalue : (insertPosition columns index column).bind (row[·]?) with
  | some value =>
    rw [hvalue] at h
    obtain ⟨id, s1, ids', h⟩ := hrest h
    exact ⟨value, s, id, s1, ids', .inl ⟨rfl, rfl⟩, h⟩
  | none =>
    rw [hvalue] at h
    obtain ⟨value, s0, hdefault, h⟩ := run_bind.mp h
    obtain ⟨id, s1, ids', h⟩ := hrest h
    exact ⟨value, s0, id, s1, ids', .inr ⟨rfl, hdefault⟩, h⟩

theorem arrangeRowFrom_progress (hrec : rec.Derived env)
    (h : arrangeRowFrom rec columns row index schema s = .ok ids s') :
    (roots ids).Progress s.exprs s'.exprs := by
  induction schema generalizing s index ids with
  | nil =>
    rw [arrangeRowFrom] at h
    obtain ⟨rfl, rfl⟩ := run_pure.mp h
    exact ⟨.refl _, .nil _⟩
  | cons _ _ ih =>
    obtain ⟨_, _, id, _, _, hgiven, hvalue, hvalues, rfl⟩ := arrangeRowFrom_cons_run h
    have hvalue := coerceToColumn_progress hrec hvalue
    have hvalues := ih hvalues
    have hid : s'.exprs.Sound [id] := hvalues.sound hvalue.finished
    have hrow := hvalue.toAdvances.trans hvalues.toAdvances
    refine ⟨?_, hid.append hvalues.finished⟩
    rcases hgiven with ⟨_, rfl⟩ | ⟨_, hdefault⟩
    · exact hrow
    · exact (columnDefault_advances hdefault).trans hrow

theorem arrangeRow_run (h : arrangeRow rec columns schema row s = .ok ids s') :
    row.length = (if columns.isEmpty then schema.length else columns.length) ∧
      arrangeRowFrom rec columns row 0 schema s = .ok ids s' := by
  unfold arrangeRow at h
  simp only [run_ite] at h
  rcases h with ⟨hlength, h⟩ | ⟨_, h⟩
  · exact ⟨hlength, h⟩
  · simp at h

theorem arrangeRow_progress (hrec : rec.Derived env)
    (h : arrangeRow rec columns schema row s = .ok ids s') :
    (roots ids).Progress s.exprs s'.exprs :=
  arrangeRowFrom_progress hrec (arrangeRow_run h).2

theorem bindConditions_progress (hrec : rec.Derived env) {clause : String}
    (h : ids.forM (bindPredicate rec clause) s = .ok u s') :
    (roots ids).Progress s.exprs s'.exprs :=
  (binds_roots (fun _ _ _ _ _ => bindPredicate_root hrec) h).progress trivial

theorem arrangeRows_progress (hrec : rec.Derived env) {rows rows' : List (List ExprId)}
    (h : rows.mapM (arrangeRow rec columns schema) s = .ok rows' s') :
    (roots rows'.flatten).Progress s.exprs s'.exprs := by
  replace h := run_mapM h
  induction h with
  | nil => exact ⟨.refl _, .nil _⟩
  | cons hfirst _ hrest =>
    have hfirst := arrangeRow_progress hrec hfirst
    exact ⟨hfirst.toAdvances.trans hrest.toAdvances, (hrest.sound hfirst.finished).append hrest.finished⟩

theorem bindAssignments_progress (hrec : rec.Derived env) {table : String}
    {assignments assignments' : List Assignment}
    (h : assignments.mapM (bindAssignment rec schema table) s = .ok assignments' s') :
    (roots (assignments'.map (·.value))).Progress s.exprs s'.exprs := by
  replace h := run_mapM h
  induction h with
  | nil => exact ⟨.refl _, .nil _⟩
  | cons hfirst _ hrest =>
    simp only [bindAssignment, run_bind, run_ofExcept, run_pure] at hfirst
    obtain ⟨_, _, ⟨_, rfl⟩, _, _, hvalue, rfl, rfl⟩ := hfirst
    have hvalue := coerceToColumn_progress hrec hvalue
    exact ⟨hvalue.toAdvances.trans hrest.toAdvances, (hrest.sound hvalue.finished).append hrest.finished⟩

def InsertSource.exprs : InsertSource → List ExprId
  | .values rows => rows.flatten
  | .query q => q.exprs

theorem bindInsertSource_progress (hrec : rec.Derived env) {source source' : InsertSource}
    (h : bindInsertSource rec columns schema source s = .ok source' s') :
    (roots source'.exprs).Progress s.exprs s'.exprs := by
  cases source with
  | values =>
    simp only [bindInsertSource, run_bind, run_pure] at h
    obtain ⟨_, _, hrows, rfl, rfl⟩ := h
    exact arrangeRows_progress hrec hrows
  | query =>
    simp only [bindInsertSource, run_bind, run_pure] at h
    obtain ⟨_, _, hquery, _, _, hrow, rfl, rfl⟩ := h
    have hquery := (hrec.query hquery).progress trivial
    have hrow := arrangeRow_progress hrec hrow
    refine ⟨hquery.toAdvances.trans hrow.toAdvances, ?_⟩
    have hsound := hrow.sound hquery.finished
    -- apart from the select list the query mentions what it did
    obtain ⟨hctes, _, hsource, hfilter, hgrouping, hordering, hunion⟩ := Arena.sound_select.mp hsound
    exact Arena.sound_select.mpr
      ⟨hctes, hrow.finished, hsource, hfilter, hgrouping, hordering, hunion⟩

/-! ### Statements -/

/-- The flags in every condition that the plan of a statement can carry can be relied on. -/
def Statement.Sound (a : Arena) : Statement → Prop
  | .select q => a.Settled ∧ a.Sound q.exprs
  | .insert i =>
    match i.source with
    | .query q => a.Settled ∧ a.Sound q.exprs
    | .values _ => True
  | .update u => a.Sound u.filter.toList
  | .delete d => a.Sound d.filter.toList
  | .explain inner => inner.Sound a
  | .create .. | .drop _ | .analyze _ => True

theorem bindInsert_run (h : bindInsert env rec insert s = .ok insert' s') :
    ∃ columns schema s1, s1.exprs = s.exprs ∧
      bindInsertSource rec columns schema insert.source s1 = .ok insert'.source s' := by
  simp only [bindInsert, run_bind, run_ofExcept, run_pure] at h
  obtain ⟨⟨_, schema⟩, s1, htarget, columns, _, ⟨_, rfl⟩, _, _, hsource, rfl, rfl⟩ := h
  exact ⟨columns, schema, s1, bindTarget_exprs htarget, hsource⟩

theorem bindInsert_sound (hrec : rec.Derived env) (hs : s.exprs.Settled)
    (h : bindInsert env rec insert s = .ok insert' s') :
    (Statement.insert insert').Sound s'.exprs := by
  obtain ⟨_, _, _, hexprs, hsource⟩ := bindInsert_run h
  have hsource := bindInsertSource_progress hrec hsource
  rw [← hexprs] at hs
  unfold Statement.Sound
  cases hq : insert'.source with
  | values => exact trivial
  | query =>
    rw [hq] at hsource
    exact ⟨hsource.settled hs, hsource.finished⟩

theorem StatementRun.sound {st st' : Statement} (h : StatementRun env rec s st st' s')
    (hrec : rec.Derived env) (hs : s.exprs.Settled) : st'.Sound s'.exprs := by
  induction h with
  | select hquery =>
    have hquery := (hrec.query hquery).progress trivial
    exact ⟨hquery.settled hs, hquery.finished⟩
  | insert hinsert =>
    have hsound := bindInsert_sound (s := { s with scopes := s.scopes.open_ }) hrec hs hinsert
    exact hsound
  | update hupdate =>
    simp only [bindUpdate, run_bind, run_pure] at hupdate
    obtain ⟨⟨_, _⟩, _, _, _, _, hfilter, _, _, hassign, rfl, rfl⟩ := hupdate
    exact (bindAssignments_progress hrec hassign).sound (bindConditions_progress hrec hfilter).finished
  | delete hdelete =>
    simp only [bindDelete, run_bind, run_pure] at hdelete
    obtain ⟨⟨_, _⟩, _, _, _, _, hfilter, rfl, rfl⟩ := hdelete
    exact (bindConditions_progress hrec hfilter).finished
  | explain _ ih => exact ih
  | _ => trivial

end

theorem bind_run (h : (bind env p parameters).result = .ok b) :
    ∃ s, bindStatementWith env (recurTo env (bindLevels env p)) p.statement
        (BindState.initial env p parameters) = .ok b.statement s ∧
      b.exprs = s.exprs ∧ (bind env p parameters).nextTemp = s.nextTemp := by
  unfold bind at h ⊢
  dsimp only at h ⊢
  split at h
  · rename_i statement s hrun
    cases h
    exact ⟨s, hrun, rfl, rfl⟩
  · cases h

theorem bind_sound (hp : p.exprs.Settled) (h : (bind env p parameters).result = .ok b) :
    b.statement.Sound b.exprs := by
  obtain ⟨_, hrun, hexprs, _⟩ := bind_run h
  rw [hexprs]
  exact (bindStatementWith_run hrun).sound (recurTo_derived _) hp

end SqlAnalysis
