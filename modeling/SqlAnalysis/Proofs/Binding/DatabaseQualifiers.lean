import Mathlib.Data.List.ReduceOption
import SqlAnalysis.Proofs.Binding.HomeTables
import SqlAnalysis.Proofs.Binding.StatementFrame

/-!
# Database qualifiers

A name may say to which database its object belongs.  A binding checks that for the names that it looks
up as tables of a FROM clause or as the object of a statement, and for no others.

* **`bind_databases`**: a statement that binds is at home exactly if its unchecked names are, and what
  it is about is refused for any other database.
-/

namespace SqlAnalysis

open Text BindM List

variable {v v' : BindView} {ids row : List ExprId} {columns given : List String} {schema : Schema}
  {table : String} {c c' : Creation}

variable {env : Accessor}

/-! ### Names in a statement -/

def Creation.objectNames : Creation → List ObjectName
  | .database _ | .schema _ => []
  | .table name _ keys => name :: keys.map (·.table)
  | .index _ owner _ _ => [owner]
  | .trigger t => [t.table]
  | .view name query => name :: query.tableNames

/-- The names of catalog objects in a statement, subqueries apart.  DROP DATABASE and DROP SCHEMA have no
object name. -/
def Statement.objectNames : Statement → List ObjectName
  | .select q => q.tableNames
  | .insert i =>
    i.table.name :: match i.source with
      | .query q => q.tableNames
      | .values _ => []
  | .update u => [u.table.name]
  | .delete d => [d.table.name]
  | .create _ c => c.objectNames
  | .drop d => if d.kind = .database ∨ d.kind = .schema then [] else [d.target]
  | .analyze a => a.table.toList
  | .explain inner => inner.objectNames

/-- The names in a statement that are looked up without a check of their qualifiers. -/
def Statement.uncheckedNames : Statement → List ObjectName
  | .create _ (.table _ _ keys) => keys.map (·.table)
  | .drop d => if d.kind = .index ∨ d.kind = .trigger ∨ d.kind = .view then [d.target] else []
  | .explain inner => inner.uncheckedNames
  | _ => []

theorem Statement.uncheckedNames_subset (statement : Statement) :
    statement.uncheckedNames ⊆ statement.objectNames := by
  induction statement with
  | explain _ ih => exact ih
  | create _ c =>
    cases c with
    | table => exact subset_cons_self _ _
    | _ => exact nil_subset _
  | drop d =>
    obtain ⟨kind, _, _⟩ := d
    cases kind <;> simp [uncheckedNames, objectNames]
  | _ => exact nil_subset _

namespace Parsed

def Names (p : Parsed) (n : ObjectName) : Prop :=
  n ∈ p.statement.objectNames ∨ ∃ root ∈ p.statement.exprs, ∃ x q,
    p.exprs.Reaches root x ∧ p.exprs.expr x = .subquery q ∧ n ∈ q.tableNames

/-- The statement has a subquery that was bound before, and the name is in it. -/
def NamesInBound (p : Parsed) (n : ObjectName) : Prop :=
  ∃ root ∈ p.statement.exprs, ∃ y q x q', p.exprs.Reaches root y ∧ p.exprs.expr y = .subquery q ∧
    q.depth.isSome = true ∧ p.exprs.Reaches y x ∧ p.exprs.expr x = .subquery q' ∧ n ∈ q'.tableNames

/-- The name is in the statement, and its qualifier is not looked at. -/
def Unchecked (p : Parsed) (n : ObjectName) : Prop :=
  n ∈ p.statement.uncheckedNames ∨ p.NamesInBound n

end Parsed

/-! ### Values -/

section

variable {rec : Recur} {s s' : BindState} {id : ExprId}

theorem RootStep.clears (h : RootStep env id v v') : Clears env [id] v.exprs v'.exprs :=
  (h.roots.clears trivial).1

theorem clears_forM {f : ExprId → BindM Unit} {u : Unit}
    (hf : ∀ id ∈ ids, ∀ {s s' : BindState} {u : Unit}, f id s = .ok u s' →
      RootStep env id s.view s'.view) (h : ids.forM f s = .ok u s') :
    Clears env ids s.exprs s'.exprs :=
  ((binds_roots hf h).clears trivial).1

theorem coerceToColumn_clears (hrec : rec.Derived env) {column : Column} {value : ExprId}
    (h : coerceToColumn rec value column s = .ok id s') : Clears env [value] s.exprs s'.exprs := by
  obtain ⟨_, s1, hfrom, hid, hitem⟩ := coerceToColumn_run h
  have hclears : Clears env [id] s1.exprs s'.exprs := (bindItem_root hrec hitem).clears
  rcases hfrom with ⟨hvalue, hdefault⟩ | ⟨_, rfl, rfl⟩
  · have happends := (columnDefault_appends hdefault).1
    refine ⟨.trans (.of_lt_size fun x hx => happends.expr hx) hclears.guards, ?_⟩
    exact forall_mem_singleton.mpr (.of_leaf (by rw [hvalue]; rfl) (by rw [hvalue]; rfl))
  · refine ⟨hclears.guards, forall_mem_singleton.mpr ?_⟩
    have hhome := hclears.home id (mem_singleton_self id)
    rcases hid with rfl | hcast
    · exact hhome
    · exact .of_cast hcast hhome

theorem arrangeRowFrom_clears (hrec : rec.Derived env) {index : Nat}
    (h : arrangeRowFrom rec columns row index schema s = .ok ids s') :
    Clears env (rowValues columns row index schema).reduceOption s.exprs s'.exprs := by
  induction schema generalizing s index ids with
  | nil =>
    rw [arrangeRowFrom] at h
    obtain ⟨_, rfl⟩ := run_pure.mp h
    exact .of_guards (.refl _ _)
  | cons _ _ ih =>
    obtain ⟨_, _, _, _, _, hgiven, hvalue, hvalues, rfl⟩ := arrangeRowFrom_cons_run h
    have hall := (coerceToColumn_clears hrec hvalue).append (ih hvalues)
    rcases hgiven with ⟨hsome, rfl⟩ | ⟨hnone, hdefault⟩
    · rw [rowValues, hsome, reduceOption_cons_of_some]
      exact hall
    · rw [rowValues, hnone, reduceOption_cons_of_none]
      have happends := (columnDefault_appends hdefault).1
      exact .after (.of_lt_size fun x hx => happends.expr hx)
        ⟨hall.guards, (forall_mem_append.mp hall.home).2⟩

end

/-! ### Rows -/

theorem mem_rowValues (hcolumns : checkColumns schema table [] given = .ok columns)
    (hlength : row.length = if columns.isEmpty then schema.length else columns.length) :
    ∀ value ∈ row, value ∈ (rowValues columns row 0 schema).reduceOption := by
  intro value hvalue
  obtain ⟨i, hi, hget⟩ := getElem_of_mem hvalue
  have hget := (getElem?_eq_getElem hi).trans (congrArg some hget)
  rw [reduceOption_mem_iff, mem_rowValues_iff]
  cases hne : columns.isEmpty with
  | true =>
    rw [hne, if_pos rfl] at hlength
    exact ⟨i, _, getElem?_eq_getElem (by omega), by simp [insertPosition, hne, hget]⟩
  | false =>
    simp only [hne, Bool.false_eq_true, if_false] at hlength
    obtain ⟨_, hall, hnodup⟩ := checkColumns_spec hcolumns
    have hi' : i < columns.length := by omega
    obtain ⟨hknown, _⟩ := hall columns[i] (getElem_mem hi')
    obtain ⟨column, hfind⟩ := Option.isSome_iff_exists.mp hknown
    have hname : column.name = columns[i] := by simpa using find?_some hfind
    have hplace : columns.findIdx? (· == column.name) = some i := by
      refine findIdx?_eq_some_iff_getElem.mpr ⟨hi', by simp [hname], fun j hj heq => ?_⟩
      have heq : columns[j] = columns[i] := by simpa [hname] using heq
      exact hj.ne ((hnodup.getElem_inj_iff).mp heq)
    obtain ⟨j, hj⟩ := mem_iff_getElem?.mp (mem_of_find?_eq_some hfind)
    exact ⟨j, column, hj, by simp [insertPosition, hne, hplace, hget]⟩

/-! ### Statements -/

theorem BindTask.opened_of_ready {task : BindTask} (h : ∀ a, task.Ready a) :
    task.opened = task.mentioned := by
  cases task with
  | acts => exact (Nat.not_lt_zero _ (h ⟨#[]⟩).1).elim
  | _ => rfl

theorem BindsParts.clears {tasks : List BindTask} (h : BindsParts env tasks v v') :
    Clears env (tasks.flatMap BindTask.mentioned) v.exprs v'.exprs := by
  induction h with
  | nil => exact .of_guards (.refl _ _)
  | part hbinds hready _ _ ih =>
    have hfirst := (hbinds.clears (hready _)).1
    rw [BindTask.opened_of_ready hready] at hfirst
    exact hfirst.append ih
  | copy _ hcopy _ ih => exact ih.after (.of_lt_size fun _ hx => hcopy.appends.expr hx)
  | rest hrests _ ih =>
    rw [← hrests.exprs]
    exact ih

section

variable {rec : Recur} {s s' : BindState}

theorem bindTarget_owns {table : BaseTable} {r : BaseTable × Schema}
    (h : bindTarget env table s = .ok r s') : env.Owns table.name ∧ s'.exprs = s.exprs := by
  have hexprs := bindTarget_exprs h
  simp only [bindTarget, run_bind] at h
  obtain ⟨_, _, hbase, _⟩ := h
  obtain ⟨_, _, hdatabase⟩ := bindBaseTable_rests hbase
  exact ⟨(checkDatabase_eq_ok_iff _).mp hdatabase, hexprs⟩

theorem arrangeRows_clears (hrec : rec.Derived env)
    (hcolumns : checkColumns schema table [] given = .ok columns) {rows rows' : List (List ExprId)}
    (h : rows.mapM (arrangeRow rec columns schema) s = .ok rows' s') :
    Clears env rows.flatten s.exprs s'.exprs := by
  replace h := run_mapM h
  induction h with
  | nil => exact .of_guards (.refl _ _)
  | cons hfirst _ ih =>
    obtain ⟨hlength, hfirst⟩ := arrangeRow_run hfirst
    have hrow := (arrangeRowFrom_clears hrec hfirst).mono fun value hvalue =>
      .inl (mem_rowValues hcolumns hlength value hvalue)
    exact hrow.append ih

theorem bindAssignments_clears (hrec : rec.Derived env) {assignments assignments' : List Assignment}
    (h : assignments.mapM (bindAssignment rec schema table) s = .ok assignments' s') :
    Clears env (assignments.map (·.value)) s.exprs s'.exprs := by
  replace h := run_mapM h
  induction h with
  | nil => exact .of_guards (.refl _ _)
  | cons hfirst _ ih =>
    simp only [bindAssignment, run_bind, run_ofExcept, run_pure] at hfirst
    obtain ⟨_, _, ⟨_, rfl⟩, _, _, hvalue, _, rfl⟩ := hfirst
    exact (coerceToColumn_clears hrec hvalue).cons ih

/-- What a statement names, its unchecked names apart, is at home, and so is what its expressions lead
to. -/
structure Statement.AtHome (env : Accessor) (statement : Statement) (a : Arena) : Prop where
  home : ∀ id ∈ statement.exprs, a.Home env id
  owns : ∀ n ∈ statement.objectNames, n ∈ statement.uncheckedNames ∨ env.Owns n

section

variable (hrec : rec.Derived env)

include hrec

theorem bindInsert_atHome {insert insert' : Insert}
    (h : bindInsert env rec insert s = .ok insert' s') : (Statement.insert insert).AtHome env s.exprs := by
  obtain ⟨_, _, source⟩ := insert
  simp only [bindInsert, run_bind, run_ofExcept, run_pure] at h
  obtain ⟨⟨_, _⟩, s1, htarget, _, _, ⟨hcolumns, rfl⟩, _, _, hsource, _, _⟩ := h
  obtain ⟨howns, hexprs⟩ := bindTarget_owns htarget
  cases source with
  | values =>
    simp only [bindInsertSource, run_bind, run_pure] at hsource
    obtain ⟨_, _, hrows, _, rfl⟩ := hsource
    have hclears := arrangeRows_clears hrec hcolumns hrows
    rw [hexprs] at hclears
    exact ⟨hclears.home, forall_mem_singleton.mpr (.inr howns)⟩
  | query =>
    simp only [bindInsertSource, run_bind, run_pure] at hsource
    obtain ⟨_, _, hquery, _⟩ := hsource
    obtain ⟨hclears, htables⟩ := (hrec.query hquery).clears trivial
    rw [show s1.view.exprs = s.exprs from hexprs] at hclears
    exact ⟨hclears.home, forall_mem_cons.mpr ⟨.inr howns, fun n hn => .inr (htables n hn)⟩⟩

theorem bindUpdate_atHome {update update' : Update}
    (h : bindUpdate env rec update s = .ok update' s') : (Statement.update update).AtHome env s.exprs := by
  simp only [bindUpdate, run_bind, run_pure] at h
  obtain ⟨⟨_, _⟩, _, htarget, _, _, hfilter, _, _, hassign, _⟩ := h
  obtain ⟨howns, hexprs⟩ := bindTarget_owns htarget
  have hclears := (clears_forM (fun _ _ _ _ _ => bindPredicate_root hrec) hfilter).append
    (bindAssignments_clears hrec hassign)
  rw [hexprs] at hclears
  exact ⟨hclears.home, forall_mem_singleton.mpr (.inr howns)⟩

theorem bindDelete_atHome {delete delete' : Delete}
    (h : bindDelete env rec delete s = .ok delete' s') : (Statement.delete delete).AtHome env s.exprs := by
  simp only [bindDelete, run_bind, run_pure] at h
  obtain ⟨⟨_, _⟩, _, htarget, _, _, hfilter, _⟩ := h
  obtain ⟨howns, hexprs⟩ := bindTarget_owns htarget
  have hclears := clears_forM (fun _ _ _ _ _ => bindPredicate_root hrec) hfilter
  rw [hexprs] at hclears
  exact ⟨hclears.home, forall_mem_singleton.mpr (.inr howns)⟩

theorem bindCreation_owns {ifNotExists : Bool}
    (h : bindCreation env rec c s = .ok c' s') :
    ∀ n ∈ c.objectNames, n ∈ (Statement.create ifNotExists c).uncheckedNames ∨ env.Owns n := by
  cases c with
  | database name | schema name => exact forall_mem_nil _
  | table =>
    have hdatabase := (bindNewTable_parts hrec h).1
    exact forall_mem_cons.mpr
      ⟨.inr ((checkDatabase_eq_ok_iff _).mp hdatabase), fun n hn => .inl hn⟩
  | index =>
    simp only [bindCreation, bindNewIndex, run_bind] at h
    obtain ⟨owner', s1, howner, _⟩ := h
    exact forall_mem_singleton.mpr
      (.inr ((checkDatabase_eq_ok_iff _).mp (bindOwner_rests howner).2))
  | trigger =>
    simp only [bindCreation, bindNewTrigger, run_bind] at h
    obtain ⟨_, s1, howner, _⟩ := h
    exact forall_mem_singleton.mpr
      (.inr ((checkDatabase_eq_ok_iff _).mp (bindOwner_rests howner).2))
  | view =>
    simp only [bindCreation, run_bind, run_ofExcept, run_pure] at h
    obtain ⟨_, _, ⟨hdatabase, rfl⟩, _, _, ⟨_, rfl⟩, _, _, hquery, _⟩ := h
    obtain ⟨_, htables⟩ := (hrec.query hquery).clears trivial
    exact forall_mem_cons.mpr
      ⟨.inr ((checkDatabase_eq_ok_iff _).mp hdatabase), fun n hn => .inr (htables n hn)⟩

theorem bindCreation_atHome (ifNotExists : Bool)
    (h : bindCreation env rec c s = .ok c' s') :
    (Statement.create ifNotExists c).AtHome env s.exprs := by
  obtain ⟨_, hbinds⟩ := bindCreation_parts hrec h
  have hclears := hbinds.binds.clears
  rw [hbinds.mentioned] at hclears
  exact ⟨hclears.home, bindCreation_owns hrec h⟩

end

/-- **A statement that is bound is at home**, its unchecked names apart. -/
theorem StatementRun.atHome {st st' : Statement} (h : StatementRun env rec s st st' s')
    (hrec : rec.Derived env) : st.AtHome env s.exprs := by
  induction h with
  | select hquery =>
    obtain ⟨hclears, htables⟩ := (hrec.query hquery).clears trivial
    exact ⟨hclears.home, fun n hn => .inr (htables n hn)⟩
  | insert hinsert =>
    have hhome := bindInsert_atHome hrec hinsert
    exact hhome
  | update hupdate =>
    have hhome := bindUpdate_atHome hrec hupdate
    exact hhome
  | delete hdelete =>
    have hhome := bindDelete_atHome hrec hdelete
    exact hhome
  | @create ifNotExists _ _ _ hcreation =>
    have hhome := bindCreation_atHome hrec ifNotExists hcreation
    exact hhome
  | @drop drop _ hdrop =>
    refine ⟨forall_mem_nil _, fun n hn => ?_⟩
    obtain ⟨kind, _, _⟩ := drop
    cases kind with
    | table =>
      obtain ⟨_, hdatabase, _⟩ := except_bind.mp hdrop
      rw [mem_singleton.mp hn]
      exact .inr ((checkDatabase_eq_ok_iff _).mp hdatabase)
    | database | schema => exact (not_mem_nil hn).elim
    | index | trigger | view => exact .inl hn
  | @analyze analyze _ hanalyze =>
    refine ⟨forall_mem_nil _, fun n hn => .inr ?_⟩
    have htable : analyze.table = some n := Option.mem_toList.mp hn
    rw [bindAnalyze, htable] at hanalyze
    obtain ⟨_, hdatabase, _⟩ := except_bind.mp hanalyze
    exact (checkDatabase_eq_ok_iff _).mp hdatabase
  | explain _ ih => exact ⟨ih.1, ih.2⟩

end

/-! ### Refusals -/

/-- The object that a statement is about, which is looked up before anything else. -/
def Statement.target? : Statement → Option ObjectName
  | .insert i => some i.table.name
  | .update u => some u.table.name
  | .delete d => some d.table.name
  | .create _ (.table name _ _) | .create _ (.view name _) => some name
  | .create _ (.index _ owner _ _) => some owner
  | .create _ (.trigger t) => some t.table
  | .drop d => if d.kind = .table then some d.target else none
  | .analyze a => a.table
  | .explain inner => if inner.isExplainable then inner.target? else none
  | .select _ | .create _ (.database _) | .create _ (.schema _) => none

/-- A computation ends with a refusal of a kind, whatever the state. -/
def Refuses {α : Type} (condition : Condition) (act : BindM α) : Prop :=
  ∀ s, ∃ text s', act s = .error (.refused ⟨condition, text⟩) s'

namespace Refuses

variable {α β : Type} {condition : Condition} {act : BindM α}

theorem bind (h : Refuses condition act) (f : α → BindM β) : Refuses condition (act >>= f) := by
  intro s
  obtain ⟨text, s', hs⟩ := h s
  refine ⟨text, s', ?_⟩
  show EStateM.bind act f s = _
  rw [EStateM.bind, hs]

theorem inScope (h : Refuses condition act) : Refuses condition (BindM.inScope act) := by
  intro s
  obtain ⟨text, _, hs⟩ := h { s with scopes := s.scopes.open_ }
  exact ⟨text, _, by rw [BindM.inScope, hs]⟩

theorem ofExcept {x : Except Diagnostic α} (h : ∃ text, x = .error ⟨condition, text⟩) :
    Refuses condition (BindM.ofExcept x) := by
  obtain ⟨text, rfl⟩ := h
  exact fun s => ⟨text, s, rfl⟩

end Refuses

section

variable {n : ObjectName} {database : String} {condition : Condition} {rec : Recur}

theorem checkDatabase_refuses (hdatabase : n.database = some database)
    (hcrossing : env.crossing? database = some condition) :
    ∃ text, checkDatabase env n.normalize.database = .error ⟨condition, text⟩ := by
  rw [ObjectName.normalize, hdatabase]
  exact (checkDatabase_crossing env database).2 condition hcrossing

theorem bindBaseTable_refuses {allowCte : Bool} {base : BaseTable}
    (hdatabase : base.name.database = some database)
    (hcrossing : env.crossing? database = some condition) :
    Refuses condition (bindBaseTable env allowCte base) :=
  (Refuses.ofExcept (checkDatabase_refuses hdatabase hcrossing)).bind _

/-- **What a statement is about is refused for any database but the session's own.** -/
theorem bindStatementWith_refuses (hdatabase : n.database = some database)
    (hcrossing : env.crossing? database = some condition) : (statement : Statement) →
    statement.target? = some n → Refuses condition (bindStatementWith env rec statement)
  | .insert insert, h => by
    cases h
    exact ((((bindBaseTable_refuses hdatabase hcrossing).bind _).bind _).bind _).inScope
  | .update update, h => by
    cases h
    exact ((((bindBaseTable_refuses hdatabase hcrossing).bind _).bind _).bind _).inScope
  | .delete delete, h => by
    cases h
    exact ((((bindBaseTable_refuses hdatabase hcrossing).bind _).bind _).bind _).inScope
  | .create _ (.table name columns keys), h => by
    cases h
    exact (((Refuses.ofExcept (checkDatabase_refuses hdatabase hcrossing)).bind _).bind _).inScope
  | .create _ (.view name query), h => by
    cases h
    exact (((Refuses.ofExcept (checkDatabase_refuses hdatabase hcrossing)).bind _).bind _).inScope
  | .create _ (.index name owner keys unique), h => by
    cases h
    exact ((((bindBaseTable_refuses hdatabase hcrossing).bind _).bind _).bind _).inScope
  | .create _ (.trigger t), h => by
    cases h
    exact ((((bindBaseTable_refuses hdatabase hcrossing).bind _).bind _).bind _).inScope
  | .drop ⟨kind, target, ifExists⟩, h => by
    cases kind with
    | table =>
      cases h
      refine ((Refuses.ofExcept ?_).bind _).inScope
      obtain ⟨text, htext⟩ := checkDatabase_refuses hdatabase hcrossing
      exact ⟨text, by simp [bindDrop, htext, Bind.bind, Except.bind]⟩
    | _ => cases h
  | .analyze analyze, h => by
    refine ((Refuses.ofExcept ?_).bind _).inScope
    obtain ⟨text, htext⟩ := checkDatabase_refuses hdatabase hcrossing
    rw [bindAnalyze, show analyze.table = some n from h]
    exact ⟨text, by simp [htext, Bind.bind, Except.bind]⟩
  | .explain inner, h => by
    rw [Statement.target?] at h
    by_cases hinner : inner.isExplainable = true
    · rw [if_pos hinner] at h
      rw [bindStatementWith, if_pos hinner]
      exact (bindStatementWith_refuses hdatabase hcrossing inner h).bind _
    · rw [if_neg hinner] at h
      cases h

end

theorem Arena.Reaches.opens {a : Arena} {root x : ExprId} (h : a.Reaches root x) :
    a.Opens root x ∧ (∀ q, a.expr x = .subquery q → q.depth = none) ∨
      ∃ y q, a.Reaches root y ∧ a.expr y = .subquery q ∧ q.depth.isSome = true ∧ a.Reaches y x := by
  have hsplit : ∀ {x}, a.Reaches root x → a.Opens root x →
      a.Opens root x ∧ (∀ q, a.expr x = .subquery q → q.depth = none) ∨
        ∃ y q, a.Reaches root y ∧ a.expr y = .subquery q ∧ q.depth.isSome = true ∧ a.Reaches y x := by
    intro x hreaches hopens
    by_cases hbound : ∃ q, a.expr x = .subquery q ∧ q.depth.isSome = true
    · obtain ⟨q, hq, hdepth⟩ := hbound
      exact .inr ⟨x, q, hreaches, hq, hdepth, .refl⟩
    · refine .inl ⟨hopens, fun q hq => ?_⟩
      cases hdepth : q.depth with
      | none => rfl
      | some => exact (hbound ⟨q, hq, by rw [hdepth]; rfl⟩).elim
  induction h with
  | refl => exact hsplit .refl .refl
  | @tail b c hb hc ih =>
    rcases ih with ⟨hopens, hfresh⟩ | ⟨y, q, hy, hq, hdepth, hyb⟩
    · refine hsplit (hb.tail hc) (hopens.tail ?_)
      cases he : a.expr b with
      | subquery q =>
        rw [Refers, he] at hc
        rw [(Expr.opened_of_depth (hfresh q he)).1]
        exact hc
      | _ =>
        rw [Refers, he] at hc
        exact hc
    · exact .inr ⟨y, q, hy, hq, hdepth, hyb.tail hc⟩

/-- **Database qualifiers.**  A statement that binds names only objects of the session's own database,
at every nesting level, exactly if its unchecked names do: those of foreign keys, of objects other than
tables that are dropped, and those in subqueries that were bound before.  What a statement is about and
the tables of its FROM clauses are refused for any other database, with one error for a database that
there is not and another one for a database that is not the session's own. -/
theorem bind_databases (env : Accessor) (p : Parsed) (parameters : List Value) :
    (∀ b, (bind env p parameters).result = .ok b →
      ((∀ n, p.Names n → env.Owns n) ↔ ∀ n, p.Unchecked n → env.Owns n)) ∧
    (∀ n database condition, p.statement.target? = some n → n.database = some database →
      env.crossing? database = some condition →
      ∃ text, (bind env p parameters).result = .error (.refused ⟨condition, text⟩)) ∧
    ∀ allowCte (base : BaseTable) database condition, base.name.database = some database →
      env.crossing? database = some condition →
      Refuses condition (bindBaseTable env allowCte base) := by
  refine ⟨fun b h => ⟨fun hall n hn => ?_, fun hall n hn => ?_⟩,
    fun n database condition htarget hdatabase hcrossing => ?_,
    fun _ _ _ _ => bindBaseTable_refuses⟩
  · refine hall n ?_
    rcases hn with hn | ⟨root, hroot, y, q, x, q', hy, _, _, hx, hq', hn⟩
    · exact .inl (Statement.uncheckedNames_subset _ hn)
    · exact .inr ⟨root, hroot, x, q', hy.trans hx, hq', hn⟩
  · obtain ⟨s, hrun, _⟩ := bind_run h
    obtain ⟨hhome, howns⟩ := (bindStatementWith_run hrun).atHome (recurTo_derived _)
    rcases hn with hn | ⟨root, hroot, x, q, hx, hq, hn⟩
    · exact (howns n hn).elim (fun hn => hall n (.inl hn)) fun hown => hown
    · rcases hx.opens with ⟨hopens, hfresh⟩ | ⟨y, q', hy, hq', hdepth, hyx⟩
      · refine hhome root hroot x hopens n ?_
        rw [show (BindState.initial env p parameters).exprs = p.exprs from rfl, hq,
          (Expr.opened_of_depth (hfresh q hq)).2]
        exact hn
      · exact hall n (.inr ⟨root, hroot, y, q', x, q, hy, hq', hdepth, hyx, hq, hn⟩)
  · have hrefuses : Refuses condition (bindStatementWith env (recurTo env (bindLevels env p)) p.statement) :=
      bindStatementWith_refuses hdatabase hcrossing p.statement htarget
    obtain ⟨text, _, hs⟩ := hrefuses (BindState.initial env p parameters)
    exact ⟨text, by rw [bind, hs]⟩

/-- `SELECT a FROM Prism.t WHERE EXISTS (SELECT b FROM PRISM.t AS u)` -/
def qualifiedNames : Parsed :=
  { statement := .select {
      items := [0]
      source := some (.table { name := { database := some "Prism", name := "t" }, knownAs := ⟨"t", none⟩ })
      filter := some 1 }
    exprs := .ofExprs [
      .column { column := "a" },
      .operate .exists [2],
      .subquery {
        items := [3]
        source := some (.table
          { name := { database := some "PRISM", name := "t" }, knownAs := ⟨"u", none⟩ }) },
      .column { column := "b" }] }

/-- `DROP TABLE elsewhere.t` -/
def tableElsewhere : Parsed :=
  { statement := .drop ⟨.table, { database := some "elsewhere", name := "t" }, false⟩
    exprs := ⟨#[]⟩ }

theorem Parsed.not_namesInBound {p : Parsed} (h : p.exprs.isFresh = true) (n : ObjectName) :
    ¬p.NamesInBound n := by
  rintro ⟨_, _, y, q, _, _, _, hq, hdepth, _⟩
  have hfresh := Arena.isFresh_expr h y
  rw [hq] at hfresh
  rw [(Select.isFresh_iff.mp hfresh).2.2.2] at hdepth
  cases hdepth

theorem qualifiedNames_databases :
    (∃ b, (bind twoColumns qualifiedNames []).result = .ok b) ∧
      qualifiedNames.Names { database := some "PRISM", name := "t" } ∧
      (∀ n, qualifiedNames.Names n → twoColumns.Owns n) ∧
      ∃ text, (bind twoColumns tableElsewhere []).result = .error (.refused ⟨.undefinedObject, text⟩) := by
  have hfacts : (bind twoColumns qualifiedNames []).result.isOk = true := by decide +kernel
  cases hb : (bind twoColumns qualifiedNames []).result with
  | error =>
    rw [hb] at hfacts
    cases hfacts
  | ok b =>
    refine ⟨⟨b, rfl⟩, .inr ⟨1, by decide, 2, _, 
      .single (show 2 ∈ (qualifiedNames.exprs.expr 1).parts by decide), rfl, by decide⟩, ?_, ?_⟩
    · refine ((bind_databases twoColumns qualifiedNames []).1 b hb).mpr fun n hn => ?_
      rcases hn with hn | hn
      · cases hn
      · exact (Parsed.not_namesInBound (by decide +kernel) n hn).elim
    · exact (bind_databases twoColumns tableElsewhere []).2.1 _ "elsewhere" _ rfl rfl (by decide +kernel)

/-- A view `v` beside the table `t(a INTEGER, b INTEGER)`. -/
def tableAndView : Accessor :=
  ⟨(twoColumns.catalog.createView { id := "2" } 1 { name := "v" }).2.1, 1, 2⟩

/-- `DROP VIEW elsewhere.v` -/
def viewElsewhere : Parsed :=
  { statement := .drop ⟨.view, { database := some "elsewhere", name := "v" }, false⟩
    exprs := ⟨#[]⟩ }

/-- `CREATE TABLE u (a INTEGER, FOREIGN KEY (a) REFERENCES elsewhere.t (a))` -/
def keyElsewhere : Parsed :=
  { statement := .create false (.table { name := "u" } [{ name := "a", type := .integer, nullable := true }]
      [{ columns := ["a"], table := { database := some "elsewhere", name := "t" }, references := ["a"] }])
    exprs := ⟨#[]⟩ }

/-- There is no database `elsewhere`, and still its view is dropped and its table referenced. -/
theorem elsewhere_binds :
    tableAndView.crossing? "elsewhere" = some .undefinedObject ∧
      ((bind tableAndView viewElsewhere []).result.isOk = true ∧
        viewElsewhere.Names { database := some "elsewhere", name := "v" }) ∧
      (bind tableAndView keyElsewhere []).result.isOk = true ∧
        keyElsewhere.Names { database := some "elsewhere", name := "t" } :=
  ⟨by decide +kernel, ⟨by decide +kernel, .inl (by decide)⟩, by decide +kernel, .inl (by decide)⟩

end SqlAnalysis
