import SqlAnalysis.Proofs.Binding.StatementDerivation

/-!
# Parts of statements

What a run that binds a statement of any kind has done, as far as the store and the counters go.

* **`bindCreation_parts`**: the parts that what a CREATE statement creates is bound from.
* **`bind_parts`**: every binding that ends well is described by the parts of its statement.
-/

namespace SqlAnalysis

open BindM Text List

variable {u : Unit} {columns : List ColumnDef} {v v' : BindView} {q q' : Select}
  {keys : List ForeignKey} {c : Creation} {statement : Statement}

variable {env : Accessor} {rec : Recur} {s s' : BindState}

/-! ### Steps between the parts -/

/-- Scopes change, and serials may be taken for what they show. -/
structure BindView.Rests (v v' : BindView) : Prop where
  exprs : v'.exprs = v.exprs
  nextSerial : v.nextSerial ≤ v'.nextSerial
  nextTemp : v'.nextTemp = v.nextTemp

namespace BindView.Rests

variable {v'' : BindView}

theorem refl (v : BindView) : v.Rests v := ⟨rfl, le_rfl, rfl⟩

theorem trans (h : v.Rests v') (h' : v'.Rests v'') : v.Rests v'' :=
  ⟨h'.exprs.trans h.exprs, h.nextSerial.trans h'.nextSerial, h'.nextTemp.trans h.nextTemp⟩

theorem of_scopes (v : BindView) (scopes : ScopeStack) : v.Rests { v with scopes := scopes } :=
  ⟨rfl, le_rfl, rfl⟩

theorem of_serial (v : BindView) : v.Rests { v with nextSerial := v.nextSerial + 1 } :=
  ⟨rfl, Nat.le_succ _, rfl⟩

theorem of_aliases {given known : Alias} (h : Aliases given v known v') : v.Rests v' :=
  ⟨h.exprs_eq, h.countersLe.1, by cases h; rfl⟩

theorem of_rescopes {f : Scope → Except Diagnostic Scope} (h : Rescopes f v v') : v.Rests v' :=
  ⟨h.exprs_eq, h.nextSerial_eq.symm.le, by cases h; rfl⟩

end BindView.Rests

theorem bindBaseTable_rests {allowCte : Bool} {base base' : BaseTable}
    (h : bindBaseTable env allowCte base s = .ok base' s') :
    s.view.Rests s'.view ∧ base'.name = base.name.normalize ∧
      checkDatabase env base.name.normalize.database = .ok () := by
  simp only [bindBaseTable, run_bind, run_ofExcept, run_get] at h
  obtain ⟨_, _, ⟨hdatabase, rfl⟩, _, s1, halias, _, _, ⟨rfl, rfl⟩, h⟩ := h
  have halias := BindView.Rests.of_aliases (registerAlias_run halias)
  generalize (if (allowCte && base.name.normalize.schema.isNone) = true then
    s1.scopes.cte? base.name.normalize.name else none) = entry at h
  cases entry with
  | some =>
    simp only [run_bind, run_pure] at h
    obtain ⟨_, _, hadd, rfl, rfl⟩ := h
    exact ⟨halias.trans (.of_rescopes (rescopes_of_run hadd)), rfl, hdatabase⟩
  | none =>
    simp only [run_bind, run_ofExcept, addRegularTable, run_pure] at h
    obtain ⟨_, _, ⟨_, rfl⟩, _, _, hadd, rfl, rfl⟩ := h
    exact ⟨halias.trans (.of_rescopes (rescopes_of_run hadd)), rfl, hdatabase⟩

theorem bindOwner_rests {owner owner' : ObjectName} (h : bindOwner env owner s = .ok owner' s') :
    s.view.Rests s'.view ∧ checkDatabase env owner.normalize.database = .ok () := by
  simp only [bindOwner, run_bind, run_pure] at h
  obtain ⟨_, _, hbase, _, rfl⟩ := h
  obtain ⟨hrests, _, hdatabase⟩ := bindBaseTable_rests hbase
  exact ⟨hrests, hdatabase⟩

theorem addRow_rests {table : Oid × Schema} {name : String} (h : addRow env table name s = .ok u s') :
    s.view.Rests s'.view := by
  simp only [addRow, addRegularTable, run_bind] at h
  obtain ⟨_, _, halias, hadd⟩ := h
  exact (BindView.Rests.of_aliases (registerAlias_run halias)).trans (.of_rescopes (rescopes_of_run hadd))

theorem newColumns_rests {visible : List DerivedColumn} (h : (columns.mapM fun column => do
      let knownAs : Alias := { name := column.name, serial := some (← takeSerial) }
      pure ({ knownAs := knownAs, type := column.type } : DerivedColumn) : BindM _) s =
        .ok visible s') : s.view.Rests s'.view := by
  replace h := run_mapM h
  induction h with
  | nil => exact .refl _
  | cons hfirst _ ih =>
    simp only [run_bind, run_takeSerial, run_pure] at hfirst
    obtain ⟨_, _, ⟨rfl, rfl⟩, rfl, rfl⟩ := hfirst
    exact (BindView.Rests.of_serial _).trans ih

/-! ### One part after the other -/

/-- Parts of a statement are bound one after the other, whatever scopes they see; defaults of columns
may be copied in between. -/
inductive BindsParts (env : Accessor) : List BindTask → BindView → BindView → Prop where
  | nil {v : BindView} : BindsParts env [] v v
  | part {task : BindTask} {tasks : List BindTask} {v v1 v' : BindView} :
    Binds env task v v1 → (∀ a, task.Ready a) → task.Plain → BindsParts env tasks v1 v' →
    BindsParts env (task :: tasks) v v'
  | copy {column : Column} {tasks : List BindTask} {a : Arena} {v v' : BindView} :
    env.HasColumn column → CopiesDefault column v.exprs a →
    BindsParts env tasks { v with exprs := a } v' → BindsParts env tasks v v'
  | rest {tasks : List BindTask} {v v1 v' : BindView} :
    v.Rests v1 → BindsParts env tasks v1 v' → BindsParts env tasks v v'

theorem BindsSeq.parts {tasks : List BindTask} (h : BindsSeq env tasks v v') :
    BindsParts env tasks v v' := by
  induction h with
  | nil => exact .nil
  | part hbinds hready hplain _ ih => exact .part hbinds hready hplain ih
  | copy hcolumn hcopy _ ih => exact .copy hcolumn hcopy ih
  | opened _ ih | closed _ ih => exact .rest (.of_scopes _ _) ih

namespace BindsParts

variable {tasks tasks' : List BindTask} {v1 : BindView}

theorem append (h : BindsParts env tasks v v1) (h' : BindsParts env tasks' v1 v') :
    BindsParts env (tasks ++ tasks') v v' := by
  induction h with
  | nil => exact h'
  | part hbinds hready hplain _ ih => exact .part hbinds hready hplain (ih h')
  | copy hcolumn hcopy _ ih => exact .copy hcolumn hcopy (ih h')
  | rest hrests _ ih => exact .rest hrests (ih h')

theorem of_rests (h : v.Rests v') : BindsParts env [] v v' := .rest h .nil

theorem of_roots {ids : List ExprId} (h : Binds env (.roots ids) v v') : BindsParts env [.roots ids] v v' :=
  .part h (fun _ => trivial) trivial .nil

theorem of_query (h : Binds env (.query q q') v v') : BindsParts env [.query q q'] v v' :=
  .part h (fun _ => trivial) trivial .nil

end BindsParts

/-! ### CREATE -/

theorem bindBoolean_root (hrec : rec.Derived env) {clause : String} {id : ExprId}
    (h : bindBoolean rec clause id s = .ok u s') : RootStep env id s.view s'.view := by
  simp only [bindBoolean, run_bind] at h
  obtain ⟨_, _, hexpect, _, _, hexpr, _, _, hboolean, hfinish⟩ := h
  have hexpr := hrec.expr hexpr
  rw [view_of_expectBooleanLiteral hexpect] at hexpr
  rw [state_of_requireBoolean hboolean] at hfinish
  exact ⟨_, hexpr, view_finishExpr hfinish⟩

def ColumnDef.tasks (column : ColumnDef) : List BindTask :=
  [.roots column.default.toList, .roots column.check.toList]

theorem bindColumnDef_parts (hrec : rec.Derived env) {column : ColumnDef}
    (h : bindColumnDef rec column s = .ok u s') : BindsParts env column.tasks s.view s'.view := by
  simp only [bindColumnDef, run_bind] at h
  obtain ⟨_, s1, hdefault, hcheck⟩ := h
  have hdefault : Binds env (.roots column.default.toList) s.view s1.view := by
    refine binds_roots (fun id _ s s' u h => ?_) hdefault
    simp only [run_bind, run_expect] at h
    obtain ⟨_, _, rfl, hitem⟩ := h
    have hroot := bindItem_root hrec hitem
    exact hroot
  have hcheck := binds_roots (fun _ _ _ _ _ => bindBoolean_root hrec) hcheck
  exact (BindsParts.of_roots hdefault).append (.of_roots hcheck)

theorem bindColumnDefs_parts (hrec : rec.Derived env)
    (h : columns.forM (bindColumnDef rec) s = .ok u s') :
    BindsParts env (columns.flatMap (·.tasks)) s.view s'.view := by
  induction columns generalizing s with
  | nil =>
    obtain ⟨_, rfl⟩ := run_forM_nil.mp h
    exact .nil
  | cons _ _ ih =>
    obtain ⟨_, hfirst, hrest⟩ := run_forM_cons.mp h
    exact (bindColumnDef_parts hrec hfirst).append (ih hrest)

def IndexKey.tasks (key : IndexKey) : List BindTask := [.roots key.exprs]

theorem bindIndexKeys_parts (hrec : rec.Derived env) {schema : Schema} {keys keys' : List IndexKey}
    (h : keys.mapM (bindIndexKey rec schema) s = .ok keys' s') :
    BindsParts env (keys.flatMap (·.tasks)) s.view s'.view := by
  replace h := run_mapM h
  induction h with
  | nil => exact .nil
  | @cons key _ _ _ s s1 _ hfirst _ ih =>
    have hkey : Binds env (.roots key.exprs) s.view s1.view := by
      cases key with
      | column =>
        simp only [bindIndexKey, run_ite, run_pure, run_throw, and_false, or_false] at hfirst
        obtain ⟨_, _, rfl⟩ := hfirst
        exact .rootsNil
      | expression =>
        simp only [bindIndexKey, run_bind, run_pure] at hfirst
        obtain ⟨_, _, hitem, _, rfl⟩ := hfirst
        exact (bindItem_root hrec hitem).roots
    exact (BindsParts.of_roots hkey).append ih

/-- The table references and WITH entries in what a CREATE statement creates, subqueries apart. -/
def Creation.named : Creation → List NamedPart
  | .view _ q => q.named
  | .database _ | .schema _ | .table .. | .index .. | .trigger _ => []

/-- The items of the select lists in what a CREATE statement creates, subqueries apart. -/
def Creation.outputs : Creation → List ExprId
  | .view _ q => q.outputs
  | .database _ | .schema _ | .table .. | .index .. | .trigger _ => []

/-- The parts that something is bound from: they start from its expressions and select lists and yield
its table references and WITH entries. -/
structure BindsAs (env : Accessor) (exprs outputs : List ExprId) (given made : List NamedPart)
    (tasks : List BindTask) (v v' : BindView) : Prop where
  binds : BindsParts env tasks v v'
  outputs : tasks.flatMap BindTask.outputs = outputs
  mentioned : tasks.flatMap BindTask.mentioned = exprs
  given : tasks.flatMap BindTask.given = given
  made : tasks.flatMap BindTask.made = made

theorem BindsAs.none (h : v.Rests v') : BindsAs env [] [] [] [] [] v v' :=
  ⟨.of_rests h, rfl, rfl, rfl, rfl⟩

theorem BindsAs.of_roots {α : Type} {f : α → List BindTask} {g : α → List ExprId} {xs : List α}
    (h : BindsParts env (xs.flatMap f) v v')
    (hf : ∀ x, (f x).flatMap BindTask.mentioned = g x ∧ (f x).flatMap BindTask.given = [] ∧
      (f x).flatMap BindTask.made = [] ∧ (f x).flatMap BindTask.outputs = []) :
    BindsAs env (xs.flatMap g) [] [] [] (xs.flatMap f) v v' where
  binds := h
  outputs := by
    rw [flatMap_assoc]
    exact flatMap_eq_nil_iff.mpr fun x _ => (hf x).2.2.2
  mentioned := by
    rw [flatMap_assoc]
    exact flatMap_congr fun x _ => (hf x).1
  given := by
    rw [flatMap_assoc]
    exact flatMap_eq_nil_iff.mpr fun x _ => (hf x).2.1
  made := by
    rw [flatMap_assoc]
    exact flatMap_eq_nil_iff.mpr fun x _ => (hf x).2.2.1

theorem BindsAs.after {exprs outputs : List ExprId} {given made : List NamedPart}
    {tasks : List BindTask} {v1 : BindView} (hrests : v.Rests v1)
    (h : BindsAs env exprs outputs given made tasks v1 v') :
    BindsAs env exprs outputs given made tasks v v' :=
  ⟨.rest hrests h.binds, h.outputs, h.mentioned, h.given, h.made⟩

theorem BindsAs.of_query (h : Binds env (.query q q') v v') :
    BindsAs env q.exprs q.outputs q.named q'.named [.query q q'] v v' :=
  ⟨.of_query h, append_nil _, append_nil _, append_nil _, append_nil _⟩

theorem state_of_checkForeignKeys {keys' : List ForeignKey}
    (h : keys.mapM (fun key => ofExcept (checkForeignKey env columns key)) s = .ok keys' s') :
    s' = s := by
  replace h := run_mapM h
  induction h with
  | nil => rfl
  | cons hfirst _ ih => rw [ih, (run_ofExcept.mp hfirst).2]

theorem bindNewTable_parts (hrec : rec.Derived env) {name : ObjectName}
    (h : bindNewTable env rec name columns keys s = .ok c s') :
    checkDatabase env name.normalize.database = .ok () ∧ c.named = [] ∧
      ∃ tasks, BindsAs env (columns.flatMap (·.exprs)) [] [] [] tasks s.view s'.view := by
  simp only [bindNewTable, run_bind, run_ofExcept, run_pure] at h
  obtain ⟨_, _, ⟨hdatabase, rfl⟩, _, _, ⟨_, rfl⟩, columns', _, ⟨hcolumns, rfl⟩, _, _, halias,
    _, _, hvisible, _, s3, hadd, _, _, hdefs, _, s5, hkeys, rfl, rfl⟩ := h
  obtain rfl := state_of_checkForeignKeys hkeys
  have hbinds : BindsAs env (columns'.flatMap (·.exprs)) [] [] [] _ s3.view s5.view :=
    .of_roots (bindColumnDefs_parts hrec hdefs) fun column => by
      refine ⟨?_, rfl, rfl, rfl⟩
      simp [ColumnDef.tasks, ColumnDef.exprs, BindTask.mentioned]
  rw [checkNewColumns_exprs hcolumns] at hbinds
  exact ⟨hdatabase, rfl, _, .after (.of_aliases (registerAlias_run halias)) (.after
    (newColumns_rests hvisible) (.after (.of_rescopes (rescopes_of_run hadd)) hbinds))⟩

theorem bindCreation_parts (hrec : rec.Derived env) {c' : Creation}
    (h : bindCreation env rec c s = .ok c' s') :
    ∃ tasks, BindsAs env c.exprs c.outputs c.named c'.named tasks s.view s'.view := by
  cases c with
  | database name | schema name =>
    simp only [bindCreation, run_ite, run_throw, run_pure, and_false, false_or] at h
    obtain ⟨_, rfl, rfl⟩ := h
    exact ⟨_, .none (.refl _)⟩
  | table =>
    obtain ⟨_, hnamed, hparts⟩ := bindNewTable_parts hrec h
    rw [hnamed]
    exact hparts
  | index =>
    simp only [bindCreation, bindNewIndex, run_bind] at h
    obtain ⟨owner', s1, howner, h⟩ := h
    simp only [run_ite, run_throw, and_false, false_or, run_bind, run_ofExcept, run_pure] at h
    obtain ⟨_, _, _, ⟨_, rfl⟩, _, s2, hkeys, rfl, rfl⟩ := h
    refine ⟨_, .after (bindOwner_rests howner).1 (.of_roots (bindIndexKeys_parts hrec hkeys) fun key => ?_)⟩
    exact ⟨append_nil _, rfl, rfl, rfl⟩
  | trigger t =>
    simp only [bindCreation, bindNewTrigger, run_bind] at h
    obtain ⟨_, s1, howner, h⟩ := h
    simp only [run_ite, run_refuse, and_false, false_or, run_bind, run_ofExcept, run_pure] at h
    obtain ⟨_, _, _, ⟨_, rfl⟩, _, _, hold, _, _, hnew, _, _, hcondition, rfl, rfl⟩ := h
    have hroots := binds_roots (fun _ _ _ _ _ => bindBoolean_root hrec) hcondition
    refine ⟨[.roots t.condition.toList], .after (bindOwner_rests howner).1 (.after (addRow_rests hold)
      (.after (addRow_rests hnew) ⟨.of_roots hroots, rfl, append_nil _, rfl, rfl⟩))⟩
  | view =>
    simp only [bindCreation, run_bind, run_ofExcept, run_pure] at h
    obtain ⟨_, _, ⟨_, rfl⟩, _, _, ⟨_, rfl⟩, _, _, hquery, rfl, rfl⟩ := h
    exact ⟨_, .of_query (hrec.query hquery)⟩

/-! ### Statements -/

/-- The table references and WITH entries of a statement of any kind, those in subqueries apart. -/
def Statement.parts : Statement → List NamedPart
  | .create _ c => c.named
  | .explain inner => inner.parts
  | statement => statement.named

theorem Statement.parts_of_isData (h : statement.isData = true) :
    statement.parts = statement.named := by
  induction statement with
  | explain _ ih => exact ih h
  | create | drop | analyze => cases h
  | _ => rfl

theorem StatementRun.isData {st st' : Statement} (h : StatementRun env rec s st st' s') :
    st'.isData = st.isData := by
  induction h with
  | explain _ ih => exact ih
  | _ => rfl

/-- The parts that a statement of any kind is bound from. -/
structure BindsWhole (env : Accessor) (statement statement' : Statement) (tasks : List BindTask)
    (v v' : BindView) : Prop where
  binds : BindsParts env tasks v v'
  outputs : tasks.flatMap BindTask.outputs = statement.outputs
  given : tasks.flatMap BindTask.given = statement.parts
  made : tasks.flatMap BindTask.made = statement'.parts

/-- **What a run that binds a statement of any kind has done.** -/
theorem StatementRun.parts {st st' : Statement} (h : StatementRun env rec s st st' s')
    (hrec : rec.Derived env) (hs : s.scopes = []) :
    ∃ tasks, BindsWhole env st st' tasks s.view s'.view := by
  by_cases hdata : st.isData = true
  · obtain ⟨tasks, hbinds⟩ := h.binds hrec hdata hs
    exact ⟨tasks, hbinds.binds.parts, hbinds.outputs,
      hbinds.given.trans (Statement.parts_of_isData hdata).symm,
      hbinds.made.trans (Statement.parts_of_isData (h.isData.trans hdata)).symm⟩
  induction h with
  | @create _ c _ s1 hcreation =>
    obtain ⟨tasks, hbinds⟩ := bindCreation_parts hrec hcreation
    have hclosed := hbinds.binds.append (.of_rests (.of_scopes s1.view s1.scopes.tail))
    rw [append_nil] at hclosed
    refine ⟨tasks, .rest (.of_scopes s.view _) hclosed, hbinds.outputs.trans ?_, hbinds.given,
      hbinds.made⟩
    cases c <;> rfl
  | drop | analyze => exact ⟨[], .nil, rfl, rfl, rfl⟩
  | explain _ ih =>
    obtain ⟨tasks, hbinds⟩ := ih hdata
    exact ⟨tasks, hbinds.binds, hbinds.outputs, hbinds.given, hbinds.made⟩
  | _ => exact (hdata rfl).elim

theorem bind_parts {p : Parsed} {parameters : List Value} {b : Bound}
    (h : (bind env p parameters).result = .ok b) :
    ∃ tasks v, BindsWhole env p.statement b.statement tasks
      (BindState.initial env p parameters).view v ∧ b.exprs = v.exprs ∧
      (bind env p parameters).nextTemp = v.nextTemp := by
  obtain ⟨s, hrun, hexprs, _⟩ := bind_run h
  obtain ⟨tasks, hbinds⟩ := (bindStatementWith_run hrun).parts (recurTo_derived _) rfl
  refine ⟨tasks, s.view, hbinds, hexprs, ?_⟩
  rw [bind, hrun]
  rfl

end SqlAnalysis
