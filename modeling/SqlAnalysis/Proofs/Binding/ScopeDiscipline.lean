import SqlAnalysis.Proofs.Binding.InsertRows
import SqlAnalysis.Proofs.Binding.Stars

/-!
# Scopes are restored

Scopes are opened, replaced by a sibling and closed again while a query is bound, and a refusal can
come at any time.  However a binding ends, the scopes are what they were; and at all times every scope
has the number of its place.

What holds in the middle of a run is said by a watch: a copy of the binding in which each nested call is
checked where it starts and where it ends, and raises an alarm if the check fails.  That the copy and the
binding are equal means that no check fails.  The checks are about the scopes of the call itself, so a
column that a nested call resolves is found in the scopes which are open then.

* **`Binds.visited`**: a column that is visited becomes the one that its name means in the open scopes.
* **`recurTo_agree_watchedTo`**: the binding is the same under the watch.
* **`binding_restores_scopes`**: the scopes are restored, and no check fails on the way.
-/

namespace SqlAnalysis

open BindM List Arena

variable {s s' : BindState} {rec : Recur} {q q' : Select} {Γ Γ' : ScopeStack} {id : ExprId} {env : Accessor}
  {levels : Nat}

/-! ### What each step does to the scopes -/

/-- The innermost scope may change, but not its depth. -/
inductive ScopeStack.SameBlock : ScopeStack → ScopeStack → Prop where
  | none : SameBlock [] []
  | some {scope scope' : Scope} {outer : ScopeStack} :
    scope'.depth = scope.depth → SameBlock (scope :: outer) (scope' :: outer)

namespace ScopeStack.SameBlock

variable {Γ'' : ScopeStack}

theorem refl (Γ : ScopeStack) : SameBlock Γ Γ := by
  cases Γ with
  | nil => exact .none
  | cons => exact .some rfl

theorem trans (h : SameBlock Γ Γ') (h' : SameBlock Γ' Γ'') : SameBlock Γ Γ'' := by
  cases h with
  | none => exact h'
  | some hdepth =>
    cases h' with
    | some hdepth' => exact .some (hdepth'.trans hdepth)

theorem leveled (h : SameBlock Γ Γ') (hΓ : Γ.Leveled) : Γ'.Leveled := by
  cases h with
  | none => exact hΓ
  | some hdepth => exact ⟨hdepth.trans hΓ.1, hΓ.2⟩

theorem tail_eq (h : SameBlock Γ Γ') : Γ'.tail = Γ.tail := by cases h <;> rfl

end ScopeStack.SameBlock

/-- Every scope has the number of its place.  Query blocks leave something behind in the innermost
scope; all else leaves the scopes as they were. -/
def scopeConduct : Conduct fun _ => True where
  Inv s := s.scopes.Leveled
  Whole s t := StoreStep (fun _ => True) s.exprs t.exprs ∧ t.scopes = s.scopes
  Part s t := StoreStep (fun _ => True) s.exprs t.exprs ∧ s.scopes.SameBlock t.scopes
  inv_encloses _ := ⟨fun _ _ _ _ => trivial, fun _ _ => trivial⟩
  inv_part hs h := h.2.leveled hs
  inv_open hs := ⟨rfl, hs⟩
  inv_sibling {s scope outer} hs hscopes := by
    rw [hscopes] at hs
    exact hs
  whole_refl := ⟨.refl, rfl⟩
  whole_trans h h' := ⟨h.1.trans h'.1, h'.2.trans h.2⟩
  part_trans h h' := ⟨h.1.trans h'.1, h.2.trans h'.2⟩
  part_of_whole h := ⟨h.1, h.2 ▸ .refl _⟩
  store h := h.1
  exprs _ h := ⟨h, rfl⟩
  expectations _ _ _ := ⟨.refl, rfl⟩
  temp _ := ⟨.refl, rfl⟩
  parameter _ _ _ _ _ _ := ⟨.of_update_kind fun _ => rfl, rfl⟩
  scope {s scope scope' outer} _ hscopes hdepth := ⟨.refl, by
    rw [hscopes]
    exact .some hdepth⟩
  close {s t} _ h := ⟨h.1, h.2.tail_eq⟩
  restore {s t scope outer} _ hscopes h := ⟨h.1, by
    rw [hscopes]
    exact congrArg (scope :: ·) h.2.tail_eq⟩

/-! ### The watch -/

/-- The column is one of a table in the scope, counted from the outermost one, that has the depth of the
column as its place. -/
def FoundIn (S : ScopeStack) (c : ResolvedColumn) : Prop :=
  ∃ scope, S.reverse[c.depth]? = some scope ∧ ∃ t ∈ scope.tables, c ∈ t.columns c.depth

/-- A visited node that is a column in the end was it before, or has become the column that its name means
in the scopes of the visit. -/
def Visited (id : ExprId) (s s' : BindState) : Prop :=
  ∀ ref, s'.exprs.expr id = .column ref → s.exprs.expr id = .column ref ∨
    ∃ written c, s.exprs.expr id = .column written ∧ resolveColumn s.scopes written = .ok c ∧
      FoundIn s.scopes c ∧ Carries s'.exprs id c

/-- All blocks of the query have the depth. -/
def Select.BlocksAt (depth : Nat) (q : Select) : Prop := ∀ r ∈ q.branches, r.depth = some depth

/-- A block fills the innermost scope. -/
def Filled (env : Accessor) (q : Select) (depth : Nat) (s : BindState) (q' : Select) (s' : BindState) :
    Prop :=
  ∀ before outer, s.scopes = before :: outer → ∃ levels after s1 s2 s3 s4 own F,
    Fills env (recurTo env levels) before after outer q depth s q' s' s1 s2 s3 s4 own F

open Classical in
/-- Runs a computation; raises an alarm if scopes are out of place where it starts or ends, or if its
result fails a check. -/
noncomputable def BindM.watched {α : Type} (alarm : Fault) (check : BindState → α → BindState → Prop)
    (act : BindM α) : BindM α := fun s =>
  if s.scopes.Leveled ∧ (endState (act s)).scopes.Leveled ∧ ∀ x t, act s = .ok x t → check s x t then
    act s
  else
    .error alarm s

/-- All that is nested is watched: visits resolve columns in the open scopes, the blocks of a query have
the number of the open scopes as their depth, and blocks fill their scopes. -/
noncomputable def Recur.watched (env : Accessor) (alarm : Fault) (rec : Recur) : Recur :=
  ⟨fun id => BindM.watched alarm (fun s _ t => Visited id s t) (rec.expr id),
    fun q => BindM.watched alarm (fun s q' _ => q'.BlocksAt s.scopes.length) (rec.query q),
    fun q depth => BindM.watched alarm (fun s q' t => Filled env q depth s q' t) (rec.branch q depth)⟩

/-- The binding of everything nested at most the given number of levels, under a watch at every
level. -/
noncomputable def watchedTo (env : Accessor) (alarm : Fault) : Nat → Recur
  | 0 => recurTo env 0
  | n + 1 =>
    let rec_ := (watchedTo env alarm n).watched env alarm
    ⟨bindExprWith env rec_, bindQueryWith rec_, bindBranchWith env rec_⟩

/-! ### Depths of blocks -/

def Recur.Numbers (rec : Recur) : Prop :=
  ∀ {q q' : Select} {depth : Nat} {s s' : BindState}, rec.branch q depth s = .ok q' s' →
    q'.BlocksAt depth

theorem bindBranchWith_numbers (hrec : rec.Numbers) {depth : Nat}
    (h : bindBranchWith env rec q depth s = .ok q' s') : q'.BlocksAt depth := by
  simp only [bindBranchWith, run_bind, run_pure] at h
  obtain ⟨_, _, _, _, _, _, _, _, _, _, _, _, _, _, _, _, _, _, _, _, hunion, _, _, _, rfl, rfl⟩ := h
  rw [Select.BlocksAt, Select.branches, forall_mem_cons, Select.further_eq]
  refine ⟨rfl, ?_⟩
  cases hu : q.union with
  | none =>
    rw [hu] at hunion
    obtain ⟨rfl, rfl⟩ := run_pure.mp hunion
    exact forall_mem_nil _
  | some =>
    rw [hu] at hunion
    simp only [bindOptional, bindUnion, run_bind, run_pure, run_inSibling] at hunion
    obtain ⟨_, _, ⟨_, _, ⟨_, _, _, _, hright, _⟩, _, _, _, _, _, _, rfl, _⟩, rfl, _⟩ := hunion
    exact hrec hright

theorem recurTo_numbers (levels : Nat) : (recurTo env levels).Numbers := by
  induction levels with
  | zero => exact fun h => (run_throw.mp h).elim
  | succ n ih => exact fun h => bindBranchWith_numbers ih h

theorem bindQuery_depth (h : bindQuery env levels q s = .ok q' s') :
    q'.BlocksAt s.scopes.length := by
  cases levels with
  | zero => cases h
  | succ n =>
    simp only [bindQuery, bindQueryWith, run_bind, run_get, run_inScope] at h
    obtain ⟨_, _, ⟨rfl, rfl⟩, _, hbranch, _⟩ := h
    exact recurTo_numbers n hbranch

/-! ### Columns and blocks -/

theorem foundIn_of_resolves {c : ResolvedColumn} (h : Resolves Γ.tables c) : FoundIn Γ c := by
  induction Γ with
  | nil =>
    obtain ⟨_, outer, hsuffix, _⟩ := h
    cases suffix_nil.mp hsuffix
  | cons scope outer ih =>
    rw [ScopeStack.tables, map_cons, resolves_cons, length_map] at h
    rcases h with ⟨t, ht, hc⟩ | h
    · have hlast := ScopeTable.depth_of_mem_columns hc
      refine ⟨scope, ?_, t, ht, hlast ▸ hc⟩
      rw [hlast, reverse_cons, getElem?_append_right (by rw [length_reverse]), length_reverse,
        Nat.sub_self]
      rfl
    · obtain ⟨scope', hscope, hfound⟩ := ih h
      refine ⟨scope', ?_, hfound⟩
      rw [reverse_cons, getElem?_append_left (List.getElem?_eq_some_iff.mp hscope).1]
      exact hscope

theorem Binds.visited {v v' : BindView} (h : Binds env (.expr id) v v') (hv : v.scopes.Leveled)
    {ref : ColumnRef} (href : v'.exprs.expr id = .column ref) :
    v.exprs.expr id = .column ref ∨ ∃ written c, v.exprs.expr id = .column written ∧
      resolveColumn v.scopes written = .ok c ∧ FoundIn v.scopes c ∧ Carries v'.exprs id c := by
  -- Nothing else becomes a column.
  have hsome (hlt : id < v.exprs.size) : (v.exprs.expr id).column?.isSome = true := by
    rw [← (h.progress.kind id hlt).isSome_column?, href]
    rfl
  cases h with
  | columnDone => exact Or.inl href
  | columnFresh hlt he _ hc =>
    refine Or.inr ⟨_, _, he, hc, foundIn_of_resolves (resolves_of_resolveColumn hv hc), ?_⟩
    rw [Carries, Arena.expr, Arena.typeOf, node_update_self _ hlt]
    exact ⟨rfl, rfl, rfl⟩
  | subqueryDone hlt he | subqueryFresh hlt he =>
    have hsome := hsome hlt
    rw [he] at hsome
    cases hsome
  | node hlt hcolumn =>
    have hsome := hsome hlt
    rw [hcolumn] at hsome
    cases hsome

theorem bindExpr_visited {u : Unit} (hs : s.scopes.Leveled) (h : bindExpr env levels id s = .ok u s') :
    Visited id s s' := fun _ => ((recurTo_derived levels).expr h).visited hs

/-- What the watch checks of nested calls. -/
structure Recur.Sound (env : Accessor) (rec : Recur) : Prop where
  expr : ∀ {id s u t}, s.scopes.Leveled → rec.expr id s = .ok u t → Visited id s t
  query : ∀ {q s q' t}, rec.query q s = .ok q' t → q'.BlocksAt s.scopes.length
  branch : ∀ {q depth s q' t}, rec.branch q depth s = .ok q' t → Filled env q depth s q' t

theorem recurTo_sound (levels : Nat) : (recurTo env levels).Sound env where
  expr hs h := bindExpr_visited hs h
  query h := bindQuery_depth h
  branch {q depth s q' t} h before outer hs := by
    cases levels with
    | zero => cases h
    | succ n => exact ⟨n, bindBranchWith_fills (recurTo_derived n) h hs⟩

section

variable {alarm : Fault}

theorem scopeConduct.agree_watched {α : Type} {x y : BindM α} (check : BindState → α → BindState → Prop)
    (h : scopeConduct.part.Agree x y) (hs : s.scopes.Leveled)
    (hcheck : ∀ r t, x s = .ok r t → check s r t) : x s = BindM.watched alarm check y s := by
  unfold BindM.watched
  rw [← (h hs).1, if_pos ⟨hs, (Conduct.endState_part (h hs)).2.leveled hs, hcheck⟩]

theorem Recur.Agree.watched (alarm : Fault) {rec' : Recur} (h : rec.Agree scopeConduct.clauses rec')
    (hrec : rec.Sound env) : rec.Agree scopeConduct.clauses (rec'.watched env alarm) := by
  refine .of_conduct (fun {id} hid s hs => ?_) (fun hq s hs => ?_) fun {q depth} hq s hs => ?_
  · exact ⟨scopeConduct.agree_watched (fun s _ t => Visited id s t)
      (Conduct.agree_part (Clauses.agree_part (h.expr hid))) hs fun _ _ => hrec.expr hs, (h.visit hid hs).2⟩
  · exact ⟨scopeConduct.agree_watched (fun s (q' : Select) _ => q'.BlocksAt s.scopes.length)
      (Conduct.agree_part (Clauses.agree_part (h.query trivial hq))) hs fun _ _ => hrec.query,
      (h.select hq hs).2⟩
  · have hpart : scopeConduct.part.Agree (rec.branch q depth) (rec'.branch q depth) :=
      Conduct.agree_part (h.branch trivial hq)
    exact ⟨scopeConduct.agree_watched (fun s q' t => Filled env q depth s q' t) hpart hs fun _ _ =>
      hrec.branch, (hpart hs).2⟩

/-- **The binding is the same under the watch.** -/
theorem recurTo_agree_watchedTo (alarm : Fault) (levels : Nat) :
    (recurTo env levels).Agree scopeConduct.clauses (watchedTo env alarm levels) := by
  induction levels with
  | zero => exact recurTo_conducts 0
  | succ n ih => exact (ih.watched alarm (recurTo_sound n)).next (recurTo_derived n)

end

/-! ### Whole bindings -/

theorem agree_bindStatementWith_watched (alarm : Fault) (levels : Nat) (p : Parsed) :
    scopeConduct.whole.Agree (bindStatementWith env (recurTo env levels) p.statement)
      (bindStatementWith env ((watchedTo env alarm levels).watched env alarm) p.statement) :=
  Conduct.agree_statement ((recurTo_agree_watchedTo alarm levels).watched alarm (recurTo_sound levels))
    (recurTo_derived levels) (fun _ _ => trivial)

/-- **Scopes are restored.**  Begun with scopes that have the numbers of their places, the binding of
an expression or a query ends with the same scopes, whether it succeeds or fails, and the watch never
raises its alarm.  So no part of it starts or ends with scopes out of place.  When a query is bound, its
block and all its UNION branches have the number of the open scopes as their depth; every column that is
resolved meanwhile has as its depth the place of the scope it is found in: a column with a written name
of the scope that the lookup ends in, and a column of a star of the innermost scope.  The binding of a
statement ends without scopes. -/
theorem binding_restores_scopes (env : Accessor) (levels : Nat) {s : BindState}
    (hs : s.scopes.Leveled) :
    (∀ id, (endState (bindExpr env levels id s)).scopes = s.scopes ∧
      (∀ alarm, (watchedTo env alarm levels).expr id s = bindExpr env levels id s) ∧
      ∀ s', bindExpr env levels id s = .ok () s' → Visited id s s') ∧
    (∀ q, (endState (bindQuery env levels q s)).scopes = s.scopes ∧
      (∀ alarm, (watchedTo env alarm levels).query q s = bindQuery env levels q s) ∧
      ∀ q' s', bindQuery env levels q s = .ok q' s' → q'.BlocksAt s.scopes.length) ∧
    ∀ p parameters,
      (endState (bindStatementWith env (recurTo env levels) p.statement
        (.initial env p parameters))).scopes = [] ∧
      ∀ alarm, bindStatementWith env ((watchedTo env alarm levels).watched env alarm) p.statement
          (.initial env p parameters) =
        bindStatementWith env (recurTo env levels) p.statement (.initial env p parameters) := by
  have hnested (alarm : Fault) : (recurTo env levels).Agree scopeConduct.clauses (watchedTo env alarm levels) :=
    recurTo_agree_watchedTo alarm levels
  refine ⟨fun id => ?_, fun q => ?_, fun p parameters => ?_⟩
  · have hexpr (alarm : Fault) := @(hnested alarm).visit _ _ _ _ id trivial s hs
    exact ⟨(Conduct.endState_whole (hexpr default)).2, fun alarm => (hexpr alarm).1.symm,
      fun s' => bindExpr_visited hs⟩
  · have hquery (alarm : Fault) := @(hnested alarm).select _ _ _ _ q (fun _ _ => trivial) s hs
    exact ⟨(Conduct.endState_whole (hquery default)).2, fun alarm => (hquery alarm).1.symm,
      fun q' s' => bindQuery_depth⟩
  · have hstatement (alarm : Fault) :=
      @agree_bindStatementWith_watched env alarm levels p (.initial env p parameters) trivial
    exact ⟨(Conduct.endState_whole (hstatement default)).2, fun alarm => (hstatement alarm).1.symm⟩

/-- One open scope with a table `t(a)`, inside of which `SELECT a UNION SELECT a` is bound. -/
def correlatedState : BindState :=
  { exprs := .ofExprs [.column { column := "a" }, .column { column := "a" }]
    expectations := {}
    scopes := [{
      depth := 0
      tables := [⟨⟨"t", some 1⟩, .derived [⟨⟨"a", some 2⟩, .integer⟩]⟩] }]
    parameters := []
    nextTemp := 1 }

/-- `SELECT a UNION SELECT a` -/
def correlatedUnion : Select := { items := [0], union := some { items := [1] } }

def correlatedDepths : Option (List (Option Nat) × List (Option Nat)) :=
  match bindQuery .initial 4 correlatedUnion correlatedState with
  | .ok q s => some (q.branches.map (·.depth), [(s.exprs.node 0).depth, (s.exprs.node 1).depth])
  | .error _ _ => none

/-- Both branches are one level further down than the table that their columns belong to. -/
theorem correlatedUnion_restores_scopes :
    correlatedState.scopes.Leveled ∧
      ∃ q s, bindQuery .initial 4 correlatedUnion correlatedState = .ok q s ∧
        s.scopes = correlatedState.scopes ∧ (∀ r ∈ q.branches, r.depth = some 1) ∧
        (s.exprs.node 0).depth = some 0 ∧ (s.exprs.node 1).depth = some 0 := by
  have hlevel : correlatedState.scopes.Leveled := ⟨rfl, trivial⟩
  have hdepths : correlatedDepths = some ([some 1, some 1], [some 0, some 0]) := by decide +kernel
  obtain ⟨_, hquery, _⟩ := binding_restores_scopes .initial 4 hlevel
  obtain ⟨hscopes, _, hbound⟩ := hquery correlatedUnion
  unfold correlatedDepths at hdepths
  cases hrun : bindQuery .initial 4 correlatedUnion correlatedState with
  | error =>
    rw [hrun] at hdepths
    cases hdepths
  | ok q s =>
    rw [hrun] at hdepths hscopes
    simp only [Option.some.injEq, Prod.mk.injEq, cons.injEq] at hdepths
    exact ⟨hlevel, q, s, rfl, hscopes, hbound q s hrun, hdepths.2.1, hdepths.2.2.1⟩

end SqlAnalysis
