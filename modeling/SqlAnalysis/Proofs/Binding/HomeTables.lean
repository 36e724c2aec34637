import SqlAnalysis.Proofs.Binding.Serials

/-!
# Tables of the session's own database

Only the session's own database can be used.  A table that a binding makes visible is checked for
that, wherever it is: in the query that is bound, in the queries nested in it, and in the subqueries
that its expressions lead to.

* **`Binds.clears`**: whatever is bound is at home.
-/

namespace SqlAnalysis

open Text BindM List Arena Select

variable {e : Expr} {id x : ExprId} {a a' : Arena} {items : List ExprId}

variable {env : Accessor}

/-! ### Qualifiers -/

/-- How a database qualifier is refused: differently for a database that there is not and for one that
is not the session's own. -/
def Accessor.crossing? (env : Accessor) (database : String) : Option Condition :=
  match env.databaseIdOf? (lowercase database) with
  | none => some .undefinedObject
  | some id => if id = env.databaseId then none else some .featureNotSupported

/-- A qualifier of the name, if there is one, is the session's own database. -/
def Accessor.Owns (env : Accessor) (n : ObjectName) : Prop :=
  ∀ database, n.database = some database → env.crossing? database = none

theorem checkDatabase_crossing (env : Accessor) (database : String) :
    (env.crossing? database = none → checkDatabase env (some (lowercase database)) = .ok ()) ∧
      ∀ condition, env.crossing? database = some condition →
        ∃ text, checkDatabase env (some (lowercase database)) = .error ⟨condition, text⟩ := by
  simp only [checkDatabase, Accessor.crossing?]
  cases env.databaseIdOf? (lowercase database) with
  | none => simp
  | some id => by_cases h : id = env.databaseId <;> simp [h]

theorem checkDatabase_eq_ok_iff (n : ObjectName) :
    checkDatabase env n.normalize.database = .ok () ↔ env.Owns n := by
  unfold Accessor.Owns ObjectName.normalize
  cases n.database with
  | none => simp [checkDatabase]
  | some database =>
    obtain ⟨hok, herror⟩ := checkDatabase_crossing env database
    simp only [Option.map_some, Option.some.injEq, forall_eq']
    refine ⟨fun h => ?_, hok⟩
    cases hcrossing : env.crossing? database with
    | none => rfl
    | some condition =>
      obtain ⟨_, htext⟩ := herror condition hcrossing
      rw [h] at htext
      cases htext

def tableProbe : Probe ObjectName :=
  { reference := fun
      | .table base => [base.name]
      | _ => [] }

/-- The names of the tables in the FROM clauses of a query and of the queries nested in it. -/
def Select.tableNames (q : Select) : List ObjectName := q.gather tableProbe

/-! ### What is met from an expression -/

/-- The expressions that binding an expression leads to: a bound subquery is left alone. -/
def Expr.opened : Expr → List ExprId
  | .subquery q => if q.depth.isSome then [] else q.exprs
  | e => e.children

def Expr.openedTables : Expr → List ObjectName
  | .subquery q => if q.depth.isSome then [] else q.tableNames
  | _ => []

/-- Binding `x` leads to `y`. -/
def Arena.Opens (a : Arena) : ExprId → ExprId → Prop :=
  Relation.ReflTransGen fun x y => y ∈ (a.expr x).opened

/-- All tables that binding an expression leads to are the session's own. -/
def Arena.Home (env : Accessor) (a : Arena) (x : ExprId) : Prop :=
  ∀ y, a.Opens x y → ∀ n ∈ (a.expr y).openedTables, env.Owns n

theorem Expr.opened_of_not_isSubquery (h : e.isSubquery = false) :
    e.opened = e.children ∧ e.openedTables = [] := by
  cases e <;> first | exact ⟨rfl, rfl⟩ | cases h

theorem Expr.opened_of_depth {q : Select} (h : q.depth = none) :
    (Expr.subquery q).opened = q.exprs ∧ (Expr.subquery q).openedTables = q.tableNames := by
  simp [opened, openedTables, h]

namespace Arena.Home

variable {c : ExprId}

theorem opened (h : a.Home env x) (hc : c ∈ (a.expr x).opened) : a.Home env c :=
  fun y hy => h y (.head hc hy)

theorem intro (htables : ∀ n ∈ (a.expr x).openedTables, env.Owns n)
    (hopened : ∀ c ∈ (a.expr x).opened, a.Home env c) : a.Home env x := by
  intro y hy
  rcases Relation.ReflTransGen.cases_head hy with rfl | ⟨c, hc, hy⟩
  · exact htables
  · exact hopened c hc y hy

theorem of_children (hsub : (a.expr x).isSubquery = false)
    (h : ∀ c ∈ (a.expr x).children, a.Home env c) : a.Home env x := by
  obtain ⟨hopened, htables⟩ := Expr.opened_of_not_isSubquery hsub
  refine .intro (fun n hn => ?_) (by rwa [hopened])
  rw [htables] at hn
  cases hn

theorem of_leaf (hsub : (a.expr x).isSubquery = false) (h : (a.expr x).children = []) :
    a.Home env x := by
  refine of_children hsub fun c hc => ?_
  rw [h] at hc
  cases hc

end Arena.Home

/-! ### Stores while a statement is bound -/

/-- Whatever binding an expression met before is still met, or it is at home. -/
def Guards (env : Accessor) (a a' : Arena) : Prop :=
  ∀ x, a.Home env x ∨ (a.expr x).openedTables ⊆ (a'.expr x).openedTables ∧
    ∀ c ∈ (a.expr x).opened, c ∈ (a'.expr x).opened ∨ a.Home env c

namespace Guards

variable {a'' : Arena}

theorem home (h : Guards env a a') (hx : a'.Home env x) : a.Home env x := by
  intro y hy
  induction hy using Relation.ReflTransGen.head_induction_on with
  | refl =>
    rcases h y with hy | ⟨htables, _⟩
    · exact hy y .refl
    · exact fun n hn => hx y .refl n (htables hn)
  | @head x c hc hy ih =>
    rcases h x with hhome | ⟨_, hopened⟩
    · exact hhome y (.head hc hy)
    · rcases hopened c hc with hlater | hhome
      · exact ih (hx.opened hlater)
      · exact hhome y hy

theorem refl (env : Accessor) (a : Arena) : Guards env a a :=
  fun _ => .inr ⟨Subset.refl _, fun _ hc => .inl hc⟩

theorem trans (h : Guards env a a') (h' : Guards env a' a'') : Guards env a a'' := by
  intro x
  rcases h x with hx | ⟨htables, hopened⟩
  · exact .inl hx
  rcases h' x with hx | ⟨htables', hopened'⟩
  · exact .inl (h.home hx)
  refine .inr ⟨Subset.trans htables htables', fun c hc => ?_⟩
  rcases hopened c hc with hc' | hhome
  · exact (hopened' c hc').imp_right h.home
  · exact .inr hhome

theorem of_expr (h : ∀ x, (a'.expr x).opened = (a.expr x).opened ∧
    (a'.expr x).openedTables = (a.expr x).openedTables) : Guards env a a' :=
  fun x => .inr ⟨by rw [(h x).2]; exact Subset.refl _, fun c hc => .inl (by rwa [(h x).1])⟩

theorem of_expr_eq (h : ∀ x, a'.expr x = a.expr x) : Guards env a a' :=
  of_expr fun x => by rw [h x]; exact ⟨rfl, rfl⟩

theorem of_lt_size (h : ∀ x, x < a.size → a'.expr x = a.expr x) : Guards env a a' := by
  intro x
  by_cases hx : x < a.size
  · rw [h x hx]
    exact .inr ⟨Subset.refl _, fun _ hc => .inl hc⟩
  · left
    rw [Nat.not_lt] at hx
    exact .of_leaf (by rw [expr_of_size_le hx]; rfl) (by rw [expr_of_size_le hx]; rfl)

theorem of_update {f : ExprNode → ExprNode} (hsub : (a.expr id).isSubquery = false)
    (hsub' : (f (a.node id)).kind.isSubquery = false)
    (h : ∀ c ∈ (a.expr id).children, c ∈ (f (a.node id)).kind.children ∨ a.Home env c) :
    Guards env a (a.update id f) := by
  intro x
  by_cases hx : x = id ∧ id < a.size
  · obtain ⟨rfl, hlt⟩ := hx
    right
    obtain ⟨hopened, htables⟩ := Expr.opened_of_not_isSubquery hsub
    obtain ⟨hopened', _⟩ := Expr.opened_of_not_isSubquery hsub'
    rw [show (a.update x f).expr x = (f (a.node x)).kind by
      rw [expr, node_update_self f hlt], hopened, hopened', htables]
    exact ⟨nil_subset _, h⟩
  · rw [show (a.update id f).expr x = a.expr x by rw [expr, node_update, if_neg hx]; rfl]
    exact .inr ⟨Subset.refl _, fun _ hc => .inl hc⟩

end Guards

theorem Arena.Home.of_cast {inner : ExprId} {t : SqlType} (h : a.expr x = .cast t inner)
    (hinner : a.Home env inner) : a.Home env x := by
  refine .of_children (by rw [h]; rfl) fun c hc => ?_
  rw [h] at hc
  rw [mem_singleton.mp hc]
  exact hinner

theorem Arena.Home.of_isLiteral (h : (a.expr x).isLiteral = true) : a.Home env x :=
  .of_leaf (Expr.isSubquery_of_isLiteral h) (Expr.children_of_isLiteral h)

theorem LocalChange.guards (h : LocalChange id e a a') (he : KindEvolves a e (a.expr id)) :
    Guards env a a' := by
  cases h with
  | type => exact .of_expr_eq (expr_update_of_kind fun _ => rfl)
  | constant hv =>
    have hsub : (a.expr id).isSubquery = false := by rw [he.isSubquery, hv]; rfl
    have hleaf : (a.expr id).children = [] := by
      rw [hv] at he
      generalize a.expr id = k at he
      cases he <;> rfl
    refine .trans (.of_update hsub rfl fun c hc => ?_)
      (.of_expr_eq (expr_update_of_kind fun _ => rfl))
    rw [hleaf] at hc
    cases hc
  | @call _ args _ _ _ hcall =>
    have hsub : (a.expr id).isSubquery = false := by rw [he.isSubquery, hcall]; rfl
    have hargs : (a.expr id).children = args := by
      rw [hcall] at he
      generalize a.expr id = k at he
      cases he <;> rfl
    refine .of_update hsub rfl fun c hc => .inl ?_
    rwa [hargs] at hc
  | @cast op left _ operand _ _ hcompare _ hoperand hinner =>
    have hkind : ∃ l r, (a.node id).kind = .compare op l r := by
      rw [hcompare] at he
      generalize hk : a.expr id = k at he
      cases he with
      | refl => exact ⟨_, _, hk⟩
      | compare => exact ⟨_, _, hk⟩
    obtain ⟨_, _, hk⟩ := hkind
    refine .of_update (by rw [expr, hk]; rfl) (by rw [hk]; rfl) fun c hc => ?_
    by_cases hc' : c = operand
    · rw [hc']
      exact .inr (.of_cast hoperand (.of_isLiteral hinner))
    · left
      rw [expr, hk] at hc
      rw [hk]
      rcases mem_cons.mp hc with rfl | hc
      · simp [Expr.mapChildren, Expr.children, hc']
      · obtain rfl := mem_singleton.mp hc
        simp [Expr.mapChildren, Expr.children, hc']

section

variable {q : Select}

theorem Arena.Home.of_taken (he : a.expr id = .subquery q) (hdepth : q.depth = none)
    (htables : ∀ n ∈ q.tableNames, env.Owns n)
    (hexprs : ∀ r ∈ q.exprs, (a.setQuery id {}).Home env r) (hx : (a.setQuery id {}).Home env x) :
    a.Home env x := by
  obtain ⟨hopened, hown⟩ := Expr.opened_of_depth hdepth
  intro y hy
  induction hy using Relation.ReflTransGen.head_induction_on with
  | refl =>
    by_cases hyid : y = id
    · rw [hyid, he, hown]
      exact htables
    · have htables := hx y .refl
      rwa [expr_setQuery_of_ne _ hyid] at htables
  | @head x c hc _ ih =>
    by_cases hxid : x = id
    · rw [hxid, he, hopened] at hc
      exact ih (hexprs c hc)
    · refine ih (hx.opened ?_)
      rwa [expr_setQuery_of_ne _ hxid]

theorem Arena.Home.of_query (he : a.expr id = .subquery q) (hdepth : q.depth = none)
    (htables : ∀ n ∈ q.tableNames, env.Owns n)
    (hexprs : ∀ r ∈ q.exprs, (a.setQuery id {}).Home env r) : a.Home env id := by
  have hself : (a.setQuery id {}).expr id = .subquery {} :=
    expr_setQuery_self {} (by rw [he]; rfl)
  refine .of_taken he hdepth htables hexprs (.intro (fun n hn => ?_) fun c hc => ?_)
  · rw [hself] at hn
    cases hn
  · rw [hself] at hc
    cases hc

theorem Guards.of_query {a1 : Arena} (he : a.expr id = .subquery q) (hdepth : q.depth = none)
    (htables : ∀ n ∈ q.tableNames, env.Owns n)
    (hexprs : ∀ r ∈ q.exprs, (a.setQuery id {}).Home env r)
    (hinner : Guards env (a.setQuery id {}) a1) (hother : ∀ x, x ≠ id → a'.expr x = a1.expr x) :
    Guards env a a' := by
  intro x
  by_cases hx : x = id
  · rw [hx]
    exact .inl (.of_query he hdepth htables hexprs)
  · rcases hinner x with hhome | ⟨hnames, hopened⟩
    · exact .inl (hhome.of_taken he hdepth htables hexprs)
    · rw [expr_setQuery_of_ne _ hx] at hnames hopened
      rw [hother x hx]
      refine .inr ⟨hnames, fun c hc => (hopened c hc).imp_right fun hhome => ?_⟩
      exact hhome.of_taken he hdepth htables hexprs

end

/-! ### Whole bindings -/

/-- A binding that starts from the expressions leads from one store to the other: they are at home. -/
structure Clears (env : Accessor) (ids : List ExprId) (a a' : Arena) : Prop where
  guards : Guards env a a'
  home : ∀ id ∈ ids, a.Home env id

namespace Clears

variable {ids ids' : List ExprId} {a'' : Arena}

theorem of_guards (h : Guards env a a') : Clears env [] a a' :=
  ⟨h, forall_mem_nil _⟩

theorem append (h : Clears env ids a a') (h' : Clears env ids' a' a'') :
    Clears env (ids ++ ids') a a'' :=
  ⟨h.guards.trans h'.guards, forall_mem_append.mpr
    ⟨h.home, fun id hid => h.guards.home (h'.home id hid)⟩⟩

theorem cons (h : Clears env [id] a a') (h' : Clears env ids a' a'') :
    Clears env (id :: ids) a a'' :=
  h.append h'

theorem step (h : Clears env ids a a') (h' : Guards env a' a'') : Clears env ids a a'' :=
  ⟨h.guards.trans h', h.home⟩

theorem after (h : Guards env a a') (h' : Clears env ids a' a'') : Clears env ids a a'' :=
  ⟨h.trans h'.guards, fun id hid => h.home (h'.home id hid)⟩

theorem mono (h : Clears env ids a a') (hids : ∀ id ∈ ids', id ∈ ids ∨ a.Home env id) :
    Clears env ids' a a' :=
  ⟨h.guards, fun id hid => (hids id hid).elim (h.home id) fun hhome => hhome⟩

end Clears

/-- The expressions that a binding leads to. -/
def BindTask.opened : BindTask → List ExprId
  | .acts _ _ visited => visited
  | task => task.mentioned

theorem sortTarget_home {target : ExprId} (h : sortTarget a items id = .ok target)
    (htarget : a.Home env target) : a.Home env id := by
  unfold sortTarget at h
  cases he : a.expr id with
  | constant | column => exact .of_leaf (by rw [he]; rfl) (by rw [he]; rfl)
  | _ =>
    rw [he] at h
    rw [Except.ok.inj h]
    exact htarget

theorem Sorts.home {ordering ordering' : Option (List SortKey)}
    (h : Sorts a items ordering ordering')
    (hhome : ∀ x ∈ (ordering'.getD []).map (·.expr), a.Home env x) :
    ∀ x ∈ (ordering.getD []).map (·.expr), a.Home env x := by
  cases h with
  | none => exact hhome
  | some hkeys =>
    dsimp only [Option.getD_some] at hhome ⊢
    induction hkeys with
    | nil => exact hhome
    | cons hkey _ ih =>
      obtain ⟨hfirst, hrest⟩ := forall_mem_cons.mp hhome
      exact forall_mem_cons.mpr ⟨sortTarget_home hkey.1 hfirst, ih hrest⟩

theorem Select.exprs_union (q : Select) :
    q.exprs = exprs { q with union := none } ++ exprsOpt q.union := by
  rw [exprs_eq q, exprs_eq { q with union := none }]
  simp only [exprsOpt, append_nil]

theorem Select.tableNames_union (q : Select) :
    q.tableNames = tableNames { q with union := none } ++ gatherOpt tableProbe q.union := by
  rw [tableNames, tableNames, gather_eq _ q,
    gather_eq _ { q with union := none }]
  simp only [gatherOpt, append_nil]
  rfl

theorem Cte.gatherAll_tableProbe (c : Cte) (cs : List Cte) :
    Cte.gatherAll tableProbe (c :: cs) = c.query.tableNames ++ Cte.gatherAll tableProbe cs :=
  Cte.gatherAll_cons tableProbe c cs

theorem IsStar.leaf {table : Option String} (h : IsStar e table) :
    e.isSubquery = false ∧ e.children = [] := by
  cases h <;> exact ⟨rfl, rfl⟩

theorem Binds.clears {task : BindTask} {v v' : BindView} (h : Binds env task v v')
    (hready : task.Ready v.exprs) :
    Clears env task.opened v.exprs v'.exprs ∧ ∀ n ∈ task.gatherIn tableProbe, env.Owns n := by
  have hnone : ∀ n ∈ ([] : List ObjectName), env.Owns n := forall_mem_nil _
  induction h with
  | columnDone _ he =>
    refine ⟨⟨.refl _ _, forall_mem_singleton.mpr ?_⟩, hnone⟩
    exact .of_leaf (by rw [he]; rfl) (by rw [he]; rfl)
  | @columnFresh id _ c v _ he _ hc =>
    have hsub : (v.exprs.expr id).isSubquery = false := by rw [he]; rfl
    have hleaf : (v.exprs.expr id).children = [] := by rw [he]; rfl
    refine ⟨⟨.of_update hsub rfl fun c hc => ?_, forall_mem_singleton.mpr (.of_leaf hsub hleaf)⟩,
      hnone⟩
    rw [hleaf] at hc
    cases hc
  | subqueryDone _ he hq =>
    refine ⟨⟨.of_expr_eq (expr_update_of_kind fun _ => rfl), forall_mem_singleton.mpr ?_⟩,
      hnone⟩
    refine .intro (fun n hn => ?_) fun c hc => ?_
    · simp [he, Expr.openedTables, hq] at hn
    · simp [he, Expr.opened, hq] at hc
  | subqueryFresh _ he hq _ ih =>
    obtain ⟨hinner, htables⟩ := ih trivial
    refine ⟨⟨.of_query he hq htables hinner.home hinner.guards fun x hx => ?_,
      forall_mem_singleton.mpr (.of_query he hq htables hinner.home)⟩, hnone⟩
    simp [hx]
  | node hlt _ hsub _ hchildren ih =>
    have hclears := (ih ⟨hlt, .refl _⟩).1
    refine ⟨⟨hclears.guards, forall_mem_singleton.mpr ?_⟩, hnone⟩
    exact .of_children hsub fun c hc => hclears.home c (hchildren c hc)
  | actsLocal hl _ ih =>
    have ih := ih (hready.reshape (hl.adjusts hready.1 hready.2).toReshapes _)
    exact ⟨ih.1.after (hl.guards hready.2), hnone⟩
  | actsVisit _ hc _ ihc ih =>
    have ih := ih (hready.reshape hc.reshapes _)
    exact ⟨(ihc trivial).1.cons ih.1, hnone⟩
  | @rootsCons id _ _ v1 _ _ hrest ih ih' | @itemsRoot id _ _ _ v1 _ _ _ hrest ih ih' =>
    have hfinish : Guards env v1.exprs (v1.exprs.finish id) :=
      .of_expr_eq (expr_finish v1.exprs id)
    have hrest := (ih' trivial).1
    dsimp only at hrest
    exact ⟨((ih trivial).1.step hfinish).cons hrest, hnone⟩
  | @itemsStar _ _ _ _ scope _ tables v _ hstar _ _ _ ih =>
    have hpush : Guards env v.exprs (v.exprs.pushAll (starNodes scope.depth tables)) :=
      .of_lt_size fun x hx => by rw [expr, node_pushAll_of_lt _ hx, expr]
    refine ⟨((ih trivial).1.after hpush).mono fun x hx => ?_, hnone⟩
    rcases mem_cons.mp hx with rfl | hx
    · exact .inr (.of_leaf hstar.leaf.1 hstar.leaf.2)
    · exact .inl hx
  | @table _ _ _ _ _ _ halias _ hscope hdatabase =>
    rw [hscope.exprs_eq, halias.exprs_eq]
    exact ⟨.of_guards (.refl _ _), forall_mem_singleton.mpr ((checkDatabase_eq_ok_iff _).mp hdatabase)⟩
  | @derived _ _ _ _ _ _ _ _ _ _ halias _ hnames hscope ih =>
    obtain ⟨hclears, htables⟩ := ih trivial
    rw [halias.exprs_eq] at hclears
    rw [hscope.exprs_eq]
    exact ⟨hclears.step (.of_expr_eq hnames.expr_eq), htables⟩
  | @join _ _ _ _ _ _ _ _ _ _ _ _ _ ihl ihr ihc =>
    obtain ⟨hleft, htables⟩ := ihl trivial
    obtain ⟨hright, htables'⟩ := ihr trivial
    exact ⟨(hleft.append hright).append (ihc trivial).1, forall_mem_append.mpr ⟨htables, htables'⟩⟩
  | list _ ih | fromSome _ ih | unionSome _ _ ih | query _ ih => exact ih trivial
  | @sourcesCons _ _ _ _ _ _ _ _ _ ih ih' =>
    obtain ⟨hfirst, htables⟩ := ih trivial
    obtain ⟨hrest, htables'⟩ := ih' trivial
    exact ⟨hfirst.append hrest, forall_mem_append.mpr ⟨htables, htables'⟩⟩
  | entryPlain _ _ _ hnames hscope ih =>
    obtain ⟨hclears, htables⟩ := ih trivial
    rw [hscope.exprs_eq]
    refine ⟨hclears.step (.of_expr_eq hnames.expr_eq), ?_⟩
    rw [BindTask.gatherIn, Cte.gatherAll_tableProbe, Cte.gatherAll, append_nil]
    exact htables
  | @entryInductive c base q' _ v _ _ _ _ _ _ _ hnames hscope _ ih ih' =>
    obtain ⟨hclears, htables⟩ := ih trivial
    obtain ⟨hclears', htables'⟩ := ih' trivial
    rw [hscope.exprs_eq] at hclears'
    have hall := (hclears.step (.of_expr_eq hnames.expr_eq)).append hclears'
    -- the base case is bound first, and the other branches with it a second time
    refine ⟨⟨hall.guards, ?_⟩, ?_⟩
    · have hhome := forall_mem_append.mp hall.home
      have hothers := hhome.2
      rw [show BindTask.opened (.query _ q') = exprs { base with union := c.query.union } from rfl,
        exprs_union, forall_mem_append] at hothers
      show ∀ x ∈ c.query.exprs, v.exprs.Home env x
      rw [exprs_union]
      exact forall_mem_append.mpr ⟨hhome.1, hothers.2⟩
    · rw [show BindTask.gatherIn tableProbe (.query _ q') =
        tableNames { base with union := c.query.union } from rfl,
        tableNames_union, forall_mem_append] at htables'
      rw [BindTask.gatherIn, Cte.gatherAll_tableProbe, Cte.gatherAll, append_nil,
        tableNames_union]
      exact forall_mem_append.mpr ⟨htables, htables'.2⟩
  | @entriesCons c _ _ _ _ _ _ _ _ ih ih' =>
    obtain ⟨hfirst, htables⟩ := ih trivial
    obtain ⟨hrest, htables'⟩ := ih' trivial
    refine ⟨(hfirst.append hrest).mono fun x hx => .inl ?_, ?_⟩
    · cases c
      exact hx
    · simp only [BindTask.gatherIn, Cte.gatherAll_cons, Cte.gatherAll, forall_mem_append,
        append_nil] at htables htables' ⊢
      exact ⟨htables, htables'⟩
  | @branch q _ _ _ _ _ _ _ _ _ _ _ v5 v6 _ _ _ _ _ hsorts _ _ ihe ihf ihr ihi ihu iho =>
    obtain ⟨hentries, htables⟩ := ihe trivial
    obtain ⟨hfrom, htables'⟩ := ihf trivial
    obtain ⟨hunion, htables''⟩ := ihu trivial
    have hkeys : Clears env ((q.ordering.getD []).map (·.expr)) v5.exprs v6.exprs :=
      ⟨(iho trivial).1.guards, hsorts.home (iho trivial).1.home⟩
    have hall := ((((hentries.append hfrom).append (ihr trivial).1).append (ihi trivial).1).append
      hunion).append hkeys
    have hhome := hall.home
    simp only [forall_mem_append] at hhome
    obtain ⟨⟨⟨⟨⟨hentries', hfrom'⟩, hroots'⟩, hitems'⟩, hunion'⟩, hkeys'⟩ := hhome
    refine ⟨⟨hall.guards, forall_mem_exprs.mpr
      ⟨hentries', hitems', hfrom', hroots', hkeys', hunion'⟩⟩, ?_⟩
    rw [BindTask.gatherIn, gather_eq]
    exact forall_mem_append.mpr ⟨forall_mem_append.mpr ⟨htables, htables'⟩, htables''⟩
  | _ => exact ⟨.of_guards (.refl _ _), hnone⟩

end SqlAnalysis
