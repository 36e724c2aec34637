import SqlAnalysis.Proofs.Binding.Soundness
import SqlAnalysis.Proofs.Plan.Derivation

/-!
# Subqueries in the conditions of plans

A condition with a subquery becomes a join, and the first column of the subquery takes the place of
the subquery in it.

This happens in the store, while the plan is built, and a subquery that is being worked on is empty
meanwhile.  So three things go through all steps together: what is left of the bound store
(`Decorrelates`), how nodes have changed since the step began (`Rewrites`), and that the conditions of
the plans were free of subqueries or are rewritten by now.

* **`Lowers.decorrelation`**: every condition of a plan had no subquery, or was rewritten.
* **`predicates_subqueryFree_iff`**: the conditions of a plan have no subqueries exactly if the
  operands of the rewritten ones have none.
-/

namespace SqlAnalysis

open List Arena

variable {p l r : Plan} {c : Predicate} {cs : List Predicate} {bound a a' : Arena}
  {first x id : ExprId} {others : List ExprId} {q : Select} {use : SubqueryUse}
  {f : ExprNode → ExprNode} {s s' : LowerState} {n : Nat}

/-! ### Conditions of a plan -/

namespace Plan

theorem predicates_eq (p : Plan) :
    p.predicates = p.ownPredicates ++ p.children.flatMap predicates := by
  rw [predicates, subplans_eq, flatMap_cons, flatMap_assoc]
  rfl

theorem mem_predicates : c ∈ p.predicates ↔ ∃ q ∈ p.subplans, c ∈ q.ownPredicates :=
  mem_flatMap

@[simp] theorem mem_predicates_union :
    c ∈ (Plan.union l r).predicates ↔ c ∈ l.predicates ∨ c ∈ r.predicates := by
  rw [predicates_eq]
  simp [ownPredicates, children]

@[simp] theorem mem_predicates_join {kind : PlanJoin} :
    c ∈ (Plan.join kind cs l r).predicates ↔ c ∈ cs ∨ c ∈ l.predicates ∨ c ∈ r.predicates := by
  rw [predicates_eq]
  simp [ownPredicates, children]

@[simp] theorem mem_predicates_filter : c ∈ (Plan.filter cs p).predicates ↔ c ∈ cs ∨ c ∈ p.predicates := by
  rw [predicates_eq]
  simp [ownPredicates, children]

theorem mem_predicates_of_child {input : Plan} (hc : c ∈ p.predicates)
    (hown : p.ownPredicates = [] := by rfl) (hchild : p.children = [input] := by rfl) :
    c ∈ input.predicates := by
  rw [predicates_eq, hown, hchild] at hc
  simpa using hc

theorem mem_predicates_attachCte {p' body : Plan} {name : String}
    (h : p.attachCte name body = some p') (hc : c ∈ p'.predicates) :
    c ∈ p.predicates ∨ c ∈ body.predicates := by
  obtain ⟨q', hq', hc⟩ := mem_predicates.mp hc
  rcases mem_subplans_attachCte h hq' with hq | ⟨q, hq, hgrows⟩
  · exact .inr (mem_predicates.mpr ⟨q', hq, hc⟩)
  · rw [hgrows.same.1] at hc
    exact .inl (mem_predicates.mpr ⟨q, hq, hc⟩)

end Plan

theorem Lowered.mem_predicates_attachAll {out : Lowered} {bodies : List (VisibleCte × Lowered)}
    (hc : c ∈ (out.attachAll bodies).plan.predicates) :
    c ∈ out.plan.predicates ∨ ∃ b ∈ bodies, c ∈ b.2.plan.predicates := by
  refine attachAll_keeps (P := fun l : Lowered => c ∈ l.plan.predicates →
    c ∈ out.plan.predicates ∨ ∃ b ∈ bodies, c ∈ b.2.plan.predicates) .inl
    (fun b hb _ _ _ hl hplan hc => ?_) hc
  exact (Plan.mem_predicates_attachCte hplan hc).elim hl fun hc => .inr ⟨b, hb, hc⟩

/-! ### Rewritten conditions -/

/-- A condition that had a subquery when it was bound, and in which the first column `first` of a
subquery stands now, beside `others`. -/
inductive Rewritten (bound a : Arena) (c : ExprId) : ExprId → List ExprId → Prop where
  | «exists» {sub first : ExprId} {q : Select} {more : List ExprId} :
    (bound.node c).hasSubquery = true → bound.query? sub = some q → q.items = first :: more →
    a.expr c = .operate .isNotNull [first] → Rewritten bound a c first []
  | left {op : CompareOp} {sub first right : ExprId} {q : Select} {more : List ExprId} :
    (bound.node c).hasSubquery = true → bound.query? sub = some q → q.items = first :: more →
    a.expr c = .compare op first right → Rewritten bound a c first [right]
  | right {op : CompareOp} {sub first left : ExprId} {q : Select} {more : List ExprId} :
    (bound.node c).hasSubquery = true → bound.query? sub = some q → q.items = first :: more →
    a.expr c = .compare op left first → Rewritten bound a c first [left]

theorem Rewritten.hasSubquery_iff {c : ExprId} (h : Rewritten bound a c first others) :
    a.HasSubquery c ↔ a.HasSubquery first ∨ ∃ o ∈ others, a.HasSubquery o := by
  rw [Arena.hasSubquery_iff]
  cases h with
  | «exists» _ _ _ he | left _ _ _ he => simp [he, Expr.isSubquery, Expr.children]
  | right _ _ _ he => simp [he, Expr.isSubquery, Expr.children, or_comm]

theorem Rewritten.not_isSubquery {c : ExprId} (h : Rewritten bound a c first others) :
    ¬(a.expr c).isSubquery = true := by
  cases h with
  | «exists» _ _ _ he | left _ _ _ he | right _ _ _ he => rw [he]; exact Bool.false_ne_true

theorem Rewritten.congr {c : ExprId} (h : Rewritten bound a c first others)
    (he : a'.expr c = a.expr c) : Rewritten bound a' c first others := by
  cases h with
  | «exists» hflag hq hitems h => exact .exists hflag hq hitems (he.trans h)
  | left hflag hq hitems h => exact .left hflag hq hitems (he.trans h)
  | right hflag hq hitems h => exact .right hflag hq hitems (he.trans h)

/-- The store while the plan of a bound statement is built. -/
structure Decorrelates (bound a : Arena) : Prop where
  size : a.size = bound.size
  flag : ∀ x, (a.node x).hasSubquery = (bound.node x).hasSubquery
  /-- What has no subquery does not change. -/
  kept : ∀ x, ¬bound.HasSubquery x → a.expr x = bound.expr x
  /-- A subquery node holds its own query or, while that is in work, an empty one. -/
  query : ∀ {x q}, a.query? x = some q → q = {} ∨ bound.query? x = some q
  conjunction : ∀ x operands, a.expr x = .connect .and operands ↔ bound.expr x = .connect .and operands

namespace Decorrelates

theorem refl (bound : Arena) : Decorrelates bound bound :=
  ⟨rfl, fun _ => rfl, fun _ _ => rfl, fun h => .inr h, fun _ _ => Iff.rfl⟩

section

variable (h : Decorrelates bound a)

include h

theorem not_hasSubquery (hx : ¬bound.HasSubquery x) :
    ¬a.HasSubquery x := by
  rintro ⟨y, hy, hs⟩
  induction hy with
  | here x =>
    rw [h.kept x hx] at hs
    exact hx ⟨x, .here x, hs⟩
  | child hc _ ih =>
    rw [h.kept _ hx] at hc
    exact ih (not_hasSubquery_of_contains hx (.child hc (.here _))) hs

theorem conjuncts (id : ExprId) : a.conjuncts id = bound.conjuncts id :=
  conjuncts_congr h.size h.conjunction id

theorem setQuery (hsub : (a.expr id).isSubquery = true)
    (hq : q = {} ∨ bound.query? id = some q) : Decorrelates bound (a.setQuery id q) := by
  have hself := expr_setQuery_self q hsub
  refine ⟨by rw [size_setQuery, h.size], fun x => ?_, fun x hx => ?_, fun {x q'} hx => ?_,
    fun x operands => ?_⟩
  · by_cases hne : x = id
    · rw [hne, node_setQuery_self q hsub]
      exact h.flag id
    · rw [node_setQuery_of_ne q hne]
      exact h.flag x
  · have hne : x ≠ id := by
      rintro rfl
      exact h.not_hasSubquery hx ⟨x, .here x, hsub⟩
    rw [expr_setQuery_of_ne q hne]
    exact h.kept x hx
  · by_cases hne : x = id
    · subst hne
      rw [query?_eq_some, hself] at hx
      cases hx
      exact hq
    · rw [query?_eq_some, expr_setQuery_of_ne q hne, ← query?_eq_some] at hx
      exact h.query hx
  · by_cases hne : x = id
    · subst hne
      rw [hself, ← h.conjunction x]
      constructor
      · intro he
        cases he
      · intro he
        rw [he] at hsub
        cases hsub
    · rw [expr_setQuery_of_ne q hne]
      exact h.conjunction x operands

theorem hasSubquery_of_use {c : ExprId}
    (huse : subqueryUse a c = .ok use) : bound.HasSubquery c := by
  by_contra hc
  refine h.not_hasSubquery hc ⟨use.subquery, .child ?_ (.here _), subqueryUse_isSubquery huse⟩
  rcases subqueryUse_ok huse with ⟨op, l, r, he, _, _, hside⟩ | ⟨operand, he, _, _, hside, _⟩
  · rw [he]
    rcases hside with ⟨hside, _⟩ | ⟨hside, _⟩ <;> simp [Expr.children, hside]
  · rw [he]
    simp [Expr.children, hside]

theorem rewrite {c : ExprId}
    (hflag : ∀ n, (f n).hasSubquery = n.hasSubquery) (hc : bound.HasSubquery c)
    (hand : ∀ operands, bound.expr c ≠ .connect .and operands)
    (hrewritten : Rewritten bound (a.update c f) c first others) :
    Decorrelates bound (a.update c f) := by
  refine ⟨by rw [size_update, h.size], fun x => ?_, fun x hx => ?_, fun {x q} hx => ?_,
    fun x operands => ?_⟩
  · rw [node_update]
    split
    · rw [hflag]
      exact h.flag x
    · exact h.flag x
  · have hne : x ≠ c := fun heq => hx (heq ▸ hc)
    rw [expr_update_of_ne f hne]
    exact h.kept x hx
  · have hne : x ≠ c := by
      rintro rfl
      exact hrewritten.not_isSubquery (isSubquery_of_query? hx)
    rw [query?_eq_some, expr_update_of_ne f hne, ← query?_eq_some] at hx
    exact h.query hx
  · by_cases hne : x = c
    · subst hne
      refine iff_of_false (fun hx => ?_) (hand operands)
      cases hrewritten with
      | «exists» _ _ _ he | left _ _ _ he | right _ _ _ he => rw [he] at hx; cases hx
    · rw [expr_update_of_ne f hne]
      exact h.conjunction x operands

end

end Decorrelates

/-! ### Steps -/

/-- How nodes may change while a plan is built. -/
def Rewrites (bound a a' : Arena) : Prop :=
  ∀ x, a'.expr x = a.expr x ∨ ((a.expr x).isSubquery = true ∧ (a'.expr x).isSubquery = true) ∨
    ∃ first others, Rewritten bound a' x first others

namespace Rewrites

variable {a'' : Arena}

theorem refl (bound a : Arena) : Rewrites bound a a := fun _ => .inl rfl

theorem trans (h : Rewrites bound a a') (h' : Rewrites bound a' a'') : Rewrites bound a a'' := by
  intro x
  rcases h' x with hsame | ⟨hsub, hsub'⟩ | hrewritten
  · rcases h x with hx | ⟨hx, hx'⟩ | ⟨first, others, hx⟩
    · exact .inl (hsame.trans hx)
    · exact .inr (.inl ⟨hx, by rw [hsame]; exact hx'⟩)
    · exact .inr (.inr ⟨first, others, hx.congr hsame⟩)
  · rcases h x with hx | ⟨hx, _⟩ | ⟨first, others, hx⟩
    · rw [hx] at hsub
      exact .inr (.inl ⟨hsub, hsub'⟩)
    · exact .inr (.inl ⟨hx, hsub'⟩)
    · exact (hx.not_isSubquery hsub).elim
  · exact .inr (.inr hrewritten)

theorem rewritten (h : Rewrites bound a a') (hx : ∃ first others, Rewritten bound a x first others) :
    ∃ first others, Rewritten bound a' x first others := by
  obtain ⟨first, others, hx⟩ := hx
  rcases h x with hsame | ⟨hsub, _⟩ | hrewritten
  · exact ⟨first, others, hx.congr hsame⟩
  · exact (hx.not_isSubquery hsub).elim
  · exact hrewritten

theorem of_setQuery (hsub : (a.expr id).isSubquery = true) (q : Select) :
    Rewrites bound a (a.setQuery id q) := by
  intro x
  by_cases hne : x = id
  · subst hne
    refine .inr (.inl ⟨hsub, ?_⟩)
    rw [expr_setQuery_self q hsub]
    rfl
  · exact .inl (expr_setQuery_of_ne q hne)

theorem of_update {c : ExprId} (h : Rewritten bound (a.update c f) c first others) :
    Rewrites bound a (a.update c f) := by
  intro x
  by_cases hne : x = c
  · subst hne
    exact .inr (.inr ⟨first, others, h⟩)
  · exact .inl (expr_update_of_ne f hne)

end Rewrites

theorem rewritten_of_use {c : ExprId} {more : List ExprId}
    (hflag : (bound.node c).hasSubquery = true) (huse : subqueryUse a c = .ok use)
    (hq : bound.query? use.subquery = some q) (hitems : q.items = first :: more)
    (h : Rewrites bound a a') (hlt : c < a'.size) :
    ∃ first' others, Rewritten bound (a'.update c fun n =>
      { n with kind := decorrelatedPredicate use.subquery first n.kind }) c first' others := by
  have hself : (a'.update c fun n =>
      { n with kind := decorrelatedPredicate use.subquery first n.kind }).expr c =
        decorrelatedPredicate use.subquery first (a'.expr c) := by
    rw [expr, node_update_self _ hlt]
    rfl
  -- an EXISTS, or what has become of one
  have hoperate {op : Operator} {operands : List ExprId} (he : a'.expr c = .operate op operands) :
      ∃ first' others, Rewritten bound (a'.update c fun n =>
        { n with kind := decorrelatedPredicate use.subquery first n.kind }) c first' others :=
    ⟨first, [], .exists hflag hq hitems (by rw [hself, he]; rfl)⟩
  -- a comparison, in which the subquery stands or stood on one side
  have hcompare {op : CompareOp} {l r : ExprId} (he : a'.expr c = .compare op l r)
      (hside : (l = use.subquery ∨ r = use.subquery) ∨
        ∃ f others, Rewritten bound a' c f others) :
      ∃ first' others, Rewritten bound (a'.update c fun n =>
        { n with kind := decorrelatedPredicate use.subquery first n.kind }) c first' others := by
    have he' : (a'.update c fun n =>
        { n with kind := decorrelatedPredicate use.subquery first n.kind }).expr c =
          .compare (if op = .isIn then .equal else op) (if l = use.subquery then first else l)
            (if r = use.subquery then first else r) := by
      rw [hself, he]
      rfl
    by_cases hl : l = use.subquery
    · rw [if_pos hl] at he'
      exact ⟨_, _, .left hflag hq hitems he'⟩
    · by_cases hr : r = use.subquery
      · rw [if_pos hr] at he'
        exact ⟨_, _, .right hflag hq hitems he'⟩
      · rw [if_neg hl, if_neg hr] at he'
        obtain ⟨f, others, hold⟩ := hside.resolve_left fun h => h.elim hl hr
        cases hold with
        | «exists» _ _ _ hold => rw [he] at hold; cases hold
        | left _ hq' hitems' hold =>
          rw [he] at hold
          cases hold
          exact ⟨_, _, .left hflag hq' hitems' he'⟩
        | right _ hq' hitems' hold =>
          rw [he] at hold
          cases hold
          exact ⟨_, _, .right hflag hq' hitems' he'⟩
  have hused := subqueryUse_ok huse
  rcases h c with hsame | ⟨hsub, _⟩ | ⟨f, others, hold⟩
  · rcases hused with ⟨op, l, r, he, _, _, hside⟩ | ⟨operand, he, _⟩
    · refine hcompare (hsame.trans he) (.inl ?_)
      rcases hside with ⟨hside, _⟩ | ⟨hside, _⟩
      · exact .inr hside.symm
      · exact .inl hside.symm
    · exact hoperate (hsame.trans he)
  · rcases hused with ⟨op, l, r, he, _⟩ | ⟨operand, he, _⟩
    · rw [he] at hsub
      cases hsub
    · rw [he] at hsub
      cases hsub
  · cases hold with
    | «exists» _ _ _ he => exact hoperate he
    | left hf hq' hitems' he => exact hcompare he (.inr ⟨_, _, .left hf hq' hitems' he⟩)
    | right hf hq' hitems' he => exact hcompare he (.inr ⟨_, _, .right hf hq' hitems' he⟩)

/-! ### Whole plans -/

def Decorrelated (bound a : Arena) (c : ExprId) : Prop :=
  ¬bound.HasSubquery c ∨ ∃ first others, Rewritten bound a c first others

theorem Decorrelated.mono (h : Rewrites bound a a') {c : ExprId} (hc : Decorrelated bound a c) :
    Decorrelated bound a' c :=
  hc.imp_right h.rewritten

namespace LowerTask

def mentioned : LowerTask → List ExprId
  | .query _ _ _ q _ | .block _ _ q _ => q.exprs
  | .entries _ _ cs _ _ => Cte.exprsAll cs
  | .from_ _ _ ref _ => TableRef.exprsOpt ref
  | .source _ _ ref _ => ref.exprs
  | .sources _ _ _ refs _ => TableRef.exprsAll refs
  | .where_ _ _ filter _ _ => filter.toList
  | .conjuncts _ _ cs _ _ => cs

def joined : LowerTask → List ExprId
  | .conjuncts _ _ cs _ _ => cs
  | _ => []

/-- The plans that a step adds to. -/
def inputs : LowerTask → List Plan
  | .sources _ _ input _ _ | .where_ _ _ _ input _ | .conjuncts _ _ _ input _ => [input.plan]
  | _ => []

/-- The plans that a step yields. -/
def outputs : LowerTask → List Plan
  | .query _ _ _ _ out | .block _ _ _ out | .from_ _ _ _ out | .source _ _ _ out
  | .sources _ _ _ _ out | .where_ _ _ _ _ out | .conjuncts _ _ _ _ out => [out.plan]
  | .entries _ _ _ bodies _ => bodies.map (·.2.plan)

/-- What the building of a plan does to the store and leaves in the plan. -/
structure Decorrelation (bound : Arena) (task : LowerTask) (a a' : Arena) : Prop where
  decorrelates : Decorrelates bound a'
  rewrites : Rewrites bound a a'
  rewritten : ∀ c ∈ task.joined, (bound.node c).hasSubquery = true →
    ∃ first others, Rewritten bound a' c first others
  conditions : ∀ p ∈ task.outputs, ∀ c ∈ p.predicates,
    Decorrelated bound a' c.expr ∨ ∃ input ∈ task.inputs, c ∈ input.predicates

namespace Decorrelation

variable {task : LowerTask}

theorem of_outputs (hd : Decorrelates bound a') (hr : Rewrites bound a a')
    (h : ∀ p ∈ task.outputs, ∀ c ∈ p.predicates, Decorrelated bound a' c.expr)
    (hjoined : task.joined = [] := by rfl) : task.Decorrelation bound a a' :=
  ⟨hd, hr, fun _ hc => (not_mem_nil (hjoined ▸ hc)).elim, fun p hp c hc => .inl (h p hp c hc)⟩

theorem passed (h : Decorrelates bound a) (hplans : task.outputs = task.inputs := by rfl)
    (hjoined : task.joined = [] := by rfl) : task.Decorrelation bound a a :=
  ⟨h, .refl _ _, fun _ hc => (not_mem_nil (hjoined ▸ hc)).elim,
    fun p hp _ hc => .inr ⟨p, hplans ▸ hp, hc⟩⟩

theorem condition (h : task.Decorrelation bound a a') (hp : p ∈ task.outputs)
    (hc : c ∈ p.predicates) (hinputs : task.inputs = [] := by rfl) :
    Decorrelated bound a' c.expr := by
  rcases h.conditions p hp c hc with hc | ⟨input, hin, _⟩
  · exact hc
  · rw [hinputs] at hin
    cases hin

end Decorrelation

end LowerTask

theorem Decorrelates.of_unflagged (h : Decorrelates bound a) (hsound : bound.Sound [id])
    (hflag : (a.node id).hasSubquery = false) (hc : c ∈ a.predicates id) :
    ¬bound.HasSubquery c.expr := by
  obtain ⟨_, hd, rfl⟩ := mem_map.mp hc
  rw [h.conjuncts] at hd
  rw [h.flag] at hflag
  have hroot := (hsound id (by simp) id (.here _)).2 hflag
  exact not_hasSubquery_of_contains hroot (contains_of_mem_conjuncts hd)

theorem Decorrelates.of_joinPredicates (h : Decorrelates bound s.exprs) {condition : Option ExprId}
    (hsound : bound.Sound condition.toList) {predicates : List Predicate}
    (hrun : joinPredicates condition s = .ok predicates s') (hc : c ∈ predicates) :
    ¬bound.HasSubquery c.expr := by
  cases condition with
  | none =>
    rw [joinPredicates, run_pure] at hrun
    rw [← hrun.1] at hc
    cases hc
  | some =>
    simp only [joinPredicates, run_bind, LowerM.run_exprs, run_ite, LowerM.run_refuse, and_false,
      false_or, run_pure] at hrun
    obtain ⟨_, _, ⟨_, rfl, rfl⟩, hflag, rfl, rfl⟩ := hrun
    exact h.of_unflagged hsound (Bool.eq_false_iff.mpr hflag) hc

theorem Decorrelates.restore (h : Decorrelates bound a) (hq : bound.query? id = some q) :
    Decorrelates bound (a.setQuery id q) ∧ Rewrites bound a (a.setQuery id q) := by
  by_cases hsub : (a.expr id).isSubquery = true
  · exact ⟨h.setQuery hsub (.inr hq), .of_setQuery hsub q⟩
  · rw [setQuery_of_not_isSubquery q (Bool.not_eq_true _ ▸ hsub)]
    exact ⟨h, .refl _ _⟩

section

variable {env : Accessor}

theorem lt_size_of_use {c : ExprId} (huse : subqueryUse a c = .ok use) : c < a.size := by
  refine Nat.lt_of_not_le fun hc => ?_
  have he := expr_of_size_le hc
  rcases subqueryUse_ok huse with ⟨op, l, r, h, _⟩ | ⟨operand, h, _⟩
  · rw [h] at he
    cases he
  · rw [h] at he
    cases he

theorem Decorrelates.ne_conjunction_of_use (h : Decorrelates bound a) {c : ExprId}
    (huse : subqueryUse a c = .ok use) (operands : List ExprId) :
    bound.expr c ≠ .connect .and operands := by
  intro he
  rw [← h.conjunction] at he
  rcases subqueryUse_ok huse with ⟨op, l, r, h, _⟩ | ⟨operand, h, _⟩
  · rw [h] at he
    cases he
  · rw [h] at he
    cases he

theorem Lowers.decorrelation {task : LowerTask} (h : Lowers env task s s')
    (hsettled : bound.Settled) (hsound : bound.Sound task.mentioned)
    (hs : Decorrelates bound s.exprs) : task.Decorrelation bound s.exprs s'.exprs := by
  induction h with
  | entriesNil => exact .of_outputs hs (.refl _ _) (forall_mem_nil _)
  | @entriesCons _ _ c cs _ _ _ _ _ _ _ _ hv _ _ ihbody ihrest =>
    obtain ⟨_, rfl⟩ := visibleCte_run hv
    have hsound : bound.Sound (Cte.exprsAll (c :: cs)) := hsound
    rw [Cte.exprsAll_cons, Arena.Sound.append_iff] at hsound
    have hbody := ihbody hsound.1 hs
    have hrest := ihrest hsound.2 hbody.decorrelates
    refine .of_outputs hrest.decorrelates (hbody.rewrites.trans hrest.rewrites) fun p hp c hc => ?_
    rcases mem_cons.mp hp with rfl | hp
    · exact (hbody.condition (mem_singleton_self _) hc).mono hrest.rewrites
    · exact hrest.condition hp hc
  | queryAlone _ _ _ ihe ihb =>
    have he := ihe (sound_select.mp hsound).1 hs
    have hb := ihb hsound he.decorrelates
    refine .of_outputs hb.decorrelates (he.rewrites.trans hb.rewrites) fun p hp c hc => ?_
    cases mem_singleton.mp hp
    rcases Lowered.mem_predicates_attachAll hc with hc | ⟨b, hmem, hc⟩
    · exact hb.condition (mem_singleton_self _) hc
    · exact (he.condition (mem_map_of_mem hmem) hc).mono hb.rewrites
  | queryUnion hunion _ _ _ ihe ihb ihr =>
    obtain ⟨hctes, _, _, _, _, _, hright⟩ := sound_select.mp hsound
    rw [hunion] at hright
    have he := ihe hctes hs
    have hb := ihb hsound he.decorrelates
    have hr := ihr hright hb.decorrelates
    refine .of_outputs hr.decorrelates ((he.rewrites.trans hb.rewrites).trans hr.rewrites)
      fun p hp c hc => ?_
    cases mem_singleton.mp hp
    rcases Lowered.mem_predicates_attachAll hc with hc | ⟨b, hmem, hc⟩
    · rcases Plan.mem_predicates_union.mp hc with hc | hc
      · exact (hb.condition (mem_singleton_self _) hc).mono hr.rewrites
      · exact hr.condition (mem_singleton_self _) hc
    · exact (he.condition (mem_map_of_mem hmem) hc).mono (hb.rewrites.trans hr.rewrites)
  | @block _ _ _ _ _ _ _ _ _ _ s2 _ _ _ hagg hlimit ihf ihw =>
    obtain ⟨_, _, hsource, hfilter, hgrouping, _⟩ := sound_select.mp hsound
    have hf := ihf hsource hs
    have hw := ihw hfilter hf.decorrelates
    refine .of_outputs hw.decorrelates (hf.rewrites.trans hw.rewrites) fun p hp => ?_
    cases mem_singleton.mp hp
    refine finish_keeps hagg hlimit
      (fun p => ∀ c ∈ p.predicates, Decorrelated bound s2.exprs c.expr) (fun c hc => ?_)
      (fun keys p hp c hc => hp c (Plan.mem_predicates_of_child hc))
      (fun g having p hg hh hflag hp c hc => ?_)
      (fun count offset keys p hp c hc => hp c (Plan.mem_predicates_of_child hc))
    · rcases hw.conditions _ (mem_singleton_self _) c hc with hc | ⟨input, hin, hc⟩
      · exact hc
      · cases mem_singleton.mp hin
        exact (hf.condition (mem_singleton_self _) hc).mono hw.rewrites
    · rcases Plan.mem_predicates_filter.mp hc with hc | hc
      · refine .inl (hw.decorrelates.of_unflagged (fun id hid => hgrouping id ?_) hflag hc)
        rw [hg]
        simp [Grouping.exprs, hh, mem_singleton.mp hid]
      · exact hp c hc
  | fromNone =>
    refine .of_outputs hs (.refl _ _) fun p hp c hc => ?_
    cases mem_singleton.mp hp
    cases hc
  | fromSome _ ih =>
    have ih := ih hsound hs
    exact ⟨ih.decorrelates, ih.rewrites, ih.rewritten, ih.conditions⟩
  | table h =>
    refine .of_outputs hs (.refl _ _) fun p hp c hc => ?_
    cases mem_singleton.mp hp
    rcases lowerBaseTable_ok h with ⟨_, _, _, rfl⟩ | ⟨_, _, _, rfl⟩
    · cases hc
    · cases hc
  | derived _ ih =>
    have ih := ih hsound hs
    refine .of_outputs ih.decorrelates ih.rewrites fun p hp c hc => ?_
    cases mem_singleton.mp hp
    exact ih.condition (mem_singleton_self _) (Plan.mem_predicates_of_child hc)
  | @join _ _ _ left right condition _ _ _ _ _ _ _ _ hcond ihl ihr =>
    have hsound : bound.Sound (left.exprs ++ right.exprs ++ condition.toList) := hsound
    simp only [Arena.Sound.append_iff] at hsound
    obtain ⟨⟨hleft, hright⟩, hcondition⟩ := hsound
    have hl := ihl hleft hs
    have hr := ihr hright hl.decorrelates
    refine .of_outputs hr.decorrelates (hl.rewrites.trans hr.rewrites) fun p hp c hc => ?_
    cases mem_singleton.mp hp
    rcases Plan.mem_predicates_join.mp hc with hc | hc | hc
    · exact .inl (hr.decorrelates.of_joinPredicates hcondition hcond hc)
    · exact (hl.condition (mem_singleton_self _) hc).mono hr.rewrites
    · exact hr.condition (mem_singleton_self _) hc
  | @list _ _ first rest _ _ _ _ _ _ _ ihf ihr =>
    have hsound : bound.Sound (first.exprs ++ TableRef.exprsAll rest) := hsound
    rw [Arena.Sound.append_iff] at hsound
    have hf := ihf hsound.1 hs
    have hr := ihr hsound.2 hf.decorrelates
    refine .of_outputs hr.decorrelates (hf.rewrites.trans hr.rewrites) fun p hp c hc => ?_
    rcases hr.conditions p hp c hc with hc | ⟨input, hin, hc⟩
    · exact hc
    · cases mem_singleton.mp hin
      exact (hf.condition (mem_singleton_self _) hc).mono hr.rewrites
  | @sourcesCons _ _ _ item rest _ _ _ _ _ _ _ ihi ihr =>
    have hsound : bound.Sound (item.exprs ++ TableRef.exprsAll rest) := hsound
    rw [Arena.Sound.append_iff] at hsound
    have hi := ihi hsound.1 hs
    have hr := ihr hsound.2 hi.decorrelates
    refine ⟨hr.decorrelates, hi.rewrites.trans hr.rewrites, hr.rewritten, fun p hp c hc => ?_⟩
    rcases hr.conditions p hp c hc with hc | ⟨input', hin, hc⟩
    · exact .inl hc
    · cases mem_singleton.mp hin
      rcases Plan.mem_predicates_join.mp hc with hc | hc | hc
      · cases hc
      · exact .inr ⟨_, mem_singleton_self _, hc⟩
      · exact .inl ((hi.condition (mem_singleton_self _) hc).mono hr.rewrites)
  | @whereSome _ _ filter _ _ s _ _ ih =>
    have hfilter := hsound filter (mem_singleton_self _)
    have hconjuncts : ∀ c ∈ s.exprs.conjuncts filter, bound.Contains filter c := fun c hc =>
      contains_of_mem_conjuncts (hs.conjuncts filter ▸ hc)
    have ih := ih (fun c hc y hy => hfilter y ((hconjuncts c hc).trans hy)) hs
    refine ⟨ih.decorrelates, ih.rewrites, forall_mem_nil _,
      fun p hp c hc => ?_⟩
    cases mem_singleton.mp hp
    rcases Plan.mem_predicates_filter.mp hc with hc | hc
    · refine .inl ?_
      obtain ⟨c, hmem, rfl⟩ := mem_map.mp hc
      rw [ih.decorrelates.conjuncts, ← hs.conjuncts] at hmem
      cases hflag : (bound.node c).hasSubquery with
      | true => exact .inr (ih.rewritten c hmem hflag)
      | false => exact .inl ((hfilter c (hconjuncts c hmem)).2 hflag)
    · exact ih.conditions _ (mem_singleton_self _) c hc
  | conjunctsPlain hflag _ ih =>
    have ih := ih (fun id hid => hsound id (mem_cons_of_mem _ hid)) hs
    refine ⟨ih.decorrelates, ih.rewrites, fun d hd hd' => ?_, ih.conditions⟩
    rcases mem_cons.mp hd with rfl | hd
    · rw [← hs.flag, hflag] at hd'
      cases hd'
    · exact ih.rewritten d hd hd'
  | @conjunctsJoin ctes own c cs input right out use q first more s s1 s2 hflag huse hq hitems hone
      hcheck _ _ ihq ihr =>
    rw [hs.flag] at hflag
    have hsub := subqueryUse_isSubquery huse
    -- the query is the one that was bound, so what it mentions is sound
    have hquery : bound.query? use.subquery = some q := by
      refine (hs.query hq).resolve_left ?_
      rintro rfl
      cases hitems
    have hdepth : q.depth.isSome = true := by
      rw [checkSubquery] at hcheck
      split at hcheck
      · cases hcheck
      · rename_i hdepth
        rw [hdepth]
        rfl
    have hq := ihq (hsettled _ _ (query?_eq_some.mp hquery) hdepth)
      (hs.setQuery hsub (.inl rfl))
    have hopened : Rewrites bound s.exprs s1.exprs := (Rewrites.of_setQuery hsub {}).trans hq.rewrites
    have hback := hq.decorrelates.restore hquery
    have hrestored := hopened.trans hback.2
    have hsize : c < (s1.exprs.setQuery use.subquery q).size := by
      rw [hback.1.size, ← hs.size]
      exact lt_size_of_use huse
    obtain ⟨first', others, hrewritten⟩ := rewritten_of_use hflag huse hquery hitems hrestored hsize
    have hr := ihr (fun id hid => hsound id (mem_cons_of_mem _ hid))
      (hback.1.rewrite (fun _ => rfl) (hs.hasSubquery_of_use huse) (hs.ne_conjunction_of_use huse)
        hrewritten)
    have hrewrites := (Rewrites.of_update hrewritten).trans hr.rewrites
    refine ⟨hr.decorrelates, hrestored.trans hrewrites, fun d hd hd' => ?_, fun p hp d hd => ?_⟩
    · rcases mem_cons.mp hd with rfl | hd
      · exact hr.rewrites.rewritten ⟨first', others, hrewritten⟩
      · exact hr.rewritten d hd hd'
    · rcases hr.conditions p hp d hd with hd | ⟨input', hin, hd⟩
      · exact .inl hd
      · cases mem_singleton.mp hin
        rcases Plan.mem_predicates_join.mp hd with hd | hd | hd
        · cases hd
        · exact .inr ⟨_, mem_singleton_self _, hd⟩
        · exact .inl ((hq.condition (mem_singleton_self _) hd).mono (hback.2.trans hrewrites))
  | _ => exact .passed hs

end

/-! ### Statements -/

section

variable {env : Accessor} {lower : LowerQuery}

/-- Every condition of a plan had no subquery or was rewritten, and what had none has none. -/
def PlanDecorrelated (bound final : Arena) (plan : Plan) : Prop :=
  ∀ c ∈ plan.predicates, Decorrelated bound final c.expr ∧
    (¬bound.HasSubquery c.expr → ¬final.HasSubquery c.expr)

theorem PlanDecorrelated.of_nil {final : Arena} {plan : Plan} (h : plan.predicates = []) :
    PlanDecorrelated bound final plan := by
  intro c hc
  rw [h] at hc
  cases hc

theorem lowerQuery_decorrelated (hl : DerivedBy env lower) {plan : Plan} (hsettled : bound.Settled)
    (hsound : bound.Sound q.exprs) (h : lower [] q ⟨bound, n⟩ = .ok plan s') :
    PlanDecorrelated bound s'.exprs plan := by
  obtain ⟨_, rfl, hd⟩ := hl _ _ _ _ _ h [] []
  have hd := hd.decorrelation hsettled hsound (.refl bound)
  exact fun c hc => ⟨hd.condition (mem_singleton_self _) hc, hd.decorrelates.not_hasSubquery⟩

theorem lowerInsert_decorrelated (hl : DerivedBy env lower) {insert : Insert} {plan : Plan}
    (hsound : (Statement.insert insert).Sound bound)
    (h : lowerInsert env lower insert ⟨bound, n⟩ = .ok plan s') :
    PlanDecorrelated bound s'.exprs plan := by
  unfold lowerInsert at h
  cases hsource : insert.source with
  | values =>
    simp only [hsource, run_bind, LowerM.run_ofExcept, run_pure] at h
    obtain ⟨_, _, _, _, _, _, _, _, _, _, _, _, _, _, _, rfl, _⟩ := h
    exact .of_nil rfl
  | query =>
    simp only [hsource, run_bind, LowerM.run_ofExcept, LowerM.run_exprs, run_pure] at h
    obtain ⟨_, _, ⟨_, rfl⟩, _, _, ⟨_, rfl⟩, _, _, ⟨_, rfl⟩, _, _, ⟨_, _, rfl⟩, _, _, ⟨_, rfl⟩, _, _, hq,
      rfl, rfl⟩ := h
    rw [Statement.Sound, hsource] at hsound
    have hd := lowerQuery_decorrelated hl hsound.1 hsound.2 hq
    exact fun c hc => hd c (Plan.mem_predicates_of_child hc)

theorem targetScan_decorrelated {keyword : String} {base : BaseTable} {filter : Option ExprId}
    {scan : Get} (hsound : bound.Sound filter.toList)
    (h : targetScan env bound keyword base filter = .ok scan) :
    PlanDecorrelated bound bound (.get scan) := by
  have hfree : ∀ c ∈ scan.predicates, ¬bound.HasSubquery c.expr := by
    obtain ⟨_, _, h⟩ := except_bind.mp h
    cases filter with
    | none =>
      cases h
      exact forall_mem_nil _
    | some id =>
      dsimp only at h
      split at h
      · cases h
      · rename_i hflag
        cases h
        exact fun c hc =>
          (Decorrelates.refl bound).of_unflagged hsound (Bool.eq_false_iff.mpr hflag) hc
  intro c hc
  rw [Plan.predicates_eq] at hc
  have hc : c ∈ scan.predicates := by simpa [Plan.ownPredicates, Plan.children] using hc
  exact ⟨.inl (hfree c hc), id⟩

theorem lowerCreation_predicates {creation : Creation} {plan : Plan}
    (h : lowerCreation env creation s = .ok plan s') : plan.predicates = [] := by
  cases creation with
  | database name | schema name =>
    rw [lowerCreation, run_pure] at h
    rw [← h.1]
    rfl
  | table | view =>
    simp only [lowerCreation, run_bind, run_pure] at h
    obtain ⟨_, _, _, rfl, _⟩ := h
    rfl
  | index =>
    simp only [lowerCreation, lowerIndex, run_bind, run_pure] at h
    obtain ⟨_, _, _, _, _, _, _, _, _, _, _, _, rfl, _⟩ := h
    rfl
  | trigger =>
    simp only [lowerCreation, LowerM.run_ofExcept] at h
    obtain ⟨_, _, h⟩ := except_bind.mp h.1
    obtain ⟨_, _, h⟩ := except_bind.mp h
    obtain ⟨_, _, h⟩ := except_bind.mp h
    obtain ⟨_, _, h⟩ := except_bind.mp h
    cases h
    rfl

theorem lowerStatementWith_decorrelated (hl : DerivedBy env lower) :
    (statement : Statement) → statement.Sound bound → ∀ {n : Nat} {plan : Plan} {s' : LowerState},
      lowerStatementWith env lower statement ⟨bound, n⟩ = .ok plan s' →
        PlanDecorrelated bound s'.exprs plan
  | .select q, hsound, n, plan, s', h => lowerQuery_decorrelated hl hsound.1 hsound.2 h
  | .insert insert, hsound, n, plan, s', h => lowerInsert_decorrelated hl hsound h
  | .update update, hsound, n, plan, s', h => by
    simp only [lowerStatementWith, run_bind, LowerM.run_ofExcept, LowerM.run_exprs] at h
    obtain ⟨_, _, ⟨_, rfl, rfl⟩, h, rfl⟩ := h
    obtain ⟨scan, hscan, h⟩ := except_bind.mp h
    obtain ⟨_, _, h⟩ := except_bind.mp h
    obtain ⟨_, _, h⟩ := except_bind.mp h
    cases h
    have hd := targetScan_decorrelated hsound hscan
    exact fun c hc => hd c (Plan.mem_predicates_of_child hc)
  | .delete delete, hsound, n, plan, s', h => by
    simp only [lowerStatementWith, run_bind, LowerM.run_ofExcept, LowerM.run_exprs] at h
    obtain ⟨_, _, ⟨_, rfl, rfl⟩, h, rfl⟩ := h
    obtain ⟨_, hscan, h⟩ := except_bind.mp h
    cases h
    have hd := targetScan_decorrelated hsound hscan
    exact fun c hc => hd c (Plan.mem_predicates_of_child hc)
  | .create ifNotExists creation, hsound, n, plan, s', h => .of_nil (lowerCreation_predicates h)
  | .drop drop, hsound, n, plan, s', h => by
    simp only [lowerStatementWith, LowerM.run_ofExcept, lowerDrop] at h
    split at h
    · cases h.1
      exact .of_nil rfl
    · cases h.1
  | .analyze analyze, hsound, n, plan, s', h => by
    simp only [lowerStatementWith, LowerM.run_ofExcept, lowerAnalyze] at h
    split at h
    · cases h.1
    · obtain ⟨_, _, h⟩ := except_bind.mp h.1
      cases h
      exact .of_nil rfl
  | .explain inner, hsound, n, plan, s', h => by
    simp only [lowerStatementWith, run_bind, run_pure] at h
    obtain ⟨_, _, hinner, rfl, rfl⟩ := h
    have hd := lowerStatementWith_decorrelated hl inner hsound hinner
    exact fun c hc => hd c (Plan.mem_predicates_of_child hc)

end

/-- **The conditions of a plan are free of subqueries exactly if what stands in the rewritten ones
is**: the first column of the subquery that was joined, and the other operand.  All other conditions
are.  Subqueries that were bound before the statement, if any, have to be as binding leaves them. -/
theorem predicates_subqueryFree_iff {env env' : Accessor} {p : Parsed} {parameters : List Value}
    {b : Bound} {plan : Plan} (hp : p.exprs.Settled) (hb : (bind env p parameters).result = .ok b)
    (h : (lower env' b).result = .ok plan) :
    (∀ c ∈ plan.predicates, ¬(lower env' b).bound.exprs.HasSubquery c.expr) ↔
      ∀ c ∈ plan.predicates, ∀ first others,
        Rewritten b.exprs (lower env' b).bound.exprs c.expr first others →
          ¬(lower env' b).bound.exprs.HasSubquery first ∧
            ∀ o ∈ others, ¬(lower env' b).bound.exprs.HasSubquery o := by
  have hd := lowerStatementWith_decorrelated (lowerQuery_lowers env' _) b.statement
    (bind_sound hp hb) (lower_run h)
  constructor
  · intro hfree c hc first others hrewritten
    have hno := hfree c hc
    rw [hrewritten.hasSubquery_iff, not_or] at hno
    exact ⟨hno.1, fun o ho hs => hno.2 ⟨o, ho, hs⟩⟩
  · intro hoperands c hc
    obtain ⟨hno | ⟨first, others, hrewritten⟩, hkept⟩ := hd c hc
    · exact hkept hno
    · obtain ⟨hfirst, hothers⟩ := hoperands c hc first others hrewritten
      rw [hrewritten.hasSubquery_iff]
      rintro (hs | ⟨o, ho, hs⟩)
      · exact hfirst hs
      · exact hothers o ho hs

/-- `SELECT 1 WHERE 1 = (SELECT (SELECT 1))` -/
def subqueryAsColumn : Parsed :=
  { statement := .select { items := [0], filter := some 1 }
    exprs := .ofExprs [
      .constant (.ofByte 1),
      .compare .equal 2 3,
      .constant (.ofByte 1),
      .subquery { items := [4] },
      .subquery { items := [5] },
      .constant (.ofByte 1)] }

theorem subqueryAsColumn_subqueryFree_iff :
    ∃ env b tree, (bind .initial subqueryAsColumn []).result = .ok b ∧
      (lower env b).result = .ok tree ∧
      ((∀ c ∈ tree.predicates, ¬(lower env b).bound.exprs.HasSubquery c.expr) ↔
        ∀ c ∈ tree.predicates, ∀ first others,
          Rewritten b.exprs (lower env b).bound.exprs c.expr first others →
            ¬(lower env b).bound.exprs.HasSubquery first ∧
              ∀ o ∈ others, ¬(lower env b).bound.exprs.HasSubquery o) := by
  obtain ⟨b, q, tree, hb, _, htree⟩ := exists_of_isPlannedSelect
    (show isPlannedSelect .initial subqueryAsColumn = true by decide +kernel)
  have hsettled := settled_of_isUnbound
    (show subqueryAsColumn.exprs.isUnbound = true by decide +kernel)
  exact ⟨_, b, tree, hb, htree, predicates_subqueryFree_iff hsettled hb htree⟩

/-- The first column of the joined subquery is a subquery, and so an operand of the condition is. -/
theorem subqueryAsColumn_hasSubquery :
    ∃ bound tree, planned? .initial subqueryAsColumn = some (bound, tree) ∧
      ∃ c ∈ tree.predicates, bound.exprs.HasSubquery c.expr := by
  have hcondition : (planned? .initial subqueryAsColumn).map (fun x =>
      (x.2.predicates.map (·.expr), (x.1.exprs.expr 1).children, (x.1.exprs.expr 4).isSubquery)) =
        some ([1], [2, 4], true) := by decide +kernel
  obtain ⟨⟨bound, tree⟩, hplanned, hcondition⟩ := Option.map_eq_some_iff.mp hcondition
  obtain ⟨hexprs, hrest⟩ := Prod.mk.inj hcondition
  obtain ⟨hchildren, hsub⟩ := Prod.mk.inj hrest
  have hmem : 1 ∈ tree.predicates.map (·.expr) := by
    rw [hexprs]
    exact mem_singleton_self 1
  obtain ⟨c, hc, hone⟩ := mem_map.mp hmem
  refine ⟨bound, tree, hplanned, c, hc, 4, .child ?_ (.here _), hsub⟩
  rw [hone, hchildren]
  simp

end SqlAnalysis
