import SqlAnalysis.Proofs.Binding.Resolution
import SqlAnalysis.Proofs.Expr.Refinement

/-!
# Nothing is left out

Every subquery that a bound statement leads to, through operands and through the queries of other
subqueries, is bound.
-/

namespace SqlAnalysis

open List Arena

variable {id : ExprId} {q : Select} {a : Arena} {ids : List ExprId}

variable {env : Accessor}

/-- The expressions are in a closed set of nodes, all subqueries of which are bound. -/
def Arena.Complete (a : Arena) (ids : List ExprId) : Prop :=
  ∃ S : ExprId → Prop, (∀ id ∈ ids, S id) ∧ a.Closed S ∧
    ∀ x, S x → x < a.size ∧ ∀ q, a.expr x = .subquery q → q.depth.isSome = true

namespace Arena.Complete

variable {a' : Arena} {ids' : List ExprId}

theorem nil (a : Arena) : a.Complete [] :=
  ⟨fun _ => False, forall_mem_nil _, fun _ h => h.elim, fun _ h => h.elim⟩

theorem mono (h : a.Complete ids) (hsub : ids' ⊆ ids) : a.Complete ids' := by
  obtain ⟨S, hS, hclosed, hbound⟩ := h
  exact ⟨S, fun id hid => hS id (hsub hid), hclosed, hbound⟩

theorem append (h : a.Complete ids) (h' : a.Complete ids') : a.Complete (ids ++ ids') := by
  obtain ⟨S, hS, hclosed, hbound⟩ := h
  obtain ⟨S', hS', hclosed', hbound'⟩ := h'
  refine ⟨fun x => S x ∨ S' x, fun id hid => (mem_append.mp hid).imp (hS id) (hS' id),
    fun x hx y hy => ?_, fun x hx => ?_⟩
  · exact hx.imp (fun hx => hclosed x hx y hy) fun hx => hclosed' x hx y hy
  · rcases hx with hx | hx
    · exact hbound x hx
    · exact hbound' x hx

theorem of_forall (h : ∀ id ∈ ids, a.Complete [id]) : a.Complete ids := by
  induction ids with
  | nil => exact .nil a
  | cons _ _ ih =>
    obtain ⟨hid, hids⟩ := forall_mem_cons.mp h
    exact hid.append (ih hids)

theorem of_reaches (h : a.Complete ids) {x : ExprId} (hid : id ∈ ids) (hx : a.Reaches id x)
    (hq : a.expr x = .subquery q) : q.depth.isSome = true := by
  obtain ⟨S, hS, hclosed, hbound⟩ := h
  have hmem : S x := by
    clear hq
    induction hx with
    | refl => exact hS id hid
    | tail _ hy ih => exact hclosed _ ih _ hy
  exact (hbound x hmem).2 q hq

end Arena.Complete

theorem KindEvolves.mem_parts {e e' : Expr} (h : KindEvolves a e e')
    (hquery : e.isSubquery = true → e' = e) {y : ExprId} (hy : y ∈ e'.parts) :
    y ∈ e.parts ∨ (a.expr y).isLiteral = true := by
  cases hs : e.isSubquery with
  | true =>
    rw [hquery hs] at hy
    exact .inl hy
  | false =>
    rw [Expr.parts_of_not_isSubquery (h.isSubquery.trans hs)] at hy
    rw [Expr.parts_of_not_isSubquery hs]
    exact h.mem_children hy

theorem Arena.Complete.evolve {a' : Arena} (h : a.Complete ids) (ha : Evolves a a') :
    a'.Complete ids := by
  obtain ⟨S, hS, hclosed, hbound⟩ := h
  have hkept : ∀ x, S x → (a.expr x).isSubquery = true → a'.expr x = a.expr x := by
    intro x hx hs
    cases he : a.expr x with
    | subquery q => exact ha.bound he ((hbound x hx).2 q he)
    | _ => rw [he] at hs; cases hs
  refine ⟨fun x => S x ∨ (a'.expr x).isLiteral = true, fun id hid => .inl (hS id hid),
    fun x hx y hy => ?_, fun x hx => ?_⟩
  · rcases hx with hx | hx
    · have hkind := ha.kind x (hbound x hx).1
      exact (hkind.mem_parts (hkept x hx) hy).imp_left (hclosed x hx y)
    · rw [Expr.parts_of_not_isSubquery (Expr.isSubquery_of_isLiteral hx), Expr.children_of_isLiteral hx] at hy
      cases hy
  · rcases hx with hx | hx
    · refine ⟨(hbound x hx).1.trans_le ha.size_le, fun q hq => ?_⟩
      have hs : (a.expr x).isSubquery = true := by
        rw [← (ha.kind x (hbound x hx).1).isSubquery, hq]
        rfl
      rw [hkept x hx hs] at hq
      exact (hbound x hx).2 q hq
    · refine ⟨lt_size_of_isLiteral hx, fun q hq => ?_⟩
      rw [hq] at hx
      cases hx

theorem Arena.Complete.single (hlt : id < a.size)
    (hquery : ∀ q, a.expr id = .subquery q → q.depth.isSome = true)
    (hparts : ∀ y ∈ (a.expr id).parts, a.Complete [y]) : a.Complete [id] := by
  refine ⟨fun x => x = id ∨ ∃ y ∈ (a.expr id).parts, ∃ S : ExprId → Prop, S y ∧ S x ∧ a.Closed S ∧
    ∀ x, S x → x < a.size ∧ ∀ q, a.expr x = .subquery q → q.depth.isSome = true,
    fun x hx => .inl (mem_singleton.mp hx), fun x hx y hy => ?_, fun x hx => ?_⟩
  · rcases hx with rfl | ⟨z, hz, S, hSz, hSx, hclosed, hbound⟩
    · obtain ⟨S, hS, hclosed, hbound⟩ := hparts y hy
      have hSy := hS y (mem_singleton_self _)
      exact .inr ⟨y, hy, S, hSy, hSy, hclosed, hbound⟩
    · exact .inr ⟨z, hz, S, hSz, hclosed x hSx y hy, hclosed, hbound⟩
  · rcases hx with rfl | ⟨z, hz, S, hSz, hSx, hclosed, hbound⟩
    · exact ⟨hlt, hquery⟩
    · exact hbound x hSx

theorem Arena.Complete.literal (h : (a.expr id).isLiteral = true) : a.Complete [id] := by
  refine .single (lt_size_of_isLiteral h) (fun q hq => ?_) fun y hy => ?_
  · rw [hq] at h
    cases h
  · rw [Expr.parts_of_not_isSubquery (Expr.isSubquery_of_isLiteral h), Expr.children_of_isLiteral h] at hy
    cases hy

theorem Arena.Complete.column {a : Arena} {id : ExprId} (hlt : id < a.size)
    (h : (a.expr id).column?.isSome = true) : a.Complete [id] := by
  cases he : a.expr id with
  | column =>
    refine .single hlt (fun q hq => ?_) fun y hy => ?_
    · rw [he] at hq
      cases hq
    · rw [he] at hy
      cases hy
  | _ => rw [he] at h; cases h

theorem Arena.Complete.setQuery (h : a.Complete ids) (hq : q.depth.isSome = true)
    (hexprs : a.Complete q.exprs) : (a.setQuery id q).Complete ids := by
  obtain ⟨S, hS, hclosed, hbound⟩ := h
  obtain ⟨S', hS', hclosed', hbound'⟩ := hexprs
  have hexpr : ∀ x, (a.setQuery id q).expr x = a.expr x ∨ (a.setQuery id q).expr x = .subquery q := by
    intro x
    by_cases hne : x = id
    · subst hne
      by_cases hs : (a.expr x).isSubquery = true
      · exact .inr (expr_setQuery_self q hs)
      · exact .inl (by rw [setQuery_of_not_isSubquery q (Bool.not_eq_true _ ▸ hs)])
    · exact .inl (expr_setQuery_of_ne _ hne)
  refine ⟨fun x => S x ∨ S' x, fun x hx => .inl (hS x hx), fun x hx y hy => ?_, fun x hx => ?_⟩
  · rcases hexpr x with heq | heq
    · rw [heq] at hy
      exact hx.imp (hclosed x · y hy) (hclosed' x · y hy)
    · rw [heq] at hy
      exact .inr (hS' y hy)
  · have hold : x < a.size ∧ ∀ q, a.expr x = .subquery q → q.depth.isSome = true :=
      hx.elim (hbound x) (hbound' x)
    refine ⟨by rw [size_setQuery]; exact hold.1, fun q0 hq0 => ?_⟩
    rcases hexpr x with heq | heq
    · exact hold.2 q0 (heq ▸ hq0)
    · rw [heq] at hq0
      cases hq0
      exact hq

/-- What bound subqueries mention is complete. -/
def Arena.Filled (a : Arena) : Prop :=
  ∀ x q, a.expr x = .subquery q → q.depth.isSome = true → a.Complete q.exprs

namespace Arena.Filled

variable {a' : Arena}

theorem adjust (h : a.Filled) (ha : Adjusts a a') : a'.Filled := fun x q hx hd =>
  (h x q (ha.bound_of hx hd) hd).evolve ha.toEvolves

theorem take (h : a.Filled) (he : a.expr id = .subquery q) (hq : q.depth = none) :
    (a.setQuery id {}).Filled := by
  intro x q0 hx hd
  have hne : x ≠ id := by
    rintro rfl
    rw [expr_setQuery_self {} (by rw [he]; rfl)] at hx
    cases hx
    cases hd
  rw [expr_setQuery_of_ne _ hne] at hx
  refine (h x q0 hx hd).evolve ⟨.of_setQuery a id {}, fun {y q1} hy hd => ?_⟩
  by_cases hne : y = id
  · rw [hne, he] at hy
    cases hy
    rw [hq] at hd
    cases hd
  · rwa [expr_setQuery_of_ne _ hne]

theorem put (h : a.Filled) (hq : q.depth.isSome = true) (hexprs : a.Complete q.exprs) :
    (a.setQuery id q).Filled := by
  intro x q0 hx hd
  refine Complete.setQuery ?_ hq hexprs
  by_cases hne : x = id
  · subst hne
    by_cases hs : (a.expr x).isSubquery = true
    · rw [expr_setQuery_self q hs] at hx
      cases hx
      exact hexprs
    · rw [setQuery_of_not_isSubquery q (Bool.not_eq_true _ ▸ hs)] at hx
      exact h x q0 hx hd
  · rw [expr_setQuery_of_ne _ hne] at hx
    exact h x q0 hx hd

end Arena.Filled

/-! ### Whole bindings -/

/-- The expressions of what a binding binds. -/
def BindTask.reached : BindTask → List ExprId
  | .expr id => [id]
  | .acts _ _ visited => visited
  | .roots ids | .items _ ids => ids
  | .source _ item => item.exprs
  | .sources _ refs => TableRef.exprsAll refs
  | .from_ _ ref => TableRef.exprsOpt ref
  | .entry _ c => c.query.exprs
  | .entries _ cs => Cte.exprsAll cs
  | .union _ right _ => Select.exprsOpt right
  | .branch _ _ q | .query _ q => q.exprs

theorem Arena.Complete.of_subquery (he : a.expr id = .subquery q) (hq : q.depth.isSome = true)
    (h : a.Complete q.exprs) : a.Complete [id] := by
  refine .single (lt_size_of_isSubquery (by rw [he]; rfl)) (fun q0 hq0 => ?_) fun y hy => ?_
  · rw [he] at hq0
    cases hq0
    exact hq
  · rw [he] at hy
    exact h.mono (cons_subset.mpr ⟨hy, nil_subset _⟩)

/-- **Every subquery that is reached from what a binding binds is bound.** -/
theorem Binds.complete {task : BindTask} {v v' : BindView} (h : Binds env task v v')
    (hready : task.Ready v.exprs) (hfilled : v.exprs.Filled) :
    v'.exprs.Filled ∧ v'.exprs.Complete task.reached := by
  induction h with
  | columnDone hlt he _ => exact ⟨hfilled, .column hlt (by rw [he]; rfl)⟩
  | columnFresh hlt he hres _ =>
    refine ⟨hfilled.adjust (adjusts_resolve he hres _ _ _), .column (by rwa [size_update]) ?_⟩
    rw [expr, node_update_self _ hlt]
    rfl
  | @subqueryDone id q t v _ he hq =>
    have hmark := adjusts_markSubquery v.exprs id t
    exact ⟨hfilled.adjust hmark, (Complete.of_subquery he hq (hfilled id q he hq)).evolve
      hmark.toEvolves⟩
  | @subqueryFresh id _ q' t _ v1 _ he hq hquery ih =>
    have hmark := adjusts_markSubquery (v1.exprs.setQuery id q') id t
    have hdepth := hquery.isSome_depth
    obtain ⟨hfilled1, hcomplete⟩ := ih trivial (hfilled.take he hq)
    have hput : (v1.exprs.setQuery id q').Complete q'.exprs := hcomplete.setQuery hdepth hcomplete
    exact ⟨(hfilled1.put hdepth hcomplete).adjust hmark,
      (Complete.of_subquery (hquery.expr_setQuery he) hdepth hput).evolve hmark.toEvolves⟩
  | @node id _ _ v' hlt _ hsub hacts hall ih =>
    have hprogress := hacts.progress ⟨hlt, .refl _⟩
    obtain ⟨hfilled', hcomplete⟩ := ih ⟨hlt, .refl _⟩ hfilled
    have hkind := hprogress.kind id hlt
    have hplain : (v'.exprs.expr id).isSubquery = false := hkind.isSubquery.trans hsub
    refine ⟨hfilled', .single (hlt.trans_le hprogress.size_le) (fun q hq => ?_) fun y hy => ?_⟩
    · rw [hq] at hplain
      cases hplain
    · rw [Expr.parts_of_not_isSubquery hplain] at hy
      rcases hkind.mem_children hy with hy | hy
      · exact hcomplete.mono (cons_subset.mpr ⟨hall y hy, nil_subset _⟩)
      · exact .literal hy
  | actsLocal hl _ ih =>
    have hstep := hl.adjusts hready.1 hready.2
    exact ih (hready.reshape hstep.toReshapes _) (hfilled.adjust hstep)
  | @actsVisit _ _ _ visited _ _ _ _ hvisit hrest ihc ih =>
    have hready := hready.reshape hvisit.reshapes visited
    obtain ⟨hfilled1, hfirst⟩ := ihc trivial hfilled
    obtain ⟨hfilled', hothers⟩ := ih hready hfilled1
    exact ⟨hfilled', (hfirst.evolve (hrest.evolves hready)).append hothers⟩
  | rootsCons hroot hrest ih ih' | itemsRoot _ hroot hrest ih ih' =>
    obtain ⟨hfilled1, hfirst⟩ := ih trivial hfilled
    have hfinish := adjusts_finish hroot.progress.finished
    have hlater := hrest.evolves
    have ih' := ih' trivial
    dsimp only at hlater ih'
    obtain ⟨hfilled', hothers⟩ := ih' (hfilled1.adjust hfinish)
    exact ⟨hfilled', ((hfirst.evolve hfinish.toEvolves).evolve hlater).append hothers⟩
  | @itemsStar _ _ _ _ scope _ tables v _ _ _ _ hrest ih =>
    have hpush := Adjusts.of_appends (v.exprs.appends_starNodes scope.depth tables)
    obtain ⟨hfilled', hothers⟩ := ih trivial (hfilled.adjust hpush)
    refine ⟨hfilled', .append (Complete.evolve ?_ hrest.evolves) hothers⟩
    refine .of_forall fun x hx => ?_
    rw [mem_range'_1, ← size_pushAll] at hx
    obtain ⟨_, _, c, _, hnode⟩ := node_pushAll_starNodes hx.1 hx.2
    refine .column hx.2 ?_
    rw [expr, hnode]
    rfl
  | table halias _ hscope =>
    rw [hscope.exprs_eq, halias.exprs_eq]
    exact ⟨hfilled, .nil _⟩
  | derived halias _ hnames hscope ih =>
    rw [halias.exprs_eq] at ih
    obtain ⟨hfilled2, hcomplete⟩ := ih trivial hfilled
    rw [hscope.exprs_eq]
    exact ⟨hfilled2.adjust hnames.adjusts, hcomplete.evolve hnames.adjusts.toEvolves⟩
  | join _ hr hc ihl ihr ihc =>
    obtain ⟨hfilled1, hleft⟩ := ihl trivial hfilled
    obtain ⟨hfilled2, hright⟩ := ihr trivial hfilled1
    obtain ⟨hfilled3, hcondition⟩ := ihc trivial hfilled2
    have hr := hr.evolves
    have hc := hc.evolves
    exact ⟨hfilled3, (((hleft.evolve hr).evolve hc).append (hright.evolve hc)).append hcondition⟩
  | list _ ih | fromSome _ ih | unionSome _ _ ih | query _ ih => exact ih trivial hfilled
  | sourcesCons _ hrest ih ih' =>
    obtain ⟨hfilled1, hfirst⟩ := ih trivial hfilled
    obtain ⟨hfilled', hothers⟩ := ih' trivial hfilled1
    exact ⟨hfilled', (hfirst.evolve hrest.evolves).append hothers⟩
  | entryPlain _ _ _ hnames hscope ih =>
    obtain ⟨hfilled1, hcomplete⟩ := ih trivial hfilled
    rw [hscope.exprs_eq]
    exact ⟨hfilled1.adjust hnames.adjusts, hcomplete.evolve hnames.adjusts.toEvolves⟩
  | entryInductive _ _ _ hnames hscope _ ih ih' =>
    obtain ⟨hfilled1, _⟩ := ih trivial hfilled
    rw [hscope.exprs_eq] at ih'
    exact ih' trivial (hfilled1.adjust hnames.adjusts)
  | @entriesCons _ _ _ _ _ _ _ _ hrest ih ih' =>
    obtain ⟨hfilled1, hfirst⟩ := ih trivial hfilled
    obtain ⟨hfilled', hothers⟩ := ih' trivial hfilled1
    refine ⟨hfilled', ?_⟩
    rw [BindTask.reached, Cte.exprsAll_cons]
    exact (hfirst.evolve hrest.evolves).append hothers
  | branch _ hf hr hi hu _ ho _ ihe ihf ihr ihi ihu iho =>
    obtain ⟨hfilled1, hentries⟩ := ihe trivial hfilled
    obtain ⟨hfilled2, hfrom⟩ := ihf trivial hfilled1
    obtain ⟨hfilled3, hroots⟩ := ihr trivial hfilled2
    obtain ⟨hfilled4, hitems⟩ := ihi trivial hfilled3
    obtain ⟨hfilled5, hunion⟩ := ihu trivial hfilled4
    obtain ⟨hfilled6, hordering⟩ := iho trivial hfilled5
    have ho := ho.evolves
    have hu := hu.evolves.trans ho
    have hi := hi.evolves.trans hu
    have hr := hr.evolves.trans hi
    have hf := hf.evolves.trans hr
    refine ⟨hfilled6, ?_⟩
    rw [BindTask.reached, Select.exprs_eq]
    refine .append (.append ?_ hordering) (hunion.evolve ho)
    rw [append_assoc]
    exact (((hentries.evolve hf).append (hitems.evolve hu)).append (hfrom.evolve hr)).append
      (hroots.evolve hi)
  | _ => exact ⟨hfilled, .nil _⟩

end SqlAnalysis
