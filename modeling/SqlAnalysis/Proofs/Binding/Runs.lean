import SqlAnalysis.Proofs.Binding.Derivation

/-!
# Runs of the binding

Every run that ends well has a derivation.  Each computation has one lemma, which takes the run apart
with the lemmas for single steps and puts it together by the rules of `Binds`; later modules argue by
induction on derivations and need not look at runs.

A derivation only sees part of the state (`BindState.view`), so steps that set expectations or values of
parameters disappear.  The work on a node is a row of local changes and visits of operands in any order,
because operands of comparisons and calls are visited twice (`Acts`); in the end every operand was visited
(`ActsAll`).  Of the binding of nested parts no more is used than that it has derivations itself
(`Recur.Derived`), so the levels are a plain induction at the end.

* **`bindExprWith_binds`**, **`bindSource_binds`**, **`bindBranchWith_binds`**: one level of the
  binding, clause by clause.
* **`recurTo_derived`**: all levels.
-/

namespace SqlAnalysis

open Text BindM List Arena

variable {id c left right operand : ExprId} {s s' : BindState} {u : Unit} {clause : String}
  {v v' v'' : BindView} {a : Arena} {t : SqlType} {op : Operator} {operands ids items : List ExprId}
  {branches : List (ExprId × ExprId)} {q q' : Select} {hasSource : Bool} {column : DerivedColumn}
  {columns : List DerivedColumn} {c' : Cte} {depth : Nat}

/-! ### Steps that the rules do not see -/

theorem view_of_expectBooleanLiteral (h : expectBooleanLiteral id s = .ok u s') :
    s'.view = s.view := by
  simp only [expectBooleanLiteral, run_bind, run_isLiteral] at h
  obtain ⟨b, _, ⟨_, rfl⟩, h⟩ := h
  cases b with
  | true => exact (run_expect.mp h) ▸ rfl
  | false => exact (run_pure.mp h).2 ▸ rfl

theorem view_of_expectPair {l r : ExprId} (h : expectPair l r s = .ok u s') : s'.view = s.view := by
  simp only [expectPair, run_bind, run_get, run_ofExcept, run_set] at h
  obtain ⟨_, _, ⟨rfl, rfl⟩, _, _, ⟨hx, rfl⟩, rfl⟩ := h
  unfold Expectations.expectPair at hx
  cases hp : s.expectations.pairType s.exprs l r with
  | error => rw [hp] at hx; cases hx
  | ok =>
    rw [hp] at hx
    cases hx
    rfl

theorem state_of_requireBoolean (h : requireBoolean id clause s = .ok u s') : s' = s := by
  simp only [requireBoolean, run_bind, run_typeOf] at h
  obtain ⟨_, _, ⟨_, rfl⟩, h⟩ := h
  split at h
  · simp at h
  · exact (run_pure.mp h).2.symm

/-! ### Expressions -/

/-- How nested parts are bound is described by derivations. -/
structure Recur.Derived (env : Accessor) (rec : Recur) : Prop where
  expr : ∀ {id s u s'}, rec.expr id s = .ok u s' → Binds env (.expr id) s.view s'.view
  query : ∀ {q s q' s'}, rec.query q s = .ok q' s' → Binds env (.query q q') s.view s'.view
  branch : ∀ {q depth s q' s'}, rec.branch q depth s = .ok q' s' →
    Binds env (.branch q depth q') s.view s'.view

section

variable {env : Accessor} {rec : Recur} {e : Expr}

def Acts (env : Accessor) (id : ExprId) (e : Expr) (v v' : BindView) : Prop :=
  ∃ visited, Binds env (.acts id e visited) v v'

theorem Binds.acts_append {visited visited' : List ExprId} (h : Binds env (.acts id e visited) v v')
    (h' : Binds env (.acts id e visited') v' v'') :
    Binds env (.acts id e (visited ++ visited')) v v'' := by
  generalize ht : BindTask.acts id e visited = task at h
  induction h generalizing visited with
  | actsNil => cases ht; exact h'
  | actsLocal hl _ ih => cases ht; exact .actsLocal hl (ih h' rfl)
  | actsVisit hc hv _ _ ih => cases ht; exact .actsVisit hc hv (ih h' rfl)
  | _ => cases ht

theorem Acts.refl (v : BindView) : Acts env id e v v := ⟨[], .actsNil⟩

theorem Acts.of_pure {α : Type} {x y : α} (h : (pure x : BindM α) s = .ok y s') :
    Acts env id e s.view s'.view := by
  rw [(run_pure.mp h).2]
  exact .refl _

theorem Acts.trans (h : Acts env id e v v') (h' : Acts env id e v' v'') : Acts env id e v v'' := by
  obtain ⟨vs, h⟩ := h
  obtain ⟨ws, h'⟩ := h'
  exact ⟨vs ++ ws, h.acts_append h'⟩

theorem Acts.local (h : LocalChange id e v.exprs a) : Acts env id e v { v with exprs := a } :=
  ⟨[], .actsLocal h .actsNil⟩

theorem Binds.acts_visit (hc : c ∈ e.children) (h : Binds env (.expr c) v v') :
    Binds env (.acts id e [c]) v v' :=
  .actsVisit hc h .actsNil

theorem Acts.setType (he : ∀ v, e ≠ .constant v) (hstar : e.isStar = false) (h : BindM.setType id t s = .ok u s') :
    Acts env id e s.view s'.view := by
  rw [run_setType] at h
  subst h
  exact .local (.type t hstar fun v hv => absurd hv (he v))

theorem acts_visitAll (hrec : rec.Derived env) {cs : List ExprId} (hc : ∀ c ∈ cs, c ∈ e.children)
    (h : cs.forM rec.expr s = .ok u s') : Binds env (.acts id e cs) s.view s'.view := by
  induction cs generalizing s with
  | nil =>
    rw [run_forM_nil] at h
    subst h
    exact .actsNil
  | cons c _ ih =>
    rw [run_forM_cons] at h
    obtain ⟨_, hfirst, hrest⟩ := h
    exact .actsVisit (hc c mem_cons_self) (hrec.expr hfirst)
      (ih (fun c' hc' => hc c' (mem_cons_of_mem _ hc')) hrest)

theorem acts_forM {α : Type} {f : α → BindM Unit} {xs : List α}
    (hf : ∀ x ∈ xs, ∀ {s s' : BindState} {u : Unit}, f x s = .ok u s' → Acts env id e s.view s'.view)
    (h : xs.forM f s = .ok u s') : Acts env id e s.view s'.view := by
  induction xs generalizing s with
  | nil =>
    rw [run_forM_nil] at h
    subst h
    exact .refl _
  | cons x _ ih =>
    rw [run_forM_cons] at h
    obtain ⟨_, hfirst, hrest⟩ := h
    exact (hf x mem_cons_self hfirst).trans
      (ih (fun x' hx' => hf x' (mem_cons_of_mem _ hx')) hrest)

theorem convertLiteral_acts (hrec : rec.Derived env) (hc : c ∈ e.children)
    (h : convertLiteral rec t c s = .ok u s') : Acts env id e s.view s'.view := by
  simp only [convertLiteral, run_bind, run_isLiteral, run_typeOf] at h
  obtain ⟨_, _, ⟨_, rfl⟩, _, _, ⟨_, rfl⟩, h⟩ := h
  split at h
  · rw [run_bind] at h
    obtain ⟨_, _, hexpect, hvisit⟩ := h
    rw [run_expect] at hexpect
    subst hexpect
    have hvisit := hrec.expr hvisit
    exact ⟨_, .acts_visit hc hvisit⟩
  · exact .of_pure h

theorem dropLiteralCast_acts {op : CompareOp} (he : e = .compare op left right)
    (ho : operand = left ∨ operand = right) (h : dropLiteralCast id operand s = .ok u s') :
    Acts env id e s.view s'.view := by
  simp only [dropLiteralCast, run_bind, run_exprOf] at h
  obtain ⟨_, _, ⟨he', rfl⟩, h⟩ := h
  split at h
  · rename_i t inner
    simp only [run_bind, run_isLiteral] at h
    obtain ⟨_, _, ⟨hb, rfl⟩, h⟩ := h
    split at h
    · rename_i hlit
      rw [run_modifyExprs] at h
      subst h
      exact .local (.cast he ho he' (hb.trans hlit))
    · exact .of_pure h
  · exact .of_pure h

/-! One lemma for each kind of expression: its work visits all operands. -/

/-- The work on a node in which every operand is bound. -/
def ActsAll (env : Accessor) (id : ExprId) (e : Expr) (v v' : BindView) : Prop :=
  ∃ visited, Binds env (.acts id e visited) v v' ∧ ∀ c ∈ e.children, c ∈ visited

theorem ActsAll.of_visits (h : Binds env (.acts id e e.children) v v') (h' : Acts env id e v' v'') :
    ActsAll env id e v v'' := by
  obtain ⟨ws, h'⟩ := h'
  exact ⟨e.children ++ ws, h.acts_append h', fun c hc => mem_append_left _ hc⟩

theorem ActsAll.of_leaf (he : e.children = []) (h : Acts env id e v v') :
    ActsAll env id e v v' := by
  obtain ⟨vs, h⟩ := h
  exact ⟨vs, h, by simp [he]⟩

theorem bindConstant_acts {w : Value} (he : s.exprs.expr id = .constant w)
    (h : bindConstant id w s = .ok u s') : ActsAll env id (.constant w) s.view s'.view := by
  refine .of_leaf rfl ?_
  simp only [bindConstant, run_bind, run_expectedOf] at h
  obtain ⟨_, _, ⟨_, rfl⟩, h⟩ := h
  split at h
  · rename_i hvalid
    simp only [run_bind, run_ofExcept, run_modifyExprs] at h
    obtain ⟨_, _, ⟨hpromote, rfl⟩, rfl⟩ := h
    exact .local (.constant rfl he hpromote (Value.conforms_of_promote hvalid hpromote))
  · split at h
    · rw [run_setType] at h
      subst h
      refine .local (.type _ rfl fun v hv => ?_)
      cases hv
      exact ⟨he, Value.conforms_of_sqlType rfl⟩
    · exact .of_pure h

theorem run_bindParameter {index : Nat} (h : bindParameter id index s = .ok u s') :
    ∃ w t, t = (if (s.expectations.expectedOf id).isValid then s.expectations.expectedOf id
      else w.sqlType) ∧ { s with
        parameters := s.parameters.set index w
        exprs := s.exprs.setType id t
        expectations := s.expectations.setParameterType index t } = s' := by
  simp only [bindParameter, run_bind, run_get] at h
  obtain ⟨_, _, ⟨rfl, rfl⟩, h⟩ := h
  cases hp : s.parameters[index]? with
  | none =>
    simp [hp] at h
  | some =>
    simp only [hp, run_bind, run_expectedOf, run_ofExcept, run_modify] at h
    obtain ⟨_, _, ⟨rfl, rfl⟩, w, _, ⟨_, rfl⟩, h⟩ := h
    exact ⟨w, _, rfl, h⟩

theorem bindParameter_acts {index : Nat} (h : bindParameter id index s = .ok u s') :
    ActsAll env id (.parameter index) s.view s'.view := by
  obtain ⟨_, _, _, rfl⟩ := run_bindParameter h
  exact .of_leaf rfl (.local (.type _ rfl fun _ hv => nomatch hv))

theorem bindComparison_acts (hrec : rec.Derived env) {op : CompareOp}
    (h : bindComparison rec id left right s = .ok u s') :
    ActsAll env id (.compare op left right) s.view s'.view := by
  simp only [bindComparison, run_bind, run_checkExpected] at h
  obtain ⟨_, _, hl, _, _, hr, _, _, ht, _, _, ⟨_, rfl⟩, _, _, hpair, _, _, hl', _, _, hr', _, _,
    hdl, hdr⟩ := h
  have hleft : left ∈ (Expr.compare op left right).children := mem_cons_self
  have hright : right ∈ (Expr.compare op left right).children := by simp [Expr.children]
  have hl := hrec.expr hl
  have hr := hrec.expr hr
  have hl' := hrec.expr hl'
  have hr' := hrec.expr hr'
  rw [view_of_expectPair hpair] at hl'
  refine .of_visits (.actsVisit hleft hl (.acts_visit hright hr)) ?_
  refine (Acts.setType (by rintro _ ⟨⟩) rfl ht).trans
    (Acts.trans ⟨_, .actsVisit hleft hl' (.acts_visit hright hr')⟩ ?_)
  exact (dropLiteralCast_acts rfl (.inl rfl) hdl).trans (dropLiteralCast_acts rfl (.inr rfl) hdr)

theorem bindConnective_acts (hrec : rec.Derived env) {op : Connective}
    (h : bindConnective rec id operands s = .ok u s') :
    ActsAll env id (.connect op operands) s.view s'.view := by
  simp only [bindConnective, run_bind, run_checkExpected] at h
  obtain ⟨_, _, hall, _, _, ht, _, _, ⟨_, rfl⟩, hagain⟩ := h
  refine .of_visits (acts_visitAll hrec (fun c hc => hc) hall) ((Acts.setType (by rintro _ ⟨⟩) rfl ht).trans ?_)
  refine acts_forM (fun c hc {s s' u} h => ?_) hagain
  simp only [run_bind, run_expect] at h
  obtain ⟨_, _, rfl, h⟩ := h
  have h := hrec.expr h
  exact ⟨_, .acts_visit hc h⟩

theorem singleOperand_run (h : singleOperand op operands s = .ok operand s') :
    operands = [operand] ∧ s = s' := by
  unfold singleOperand at h
  split at h
  · obtain ⟨rfl, rfl⟩ := run_pure.mp h
    exact ⟨rfl, rfl⟩
  · simp at h

theorem bindArithmetic_acts (hrec : rec.Derived env)
    (h : bindArithmetic rec op left right s = .ok t s') :
    Acts env id (.operate op [left, right]) s.view s'.view := by
  simp only [bindArithmetic, run_bind, run_typeOf] at h
  obtain ⟨t1, _, ⟨_, rfl⟩, t2, _, ⟨_, rfl⟩, h⟩ := h
  cases hcommon : t1.common? t2 with
  | none =>
    simp [hcommon] at h
  | some =>
    rw [hcommon] at h
    dsimp only at h
    split at h
    · simp at h
    · simp only [run_bind, run_pure] at h
      obtain ⟨_, _, hl, _, _, hr, _, rfl⟩ := h
      exact (convertLiteral_acts hrec (by simp [Expr.children]) hl).trans
        (convertLiteral_acts hrec (by simp [Expr.children]) hr)

theorem run_mapM_typeOf (ids : List ExprId) (s : BindState) :
    ids.mapM typeOf s = .ok (ids.map s.exprs.typeOf) s := by
  induction ids with
  | nil => exact run_mapM_nil.mpr ⟨rfl, rfl⟩
  | cons _ _ ih =>
    exact run_mapM_cons.mpr ⟨_, s, _, run_typeOf.mpr ⟨rfl, rfl⟩, ih, rfl⟩

theorem state_of_mapM_typeOf {types : List SqlType} (h : ids.mapM typeOf s = .ok types s') :
    s = s' := by
  cases (run_mapM_typeOf ids s).symm.trans h
  rfl

section

variable (hrec : rec.Derived env)

include hrec

theorem operationType_acts (h : operationType rec op operands s = .ok t s') :
    Acts env id (.operate op operands) s.view s'.view := by
  unfold operationType at h
  cases op with
  | not =>
    simp only [run_bind, run_expect, run_pure] at h
    obtain ⟨operand, _, hone, _, _, rfl, _, _, hvisit, _, rfl⟩ := h
    obtain ⟨rfl, rfl⟩ := singleOperand_run hone
    have hvisit := hrec.expr hvisit
    exact ⟨_, .acts_visit mem_cons_self hvisit⟩
  | isNull | isNotNull | «exists» =>
    exact .of_pure h
  | negate =>
    simp only [run_bind, run_typeOf] at h
    obtain ⟨_, _, hone, _, _, ⟨_, rfl⟩, h⟩ := h
    obtain ⟨rfl, rfl⟩ := singleOperand_run hone
    split at h
    · simp at h
    · exact .of_pure h
  | plus | minus | multiply | divide | modulo =>
    dsimp only at h
    split at h
    · exact bindArithmetic_acts hrec h
    · simp at h

theorem bindOperation_acts (h : bindOperation rec id op operands s = .ok u s') :
    ActsAll env id (.operate op operands) s.view s'.view := by
  simp only [bindOperation, run_bind, run_checkExpected] at h
  obtain ⟨_, _, hall, _, _, htype, _, _, ht, _, rfl⟩ := h
  refine .of_visits (acts_visitAll hrec (fun c hc => hc) hall) ?_
  exact (operationType_acts hrec htype).trans (.setType (by rintro _ ⟨⟩) rfl ht)

theorem bindCall_acts {name : String} {args : List ExprId} {procId : Oid}
    (h : bindCall env rec id name args s = .ok u s') :
    ActsAll env id (.call name args procId) s.view s'.view := by
  simp only [bindCall, run_bind] at h
  obtain ⟨_, s1, hall, types, s2, htypes, h⟩ := h
  obtain rfl : s1 = s2 := state_of_mapM_typeOf htypes
  refine .of_visits (acts_visitAll hrec (fun c hc => hc) hall) ?_
  cases hroutine : env.routine? (lowercase name) types with
  | none =>
    simp [hroutine] at h
  | some =>
    simp only [hroutine, run_bind, run_modifyExprs, run_checkExpected] at h
    obtain ⟨_, _, hconvert, _, _, rfl, _, rfl⟩ := h
    refine Acts.trans (acts_forM (fun x hx {s s' u} h => ?_) hconvert) (.local (.call _ _ rfl))
    exact convertLiteral_acts hrec (of_mem_zip hx).1 h

theorem bindAggregate_acts {f : Aggregate} {arg : Option ExprId}
    {distinct : Bool} (h : bindAggregate rec id f arg s = .ok u s') :
    ActsAll env id (.aggregate f arg distinct) s.view s'.view := by
  simp only [bindAggregate, run_bind] at h
  obtain ⟨t, s1, harg, h⟩ := h
  have hvisit : Binds env (.acts id (.aggregate f arg distinct) arg.toList) s.view s1.view := by
    cases arg with
    | none =>
      unfold bindAggregateArg at harg
      dsimp only at harg
      split at harg
      · obtain ⟨_, rfl⟩ := run_pure.mp harg
        exact .actsNil
      · simp at harg
    | some =>
      simp only [bindAggregateArg, run_bind, run_get] at harg
      obtain ⟨_, _, hc, _, _, ⟨rfl, rfl⟩, harg⟩ := harg
      split at harg
      · simp at harg
      · obtain ⟨_, rfl⟩ := run_typeOf.mp harg
        exact .acts_visit mem_cons_self (hrec.expr hc)
  refine .of_visits hvisit ?_
  cases hresult : f.resultType? t with
  | none =>
    simp [hresult] at h
  | some =>
    simp only [hresult, run_bind, run_checkExpected] at h
    obtain ⟨_, _, ht, _, rfl⟩ := h
    exact .setType (by rintro _ ⟨⟩) rfl ht

theorem bindCast_acts {target : SqlType}
    (h : bindCast rec id target operand s = .ok u s') :
    ActsAll env id (.cast target operand) s.view s'.view := by
  simp only [bindCast, run_bind, run_isLiteral] at h
  obtain ⟨b, _, ⟨_, rfl⟩, h⟩ := h
  have hmem : operand ∈ (Expr.cast target operand).children := mem_cons_self
  cases b with
  | true =>
    simp only [if_true, run_bind, run_expect, run_checkExpected] at h
    obtain ⟨_, _, rfl, _, s1, hvisit, _, _, ht, _, rfl⟩ := h
    have hvisit := hrec.expr hvisit
    exact .of_visits (.acts_visit hmem hvisit) (.setType (by rintro _ ⟨⟩) rfl ht)
  | false =>
    simp only [Bool.false_eq_true, if_false, run_bind, run_typeOf] at h
    obtain ⟨_, _, hvisit, _, _, ⟨_, rfl⟩, h⟩ := h
    refine .of_visits (.acts_visit hmem (hrec.expr hvisit)) ?_
    split at h
    · simp at h
    · simp only [run_bind, run_checkExpected] at h
      obtain ⟨_, _, ht, _, rfl⟩ := h
      exact .setType (by rintro _ ⟨⟩) rfl ht

theorem branches_acts (hc : ∀ c ∈ branches.flatMap (fun x => [x.1, x.2]), c ∈ e.children)
    (h : (branches.forM fun (condition, result) => do
      expectBooleanLiteral condition
      rec.expr condition
      requireBoolean condition "CASE/WHEN"
      rec.expr result : BindM Unit) s = .ok u s') :
    Binds env (.acts id e (branches.flatMap fun x => [x.1, x.2])) s.view s'.view := by
  induction branches generalizing s with
  | nil =>
    rw [run_forM_nil] at h
    subst h
    exact .actsNil
  | cons _ _ ih =>
    rw [run_forM_cons] at h
    obtain ⟨_, hfirst, hrest⟩ := h
    simp only [run_bind] at hfirst
    obtain ⟨_, _, hexpect, _, _, hcond, _, _, hbool, hresult⟩ := hfirst
    obtain rfl := state_of_requireBoolean hbool
    have hcond := hrec.expr hcond
    rw [view_of_expectBooleanLiteral hexpect] at hcond
    rw [flatMap_cons] at hc ⊢
    refine .actsVisit (hc _ (by simp)) hcond (.actsVisit (hc _ (by simp)) (hrec.expr hresult) ?_)
    exact ih (fun c hc' => hc c (mem_append_right _ hc')) hrest

theorem bindCase_acts {otherwise : Option ExprId}
    (h : bindCase rec id branches otherwise s = .ok u s') :
    ActsAll env id (.case branches otherwise) s.view s'.view := by
  simp only [bindCase, run_bind, run_ofExcept, run_checkExpected] at h
  obtain ⟨_, s1, hbranches, _, _, hother, _, _, htypes, _, _, ⟨_, rfl⟩, _, _, hconvert, _, _, ht, _,
    rfl⟩ := h
  obtain rfl := state_of_mapM_typeOf htypes
  have hchildren : (Expr.case branches otherwise).children =
    branches.flatMap (fun x => [x.1, x.2]) ++ otherwise.toList := rfl
  have hvisits : Binds env (.acts id (.case branches otherwise)
      (branches.flatMap fun x => [x.1, x.2])) s.view s1.view := by
    refine branches_acts hrec (fun c hc => ?_) hbranches
    rw [hchildren]
    exact mem_append_left _ hc
  refine .of_visits (hvisits.acts_append (acts_visitAll hrec (fun c hc => ?_) hother)) ?_
  · rw [hchildren]
    exact mem_append_right _ hc
  refine Acts.trans (acts_forM (fun c hc {s s' u} h => ?_) hconvert) (.setType (by rintro _ ⟨⟩) rfl ht)
  refine convertLiteral_acts hrec ?_ h
  rw [hchildren]
  rcases mem_append.mp hc with hc | hc
  · obtain ⟨x, hx, rfl⟩ := mem_map.mp hc
    exact mem_append_left _ (mem_flatMap.mpr ⟨x, hx, by simp⟩)
  · exact mem_append_right _ hc

end

theorem state_of_bindStar (h : bindStar s = .ok u s') : s = s' := by
  simp only [bindStar, run_bind, run_currentScope] at h
  obtain ⟨_, _, ⟨_, rfl⟩, h⟩ := h
  split at h
  · simp at h
  · exact (run_pure.mp h).2

theorem view_of_expectOwn (h : (do
      if !(← expectedOf id).isValid then
        expect id (← typeOf id)
      checkExpected id : BindM Unit) s = .ok u s') : s'.view = s.view := by
  simp only [run_bind, run_expectedOf] at h
  obtain ⟨_, _, ⟨_, rfl⟩, h⟩ := h
  split at h
  · simp only [run_bind, run_typeOf, run_expect, run_checkExpected] at h
    obtain ⟨_, _, ⟨_, rfl⟩, _, _, rfl, _, rfl⟩ := h
    rfl
  · rw [(run_checkExpected.mp h).2]

theorem bindColumn_binds {ref : ColumnRef} (hid : id < s.exprs.size)
    (he : s.exprs.expr id = .column ref) (h : bindColumn id ref s = .ok u s') :
    Binds env (.expr id) s.view s'.view := by
  unfold bindColumn at h
  cases hres : ref.isResolved with
  | true =>
    rw [hres] at h
    rw [view_of_expectOwn h]
    exact .columnDone hid he hres
  | false =>
    rw [hres, Bool.not_false, if_pos rfl, run_get_bind, run_bind] at h
    obtain ⟨_, _, hfound, h⟩ := h
    obtain ⟨hc, rfl⟩ := run_ofExcept.mp hfound
    obtain ⟨_, _, hmod, h⟩ := run_bind.mp h
    rw [run_modifyExprs] at hmod
    subst hmod
    rw [view_of_expectOwn h]
    exact .columnFresh hid he hres hc

theorem view_withExprs (s : BindState) (a : Arena) :
    ({ s with exprs := a } : BindState).view = { s.view with exprs := a } := rfl

theorem markSubquery_view (h : (do
      let t ← match q.items with
        | first :: _ => typeOf first
        | [] => pure .invalid
      modifyExprs (·.update id ({ · with type := t, hasSubquery := true }))
      checkExpected id : BindM Unit) s = .ok u s') :
    ∃ t, s'.view = { s.view with exprs := s.exprs.update id fun n =>
        { n with type := t, hasSubquery := true } } := by
  cases hitems : q.items with
  | nil =>
    simp only [hitems, run_bind, run_pure, run_modifyExprs, run_checkExpected] at h
    obtain ⟨t, _, ⟨_, rfl⟩, _, _, rfl, _, rfl⟩ := h
    exact ⟨t, rfl⟩
  | cons =>
    simp only [hitems, run_bind, run_typeOf, run_modifyExprs, run_checkExpected] at h
    obtain ⟨t, _, ⟨_, rfl⟩, _, _, rfl, _, rfl⟩ := h
    exact ⟨t, rfl⟩

theorem bindSubquery_binds (hrec : rec.Derived env) (hid : id < s.exprs.size)
    (he : s.exprs.expr id = .subquery q) (h : bindSubquery rec id q s = .ok u s') :
    Binds env (.expr id) s.view s'.view := by
  unfold bindSubquery at h
  cases hdepth : q.depth with
  | some =>
    rw [hdepth, Option.isSome_some, if_pos rfl, run_bind] at h
    obtain ⟨_, _, hpure, h⟩ := h
    obtain ⟨rfl, rfl⟩ := run_pure.mp hpure
    obtain ⟨t, hview⟩ := markSubquery_view h
    rw [hview]
    exact .subqueryDone hid he (by rw [hdepth]; rfl)
  | none =>
    rw [hdepth, Option.isSome_none, if_neg (by simp), run_bind] at h
    obtain ⟨_, _, hopen, h⟩ := h
    rw [run_modifyExprs] at hopen
    subst hopen
    obtain ⟨q', s1, hquery, h⟩ := run_bind.mp h
    obtain ⟨_, _, hclose, h⟩ := run_bind.mp h
    rw [run_modifyExprs] at hclose
    subst hclose
    obtain ⟨_, _, hpure, h⟩ := run_bind.mp h
    obtain ⟨rfl, rfl⟩ := run_pure.mp hpure
    obtain ⟨t, hview⟩ := markSubquery_view h
    have hquery : Binds env (.query q q') { s.view with exprs := s.view.exprs.setQuery id {} } s1.view :=
      hrec.query hquery
    have hbinds := Binds.subqueryFresh (v := s.view) (t := t) hid he hdepth hquery
    rw [hview]
    exact hbinds

theorem bindExprWith_binds (hrec : rec.Derived env) (h : bindExprWith env rec id s = .ok u s') :
    Binds env (.expr id) s.view s'.view := by
  simp only [bindExprWith, run_bind, run_getNode] at h
  obtain ⟨n, _, ⟨hn, rfl⟩, h⟩ := h
  have hid := lt_size_of_node? hn
  have hkind : s.exprs.expr id = n.kind := by rw [expr, node_of_node? hn]
  have hnode {e : Expr} (he : s.exprs.expr id = e) (hcol : e.column? = none) (hsub : e.isSubquery = false)
      (hacts : ActsAll env id e s.view s'.view) : Binds env (.expr id) s.view s'.view := by
    subst he
    obtain ⟨_, hacts, hall⟩ := hacts
    exact .node hid hcol hsub hacts hall
  generalize n.kind = e at hkind h
  cases e with
  | constant => exact hnode hkind rfl rfl (bindConstant_acts hkind h)
  | parameter => exact hnode hkind rfl rfl (bindParameter_acts h)
  | column => exact bindColumn_binds hid hkind h
  | star | tableStar =>
    rw [state_of_bindStar h] at hnode ⊢
    exact hnode (state_of_bindStar h ▸ hkind) rfl rfl (.of_leaf rfl (.refl _))
  | compare => exact hnode hkind rfl rfl (bindComparison_acts hrec h)
  | connect => exact hnode hkind rfl rfl (bindConnective_acts hrec h)
  | operate => exact hnode hkind rfl rfl (bindOperation_acts hrec h)
  | call => exact hnode hkind rfl rfl (bindCall_acts hrec h)
  | aggregate => exact hnode hkind rfl rfl (bindAggregate_acts hrec h)
  | cast => exact hnode hkind rfl rfl (bindCast_acts hrec h)
  | case => exact hnode hkind rfl rfl (bindCase_acts hrec h)
  | subquery => exact bindSubquery_binds hrec hid hkind h
  | default => simp at h

/-! ### Clauses -/

def RootStep (env : Accessor) (id : ExprId) (v v' : BindView) : Prop :=
  ∃ v1, Binds env (.expr id) v v1 ∧ v' = { v1 with exprs := v1.exprs.finish id }

theorem RootStep.exprs (h : RootStep env id v v') :
    ∃ v1, Binds env (.expr id) v v1 ∧ v'.exprs = v1.exprs.finish id := by
  obtain ⟨v1, hbinds, hv⟩ := h
  exact ⟨v1, hbinds, by rw [hv]⟩

theorem view_finishExpr (h : finishExpr id s = .ok u s') :
    s'.view = { s.view with exprs := s.view.exprs.finish id } := by
  have hfinish : finishExpr id = BindM.modifyExprs (·.finish id) := rfl
  rw [hfinish, run_modifyExprs] at h
  rw [← h, view_withExprs, show s.view.exprs = s.exprs from rfl]

theorem bindItem_root (hrec : rec.Derived env) (h : bindItem rec id s = .ok u s') :
    RootStep env id s.view s'.view := by
  rw [bindItem, run_bind] at h
  obtain ⟨_, _, hexpr, hfinish⟩ := h
  exact ⟨_, hrec.expr hexpr, view_finishExpr hfinish⟩

theorem bindPredicate_root (hrec : rec.Derived env) (h : bindPredicate rec clause id s = .ok u s') :
    RootStep env id s.view s'.view := by
  simp only [bindPredicate, run_bind, run_get] at h
  obtain ⟨_, _, hexpect, _, _, hexpr, _, _, ⟨rfl, rfl⟩, h⟩ := h
  have hexpr := hrec.expr hexpr
  rw [view_of_expectBooleanLiteral hexpect] at hexpr
  split at h
  · simp at h
  · rw [run_bind] at h
    obtain ⟨_, _, hbool, hfinish⟩ := h
    obtain rfl := state_of_requireBoolean hbool
    exact ⟨_, hexpr, view_finishExpr hfinish⟩

theorem binds_roots {f : ExprId → BindM Unit}
    (hf : ∀ id ∈ ids, ∀ {s s' : BindState} {u : Unit}, f id s = .ok u s' →
      RootStep env id s.view s'.view) (h : ids.forM f s = .ok u s') :
    Binds env (.roots ids) s.view s'.view := by
  induction ids generalizing s with
  | nil =>
    rw [run_forM_nil] at h
    subst h
    exact .rootsNil
  | cons id _ ih =>
    rw [run_forM_cons] at h
    obtain ⟨_, hfirst, hrest⟩ := h
    obtain ⟨_, hexpr, hv⟩ := hf id mem_cons_self hfirst
    have hrest := ih (fun id' hid' => hf id' (mem_cons_of_mem _ hid')) hrest
    rw [hv] at hrest
    exact .rootsCons hexpr hrest

theorem Binds.roots_append {ids' : List ExprId} (h : Binds env (.roots ids) v v')
    (h' : Binds env (.roots ids') v' v'') : Binds env (.roots (ids ++ ids')) v v'' := by
  generalize ht : BindTask.roots ids = task at h
  induction h generalizing ids with
  | rootsNil => cases ht; exact h'
  | rootsCons hexpr _ _ ih => cases ht; exact .rootsCons hexpr (ih h' rfl)
  | _ => cases ht

theorem bindGrouping_binds (hrec : rec.Derived env) {g : Grouping}
    (h : bindGrouping rec g s = .ok u s') : Binds env (.roots g.exprs) s.view s'.view := by
  simp only [bindGrouping, run_bind] at h
  obtain ⟨_, _, hkeys, hhaving⟩ := h
  refine (binds_roots (fun _ _ _ _ _ => bindItem_root hrec) hkeys).roots_append
    (binds_roots (fun id _ {s s' u} h => ?_) hhaving)
  rw [run_bind] at h
  obtain ⟨_, _, hexpect, hitem⟩ := h
  rw [← view_of_expectBooleanLiteral hexpect]
  exact bindItem_root hrec hitem

theorem pushNodes_run {ns : List ExprNode} (h : ns.mapM (fun n => pushNode n) s = .ok ids s') :
    ids = range' s.exprs.size ns.length ∧ s' = { s with exprs := s.exprs.pushAll ns } := by
  replace h := run_mapM h
  induction h with
  | nil => exact ⟨rfl, by simp [pushAll]⟩
  | cons hpush _ ih =>
    obtain ⟨rfl, rfl⟩ := run_pushNode.mp hpush
    obtain ⟨rfl, rfl⟩ := ih
    refine ⟨?_, by rw [pushAll_cons]⟩
    rw [length_cons, range'_succ]
    simp

theorem expandStar_run {table : Option String} (h : expandStar table s = .ok ids s') :
    ∃ scope outer tables, s.scopes = scope :: outer ∧ starTables scope table = .ok tables ∧
      ids = range' s.exprs.size (starNodes scope.depth tables).length ∧
      s' = { s with exprs := s.exprs.pushAll (starNodes scope.depth tables) } := by
  simp only [expandStar, run_bind, run_currentScope, run_ofExcept] at h
  obtain ⟨scope, _, ⟨⟨outer, hscopes⟩, rfl⟩, tables, _, ⟨htables, rfl⟩, h⟩ := h
  rw [show (fun c : ResolvedColumn => pushNode c.node) =
    (fun n => pushNode n) ∘ ResolvedColumn.node from rfl, ← mapM_map] at h
  obtain ⟨hids, hs⟩ := pushNodes_run h
  exact ⟨scope, outer, tables, hscopes, htables, hids, hs⟩

theorem bindSelectItem_run {first : List ExprId} (h : bindSelectItem rec hasSource id s = .ok first s') :
    (∃ table, IsStar (s.exprs.expr id) table ∧ expandStar table s = .ok first s') ∨
      (∀ table, ¬IsStar (s.exprs.expr id) table) ∧ first = [id] ∧
        ∃ s1, s1.view = s.view ∧ bindItem rec id s1 = .ok () s' := by
  have hstar {table : Option String} (h : (if hasSource then expandStar table else
      throw (.refused starWithoutTables) : BindM (List ExprId)) s = .ok first s') :
      expandStar table s = .ok first s' := by
    split at h
    · exact h
    · simp at h
  have hroot {e : Expr} (h : (do
        if e.isNull && !(← expectedOf id).isValid then
          expect id .varchar
        bindItem rec id
        pure [id] : BindM (List ExprId)) s = .ok first s') :
      first = [id] ∧ ∃ s1, s1.view = s.view ∧ bindItem rec id s1 = .ok () s' := by
    simp only [run_bind, run_expectedOf] at h
    obtain ⟨_, _, ⟨_, rfl⟩, h⟩ := h
    split at h
    · simp only [run_bind, run_expect, run_pure] at h
      obtain ⟨_, s1, hexpect, _, _, hitem, rfl, rfl⟩ := h
      exact ⟨rfl, s1, hexpect ▸ rfl, hitem⟩
    · simp only [run_bind, run_pure] at h
      obtain ⟨_, _, hitem, rfl, rfl⟩ := h
      exact ⟨rfl, s, rfl, hitem⟩
  simp only [bindSelectItem] at h
  obtain ⟨e, _, hexpr, h⟩ := run_bind.mp h
  obtain ⟨he, rfl⟩ := run_exprOf.mp hexpr
  cases e with
  | star => exact .inl ⟨_, he ▸ .all, hstar h⟩
  | tableStar => exact .inl ⟨_, he ▸ .table, hstar h⟩
  | _ => exact .inr ⟨fun table hs => (by rw [he] at hs; cases hs), hroot h⟩

theorem bindSelectItem_binds (hrec : rec.Derived env) {first rest rest' : List ExprId}
    (h : bindSelectItem rec hasSource id s = .ok first s')
    (hrest : Binds env (.items rest rest') s'.view v) :
    Binds env (.items (id :: rest) (first ++ rest')) s.view v := by
  rcases bindSelectItem_run h with ⟨table, hs, h⟩ | ⟨hs, rfl, _, hview, hitem⟩
  · obtain ⟨_, _, _, hscopes, htables, rfl, rfl⟩ := expandStar_run h
    exact Binds.itemsStar (v := s.view) hs hscopes htables hrest
  · obtain ⟨_, hexpr, hv⟩ := bindItem_root hrec hitem
    rw [hview] at hexpr
    rw [hv] at hrest
    exact .itemsRoot hs hexpr hrest

theorem bindSelectItems_binds (hrec : rec.Derived env) {lists : List (List ExprId)}
    (h : ids.mapM (bindSelectItem rec hasSource) s = .ok lists s') :
    Binds env (.items ids lists.flatten) s.view s'.view := by
  replace h := run_mapM h
  induction h with
  | nil => exact .itemsNil
  | cons hfirst _ ih =>
    exact bindSelectItem_binds hrec hfirst ih

/-! ### FROM -/

theorem takeSerialUnless_run {given : Option Nat} {serial : Nat}
    (h : (match given with
      | some serial => pure serial
      | none => takeSerial : BindM Nat) s = .ok serial s') :
    ∃ next, Takes s.expectations.nextSerial given serial next ∧
      s'.view = { s.view with nextSerial := next } := by
  cases given with
  | some =>
    obtain ⟨rfl, rfl⟩ := run_pure.mp h
    exact ⟨_, .given _, rfl⟩
  | none =>
    obtain ⟨rfl, rfl⟩ := run_takeSerial.mp h
    exact ⟨_, .fresh, rfl⟩

theorem rescopes_of_run {f : Scope → Except Diagnostic Scope} (h : modifyScope f s = .ok u s') :
    Rescopes f s.view s'.view := by
  obtain ⟨_, _, _, hs, hf, rfl⟩ := run_modifyScope.mp h
  exact Rescopes.intro (v := s.view) hs hf

theorem registerAlias_run {given known : Alias} (h : registerAlias given s = .ok known s') :
    Aliases given s.view known s'.view := by
  have hsplit : ∃ serial s1, (match given.serial with
      | some serial => pure serial
      | none => takeSerial : BindM Nat) s = .ok serial s1 ∧
      known = { name := lowercase given.name, serial := some serial } ∧
      modifyScope (fun scope => .ok (scope.registerAlias known)) s1 = .ok () s' := by
    unfold registerAlias at h
    cases hserial : given.serial with
    | some =>
      simp only [hserial, run_bind, run_pure] at h
      obtain ⟨_, _, ⟨rfl, rfl⟩, _, _, hmod, rfl, rfl⟩ := h
      exact ⟨_, _, rfl, rfl, hmod⟩
    | none =>
      simp only [hserial, run_bind, run_pure] at h
      obtain ⟨serial, s1, htake, _, _, hmod, rfl, rfl⟩ := h
      exact ⟨serial, s1, htake, rfl, hmod⟩
  obtain ⟨_, s1, htake, rfl, hmod⟩ := hsplit
  obtain ⟨next, htakes, hview⟩ := takeSerialUnless_run htake
  obtain ⟨scope, outer, _, hs, hok, rfl⟩ := run_modifyScope.mp hmod
  cases hok
  have hscopes : s.scopes = scope :: outer := (congrArg BindView.scopes hview).symm.trans hs
  have halias := Aliases.intro (v := s.view) hscopes htakes
  have hexprs : s1.exprs = s.exprs := congrArg BindView.exprs hview
  have hnext : s1.expectations.nextSerial = next := congrArg BindView.nextSerial hview
  have htemp : s1.nextTemp = s.nextTemp := congrArg BindView.nextTemp hview
  simpa only [BindState.view, hexprs, hnext, htemp] using halias

theorem bindBaseTable_binds {base base' : BaseTable}
    (h : bindBaseTable env true base s = .ok base' s') :
    Binds env (.source (.table base) (.table base')) s.view s'.view := by
  simp only [bindBaseTable, run_bind, run_ofExcept, run_get] at h
  obtain ⟨_, _, ⟨hdatabase, rfl⟩, known, s1, halias, _, _, ⟨rfl, rfl⟩, h⟩ := h
  have halias := registerAlias_run halias
  have htable : (s1.scopes.cte? base.name.normalize.name = none ∨ base.name.normalize.schema ≠ none) →
      (do
        let table ← ofExcept (env.requireTable base.name.normalize)
        addRegularTable env known table
        pure { name := base.name.normalize, knownAs := known } : BindM BaseTable) s1 = .ok base' s' →
      Binds env (.source (.table base) (.table base')) s.view s'.view := by
    intro hnone h
    simp only [run_bind, run_ofExcept, addRegularTable, run_pure] at h
    obtain ⟨_, _, ⟨htable, rfl⟩, _, _, hadd, rfl, rfl⟩ := h
    refine .table halias (.table (fun hs => ?_) htable) (rescopes_of_run hadd) hdatabase
    exact hnone.resolve_right (fun hne => hne hs)
  cases hschema : base.name.normalize.schema with
  | some =>
    simp only [hschema, Option.isNone_some, Bool.and_false, Bool.false_eq_true, if_false] at h
    exact htable (.inr (by simp [hschema])) h
  | none =>
    simp only [hschema, Option.isNone_none, Bool.and_self, if_true] at h
    cases hcte : s1.scopes.cte? base.name.normalize.name with
    | none =>
      rw [hcte] at h
      exact htable (.inl hcte) h
    | some =>
      simp only [hcte, run_bind, run_pure] at h
      obtain ⟨_, _, hadd, rfl, rfl⟩ := h
      exact .table halias (.entry hschema hcte) (rescopes_of_run hadd) hdatabase

theorem derivedColumn_run (h : derivedColumn id s = .ok column s') :
    ∃ serial next, Takes s.expectations.nextSerial ((s.exprs.node id).knownAs.bind (·.serial)) serial
        next ∧
      column = ⟨⟨s.exprs.outputName id, some serial⟩, s.exprs.typeOf id⟩ ∧
      s'.view =
        { s.view with
          exprs := s.exprs.update id fun n =>
            { n with knownAs := some ⟨s.exprs.outputName id, some serial⟩ }
          nextSerial := next } := by
  rw [derivedColumn, run_get_bind] at h
  cases hserial : (s.exprs.node id).knownAs.bind (·.serial) with
  | some serial =>
    simp only [hserial, run_bind, run_pure, run_modifyExprs, run_typeOf] at h
    obtain ⟨_, _, ⟨rfl, rfl⟩, _, _, rfl, t, _, ⟨rfl, rfl⟩, rfl, rfl⟩ := h
    exact ⟨serial, _, .given _, by simp, rfl⟩
  | none =>
    simp only [hserial, run_bind, run_takeSerial, run_pure, run_modifyExprs, run_typeOf] at h
    obtain ⟨_, _, ⟨rfl, rfl⟩, _, _, rfl, _, _, ⟨rfl, rfl⟩, rfl, rfl⟩ := h
    exact ⟨_, _, .fresh, by simp, rfl⟩

theorem derivedColumns_run (h : ids.mapM derivedColumn s = .ok columns s') :
    NamesDerived ids s.view columns s'.view := by
  replace h := run_mapM h
  induction h with
  | nil => exact .nil
  | @cons _ _ _ _ s _ _ hfirst _ hrest =>
    obtain ⟨_, _, htakes, rfl, hview⟩ := derivedColumn_run hfirst
    rw [hview] at hrest
    exact NamesDerived.cons (v := s.view) htakes hrest

mutual

theorem bindSource_binds (hrec : rec.Derived env) : (item : TableRef) → ∀ {item' : TableRef}
    {s s' : BindState}, bindSource env rec item s = .ok item' s' →
      Binds env (.source item item') s.view s'.view
  | .table base, item', s, s', h => by
    simp only [bindSource, run_bind, run_pure] at h
    obtain ⟨_, _, hbase, rfl, rfl⟩ := h
    exact bindBaseTable_binds hbase
  | .derived q given, item', s, s', h => by
    rw [bindSource] at h
    split at h
    · simp at h
    · simp only [run_bind, run_pure] at h
      obtain ⟨_, s1, halias, _, s2, hquery, _, s3, hcolumns, _, _, hadd, rfl, rfl⟩ := h
      exact .derived (registerAlias_run halias) (hrec.query hquery) (derivedColumns_run hcolumns)
        (rescopes_of_run hadd)
  | .join kind left right condition, item', s, s', h => by
    simp only [bindSource, run_bind, run_pure] at h
    obtain ⟨_, s1, hleft, _, _, hright, _, _, hcond, rfl, rfl⟩ := h
    exact .join (bindSource_binds hrec left hleft) (bindSource_binds hrec right hright)
      (binds_roots (fun _ _ _ _ _ => bindPredicate_root hrec) hcond)
  | .list items, item', s, s', h => by
    simp only [bindSource, run_bind, run_pure] at h
    obtain ⟨_, _, hitems, rfl, rfl⟩ := h
    exact .list (bindSources_binds hrec items hitems)

theorem bindSources_binds (hrec : rec.Derived env) : (items : List TableRef) →
    ∀ {items' : List TableRef} {s s' : BindState}, bindSources env rec items s = .ok items' s' →
      Binds env (.sources items items') s.view s'.view
  | [], items', s, s', h => by
    rw [bindSources, run_pure] at h
    obtain ⟨rfl, rfl⟩ := h
    exact .sourcesNil
  | item :: rest, items', s, s', h => by
    simp only [bindSources, run_bind, run_pure] at h
    obtain ⟨_, _, hitem, _, _, hrest, rfl, rfl⟩ := h
    exact .sourcesCons (bindSource_binds hrec item hitem) (bindSources_binds hrec rest hrest)

end

/-! ### WITH -/

theorem cteColumn_run {given : Option Alias} (h : cteColumn id given s = .ok column s') :
    ∃ serial next known, Takes s.nextTemp (given.bind (·.serial)) serial next ∧
      known = ⟨entryColumnName s.exprs id given, some serial⟩ ∧
      column = ⟨known, (s.exprs.nameColumn id known).typeOf id⟩ ∧
      s'.view = { s.view with exprs := s.exprs.nameColumn id known, nextTemp := next } := by
  rw [cteColumn, run_get_bind] at h
  cases given with
  | none =>
    simp only [Option.bind_none, run_bind, run_takeTemp, run_pure, run_modifyExprs, run_typeOf] at h
    obtain ⟨_, _, ⟨rfl, rfl⟩, _, _, rfl, t, _, ⟨rfl, rfl⟩, rfl, rfl⟩ := h
    exact ⟨_, _, _, .fresh, rfl, rfl, rfl⟩
  | some knownAs =>
    cases hserial : knownAs.serial with
    | some serial =>
      simp only [Option.bind_some, hserial, run_bind, run_pure, run_modifyExprs, run_typeOf] at h
      obtain ⟨_, _, ⟨rfl, rfl⟩, _, _, rfl, t, _, ⟨rfl, rfl⟩, rfl, rfl⟩ := h
      exact ⟨serial, _, _, by rw [Option.bind_some, hserial]; exact .given _, rfl, rfl, rfl⟩
    | none =>
      simp only [Option.bind_some, hserial, run_bind, run_takeTemp, run_pure, run_modifyExprs,
        run_typeOf] at h
      obtain ⟨_, _, ⟨rfl, rfl⟩, _, _, rfl, _, _, ⟨rfl, rfl⟩, rfl, rfl⟩ := h
      exact ⟨_, _, _, by rw [Option.bind_some, hserial]; exact .fresh, rfl, rfl, rfl⟩

theorem cteColumnsFrom_run {given : List Alias} (h : cteColumnsFrom ids given s = .ok columns s') :
    NamesEntry ids given s.view columns s'.view := by
  induction ids generalizing s given columns with
  | nil =>
    rw [cteColumnsFrom, run_pure] at h
    obtain ⟨rfl, rfl⟩ := h
    exact .nil
  | cons _ _ ih =>
    simp only [cteColumnsFrom, run_bind, run_pure] at h
    obtain ⟨_, _, hfirst, _, _, hrest, rfl, rfl⟩ := h
    obtain ⟨_, _, _, htakes, hknown, rfl, hview⟩ := cteColumn_run hfirst
    have hrest := ih hrest
    rw [hview] at hrest
    exact NamesEntry.cons (v := s.view) htakes hknown hrest

theorem defineCte_run {c : Cte} (h : defineCte c s = .ok c' s') :
    ∃ (columns : List DerivedColumn) (s1 : BindState), c.columns.length ≤ c.query.items.length ∧
      NamesEntry c.query.items c.columns s.view columns s1.view ∧
      Rescopes (·.addCte c.name columns) s1.view s'.view ∧
      c' = { c with columns := columns.map (·.knownAs) } := by
  simp only [defineCte, run_bind, run_pure] at h
  obtain ⟨columns, s1, hcolumns, _, _, hdefine, rfl, rfl⟩ := h
  unfold cteColumns at hcolumns
  split at hcolumns
  · simp at hcolumns
  · rename_i hlength
    exact ⟨columns, s1, Nat.le_of_not_lt hlength, cteColumnsFrom_run hcolumns,
      rescopes_of_run hdefine, rfl⟩

theorem bindCte_binds (hrec : rec.Derived env) {c : Cte} (h : bindCte rec c s = .ok c' s') :
    Binds env (.entry c c') s.view s'.view := by
  unfold bindCte at h
  cases hind : c.isInductive with
  | true =>
    have hind' : ({ c with name := lowercase c.name } : Cte).isInductive = true := hind
    simp only [hind', if_true, run_bind, run_pure] at h
    obtain ⟨_, s1, hbase, _, s2, hdefine, q', _, hquery, rfl, rfl⟩ := h
    obtain ⟨columns, _, hlength, hnames, hdefines, rfl⟩ := defineCte_run hdefine
    exact .entryInductive hind (hrec.query hbase) hlength hnames hdefines (hrec.query hquery)
  | false =>
    have hind' : ({ c with name := lowercase c.name } : Cte).isInductive = false := hind
    simp only [hind', Bool.false_eq_true, if_false, run_bind] at h
    obtain ⟨_, _, hquery, hdefine⟩ := h
    obtain ⟨_, _, hlength, hnames, hdefines, rfl⟩ := defineCte_run hdefine
    exact .entryPlain hind (hrec.query hquery) hlength hnames hdefines

theorem bindCtes_binds (hrec : rec.Derived env) {cs cs' : List Cte}
    (h : cs.mapM (bindCte rec) s = .ok cs' s') : Binds env (.entries cs cs') s.view s'.view := by
  replace h := run_mapM h
  induction h with
  | nil => exact .entriesNil
  | cons hfirst _ ih =>
    exact .entriesCons (bindCte_binds hrec hfirst) ih

/-! ### Query blocks -/

theorem state_of_checkBounds {b : Bounds} (h : checkBounds b s = .ok u s') : s = s' := by
  unfold checkBounds at h
  split at h
  · simp at h
  · split at h
    · simp at h
    · exact (run_pure.mp h).2

theorem bindUnion_binds (hrec : rec.Derived env) {right right' : Option Select}
    (h : bindOptional (bindUnion rec items depth) right s = .ok right' s') :
    Binds env (.union right right' depth) s.view s'.view ∧
      ∀ r ∈ right', r.items.length = items.length := by
  cases right with
  | none =>
    obtain ⟨rfl, rfl⟩ := run_pure.mp h
    exact ⟨.unionNone, nofun⟩
  | some r =>
    simp only [bindOptional, bindUnion, run_bind, run_inSibling, run_get, run_ofExcept, run_pure] at h
    obtain ⟨_, _, ⟨_, _, ⟨_, _, _, hs, hbranch, rfl⟩, _, _, ⟨rfl, rfl⟩, _, _, ⟨hcheck, rfl⟩, rfl,
      rfl⟩, rfl, rfl⟩ := h
    have hbranch := hrec.branch hbranch
    refine ⟨Binds.unionSome (v := s.view) hs hbranch, fun r hr => ?_⟩
    cases hr
    unfold checkUnion at hcheck
    split at hcheck
    · rename_i hlength
      exact hlength.symm
    · cases hcheck

theorem sortKeys_run {keys keys' : List SortKey} (h : (keys.mapM fun key => do
      pure { key with expr := ← BindM.ofExcept (sortTarget a items key.expr) } : BindM _) s =
        .ok keys' s') :
    Forall₂ (fun key key' : SortKey => sortTarget a items key.expr = .ok key'.expr ∧
      key'.direction = key.direction) keys keys' ∧ s = s' := by
  replace h := run_mapM h
  induction h with
  | nil => exact ⟨.nil, rfl⟩
  | cons hkey _ ih =>
    simp only [run_bind, run_ofExcept, run_pure] at hkey
    obtain ⟨_, _, ⟨htarget, rfl⟩, rfl, rfl⟩ := hkey
    obtain ⟨hkeys, rfl⟩ := ih
    exact ⟨.cons ⟨htarget, rfl⟩ hkeys, rfl⟩

theorem bindOrdering_binds (hrec : rec.Derived env) {ordering ordering' : Option (List SortKey)}
    (h : bindOptional (bindOrdering rec items) ordering s = .ok ordering' s') :
    Sorts s.exprs items ordering ordering' ∧
      Binds env (.roots ((ordering'.getD []).map (·.expr))) s.view s'.view := by
  cases ordering with
  | none =>
    obtain ⟨rfl, rfl⟩ := run_pure.mp h
    exact ⟨.none, .rootsNil⟩
  | some =>
    simp only [bindOptional, bindOrdering, run_bind, run_get, run_pure] at h
    obtain ⟨_, _, ⟨_, _, ⟨rfl, rfl⟩, _, _, hkeys, _, _, hroots, rfl, rfl⟩, rfl, rfl⟩ := h
    obtain ⟨hkeys', rfl⟩ := sortKeys_run hkeys
    rw [← run_forM_map SortKey.expr] at hroots
    exact ⟨.some hkeys', binds_roots (fun _ _ _ _ _ => bindItem_root hrec) hroots⟩

theorem bindFrom_binds (hrec : rec.Derived env) {item item' : Option TableRef}
    (h : bindOptional (bindSource env rec) item s = .ok item' s') :
    Binds env (.from_ item item') s.view s'.view := by
  cases item with
  | none =>
    obtain ⟨rfl, rfl⟩ := run_pure.mp h
    exact .fromNone
  | some item =>
    simp only [bindOptional, run_bind, run_pure] at h
    obtain ⟨_, _, hitem, rfl, rfl⟩ := h
    exact .fromSome (bindSource_binds hrec item hitem)

/-- The clauses between FROM and the select list. -/
def bindClauses (rec : Recur) (q : Select) : BindM Unit := do
  q.filter.toList.forM (bindPredicate rec "WHERE")
  q.bounds.toList.forM checkBounds
  q.grouping.toList.forM (bindGrouping rec)

/-- A block that is bound, with the states after WITH, FROM, the select list and UNION. -/
structure BlockRun (env : Accessor) (rec : Recur) (q : Select) (depth : Nat) (s : BindState) (q' : Select)
    (s' s1 s2 s3 s4 : BindState) : Prop where
  entries : q.ctes.mapM (bindCte rec) s = .ok q'.ctes s1
  source : bindOptional (bindSource env rec) q.source s1 = .ok q'.source s2
  list : ∃ t lists, bindClauses rec q s2 = .ok () t ∧
    q.items.mapM (bindSelectItem rec q.source.isSome) t = .ok lists s3 ∧ q'.items = lists.flatten
  union : bindOptional (bindUnion rec q'.items depth) q.union s3 = .ok q'.union s4
  ordering : bindOptional (bindOrdering rec q'.items) q.ordering s4 = .ok q'.ordering s'
  result : q' = { q with
    ctes := q'.ctes, source := q'.source, items := q'.items, union := q'.union,
    ordering := q'.ordering, depth := some depth }

theorem bindBranchWith_run (h : bindBranchWith env rec q depth s = .ok q' s') :
    ∃ s1 s2 s3 s4, BlockRun env rec q depth s q' s' s1 s2 s3 s4 := by
  simp only [bindBranchWith, run_bind, run_pure] at h
  obtain ⟨_, s1, hctes, source, s2, hsource, _, _, hfilter, _, _, hbounds, _, t, hgroup, lists, s3,
    hitems, _, s4, hunion, _, _, hordering, rfl, rfl⟩ := h
  refine ⟨s1, s2, s3, s4, hctes, hsource, ⟨t, lists, ?_, hitems, rfl⟩, hunion, hordering, rfl⟩
  simp only [bindClauses, run_bind]
  exact ⟨_, _, hfilter, _, _, hbounds, hgroup⟩

theorem bindClauses_binds (hrec : rec.Derived env) (h : bindClauses rec q s = .ok u s') :
    Binds env (.roots (q.filter.toList ++ (q.grouping.map (·.exprs)).getD [])) s.view s'.view := by
  simp only [bindClauses, run_bind] at h
  obtain ⟨_, s1, hfilter, _, s2, hbounds, hgroup⟩ := h
  obtain rfl : s1 = s2 := by
    cases hb : q.bounds with
    | none =>
      rw [hb] at hbounds
      exact run_forM_nil.mp hbounds
    | some =>
      rw [hb] at hbounds
      obtain ⟨_, hcheck, hnil⟩ := run_forM_cons.mp hbounds
      rw [state_of_checkBounds hcheck]
      exact run_forM_nil.mp hnil
  refine (binds_roots (fun _ _ _ _ _ => bindPredicate_root hrec) hfilter).roots_append ?_
  cases hg : q.grouping with
  | none =>
    rw [hg] at hgroup
    obtain rfl := run_forM_nil.mp hgroup
    exact .rootsNil
  | some =>
    rw [hg] at hgroup
    obtain ⟨_, hkeys, hnil⟩ := run_forM_cons.mp hgroup
    obtain rfl := run_forM_nil.mp hnil
    exact bindGrouping_binds hrec hkeys

theorem bindBranchWith_binds (hrec : rec.Derived env)
    (h : bindBranchWith env rec q depth s = .ok q' s') :
    Binds env (.branch q depth q') s.view s'.view := by
  obtain ⟨_, _, _, _, run⟩ := bindBranchWith_run h
  obtain ⟨_, _, hclauses, hitems, hlists⟩ := run.list
  obtain ⟨hunion, hlength⟩ := bindUnion_binds hrec run.union
  obtain ⟨hsorts, hordering⟩ := bindOrdering_binds hrec run.ordering
  rw [run.result]
  refine .branch (bindCtes_binds hrec run.entries) (bindFrom_binds hrec run.source)
    (bindClauses_binds hrec hclauses) ?_ hunion hsorts hordering hlength
  rw [hlists]
  exact bindSelectItems_binds hrec hitems

theorem bindQueryWith_binds (hrec : rec.Derived env) (h : bindQueryWith rec q s = .ok q' s') :
    Binds env (.query q q') s.view s'.view := by
  simp only [bindQueryWith, run_bind, run_get, run_inScope] at h
  obtain ⟨_, _, ⟨rfl, rfl⟩, _, hbranch, rfl⟩ := h
  have hbranch := hrec.branch hbranch
  exact Binds.query (v := s.view) hbranch

theorem recurTo_derived (levels : Nat) : (recurTo env levels).Derived env := by
  induction levels with
  | zero =>
    refine ⟨fun h => ?_, fun h => ?_, fun h => ?_⟩ <;>
      cases h
  | succ n ih =>
    exact ⟨bindExprWith_binds ih, bindQueryWith_binds ih, bindBranchWith_binds ih⟩

/-! ### Statements -/

/-- What a binding from a state makes of a statement, and the state it ends in. -/
inductive StatementRun (env : Accessor) (rec : Recur) (s : BindState) :
    Statement → Statement → BindState → Prop
  | select {given made t} : rec.query given s = .ok made t →
    StatementRun env rec s (.select given) (.select made) t
  | insert {given made t} :
    bindInsert env rec given { s with scopes := s.scopes.open_ } = .ok made t →
    StatementRun env rec s (.insert given) (.insert made) { t with scopes := t.scopes.tail }
  | update {given made t} :
    bindUpdate env rec given { s with scopes := s.scopes.open_ } = .ok made t →
    StatementRun env rec s (.update given) (.update made) { t with scopes := t.scopes.tail }
  | delete {given made t} :
    bindDelete env rec given { s with scopes := s.scopes.open_ } = .ok made t →
    StatementRun env rec s (.delete given) (.delete made) { t with scopes := t.scopes.tail }
  | create {ifNotExists given made t} :
    bindCreation env rec given { s with scopes := s.scopes.open_ } = .ok made t →
    StatementRun env rec s (.create ifNotExists given) (.create ifNotExists made)
      { t with scopes := t.scopes.tail }
  | drop {given made} : bindDrop env given = .ok made →
    StatementRun env rec s (.drop given) (.drop made) s
  | analyze {given made} : bindAnalyze env given = .ok made →
    StatementRun env rec s (.analyze given) (.analyze made) s
  | explain {given made t} : StatementRun env rec s given made t →
    StatementRun env rec s (.explain given) (.explain made) t

theorem bindStatementWith_run {st st' : Statement}
    (h : bindStatementWith env rec st s = .ok st' s') : StatementRun env rec s st st' s' := by
  induction st generalizing st' with
  | select =>
    simp only [bindStatementWith, run_bind, run_pure] at h
    obtain ⟨_, _, hquery, rfl, rfl⟩ := h
    exact .select hquery
  | explain _ ih =>
    simp only [bindStatementWith, run_ite, run_bind, run_pure, run_refuse, and_false, or_false] at h
    obtain ⟨_, _, _, hinner, rfl, rfl⟩ := h
    exact .explain (ih hinner)
  | drop | analyze =>
    simp only [bindStatementWith, run_inScope, run_bind, run_pure, run_ofExcept] at h
    obtain ⟨_, ⟨_, _, ⟨hbound, rfl⟩, rfl, rfl⟩, rfl⟩ := h
    constructor
    exact hbound
  | _ =>
    simp only [bindStatementWith, run_inScope, run_bind, run_pure] at h
    obtain ⟨_, ⟨_, _, hbound, rfl, rfl⟩, rfl⟩ := h
    constructor
    exact hbound

end

end SqlAnalysis
