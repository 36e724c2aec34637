import SqlAnalysis.Proofs.Binding.Expectations
import SqlAnalysis.Proofs.Expr.Copies

/-!
# How a binding treats its state

A binding works on its state by a few kinds of step only, whether it ends well or is refused.  What
follows from each step follows from the whole.

A conduct belongs to a set of nodes that nothing leads out of, such as those of one statement.  It says
what a change of the store, an expectation or the value of a parameter does to the state.  Here these
steps are followed through expressions; for all that is above expressions a conduct is a case of
`Clauses`.

* **`Recur.Agree.next`**: two ways of binding what is nested one level further down do the same.
* **`recurTo_conducts`**: whatever is bound, the state is treated according to a conduct.
-/

namespace SqlAnalysis

open Text BindM Arena

/-- The state in which a run ends, well or not. -/
def endState {ε σ α : Type} : EStateM.Result ε σ α → σ
  | .ok _ s => s
  | .error _ s => s

/-! ### Stores -/

def Expr.placeholder? : Expr → Option Nat
  | .parameter index => some index
  | _ => none

theorem Expr.placeholder?_mapChildren (e : Expr) (f : ExprId → ExprId) :
    (e.mapChildren f).placeholder? = e.placeholder? := by cases e <;> rfl

theorem Expr.eq_of_placeholder? {e : Expr} {index : Nat} (h : e.placeholder? = some index) :
    e = .parameter index := by
  cases e with
  | parameter => exact congrArg Expr.parameter (Option.some.inj h)
  | _ => cases h

/-- A store grows; nodes stay placeholders or not, and nothing new leads out of a set. -/
structure StoreStep (S : ExprId → Prop) (a a' : Arena) : Prop where
  size_le : a.size ≤ a'.size
  placeholder : ∀ {id}, id < a.size → (a'.expr id).placeholder? = (a.expr id).placeholder?
  encloses : a.Encloses S → a'.Encloses S

def Arena.Ordinary (a : Arena) (id : ExprId) : Prop :=
  id < a.size ∧ (a.expr id).placeholder? = none

namespace StoreStep

variable {S : ExprId → Prop} {a a' a'' : Arena} {id : ExprId}

theorem refl : StoreStep S a a := ⟨le_rfl, fun _ => rfl, fun h => h⟩

theorem trans (h : StoreStep S a a') (h' : StoreStep S a' a'') : StoreStep S a a'' :=
  ⟨h.size_le.trans h'.size_le,
    fun hid => (h'.placeholder (hid.trans_le h.size_le)).trans (h.placeholder hid),
    fun hS => h'.encloses (h.encloses hS)⟩

theorem ordinary (h : StoreStep S a a') (hid : a.Ordinary id) : a'.Ordinary id :=
  ⟨hid.1.trans_le h.size_le, (h.placeholder hid.1).trans hid.2⟩

theorem of_expr (hsize : a.size ≤ a'.size) (hexpr : ∀ x, a'.expr x = a.expr x) : StoreStep S a a' :=
  ⟨hsize, fun _ => by rw [hexpr], fun hS => hS.congr hsize hexpr⟩

theorem of_update {f : ExprNode → ExprNode}
    (hplaceholder : (f (a.node id)).kind.placeholder? = (a.expr id).placeholder?)
    (hparts : a.Encloses S → S id → ∀ y ∈ (f (a.node id)).kind.parts, S y) :
    StoreStep S a (a.update id f) := by
  exact ⟨(size_update _ _).symm.le, fun {x} _ => field_update (·.kind.placeholder?) hplaceholder x,
    fun hS => hS.update (hparts hS)⟩

theorem of_update_kind {f : ExprNode → ExprNode} (hf : ∀ n : ExprNode, (f n).kind = n.kind) :
    StoreStep S a (a.update id f) :=
  of_expr ((size_update _ _).symm.le) (expr_update_of_kind hf)

theorem of_setQuery {q : Select} (hq : ∀ y ∈ q.exprs, S y) : StoreStep S a (a.setQuery id q) := by
  refine of_update ?_ fun hS hid y hy => ?_
  · split
    · rename_i hsub
      rw [expr]
      cases hk : (a.node id).kind with
      | subquery => rfl
      | _ =>
        rw [hk] at hsub
        cases hsub
    · rfl
  · split at hy
    · exact hq y hy
    · exact hS.closed id hid y hy

theorem of_replaceChild {old new : ExprId} (hnew : S new) :
    StoreStep S a (a.replaceChild id old new) := by
  refine of_update (Expr.placeholder?_mapChildren _ _) fun hS hid y hy => ?_
  rcases Expr.mem_parts_mapChildren hy with hy | ⟨c, hc, rfl⟩
  · exact hS.closed id hid y hy
  · split
    · exact hnew
    · exact hS.closed id hid c hc

theorem of_appends (h : a.Appends a') : StoreStep S a a' :=
  ⟨h.size_le, fun hid => by rw [h.expr hid], h.encloses⟩

end StoreStep

/-! ### Steps of a binding -/

/-- The state after the value of a placeholder was converted to what is expected of it. -/
def BindState.promoted (s : BindState) (id : ExprId) (index : Nat) (w : Value) : BindState :=
  let expected := s.expectations.expectedOf id
  let t := if expected.isValid then expected else w.sqlType
  { s with
    parameters := s.parameters.set index w
    exprs := s.exprs.setType id t
    expectations := s.expectations.setParameterType index t }

/-- What is known of the state of a binding of expressions in a set, and how each kind of step
changes it.  Steps of a query block may leave tables and WITH entries behind in the innermost scope
(`Part`), all others leave the scopes as they were (`Whole`). -/
structure Conduct (S : ExprId → Prop) where
  Inv : BindState → Prop
  Whole : BindState → BindState → Prop
  Part : BindState → BindState → Prop
  inv_encloses : ∀ {s}, Inv s → s.exprs.Encloses S
  inv_part : ∀ {s t}, Inv s → Part s t → Inv t
  inv_open : ∀ {s}, Inv s → Inv { s with scopes := s.scopes.open_ }
  inv_sibling : ∀ {s scope outer}, Inv s → s.scopes = scope :: outer →
    Inv { s with scopes := scope.sibling :: outer }
  whole_refl : ∀ {s}, Whole s s
  whole_trans : ∀ {s t u}, Whole s t → Whole t u → Whole s u
  part_trans : ∀ {s t u}, Part s t → Part t u → Part s u
  part_of_whole : ∀ {s t}, Whole s t → Part s t
  store : ∀ {s t}, Part s t → StoreStep S s.exprs t.exprs
  exprs : ∀ {s a}, Inv s → StoreStep S s.exprs a → Whole s { s with exprs := a }
  expectations : ∀ {s x}, Inv s → x.parameterTypes = s.expectations.parameterTypes →
    (∀ id, ¬S id → x.expectedOf id = s.expectations.expectedOf id) →
    Whole s { s with expectations := x }
  temp : ∀ {s n}, Inv s → Whole s { s with nextTemp := n }
  parameter : ∀ {s id index v w}, Inv s → S id → id < s.exprs.size →
    s.exprs.expr id = .parameter index → s.parameters[index]? = some v →
    v.promote (s.expectations.expectedOf id) = .ok w →
    Whole s (s.promoted id index w)
  scope : ∀ {s scope scope' outer}, Inv s → s.scopes = scope :: outer → scope'.depth = scope.depth →
    Part s { s with scopes := scope' :: outer }
  close : ∀ {s t}, Inv s → Part { s with scopes := s.scopes.open_ } t →
    Whole s { t with scopes := t.scopes.tail }
  restore : ∀ {s t scope outer}, Inv s → s.scopes = scope :: outer →
    Part { s with scopes := scope.sibling :: outer } t →
    Whole s { t with scopes := scope :: t.scopes.tail }

namespace Conduct

open Track

variable {S : ExprId → Prop} (C : Conduct S)

def clauses : Clauses where
  Inv := C.Inv
  Visits _ id := S id
  Fits _ := True
  Whole := C.Whole
  Part := C.Part
  WholeFail _ := C.Whole
  PartFail _ := C.Part
  inv_part := C.inv_part
  visits_part _ _ h := h
  visits_operand hs h hcast := (C.inv_encloses hs).closed _ h _ (by rw [hcast]; exact List.mem_singleton_self _)
  visits_yielded hs _ hbinds _ hin := (hbinds.confined (C.inv_encloses hs) hin).2
  fits_le _ h := h
  inv_open := C.inv_open
  inv_sibling := C.inv_sibling
  whole_refl := C.whole_refl
  whole_trans := C.whole_trans
  part_trans := C.part_trans
  part_of_whole := C.part_of_whole
  refused := C.whole_refl
  whole_fail := C.whole_trans
  part_fail := C.part_trans
  part_of_fail := C.part_of_whole
  relabel hs h := C.exprs hs (.of_expr (h.size.symm.le) fun x => (h.node x).kind)
  push hs hplain hleaf := C.exprs hs (.of_appends (.of_push hplain hleaf))
  Fills _ := True
  copy {s _ stored} hs _ _ := by
    unfold onExprs
    cases hrun : importTree stored.arena stored.root s.exprs with
    | ok => exact C.exprs hs (.of_appends (importFrom_appends hrun).1)
    | error => exact C.exprs hs (.of_appends (importFrom_fails hrun).1)
  visits_default hs _ hdefault := (C.inv_encloses hs).free _ (columnDefault_appends hdefault).2.1
  serial hs := C.expectations hs rfl fun _ _ => rfl
  temp := C.temp
  scope := C.scope
  close := C.close
  close_fail := C.close
  restore := C.restore
  restore_fail := C.restore

def whole : Track BindState where
  Inv := C.Inv
  Rel := C.Whole
  Fail _ := C.Whole
  refl := C.whole_refl
  trans := C.whole_trans
  refused := C.whole_refl
  trans_fail := C.whole_trans
  keep h h' := C.inv_part h (C.part_of_whole h')

def part : Track BindState where
  Inv := C.Inv
  Rel := C.Part
  Fail _ := C.Part
  refl := C.part_of_whole C.whole_refl
  trans := C.part_trans
  refused := C.part_of_whole C.whole_refl
  trans_fail := C.part_trans
  keep h h' := C.inv_part h h'

theorem copies (env : Accessor) : C.clauses.Copies env := fun _ _ _ => trivial

variable {C} {α : Type} {x y : BindM α} {id : ExprId}

theorem endState_whole {s : BindState} (h : C.whole.AgreeFrom s x y) : C.Whole s (endState (x s)) := by
  have hends := h.2
  cases hrun : x s <;> rw [hrun] at hends <;> exact hends

theorem endState_part {s : BindState} (h : C.part.AgreeFrom s x y) : C.Part s (endState (x s)) := by
  have hends := h.2
  cases hrun : x s <;> rw [hrun] at hends <;> exact hends

theorem agree_whole (h : (C.clauses.whole S).Agree x y) : C.whole.Agree x y := fun _ hs =>
  h ⟨hs, fun _ hx => hx⟩

theorem agree_part (h : (C.clauses.part S).Agree x y) : C.part.Agree x y := fun _ hs =>
  h ⟨hs, fun _ hx => hx⟩

theorem agree_throw (e : Fault) : C.whole.Follows (throw e : BindM α) := fun _ _ => ⟨rfl, C.whole_refl⟩

theorem agree_modifyExprs {f : Arena → Arena}
    (h : ∀ {a : Arena}, a.Encloses S → StoreStep S a (f a)) :
    C.whole.Follows (modifyExprs f) :=
  agree_modify fun _ hs => C.exprs hs (h (C.inv_encloses hs))

theorem agree_setType (id : ExprId) (t : SqlType) : C.whole.Follows (setType id t) :=
  agree_modifyExprs fun _ => .of_update_kind (by intro n; rfl)

theorem expectedOf_expect_of_mem (x : Expectations) (hid : S id) (t : SqlType) {y : ExprId} (hy : ¬S y) :
    (x.expect id t).expectedOf y = x.expectedOf y := by
  rw [Expectations.expectedOf_expect, if_neg fun heq : id = y => hy (heq ▸ hid)]

theorem agree_expect (hid : S id) (t : SqlType) : C.whole.Follows (expect id t) :=
  agree_modify fun _ hs => C.expectations hs rfl fun _ => expectedOf_expect_of_mem _ hid t

theorem agree_expectPair {left right : ExprId} (hl : S left) (hr : S right) :
    C.whole.Follows (expectPair left right) := by
  intro s hs
  refine ⟨rfl, ?_⟩
  show EndsBy C.whole.Rel C.whole.Fail s (EStateM.bind (BindM.ofExcept _) _ s)
  unfold Expectations.expectPair
  cases s.expectations.pairType s.exprs left right with
  | error => exact C.whole_refl
  | ok t =>
    exact C.expectations hs rfl fun y hy =>
      (expectedOf_expect_of_mem _ hr t hy).trans (expectedOf_expect_of_mem _ hl t hy)

end Conduct

/-! ### Expressions -/

theorem Recur.Agree.of_conduct {S : ExprId → Prop} {C : Conduct S} {rec rec' : Recur}
    (expr : ∀ {id}, S id → C.whole.Agree (rec.expr id) (rec'.expr id))
    (query : ∀ {q : Select}, (∀ x ∈ q.exprs, S x) → C.whole.Agree (rec.query q) (rec'.query q))
    (branch : ∀ {q : Select} {depth}, (∀ x ∈ q.exprs, S x) →
      C.part.Agree (rec.branch q depth) (rec'.branch q depth)) : rec.Agree C.clauses rec' :=
  ⟨fun hid _ hs => expr (hs.2 _ hid) hs.1,
    fun t hid _ hs => Track.agree_bind (Conduct.agree_expect (hs.2 _ hid) t)
      (fun _ => expr (hs.2 _ hid)) hs.1,
    fun _ hq _ hs => query (fun x hx => hs.2 x (hq x hx)) hs.1,
    fun _ hq _ hs => branch (fun x hx => hs.2 x (hq x hx)) hs.1⟩

theorem Recur.Agree.visit {S : ExprId → Prop} {C : Conduct S} {rec rec' : Recur}
    (h : rec.Agree C.clauses rec') {id : ExprId} (hid : S id) : C.whole.Agree (rec.expr id) (rec'.expr id) :=
  Conduct.agree_whole (h.expr hid)

theorem Recur.Agree.takes {S : ExprId → Prop} {C : Conduct S} {rec rec' : Recur}
    (h : rec.Agree C.clauses rec') {id : ExprId} (hid : S id) : C.whole.Takes rec rec' id :=
  ⟨h.visit hid, fun t => Track.agree_bind (Conduct.agree_expect hid t) fun _ => h.visit hid⟩

theorem Recur.Agree.select {S : ExprId → Prop} {C : Conduct S} {rec rec' : Recur}
    (h : rec.Agree C.clauses rec') {q : Select} (hq : ∀ x ∈ q.exprs, S x) :
    C.whole.Agree (rec.query q) (rec'.query q) :=
  Conduct.agree_whole (h.query trivial hq)

namespace Conduct

open Track

variable {S : ExprId → Prop} {C : Conduct S} {env : Accessor} {rec rec' : Recur} {id : ExprId}

theorem agree_dropLiteralCast {operand : ExprId} (ho : S operand) :
    C.whole.Follows (dropLiteralCast id operand) := by
  intro s hs
  refine (agree_exprOf operand hs).bind fun {e t} hrun hrel => ?_
  obtain ⟨he, rfl⟩ := run_exprOf.mp hrun
  cases e with
  | cast _ inner =>
    have hinner : S inner := (C.inv_encloses hs).closed operand ho inner (by
      rw [he]
      exact List.mem_singleton_self _)
    exact agree_bind (agree_isLiteral inner) (fun _ => agree_ite
      (agree_modifyExprs fun _ => .of_replaceChild hinner) (agree_pure _)) hs
  | _ => exact agree_pure _ hs

theorem agreeFrom_update {s : BindState} (hs : C.Inv s) (hid : s.exprs.Ordinary id)
    {f : ExprNode → ExprNode} (hf : (f (s.exprs.node id)).kind.placeholder? = none)
    (hparts : ∀ y ∈ (f (s.exprs.node id)).kind.parts, S y) :
    C.whole.AgreeFrom s (modifyExprs (·.update id f)) (modifyExprs (·.update id f)) :=
  ⟨rfl, C.exprs hs (.of_update (hf.trans hid.2.symm) fun _ _ => hparts)⟩

theorem ordinary_of_whole {s t : BindState} (h : C.Whole s t) (hid : s.exprs.Ordinary id) :
    t.exprs.Ordinary id :=
  (C.store (C.part_of_whole h)).ordinary hid

theorem agreeFrom_bindCall (hrec : rec.Agree C.clauses rec') (name : String) {args : List ExprId}
    (hargs : ∀ c ∈ args, S c) {s : BindState} (hs : C.Inv s) (hid : s.exprs.Ordinary id) :
    C.whole.AgreeFrom s (bindCall env rec id name args) (bindCall env rec' id name args) := by
  refine (agree_forM (fun c hc => hrec.visit (hargs c hc)) hs).bind fun {_ s1} _ hrel1 => ?_
  have hs1 := C.whole.keep hs hrel1
  refine (agree_mapM (fun c _ => agree_typeOf c) hs1).bind fun {types s2} _ hrel2 => ?_
  have hs2 := C.whole.keep hs1 hrel2
  have hid2 := ordinary_of_whole (C.whole_trans hrel1 hrel2) hid
  split
  · exact agree_refuse _ _ hs2
  · refine (agree_forM (fun x hx => ?_) hs2).bind fun {_ s3} _ hrel3 => ?_
    · exact (hrec.takes (hargs _ (List.of_mem_zip hx).1)).convertLiteral _
    · have hs3 := C.whole.keep hs2 hrel3
      refine (agreeFrom_update hs3 (ordinary_of_whole hrel3 hid2) ?_ ?_).bind fun _ hrel4 => ?_
      · rfl
      · exact hargs
      · exact agree_checkExpected _ (C.whole.keep hs3 hrel4)

theorem agree_bindSubquery (hrec : rec.Agree C.clauses rec') (hderived : rec.Derived env) {q : Select}
    (hq : ∀ x ∈ q.exprs, S x) : C.whole.Agree (bindSubquery rec id q) (bindSubquery rec' id q) := by
  have hmark (t : SqlType) :
      C.whole.Follows (modifyExprs (·.update id ({ · with type := t, hasSubquery := true }))) :=
    agree_modifyExprs fun _ => .of_update_kind (by intro n; rfl)
  unfold bindSubquery
  cases q.depth with
  | some => exact agree_bind (agree_pure _) fun q => agree_markSubquery q hmark
  | none =>
    simp only [Option.isSome_none, Bool.false_eq_true, if_false, pure_bind]
    refine agree_bind (agree_modifyExprs fun _ => .of_setQuery fun y hy =>
      (List.not_mem_nil hy).elim) fun _ s hs => ?_
    refine (hrec.select hq hs).bind fun {q' s1} hrun hrel => ?_
    have hq' := ((hderived.query hrun).confined (C.inv_encloses hs) hq).2
    refine (agree_bind (agree_modifyExprs fun _ => .of_setQuery hq') fun _ => ?_) (C.whole.keep hs hrel)
    exact agree_markSubquery q' hmark

theorem agreeFrom_bindColumn (ref : ColumnRef) {s : BindState} (hs : C.Inv s)
    (hid : s.exprs.Ordinary id) (hown : S id ∨ (s.expectations.expectedOf id).isValid = true) :
    C.whole.AgreeFrom s (bindColumn id ref) (bindColumn id ref) := by
  have hend {s : BindState} (hs : C.Inv s)
      (hown : S id ∨ (s.expectations.expectedOf id).isValid = true) : C.whole.AgreeFrom s (do
      if !(← expectedOf id).isValid then
        expect id (← typeOf id)
      checkExpected id : BindM Unit) (do
      if !(← expectedOf id).isValid then
        expect id (← typeOf id)
      checkExpected id : BindM Unit) := by
    refine (agree_expectedOf id hs).bind fun {t _} hrun _ => ?_
    obtain ⟨rfl, rfl⟩ := run_expectedOf.mp hrun
    split
    · rename_i hinvalid
      have hin : S id := hown.resolve_right fun hvalid => by simp [hvalid] at hinvalid
      exact agree_bind (agree_typeOf _) (fun _ => agree_bind (agree_expect hin _) fun _ =>
        agree_checkExpected _) hs
    · exact agree_checkExpected _ hs
  unfold bindColumn
  cases ref.isResolved with
  | true => exact hend hs hown
  | false =>
    refine (agree_get hs).bind fun {s0 _} hrun _ => ?_
    obtain ⟨rfl, rfl⟩ := run_get.mp hrun
    refine (agree_ofExcept _ hs).bind fun {c s1} hrun _ => ?_
    obtain ⟨_, rfl⟩ := run_ofExcept.mp hrun
    refine (agreeFrom_update hs hid rfl (List.forall_mem_nil _)).bind
      fun {_ t} hrun hrel => ?_
    rw [run_modifyExprs] at hrun
    subst hrun
    exact hend (C.whole.keep hs hrel) hown

theorem agreeFrom_bindConstant (v : Value) {s : BindState} (hs : C.Inv s)
    (hid : s.exprs.Ordinary id) : C.whole.AgreeFrom s (bindConstant id v) (bindConstant id v) := by
  refine (agree_expectedOf id hs).bind fun {expected s1} hrun _ => ?_
  obtain ⟨_, rfl⟩ := run_expectedOf.mp hrun
  split
  · refine (agree_ofExcept _ hs).bind fun {w s1} hrun _ => ?_
    obtain ⟨_, rfl⟩ := run_ofExcept.mp hrun
    have hset : StoreStep S s.exprs (s.exprs.setExpr id (.constant w)) :=
      .of_update hid.2.symm fun _ _ y hy => (List.not_mem_nil hy).elim
    exact ⟨rfl, C.exprs hs (hset.trans (.of_update_kind (by intro n; rfl)))⟩
  · exact agree_ite (agree_setType _ _) (agree_pure _) hs

theorem agreeFrom_bindParameter {index : Nat} (hid : S id) {s : BindState} (hs : C.Inv s)
    (hsize : id < s.exprs.size) (hkind : s.exprs.expr id = .parameter index) :
    C.whole.AgreeFrom s (bindParameter id index) (bindParameter id index) := by
  refine (agree_get hs).bind fun {s0 _} hrun _ => ?_
  obtain ⟨rfl, rfl⟩ := run_get.mp hrun
  cases hv : s.parameters[index]? with
  | none => exact agree_refuse _ _ hs
  | some =>
    refine (agree_expectedOf id hs).bind fun {expected s1} hrun _ => ?_
    obtain ⟨rfl, rfl⟩ := run_expectedOf.mp hrun
    refine (agree_ofExcept _ hs).bind fun {w s1} hrun _ => ?_
    obtain ⟨hw, rfl⟩ := run_ofExcept.mp hrun
    exact ⟨rfl, C.parameter hs hid hsize hkind hv hw⟩

theorem agreeFrom_bindExprWith (hrec : rec.Agree C.clauses rec') (hderived : rec.Derived env) {s : BindState}
    (hs : C.Inv s) (hparts : ∀ y ∈ (s.exprs.expr id).parts, S y)
    (hown : S id ∨ (s.expectations.expectedOf id).isValid = true ∧ s.exprs.Ordinary id) :
    C.whole.AgreeFrom s (bindExprWith env rec id) (bindExprWith env rec' id) := by
  have hnode : C.whole.Follows (getNode id) := by
    refine agree_bind agree_get fun s => ?_
    split
    · exact agree_pure _
    · exact agree_throw _
  refine (hnode hs).bind fun {n s1} hrun _ => ?_
  obtain ⟨hn, rfl⟩ := run_getNode.mp hrun
  have hsize : id < s.exprs.size := lt_size_of_node? hn
  have hexpr : s.exprs.expr id = n.kind := by rw [expr, node_of_node? hn]
  rw [hexpr] at hparts
  have hother (h : n.kind.placeholder? = none) : s.exprs.Ordinary id := ⟨hsize, by rw [hexpr, h]⟩
  cases hk : n.kind with
  | constant v => exact agreeFrom_bindConstant v hs (hother (by rw [hk]; rfl))
  | parameter =>
    refine agreeFrom_bindParameter (hown.resolve_right fun h => ?_) hs hsize (hexpr.trans hk)
    rw [Ordinary, hexpr, hk] at h
    cases h.2.2
  | column ref =>
    exact agreeFrom_bindColumn ref hs (hother (by rw [hk]; rfl)) (hown.imp_right fun h => h.1)
  | star | tableStar => exact agree_bindStar hs
  | compare _ left right =>
    rw [hk] at hparts
    have hl := hparts left (by simp [Expr.parts, Expr.children])
    have hr := hparts right (by simp [Expr.parts, Expr.children])
    exact agree_bindComparison (agree_setType id) (hrec.takes hl) (hrec.takes hr) (agree_expectPair hl hr)
      (agree_dropLiteralCast hl) (agree_dropLiteralCast hr) hs
  | connect =>
    rw [hk] at hparts
    exact agree_bindConnective (agree_setType id) (fun c hc => hrec.takes (hparts c hc)) hs
  | operate op =>
    rw [hk] at hparts
    exact agree_bindOperation (agree_setType id) op (fun c hc => hrec.takes (hparts c hc)) hs
  | call name =>
    rw [hk] at hparts
    exact agreeFrom_bindCall hrec name hparts hs (hother (by rw [hk]; rfl))
  | aggregate f =>
    rw [hk] at hparts
    exact agree_bindAggregate (agree_setType id) f (fun c hc => hrec.takes (hparts c hc)) hs
  | cast target operand =>
    rw [hk] at hparts
    exact agree_bindCast (agree_setType id) target (hrec.takes (hparts operand (List.mem_singleton_self _))) hs
  | case =>
    rw [hk] at hparts
    exact agree_bindCase (agree_setType id) (fun c hc => hrec.takes (hparts c hc)) hs
  | subquery =>
    rw [hk] at hparts
    exact agree_bindSubquery hrec hderived hparts hs
  | default => exact agree_refuse _ _ hs

theorem agree_bindExprWith (hrec : rec.Agree C.clauses rec') (hderived : rec.Derived env) (hid : S id) :
    C.whole.Agree (bindExprWith env rec id) (bindExprWith env rec' id) := fun _ hs =>
  agreeFrom_bindExprWith hrec hderived hs ((C.inv_encloses hs).closed id hid) (Or.inl hid)

end Conduct

section

variable {S : ExprId → Prop} {C : Conduct S} {env : Accessor}

theorem Conduct.agree_statement {rec rec' : Recur} (h : rec.Agree C.clauses rec')
    (hderived : rec.Derived env) {st : Statement} (hst : ∀ x ∈ st.exprs, S x) :
    C.whole.Agree (bindStatementWith env rec st) (bindStatementWith env rec' st) :=
  Conduct.agree_whole (Clauses.agree_bindStatementWith h hderived (C.copies env) trivial hst)

theorem Recur.Agree.next {rec rec' : Recur} (h : rec.Agree C.clauses rec') (hderived : rec.Derived env) :
    Recur.Agree C.clauses ⟨bindExprWith env rec, bindQueryWith rec, bindBranchWith env rec⟩
      ⟨bindExprWith env rec', bindQueryWith rec', bindBranchWith env rec'⟩ :=
  .of_conduct (Conduct.agree_bindExprWith h hderived)
    (fun hq => Conduct.agree_whole (Clauses.agree_bindQueryWith h trivial hq))
    fun hq => Conduct.agree_part (Clauses.agree_bindBranchWith h hderived trivial hq _)

theorem recurTo_conducts (levels : Nat) : (recurTo env levels).Agree C.clauses (recurTo env levels) := by
  induction levels with
  | zero =>
    exact .of_conduct (fun _ => Conduct.agree_throw _) (fun _ => Conduct.agree_throw _) fun _ =>
      fun _ _ => ⟨rfl, C.part.refl⟩
  | succ n ih => exact ih.next (recurTo_derived n)

end

end SqlAnalysis
