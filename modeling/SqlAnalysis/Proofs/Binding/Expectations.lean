import SqlAnalysis.Proofs.Binding.Clauses

/-!
# Expectations are met

While a statement is bound, types are expected of expressions by whatever they stand in, and an
expectation may replace an earlier one.  Each is followed by a binding of the expression, which fails
unless the type fits.

* **`recurTo_pays`**: the binding of an expression meets what is expected of it, whatever is still
  open elsewhere.
* **`bind_meets_expectations`**: at the end of a binding every expectation is met.
-/

namespace SqlAnalysis

open Text BindM Track Arena

variable {f : ExprNode → ExprNode} {a : Arena} {s s' : BindState} {id left right : ExprId}
  {rec : Recur} {operands : List ExprId} {q : Select} {α : Type} {env : Accessor}

/-! ### Expectations -/

/-- What is expected of an expression is expected of a node, and unless the node is a star its type
fits: a literal has the expected type, anything else a type that may stand for it. -/
def Expectations.Met (x : Expectations) (a : Arena) (id : ExprId) : Prop :=
  (x.expectedOf id).isValid = true → id < a.size ∧ ((a.expr id).isStar = false →
    (a.typeOf id).implicitlyCasts (x.expectedOf id) = true ∧
      ((a.expr id).isLiteral = true → a.typeOf id = x.expectedOf id))

theorem SqlType.implicitlyCasts_self (t : SqlType) : t.implicitlyCasts t = true := by
  simp [implicitlyCasts]

/-- All expectations are met, apart from those on the given expressions. -/
def BindState.MeetsBut (s : BindState) (pending : List ExprId) : Prop :=
  ∀ x, x ∉ pending → s.expectations.Met s.exprs x

/-- Two nodes that meet the same expectations. -/
structure ExprNode.Alike (n n' : ExprNode) : Prop where
  type : n'.type = n.type
  literal : n'.kind.isLiteral = n.kind.isLiteral
  star : n'.kind.isStar = n.kind.isStar

theorem ExprNode.Alike.of_kind {n n' : ExprNode} (htype : n'.type = n.type)
    (hkind : n'.kind = n.kind) : n.Alike n' :=
  ⟨htype, by rw [hkind], by rw [hkind]⟩

theorem ExprNode.Alike.refl (n : ExprNode) : n.Alike n := .of_kind rfl rfl

section

variable {pending pending' : List ExprId}

theorem BindState.MeetsBut.of_alike (h : s.MeetsBut pending)
    (hpending : ∀ x, x ∈ pending → x ∈ pending') (hsize : s.exprs.size ≤ s'.exprs.size)
    (hexpected : ∀ x, x ∉ pending' →
      s'.expectations.expectedOf x = s.expectations.expectedOf x)
    (halike : ∀ x, x ∉ pending' → x < s.exprs.size → (s.exprs.node x).Alike (s'.exprs.node x)) :
    s'.MeetsBut pending' := by
  intro x hx hvalid
  rw [hexpected x hx] at hvalid ⊢
  obtain ⟨hlt, hmet⟩ := h x (fun hx' => hx (hpending x hx')) hvalid
  have hnode := halike x hx hlt
  refine ⟨hlt.trans_le hsize, fun hstar => ?_⟩
  rw [Arena.expr, hnode.star] at hstar
  rw [Arena.typeOf, hnode.type, Arena.expr, hnode.literal]
  exact hmet hstar

theorem BindState.MeetsBut.mono (h : s.MeetsBut pending)
    (hpending : ∀ x, x ∈ pending → x ∈ pending') : s.MeetsBut pending' :=
  fun x hx => h x fun hx' => hx (hpending x hx')

theorem BindState.MeetsBut.settle (h : s.MeetsBut (id :: pending))
    (hmet : s.expectations.Met s.exprs id) : s.MeetsBut pending := by
  intro x hx
  by_cases hid : x = id
  · rw [hid]
    exact hmet
  · exact h x fun hx' => (List.mem_cons.mp hx').elim hid hx

theorem BindState.MeetsBut.weaken (h : s.MeetsBut pending) : s.MeetsBut (id :: pending) :=
  h.mono fun _ => List.mem_cons_of_mem _

theorem BindState.MeetsBut.expect (h : s.MeetsBut (id :: pending)) (t : SqlType) :
    ({ s with expectations := s.expectations.expect id t } : BindState).MeetsBut (id :: pending) :=
  h.of_alike (fun _ hx => hx) le_rfl
    (fun x hx => by
      rw [Expectations.expectedOf_expect, if_neg]
      exact fun hid => hx (hid ▸ List.mem_cons_self))
    fun _ _ _ => .refl _

theorem BindState.MeetsBut.update (h : s.MeetsBut (id :: pending)) (f : ExprNode → ExprNode) :
    ({ s with exprs := s.exprs.update id f } : BindState).MeetsBut (id :: pending) :=
  h.of_alike (fun _ hx => hx) ((size_update _ _).symm.le)
    (fun _ _ => rfl) fun x hx _ => by
      have hne : x ≠ id := fun hid => hx (hid ▸ List.mem_cons_self)
      rw [node_update_of_ne f hne]
      exact .refl _

theorem BindState.MeetsBut.update_alike (h : s.MeetsBut pending) (id : ExprId)
    (hf : ∀ n : ExprNode, n.Alike (f n)) :
    ({ s with exprs := s.exprs.update id f } : BindState).MeetsBut pending :=
  h.of_alike (fun _ hx => hx) ((size_update _ _).symm.le) (fun _ _ => rfl)
    fun x _ _ => by
      rw [node_update]
      split
      · exact hf _
      · exact .refl _

def Arena.Compound (a : Arena) (id : ExprId) : Prop := id < a.size ∧ (a.expr id).isLiteral = false

theorem Arena.compound_update (hf : ∀ n : ExprNode, (f n).kind = n.kind) {y : ExprId} :
    (a.update id f).Compound y ↔ a.Compound y := by
  rw [Compound, size_update, expr_update_of_kind hf, Compound]

theorem Reshapes.compound {a' : Arena} (h : Reshapes a a') (hid : a.Compound id) : a'.Compound id :=
  ⟨hid.1.trans_le h.size_le, by rw [(h.kind id hid.1).isLiteral]; exact hid.2⟩

theorem Expectations.met_of_check {x : Expectations} {u : Unit} (hcheck : x.check a id = .ok u)
    (hid : a.Compound id) : x.Met a id := by
  intro hvalid
  refine ⟨hid.1, fun _ => ⟨?_, fun h => ?_⟩⟩
  · rw [check] at hcheck
    split at hcheck
    · rename_i hfits
      rw [fits, hvalid] at hfits
      simpa using hfits
    · cases hcheck
  · rw [hid.2] at h
    cases h

end

/-! ### Computations that leave nothing unmet -/

section

variable {β : Type}

def heeding : Track BindState where
  Inv _ := True
  Rel s t := ∀ ⦃pending⦄, s.MeetsBut pending → t.MeetsBut pending
  Fail _ _ _ := True
  refl := fun h => h
  trans h h' _ hs := h' (h hs)
  refused := trivial
  trans_fail _ _ := trivial
  keep _ _ := trivial

abbrev Heeds (act : BindM α) : Prop := heeding.Follows act

theorem Heeds.run {act : BindM α} (h : Heeds act) {a : α} (hrun : act s = .ok a s') :
    heeding.Rel s s' := by
  have hends := (@h s trivial).2
  rwa [hrun] at hends

theorem heeds_throw (e : Fault) : Heeds (throw e : BindM α) := fun _ _ => ⟨rfl, trivial⟩

/-- Meets what is expected of an expression, and leaves no other expectation unmet that was met. -/
def Pays (id : ExprId) (act : BindM α) : Prop :=
  ∀ ⦃s a s'⦄, act s = .ok a s' → ∀ ⦃pending⦄, s.MeetsBut (id :: pending) → s'.MeetsBut pending

theorem Pays.heeds {act : BindM α} (h : Pays id act) : Heeds act := by
  refine fun s _ => ⟨rfl, ?_⟩
  cases hrun : act s with
  | ok => exact fun _ hs => h hrun hs.weaken
  | error => trivial

theorem Pays.bind {x : BindM α} {f : α → BindM β} (hx : Pays id x) (hf : ∀ a, Heeds (f a)) :
    Pays id (x >>= f) := by
  intro s b s' h pending hs
  obtain ⟨a, _, hfirst, hrest⟩ := run_bind.mp h
  exact (hf a).run hrest (hx hfirst hs)

theorem Pays.expect {act : BindM α} (h : Pays id act) (t : SqlType) :
    Pays id (do
      BindM.expect id t
      act) := by
  intro s a s' hrun pending hs
  obtain ⟨_, _, hexpect, hrest⟩ := run_bind.mp hrun
  rw [run_expect] at hexpect
  subst hexpect
  exact h hrest (hs.expect t)

theorem Pays.expectBooleanLiteral {act : BindM α} (h : Pays id act) :
    Pays id (do
      BindM.expectBooleanLiteral id
      act) := by
  intro s a s' hrun pending hs
  obtain ⟨_, s1, hexpect, hrest⟩ := run_bind.mp hrun
  simp only [BindM.expectBooleanLiteral, run_bind, run_isLiteral] at hexpect
  obtain ⟨_, _, ⟨_, rfl⟩, hexpect⟩ := hexpect
  split at hexpect
  · refine h.expect .boolean (run_bind.mpr ⟨_, s1, hexpect, hrest⟩) hs
  · obtain ⟨_, rfl⟩ := run_pure.mp hexpect
    exact h hrest hs

end

/-! ### Expressions -/

/-- The binding of nested parts leaves nothing unmet. -/
structure Recur.Pays (rec : Recur) : Prop where
  expr : ∀ id, SqlAnalysis.Pays id (rec.expr id)
  query : ∀ q, Heeds (rec.query q)
  branch : ∀ q depth, Heeds (rec.branch q depth)

theorem Recur.Pays.takes (h : rec.Pays) (id : ExprId) : heeding.Takes rec rec id :=
  ⟨(h.expr id).heeds, fun t => ((h.expr id).expect t).heeds⟩

section

variable {pending : List ExprId} {u : Unit}

theorem checkExpected_meets (h : checkExpected id s = .ok u s') (hid : s'.exprs.Compound id)
    (hs : s.MeetsBut (id :: pending)) : s'.MeetsBut pending := by
  obtain ⟨hcheck, rfl⟩ := run_checkExpected.mp h
  exact hs.settle (Expectations.met_of_check hcheck hid)

theorem settle_meets {t : SqlType}
    (h : (do
      setType id t
      checkExpected id : BindM Unit) s = .ok u s')
    (hid : s'.exprs.Compound id) (hs : s.MeetsBut (id :: pending)) : s'.MeetsBut pending := by
  obtain ⟨_, _, htype, hcheck⟩ := run_bind.mp h
  rw [run_setType] at htype
  subst htype
  exact checkExpected_meets hcheck hid (hs.update _)

theorem bindConstant_meets {v : Value} (hlt : id < s.exprs.size)
    (h : bindConstant id v s = .ok u s') (hs : s.MeetsBut (id :: pending)) :
    s'.MeetsBut pending := by
  simp only [bindConstant, run_bind, run_expectedOf] at h
  obtain ⟨_, _, ⟨rfl, rfl⟩, h⟩ := h
  split at h
  · -- the constant is converted and has the expected type
    simp only [run_bind, run_ofExcept, run_modifyExprs] at h
    obtain ⟨w, _, ⟨_, rfl⟩, rfl⟩ := h
    have hset := (hs.update ({ · with kind := .constant w })).update
      ({ · with type := s.expectations.expectedOf id })
    refine hset.settle fun _ => ⟨?_, fun _ => ?_⟩
    · simpa [Arena.setType, Arena.setExpr] using hlt
    · have htype : ((s.exprs.setExpr id (.constant w)).setType id
          (s.expectations.expectedOf id)).typeOf id = s.expectations.expectedOf id := by
        rw [Arena.typeOf, Arena.setType, Arena.node_update_self]
        simpa [Arena.setExpr] using hlt
      refine ⟨?_, fun _ => htype⟩
      show SqlType.implicitlyCasts (((s.exprs.setExpr id (.constant w)).setType id
        (s.expectations.expectedOf id)).typeOf id) _ = true
      rw [htype]
      exact SqlType.implicitlyCasts_self _
  · -- nothing is expected
    rename_i hnone
    have hmet {a : Arena} : s.expectations.Met a id := fun hvalid => absurd hvalid hnone
    split at h
    · rw [run_setType] at h
      subst h
      exact (hs.update _).settle hmet
    · obtain ⟨_, rfl⟩ := run_pure.mp h
      exact hs.settle hmet

theorem bindParameter_meets {index : Nat} (hlt : id < s.exprs.size)
    (h : bindParameter id index s = .ok u s') (hs : s.MeetsBut (id :: pending)) :
    s'.MeetsBut pending := by
  obtain ⟨_, t, ht, rfl⟩ := run_bindParameter h
  refine (hs.update ({ · with type := t })).settle fun hvalid => ⟨?_, fun _ => ?_⟩
  · simpa [Arena.setType] using hlt
  · have htype : (s.exprs.update id ({ · with type := t })).typeOf id =
        s.expectations.expectedOf id := by
      rw [Arena.typeOf, Arena.node_update_self _ hlt]
      exact ht.trans (if_pos hvalid)
    refine ⟨?_, fun _ => htype⟩
    show SqlType.implicitlyCasts (typeOf _ id) _ = true
    rw [htype]
    exact SqlType.implicitlyCasts_self _

theorem bindColumn_meets {ref : ColumnRef} (h : bindColumn id ref s = .ok u s')
    (hid : s'.exprs.Compound id) (hs : s.MeetsBut (id :: pending)) : s'.MeetsBut pending := by
  -- after the resolution its own type is expected unless something else is
  have hown {s : BindState} (hs : s.MeetsBut (id :: pending))
      (h : (do
        if !(← expectedOf id).isValid then
          expect id (← typeOf id)
        checkExpected id : BindM Unit) s = .ok u s') : s'.MeetsBut pending := by
    simp only [run_bind, run_expectedOf] at h
    obtain ⟨_, _, ⟨_, rfl⟩, h⟩ := h
    split at h
    · simp only [run_bind, run_typeOf, run_expect] at h
      obtain ⟨t, _, ⟨_, rfl⟩, _, _, rfl, hcheck⟩ := h
      exact checkExpected_meets hcheck hid (hs.expect t)
    · exact checkExpected_meets h hid hs
  unfold bindColumn at h
  cases hres : ref.isResolved with
  | true =>
    rw [hres] at h
    exact hown hs h
  | false =>
    rw [hres, Bool.not_false, if_pos rfl, run_get_bind, run_bind] at h
    obtain ⟨_, _, hfound, h⟩ := h
    obtain ⟨_, rfl⟩ := run_ofExcept.mp hfound
    obtain ⟨_, _, hmod, h⟩ := run_bind.mp h
    rw [run_modifyExprs] at hmod
    subst hmod
    exact hown (hs.update _) h

theorem expectPair_meets (h : expectPair left right s = .ok u s') (hs : s.MeetsBut pending) :
    s'.MeetsBut (left :: right :: pending) := by
  simp only [expectPair, run_bind, run_get, run_ofExcept, run_set] at h
  obtain ⟨_, _, ⟨rfl, rfl⟩, x, _, ⟨hx, rfl⟩, rfl⟩ := h
  unfold Expectations.expectPair at hx
  cases hp : s.expectations.pairType s.exprs left right with
  | error =>
    rw [hp] at hx
    cases hx
  | ok t =>
    rw [hp] at hx
    cases hx
    have hleft : s.MeetsBut (left :: pending) := hs.weaken
    exact ((hleft.expect t).weaken.expect t).mono fun x hx => by
      simp only [List.mem_cons] at hx ⊢
      tauto

theorem heeds_dropLiteralCast (parent operand : ExprId) :
    Heeds (dropLiteralCast parent operand) := by
  have halike (f : ExprId → ExprId) (n : ExprNode) :
      n.Alike { n with kind := n.kind.mapChildren f } := by
    refine ⟨rfl, ?_, ?_⟩ <;>
      cases hk : n.kind <;> rfl
  refine agree_bind (agree_exprOf _) fun e => ?_
  cases e with
  | cast =>
    refine agree_bind (agree_isLiteral _) fun b => agree_ite ?_ (agree_pure _)
    exact agree_modify fun _ _ _ hs => hs.update_alike parent (halike _)
  | _ => exact agree_pure _

/-! A node that is settled before its operands are bound for the last time is not a literal then. -/

theorem reshapes_visitAll (hderived : rec.Derived env) {cs : List ExprId}
    (h : cs.forM rec.expr s = .ok u s') : Reshapes s.exprs s'.exprs := by
  induction cs generalizing s with
  | nil =>
    rw [run_forM_nil] at h
    subst h
    exact .refl _
  | cons _ _ ih =>
    obtain ⟨_, hfirst, hrest⟩ := run_forM_cons.mp h
    exact ((hderived.expr hfirst).progress trivial).toReshapes.trans (ih hrest)

theorem bindComparison_meets (hrec : rec.Pays) (hderived : rec.Derived env)
    (h : bindComparison rec id left right s = .ok u s') (hid : s.exprs.Compound id)
    (hs : s.MeetsBut (id :: pending)) : s'.MeetsBut pending := by
  simp only [bindComparison, run_bind] at h
  obtain ⟨_, _, hl, _, s2, hr, _, _, htype, _, s4, hcheck, _, _, hpair, _, _, hl', _, _, hr', _, _,
    hdl, hdr⟩ := h
  have hid2 : s2.exprs.Compound id :=
    ((hderived.expr hr).progress trivial).compound (((hderived.expr hl).progress trivial).compound hid)
  have hs2 := (hrec.expr right).heeds.run hr ((hrec.expr left).heeds.run hl hs)
  have hs4 : s4.MeetsBut pending := by
    rw [run_setType] at htype
    subst htype
    refine checkExpected_meets hcheck ?_ (hs2.update _)
    obtain ⟨_, rfl⟩ := run_checkExpected.mp hcheck
    exact (compound_update (by intro n; rfl)).mpr hid2
  have hs7 := hrec.expr right hr' (hrec.expr left hl' (expectPair_meets hpair hs4))
  exact (heeds_dropLiteralCast _ _).run hdr ((heeds_dropLiteralCast _ _).run hdl hs7)

theorem bindConnective_meets (hrec : rec.Pays) (hderived : rec.Derived env)
    (h : bindConnective rec id operands s = .ok u s') (hid : s.exprs.Compound id)
    (hs : s.MeetsBut (id :: pending)) : s'.MeetsBut pending := by
  simp only [bindConnective, run_bind] at h
  obtain ⟨_, _, hall, _, _, htype, _, s3, hcheck, hagain⟩ := h
  have hid1 := (reshapes_visitAll hderived hall).compound hid
  have hs1 := Heeds.run (agree_forM fun c _ => (hrec.expr c).heeds) hall hs
  have hs3 : s3.MeetsBut pending := by
    rw [run_setType] at htype
    subst htype
    refine checkExpected_meets hcheck ?_ (hs1.update _)
    obtain ⟨_, rfl⟩ := run_checkExpected.mp hcheck
    exact (compound_update (by intro n; rfl)).mpr hid1
  exact Heeds.run (agree_forM fun c _ => ((hrec.expr c).expect .boolean).heeds) hagain hs3

/-! The other kinds of expressions are settled at the end. -/

theorem bindOperation_meets (hrec : rec.Pays) {op : Operator}
    (h : bindOperation rec id op operands s = .ok u s') (hid : s'.exprs.Compound id)
    (hs : s.MeetsBut (id :: pending)) : s'.MeetsBut pending := by
  rw [bindOperation, run_bind] at h
  obtain ⟨_, _, hall, h⟩ := h
  obtain ⟨_, _, htype, h⟩ := run_bind.mp h
  have hs1 := Heeds.run (agree_forM fun c _ => (hrec.expr c).heeds) hall hs
  exact settle_meets h hid (Heeds.run (agree_operationType op fun c _ => hrec.takes c) htype hs1)

theorem bindCall_meets (hrec : rec.Pays) {name : String} {args : List ExprId}
    (h : bindCall env rec id name args s = .ok u s') (hid : s'.exprs.Compound id)
    (hs : s.MeetsBut (id :: pending)) : s'.MeetsBut pending := by
  simp only [bindCall, run_bind] at h
  obtain ⟨_, s1, hall, types, s2, htypes, h⟩ := h
  obtain rfl : s1 = s2 := state_of_mapM_typeOf htypes
  have hs1 := Heeds.run (agree_forM fun c _ => (hrec.expr c).heeds) hall hs
  cases hroutine : env.routine? (lowercase name) types with
  | none =>
    simp [hroutine] at h
  | some =>
    simp only [hroutine, run_bind, run_modifyExprs] at h
    obtain ⟨_, _, hconvert, _, _, rfl, hcheck⟩ := h
    have hs3 := Heeds.run (agree_forM fun x _ => (hrec.takes x.1).convertLiteral x.2) hconvert hs1
    exact checkExpected_meets hcheck hid (hs3.update _)

theorem bindAggregate_meets (hrec : rec.Pays) {f : Aggregate} {arg : Option ExprId}
    (h : bindAggregate rec id f arg s = .ok u s') (hid : s'.exprs.Compound id)
    (hs : s.MeetsBut (id :: pending)) : s'.MeetsBut pending := by
  rw [bindAggregate, run_bind] at h
  obtain ⟨t, _, harg, h⟩ := h
  have hs1 := Heeds.run (agree_bindAggregateArg f fun c _ => hrec.takes c) harg hs
  cases hresult : f.resultType? t with
  | none =>
    simp [hresult] at h
  | some =>
    rw [hresult] at h
    exact settle_meets h hid hs1

theorem bindCast_meets (hrec : rec.Pays) {target : SqlType} {operand : ExprId}
    (h : bindCast rec id target operand s = .ok u s') (hid : s'.exprs.Compound id)
    (hs : s.MeetsBut (id :: pending)) : s'.MeetsBut pending := by
  rw [bindCast, run_bind] at h
  obtain ⟨b, _, hliteral, h⟩ := h
  obtain ⟨_, rfl⟩ := run_isLiteral.mp hliteral
  cases b with
  | true =>
    simp only [if_true] at h
    obtain ⟨_, s1, hexpect, h⟩ := run_bind.mp h
    rw [run_expect] at hexpect
    subst hexpect
    obtain ⟨_, _, hvisit, h⟩ := run_bind.mp h
    exact settle_meets h hid (hrec.expr operand hvisit (hs.weaken.expect target))
  | false =>
    rw [if_neg Bool.false_ne_true, run_bind] at h
    obtain ⟨_, _, hvisit, h⟩ := h
    obtain ⟨_, _, htype, h⟩ := run_bind.mp h
    obtain ⟨_, rfl⟩ := run_typeOf.mp htype
    have hs1 := (hrec.expr operand).heeds.run hvisit hs
    split at h
    · simp at h
    · exact settle_meets h hid hs1

theorem bindCase_meets (hrec : rec.Pays) {branches : List (ExprId × ExprId)} {otherwise : Option ExprId}
    (h : bindCase rec id branches otherwise s = .ok u s') (hid : s'.exprs.Compound id)
    (hs : s.MeetsBut (id :: pending)) : s'.MeetsBut pending := by
  rw [bindCase, run_bind] at h
  obtain ⟨_, s1, hbranches, h⟩ := h
  obtain ⟨_, _, hother, h⟩ := run_bind.mp h
  obtain ⟨_, _, htypes, h⟩ := run_bind.mp h
  obtain ⟨t, _, htype, h⟩ := run_bind.mp h
  obtain ⟨_, _, hconvert, h⟩ := run_bind.mp h
  have hs1 : s1.MeetsBut (id :: pending) := by
    refine Heeds.run (agree_forM fun x _ => ?_) hbranches hs
    exact (((hrec.expr x.1).bind fun _ => agree_bind (agree_requireBoolean _ _) fun _ =>
      (hrec.expr x.2).heeds).expectBooleanLiteral).heeds
  have hs2 := Heeds.run (agree_forM fun c _ => (hrec.expr c).heeds) hother hs1
  have hs4 := Heeds.run (agree_ofExcept _) htype
    (Heeds.run (agree_mapM fun c _ => agree_typeOf c) htypes hs2)
  exact settle_meets h hid (Heeds.run (agree_forM fun c _ => (hrec.takes c).convertLiteral t) hconvert hs4)

theorem markSubquery_meets (h : (do
      let t ← match q.items with
        | first :: _ => typeOf first
        | [] => pure .invalid
      modifyExprs (·.update id ({ · with type := t, hasSubquery := true }))
      checkExpected id : BindM Unit) s = .ok u s') (hid : s'.exprs.Compound id)
    (hs : s.MeetsBut (id :: pending)) : s'.MeetsBut pending := by
  cases hitems : q.items with
  | nil =>
    simp only [hitems, run_bind, run_pure, run_modifyExprs] at h
    obtain ⟨t, _, ⟨_, rfl⟩, _, _, rfl, hcheck⟩ := h
    exact checkExpected_meets hcheck hid (hs.update _)
  | cons =>
    simp only [hitems, run_bind, run_typeOf, run_modifyExprs] at h
    obtain ⟨_, _, ⟨_, rfl⟩, _, _, rfl, hcheck⟩ := h
    exact checkExpected_meets hcheck hid (hs.update _)

theorem bindSubquery_meets (hrec : rec.Pays) (h : bindSubquery rec id q s = .ok u s')
    (hid : s'.exprs.Compound id) (hs : s.MeetsBut (id :: pending)) : s'.MeetsBut pending := by
  unfold bindSubquery at h
  cases hdepth : q.depth with
  | some =>
    rw [hdepth, Option.isSome_some, if_pos rfl, run_bind] at h
    obtain ⟨_, _, hpure, h⟩ := h
    obtain ⟨rfl, rfl⟩ := run_pure.mp hpure
    exact markSubquery_meets h hid hs
  | none =>
    rw [hdepth, Option.isSome_none, if_neg Bool.false_ne_true, run_bind] at h
    obtain ⟨_, _, hopen, h⟩ := h
    rw [run_modifyExprs] at hopen
    subst hopen
    obtain ⟨_, _, hquery, h⟩ := run_bind.mp h
    obtain ⟨_, _, hclose, h⟩ := run_bind.mp h
    rw [run_modifyExprs] at hclose
    subst hclose
    obtain ⟨_, _, hpure, h⟩ := run_bind.mp h
    obtain ⟨rfl, rfl⟩ := run_pure.mp hpure
    exact markSubquery_meets h hid (((hrec.query q).run hquery (hs.update _)).update _)

theorem bindExprWith_pays (hrec : rec.Pays) (hderived : rec.Derived env) (id : ExprId) :
    Pays id (bindExprWith env rec id) := by
  intro s u s' hrun pending hs
  have hprogress := (bindExprWith_binds hderived hrun).progress trivial
  simp only [bindExprWith, run_bind, run_getNode] at hrun
  obtain ⟨n, _, ⟨hn, rfl⟩, h⟩ := hrun
  have hlt := lt_size_of_node? hn
  have hkind : s.exprs.expr id = n.kind := by rw [expr, node_of_node? hn]
  have hbefore (hliteral : n.kind.isLiteral = false) : s.exprs.Compound id :=
    ⟨hlt, by rw [hkind]; exact hliteral⟩
  have hafter (hliteral : n.kind.isLiteral = false) : s'.exprs.Compound id :=
    hprogress.compound (hbefore hliteral)
  have hstar (hstar : n.kind.isStar = true) (h : bindStar s = .ok u s') : s'.MeetsBut pending := by
    obtain rfl := state_of_bindStar h
    refine hs.settle fun _ => ⟨hlt, fun hnot => ?_⟩
    rw [hkind, hstar] at hnot
    cases hnot
  cases hk : n.kind with
  | constant =>
    rw [hk] at h
    exact bindConstant_meets hlt h hs
  | parameter =>
    rw [hk] at h
    exact bindParameter_meets hlt h hs
  | column =>
    rw [hk] at h hafter
    exact bindColumn_meets h (hafter rfl) hs
  | star | tableStar =>
    rw [hk] at h hstar
    exact hstar rfl h
  | compare =>
    rw [hk] at h hbefore
    exact bindComparison_meets hrec hderived h (hbefore rfl) hs
  | connect =>
    rw [hk] at h hbefore
    exact bindConnective_meets hrec hderived h (hbefore rfl) hs
  | operate =>
    rw [hk] at h hafter
    exact bindOperation_meets hrec h (hafter rfl) hs
  | call =>
    rw [hk] at h hafter
    exact bindCall_meets hrec h (hafter rfl) hs
  | aggregate =>
    rw [hk] at h hafter
    exact bindAggregate_meets hrec h (hafter rfl) hs
  | cast =>
    rw [hk] at h hafter
    exact bindCast_meets hrec h (hafter rfl) hs
  | case =>
    rw [hk] at h hafter
    exact bindCase_meets hrec h (hafter rfl) hs
  | subquery =>
    rw [hk] at h hafter
    exact bindSubquery_meets hrec h (hafter rfl) hs
  | default =>
    simp [hk] at h

end

/-! ### Queries and statements -/

theorem BindState.MeetsBut.of_appends {pending : List ExprId} (h : s.MeetsBut pending)
    (happends : s.exprs.Appends a) : ({ s with exprs := a } : BindState).MeetsBut pending :=
  h.of_alike (fun _ hx => hx) happends.size_le (fun _ _ => rfl) fun x _ hx => by
    rw [happends.node hx]
    exact .refl _

/-- No step of a query or statement leaves an expectation unmet that was met. -/
def heedingClauses : Clauses where
  Inv _ := True
  Visits _ _ := True
  Fits _ := True
  Whole := heeding.Rel
  Part := heeding.Rel
  WholeFail _ _ _ := True
  PartFail _ _ _ := True
  inv_part _ _ := trivial
  visits_part _ _ _ := trivial
  visits_operand _ _ _ := trivial
  visits_yielded _ _ _ _ _ _ _ := trivial
  fits_le _ _ := trivial
  inv_open _ := trivial
  inv_sibling _ _ := trivial
  whole_refl := fun h => h
  whole_trans := heeding.trans
  part_trans := heeding.trans
  part_of_whole h := h
  refused := trivial
  whole_fail _ _ := trivial
  part_fail _ _ := trivial
  part_of_fail _ := trivial
  relabel _ h _ hs := hs.of_alike (fun _ hx => hx) (h.size.symm.le) (fun _ _ => rfl) fun x _ _ =>
    .of_kind (h.node x).type (h.node x).kind
  push {s n} _ hplain hleaf _ hs := hs.of_appends (Arena.Appends.of_push hplain hleaf)
  Fills _ := True
  copy {s _ stored} _ _ _ := by
    unfold onExprs importTree
    cases hrun : importFrom stored.arena stored.arena.bound stored.root s.exprs with
    | ok id a =>
      exact fun _ hs => hs.of_appends (importFrom_appends hrun).1
    | error e a => trivial
  visits_default _ _ _ := trivial
  serial _ _ hs := hs
  temp _ _ hs := hs
  scope _ _ _ _ hs := hs
  close _ h _ hs := h hs
  close_fail _ _ := trivial
  restore _ _ h _ hs := h hs
  restore_fail _ _ _ := trivial

theorem Heeds.follows {act : BindM α} (h : Heeds act) {S : ExprId → Prop} :
    (heedingClauses.whole S).Follows act := fun _ _ => h trivial

theorem heeds_of_follows {act : BindM α} (h : (heedingClauses.part fun _ => True).Follows act) :
    Heeds act := fun _ _ => h ⟨trivial, fun _ _ => trivial⟩

theorem Recur.Pays.agree (h : rec.Pays) : rec.Agree heedingClauses rec :=
  ⟨fun _ => (h.expr _).heeds.follows, fun t _ => ((h.expr _).expect t).heeds.follows,
    fun _ _ => (h.query _).follows, fun _ _ => Clauses.agree_part (h.branch _ _).follows⟩

theorem recurTo_pays (levels : Nat) : (recurTo env levels).Pays := by
  induction levels with
  | zero =>
    refine ⟨fun _ => ?_, fun _ => heeds_throw _, fun _ _ => heeds_throw _⟩
    exact fun _ _ _ h => (run_throw.mp h).elim
  | succ n ih =>
    refine ⟨bindExprWith_pays ih (recurTo_derived n), fun q => ?_, fun q depth => ?_⟩
    · exact heeds_of_follows (Clauses.agree_part (Clauses.agree_bindQueryWith ih.agree trivial fun _ _ => trivial))
    · exact heeds_of_follows
        (Clauses.agree_bindBranchWith ih.agree (recurTo_derived n) trivial (fun _ _ => trivial) depth)

theorem heeds_bindStatementWith {levels : Nat} (hrec : (recurTo env levels).Pays)
    (statement : Statement) {bound : Statement}
    (hrun : bindStatementWith env (recurTo env levels) statement s = .ok bound s') :
    heeding.Rel s s' := by
  refine Heeds.run (heeds_of_follows ?_) hrun
  exact Clauses.agree_part (Clauses.agree_bindStatementWith hrec.agree (recurTo_derived levels)
    (fun _ _ _ => trivial) trivial fun _ _ => trivial)

/-- **When a statement is bound, every expectation that is on record then is met**: an expression of
which a type is expected is a node and, stars apart, has a type that may stand for the expected one;
a constant or placeholder has exactly that type. -/
theorem bind_meets_expectations {env : Accessor} {p : Parsed} {parameters : List Value} {b : Bound}
    (h : (bind env p parameters).result = .ok b) :
    ∃ s, bindStatementWith env (recurTo env (bindLevels env p)) p.statement
        (BindState.initial env p parameters) = .ok b.statement s ∧ s.exprs = b.exprs ∧
      ∀ id, (s.expectations.expectedOf id).isValid = true → id < b.exprs.size ∧
        ((b.exprs.expr id).isStar = false →
          (b.exprs.typeOf id).implicitlyCasts (s.expectations.expectedOf id) = true ∧
          ((b.exprs.expr id).isLiteral = true →
            b.exprs.typeOf id = s.expectations.expectedOf id)) := by
  obtain ⟨s, hrun, hexprs, _⟩ := bind_run h
  refine ⟨s, hrun, hexprs.symm, fun id => ?_⟩
  have hinitial : (BindState.initial env p parameters).MeetsBut [] := fun x _ hvalid => by
    cases hvalid
  have hmeets := heeds_bindStatementWith (recurTo_pays _) p.statement hrun hinitial
  rw [hexprs]
  exact hmeets id List.not_mem_nil

/-- `SELECT 1 WHERE CAST(2 AS BIGINT) = $1` -/
def wideParameter : Parsed :=
  { statement := .select { items := [0], filter := some 1 }
    exprs := .ofExprs [
      .constant (.ofByte 1),
      .compare .equal 2 4,
      .cast .bigInt 3,
      .constant (.ofByte 2),
      .parameter 0] }

/-- What is expected of the placeholder in the end, and what stands in its place. -/
def wideParameterEnd : Option (SqlType × Bool × Bool) :=
  match bindStatementWith .initial (recurTo .initial (bindLevels .initial wideParameter))
      wideParameter.statement (BindState.initial .initial wideParameter [.integral .tiny 2 rfl]) with
  | .ok _ s => some (s.expectations.expectedOf 4, (s.exprs.expr 4).isLiteral, (s.exprs.expr 4).isStar)
  | .error _ _ => none

/-- The small number given for the placeholder is bound as a big one, since it is compared with
one. -/
theorem wideParameter_meets_expectations :
    ∃ (b : Bound) (s : BindState),
      (bind .initial wideParameter [.integral .tiny 2 rfl]).result = .ok b ∧
      bindStatementWith .initial (recurTo .initial (bindLevels .initial wideParameter))
        wideParameter.statement (BindState.initial .initial wideParameter [.integral .tiny 2 rfl]) =
          .ok b.statement s ∧
      s.expectations.expectedOf 4 = .bigInt ∧ (b.exprs.expr 4).isLiteral = true ∧
        b.exprs.typeOf 4 = .bigInt := by
  have hbound : (bind .initial wideParameter [.integral .tiny 2 rfl]).result.isOk = true := by
    decide +kernel
  cases hb : (bind .initial wideParameter [.integral .tiny 2 rfl]).result with
  | error =>
    rw [hb] at hbound
    cases hbound
  | ok b =>
    obtain ⟨s, hrun, hexprs, hmet⟩ := bind_meets_expectations hb
    have hwide : wideParameterEnd = some (.bigInt, true, false) := by decide +kernel
    simp only [wideParameterEnd, hrun, Option.some.injEq, Prod.mk.injEq] at hwide
    obtain ⟨hexpected, hliteral, hstar⟩ := hwide
    rw [hexprs] at hliteral hstar
    refine ⟨b, s, rfl, hrun, hexpected, hliteral, ?_⟩
    rw [((hmet 4 (by rw [hexpected]; rfl)).2 hstar).2 hliteral, hexpected]

end SqlAnalysis
