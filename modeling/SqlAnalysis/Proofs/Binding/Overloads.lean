import SqlAnalysis.Proofs.Binding.Evolution
import SqlAnalysis.Proofs.Binding.Runs
import SqlAnalysis.Proofs.Plan.Derivation
import SqlAnalysis.Proofs.Keyed

/-!
# Calls that are bound again

Comparisons, connectives and NOT bind their operands a second time.  By then the literal arguments of
a call have the types of the parameters of the overload that was chosen, and the overload is chosen
anew.

* **`call_settled_iff`**: a call whose arguments are settled is settled exactly if its converted
  arguments still choose the same overload.
-/

namespace SqlAnalysis

open BindM Text List Arena

variable {α : Type} {n : Nat} {c id : ExprId} {t : SqlType} {args : List ExprId} {name : String}
  {r : Routines} {types : List SqlType} {f : Routine}

variable {env : Accessor} {s s' : BindState} {u : Unit}

theorem Arena.typeOf_setType_self {a : Arena} {id : ExprId} {t : SqlType} (h : id < a.size) :
    (a.setType id t).typeOf id = t := by
  rw [typeOf, setType, node_update_self _ h]

/-! ### Conversion of literals -/

/-- Differs at one node at most, and expects the same of all others. -/
structure BindState.SameBut (c : ExprId) (s s' : BindState) : Prop where
  node : ∀ x, x ≠ c → s'.exprs.node x = s.exprs.node x
  expected : ∀ x, x ≠ c → s'.expectations.expected.find? x = s.expectations.expected.find? x

theorem bindExpr_literal (h : bindExpr env n c s = .ok u s')
    (hc : (s.exprs.expr c).isLiteral = true) :
    (∀ x, x ≠ c → s'.exprs.node x = s.exprs.node x) ∧
      s'.expectations.expected = s.expectations.expected ∧ (s'.exprs.expr c).isLiteral = true ∧
      ((s.expectations.expectedOf c).isValid = true → s'.exprs.typeOf c = s.expectations.expectedOf c) := by
  cases n with
  | zero => cases h
  | succ =>
    simp only [bindExpr, bindExprWith, run_bind, run_getNode] at h
    obtain ⟨node, _, ⟨hnode, rfl⟩, h⟩ := h
    have hlt := lt_size_of_node? hnode
    have hkind : s.exprs.expr c = node.kind := by rw [expr, node_of_node? hnode]
    rw [hkind] at hc
    cases hk : node.kind <;> rw [hk] at h hc hkind <;> first | (cases hc; done) | skip
    case constant v =>
      simp only [bindConstant, run_bind, run_expectedOf] at h
      obtain ⟨_, _, ⟨rfl, rfl⟩, h⟩ := h
      split at h
      · simp only [run_bind, run_ofExcept, run_modifyExprs] at h
        obtain ⟨w, _, ⟨_, rfl⟩, rfl⟩ := h
        refine ⟨fun x hx => (node_update_of_ne _ hx).trans (node_update_of_ne _ hx), rfl, ?_, fun _ => ?_⟩
        · rw [expr_setType, expr, setExpr, node_update_self _ hlt]
          rfl
        · exact typeOf_setType_self (by rwa [setExpr, size_update])
      · rename_i hnot
        split at h
        · rw [run_setType] at h
          subst h
          refine ⟨fun x hx => node_update_of_ne _ hx, rfl, ?_, fun hvalid => (hnot hvalid).elim⟩
          rw [expr_setType, hkind]
          rfl
        · obtain ⟨_, rfl⟩ := run_pure.mp h
          exact ⟨fun _ _ => rfl, rfl, by rw [hkind]; rfl, fun hvalid => (hnot hvalid).elim⟩
    case parameter =>
      obtain ⟨_, _, rfl, rfl⟩ := run_bindParameter h
      refine ⟨fun x hx => node_update_of_ne _ hx, rfl, ?_, fun hvalid => ?_⟩
      · rw [expr_setType, hkind]
        rfl
      · exact (typeOf_setType_self hlt).trans (if_pos hvalid)

def BindState.Converted (s : BindState) (c : ExprId) (t : SqlType) : Prop :=
  (s.exprs.expr c).isLiteral = true → s.exprs.typeOf c ≠ t → s.expectations.expected.find? c = some t

theorem convertLiteral_sameBut (h : convertLiteral (recurTo env n) t c s = .ok u s') :
    s.SameBut c s' ∧ s'.Converted c t := by
  simp only [convertLiteral, run_bind, run_isLiteral, run_typeOf] at h
  obtain ⟨_, _, ⟨rfl, rfl⟩, _, _, ⟨rfl, rfl⟩, h⟩ := h
  split at h
  · rename_i hliteral
    simp only [run_bind, run_expect] at h
    obtain ⟨_, _, rfl, h⟩ := h
    obtain ⟨hnode, hexpected, -⟩ := bindExpr_literal h (Bool.and_eq_true_iff.mp hliteral).1
    refine ⟨⟨hnode, fun x hx => ?_⟩, fun _ _ => ?_⟩
    · simp [hexpected, Expectations.expect, hx.symm]
    · simp [hexpected, Expectations.expect]
  · rename_i hnot
    obtain ⟨_, rfl⟩ := run_pure.mp h
    refine ⟨⟨fun _ _ => rfl, fun _ _ => rfl⟩, fun hl ht => (hnot ?_).elim⟩
    rw [hl, Bool.true_and, bne_iff_ne]
    exact ht

theorem BindState.Converted.congr {s s' : BindState} (h : s.Converted c t)
    (hnode : s'.exprs.node c = s.exprs.node c)
    (hexpected : s'.expectations.expected.find? c = s.expectations.expected.find? c) :
    s'.Converted c t := by
  unfold BindState.Converted Arena.expr Arena.typeOf at h ⊢
  rwa [hnode, hexpected]

theorem convertAll_converted (hargs : args.Nodup) (ts : List SqlType)
    (h : ((args.zip ts).forM fun (c, t) => convertLiteral (recurTo env n) t c) s = .ok u s') :
    (∀ x ∉ args, s'.exprs.node x = s.exprs.node x ∧
      s'.expectations.expected.find? x = s.expectations.expected.find? x) ∧
    ∀ y ∈ args.zip ts, s'.Converted y.1 y.2 := by
  induction args generalizing ts s with
  | nil =>
    obtain rfl := run_forM_nil.mp h
    exact ⟨fun _ _ => ⟨rfl, rfl⟩, nofun⟩
  | cons c _ ih =>
    cases ts with
    | nil =>
      obtain rfl := run_forM_nil.mp h
      exact ⟨fun _ _ => ⟨rfl, rfl⟩, nofun⟩
    | cons t ts =>
      rw [zip_cons_cons, run_forM_cons] at h
      obtain ⟨_, hfirst, hrest⟩ := h
      obtain ⟨hsame, hconverted⟩ := convertLiteral_sameBut hfirst
      obtain ⟨hc, hargs⟩ := nodup_cons.mp hargs
      obtain ⟨hkept, hall⟩ := ih hargs ts hrest
      refine ⟨fun x hx => ?_, forall_mem_cons.mpr ⟨?_, hall⟩⟩
      · obtain ⟨hne, hx⟩ := not_or.mp (mt mem_cons.mpr hx)
        exact ⟨(hkept x hx).1.trans (hsame.node x hne), (hkept x hx).2.trans (hsame.expected x hne)⟩
      · exact hconverted.congr (hkept c hc).1 (hkept c hc).2

/-! ### The second time -/

theorem convertLiteral_of_converted (h : s.Converted c t) (hrest : bindExpr env n c s = .ok u s) :
    convertLiteral (recurTo env n) t c s = .ok () s := by
  simp only [convertLiteral, run_bind, run_isLiteral, run_typeOf]
  refine ⟨_, _, ⟨rfl, rfl⟩, _, _, ⟨rfl, rfl⟩, ?_⟩
  split
  · rename_i hliteral
    obtain ⟨hl, ht⟩ := Bool.and_eq_true_iff.mp hliteral
    simp only [run_bind, run_expect]
    refine ⟨(), s, ?_, hrest⟩
    have hexpect : s.expectations.expect c t = s.expectations := by
      rw [Expectations.expect, Keyed.insert_of_find? (h hl (bne_iff_ne.mp ht))]
    rw [hexpect]
  · exact run_pure.mpr ⟨rfl, rfl⟩

theorem run_forM_of_settled {ε σ : Type} {f : α → EStateM ε σ PUnit} {xs : List α} {s : σ}
    (h : ∀ x ∈ xs, f x s = .ok () s) : xs.forM f s = .ok () s := by
  induction xs with
  | nil => exact run_forM_nil.mpr rfl
  | cons _ _ ih =>
    obtain ⟨hx, hxs⟩ := forall_mem_cons.mp h
    exact run_forM_cons.mpr ⟨s, hx, ih hxs⟩

theorem bindExpr_call {p : Oid} (hcall : s.exprs.expr id = .call name args p)
    (h : bindExpr env (n + 1) id s = .ok u s') :
    ∃ s1 r, args.forM (bindExpr env n) s = .ok () s1 ∧
      env.routine? (lowercase name) (args.map s1.exprs.typeOf) = some r ∧ id < s'.exprs.size ∧
      s'.exprs.node id = { s'.exprs.node id with kind := .call name args r.procId, type := r.returns } ∧
      checkExpected id s' = .ok () s' ∧
      (args.Nodup → ∀ y ∈ args.zip r.parameters, s'.Converted y.1 y.2) := by
  have hlt : id < s'.exprs.size := by
    refine Nat.lt_of_lt_of_le (Nat.lt_of_not_le fun hge => ?_)
      (((recurTo_derived (n + 1)).expr h).progress trivial).1.size_le
    cases (expr_of_size_le hge).symm.trans hcall
  simp only [bindExpr, bindExprWith, run_bind, run_getNode] at h
  obtain ⟨_, _, ⟨hnode, rfl⟩, h⟩ := h
  rw [expr, node_of_node? hnode] at hcall
  rw [hcall] at h
  simp only [bindCall, run_bind] at h
  obtain ⟨_, s1, hall, _, _, htypes, h⟩ := h
  cases (run_mapM_typeOf args s1).symm.trans htypes
  cases hr : env.routine? (lowercase name) (args.map s1.exprs.typeOf) with
  | none =>
    simp [hr] at h
  | some r =>
    simp only [hr, run_bind, run_modifyExprs] at h
    obtain ⟨_, _, hconvert, _, _, rfl, hcheck⟩ := h
    obtain ⟨_, rfl⟩ := run_checkExpected.mp hcheck
    have hself := node_update_self (fun x => { x with kind := .call name args r.procId, type := r.returns })
      (Nat.lt_of_lt_of_eq hlt (size_update _ _))
    refine ⟨s1, r, hall, hr, hlt, by rw [hself], hcheck, fun hargs y hy => ?_⟩
    by_cases hid : y.1 = id
    · intro hliteral
      rw [hid, expr, hself] at hliteral
      cases hliteral
    · exact ((convertAll_converted hargs _ hconvert).2 y hy).congr (node_update_of_ne _ hid) rfl

/-! ### Numbers of overloads -/

/-- No two overloads have the same number. -/
structure Routines.Numbered (r : Routines) : Prop where
  nodup : (r.overloads.map (·.procId)).Nodup
  lt : ∀ f ∈ r.overloads, f.procId < r.nextId

theorem Routines.Numbered.register (h : r.Numbered) (name : String) (parameters : List SqlType)
    (returns : SqlType) : (r.register name parameters returns).2.Numbered := by
  constructor
  · show ((r.overloads ++ [_]).map Routine.procId).Nodup
    rw [map_append, map_singleton, nodup_append]
    refine ⟨h.nodup, nodup_singleton _, fun p hp p' hp' => ?_⟩
    obtain ⟨f, hf, rfl⟩ := mem_map.mp hp
    rw [mem_singleton.mp hp']
    exact (h.lt f hf).ne
  · intro f hf
    rcases mem_append.mp hf with hf | hf
    · exact Nat.lt_succ_of_lt (h.lt f hf)
    · rw [mem_singleton.mp hf]
      exact Nat.lt_succ_self _

theorem Routines.mem_of_resolve? (h : r.resolve? name types = some f) : f ∈ r.overloads := by
  rcases Option.or_eq_some_iff.mp h with h | ⟨_, h⟩
  · exact (mem_filter.mp (mem_of_find?_eq_some h)).1
  · exact (mem_filter.mp (mem_of_find?_eq_some h)).1

theorem Routines.Numbered.eq (h : r.Numbered) {name' : String} {types' : List SqlType}
    {f' : Routine} (hf : r.resolve? name types = some f) (hf' : r.resolve? name' types' = some f')
    (hid : f'.procId = f.procId) : f' = f :=
  inj_on_of_nodup_map h.nodup (mem_of_resolve? hf') (mem_of_resolve? hf) hid

theorem bindExpr_call_of_settled {r : Routine} (hcall : s.exprs.node id =
      { s.exprs.node id with kind := .call name args r.procId, type := r.returns })
    (hlt : id < s.exprs.size) (hcheck : checkExpected id s = .ok () s)
    (hsettled : ∀ c ∈ args, bindExpr env n c s = .ok () s)
    (hconverted : ∀ y ∈ args.zip r.parameters, s.Converted y.1 y.2)
    (hr : env.routine? (lowercase name) (args.map s.exprs.typeOf) = some r) :
    bindExpr env (n + 1) id s = .ok () s := by
  simp only [bindExpr, bindExprWith, run_bind, run_getNode]
  refine ⟨s.exprs.node id, s, ⟨node?_of_lt hlt, rfl⟩, ?_⟩
  rw [hcall]
  simp only [bindCall, run_bind]
  refine ⟨(), s, run_forM_of_settled hsettled, _, s, run_mapM_typeOf args s, ?_⟩
  simp only [hr, run_bind, run_modifyExprs]
  refine ⟨(), s, run_forM_of_settled fun y hy => ?_, (), s, ?_, hcheck⟩
  · exact convertLiteral_of_converted (hconverted y hy) (hsettled _ (of_mem_zip hy).1)
  · have hupdate : s.exprs.update id (fun x => { x with kind := .call name args r.procId, type := r.returns }) =
        s.exprs := by
      exact eq_of_node (size_update _ _) (field_update (fun n => n) hcall.symm)
    rw [hupdate]

/-- **A call chooses the same overload again exactly if its converted arguments choose it.**  When a
call was bound and its arguments are settled, then binding it again succeeds and leaves its overload and
its type exactly if this is the overload that the types of its arguments choose by now, and in that case
binding it again changes nothing at all. -/
theorem call_settled_iff {n : Nat} {id : ExprId} {name : String} {args : List ExprId} {p : Oid}
    (hids : env.catalog.routines.Numbered) (hargs : args.Nodup)
    (hcall : s.exprs.expr id = .call name args p) (h : bindExpr env (n + 1) id s = .ok () s')
    (hsettled : ∀ c ∈ args, bindExpr env n c s' = .ok () s') :
    ∃ r, s'.exprs.expr id = .call name args r.procId ∧ s'.exprs.typeOf id = r.returns ∧
      ((∃ s'', bindExpr env (n + 1) id s' = .ok () s'' ∧ s''.exprs.expr id = s'.exprs.expr id ∧
          s''.exprs.typeOf id = s'.exprs.typeOf id) ↔
        env.routine? (lowercase name) (args.map s'.exprs.typeOf) = some r) ∧
      (env.routine? (lowercase name) (args.map s'.exprs.typeOf) = some r →
        bindExpr env (n + 1) id s' = .ok () s') := by
  obtain ⟨_, r, -, hr, hlt, hnode, hcheck, hconverted⟩ := bindExpr_call hcall h
  have hexpr : s'.exprs.expr id = .call name args r.procId := congrArg ExprNode.kind hnode
  have hagain : env.routine? (lowercase name) (args.map s'.exprs.typeOf) = some r →
      bindExpr env (n + 1) id s' = .ok () s' :=
    bindExpr_call_of_settled hnode hlt hcheck hsettled (hconverted hargs)
  refine ⟨r, hexpr, congrArg ExprNode.type hnode, ⟨?_, fun hsame => ⟨s', hagain hsame, rfl, rfl⟩⟩, hagain⟩
  rintro ⟨s'', h', hexpr', -⟩
  obtain ⟨_, r', hall, hr', -, hnode', -⟩ := bindExpr_call hexpr h'
  cases (run_forM_of_settled hsettled).symm.trans hall
  have hids' : Expr.call name args r'.procId = .call name args r.procId :=
    (congrArg ExprNode.kind hnode').symm.trans (hexpr'.trans hexpr)
  rw [hr', hids.eq hr hr' (Expr.call.inj hids').2.2]

/-- Two overloads `f(BIGINT, t)` and `f(BIGINT, t')`. -/
def overloaded (t t' : SqlType) : Accessor :=
  let first := (Routines.register {} "f" [.bigInt, t] .boolean).2
  ⟨{ Catalog.initial with routines := (first.register "f" [.bigInt, t'] .boolean).2 }, 1, 2⟩

theorem overloaded_numbered (t t' : SqlType) : (overloaded t t').catalog.routines.Numbered :=
  have hnone : ({} : Routines).Numbered := ⟨nodup_nil, nofun⟩
  (hnone.register "f" [.bigInt, t] .boolean).register "f" [.bigInt, t'] .boolean

/-- `f(1, CAST(2 AS INTEGER))`. -/
def mixedCall : BindState where
  exprs := .ofExprs [.constant (.ofByte 1), .constant (.ofByte 2), .cast .integer 1, .call "f" [0, 2] 0]
  expectations := {}
  parameters := []
  nextTemp := 0

/-- The same, bound to an overload: `1` is a BIGINT. -/
def mixedCallBound (p : Oid) : BindState where
  exprs := ⟨#[{ ExprNode.ofExpr (.constant (.integral .big 1 rfl)) with type := .bigInt },
    { ExprNode.ofExpr (.constant (.ofByte 2)) with type := .integer },
    { ExprNode.ofExpr (.cast .integer 1) with type := .integer },
    { ExprNode.ofExpr (.call "f" [0, 2] p) with type := .boolean }]⟩
  expectations := { expected := [(1, .integer), (0, .bigInt)] }
  parameters := []
  nextTemp := 0

theorem mixedCallBound_settled (t t' : SqlType) (p : Oid) :
    ∀ c ∈ [0, 2], bindExpr (overloaded t t') 2 c (mixedCallBound p) = .ok () (mixedCallBound p) :=
  forall_mem_cons.mpr ⟨rfl, forall_mem_cons.mpr ⟨rfl, nofun⟩⟩

theorem mixedCall_settled :
    bindExpr (overloaded .integer .bigInt) 3 3 mixedCall = .ok () (mixedCallBound 1) ∧
      bindExpr (overloaded .integer .bigInt) 3 3 (mixedCallBound 1) = .ok () (mixedCallBound 1) ∧
      ∃ r, r.procId = 1 ∧ (overloaded .integer .bigInt).routine? (lowercase "f") [.bigInt, .integer] = some r := by
  have h : bindExpr (overloaded .integer .bigInt) 3 3 mixedCall = .ok () (mixedCallBound 1) := rfl
  obtain ⟨r, hexpr, -, hiff, hagain⟩ := call_settled_iff (overloaded_numbered _ _) (by decide) rfl h
    (mixedCallBound_settled _ _ _)
  have hsame := hiff.mp ⟨_, rfl, rfl, rfl⟩
  exact ⟨h, hagain hsame, r, (Expr.call.inj hexpr).2.2.symm, hsame⟩

/-- The first overload fits, but the second one fits the converted arguments best. -/
theorem mixedCall_not_settled :
    bindExpr (overloaded .bigInt .integer) 3 3 mixedCall = .ok () (mixedCallBound 1) ∧
      bindExpr (overloaded .bigInt .integer) 3 3 (mixedCallBound 1) = .ok () (mixedCallBound 2) ∧
      (mixedCallBound 2).exprs.expr 3 ≠ (mixedCallBound 1).exprs.expr 3 :=
  ⟨rfl, rfl, nofun⟩

end SqlAnalysis
