import Mathlib.Data.List.Forall2
import SqlAnalysis.Proofs.Expr.Growth
import SqlAnalysis.Proofs.Expr.Nesting

/-!
# Copies of expressions

An expression is copied from one store to another operands first, each part as often as it is used.

* **`Arena.Imports.copyOf`**: what is copied is the same at every position.
* **`Arena.displayFrom_copyOf`**: it has the same text.
* **`stored_expressions_copy`**: an expression is copied exactly if no subquery occurs in it, and no
  attempt touches what was there before.
-/

namespace SqlAnalysis

open List

variable {a a' other : Arena} {fuel depth m n : Nat} {root id x y : ExprId} {ids : List ExprId}
  {f g : ExprId → String} {e : Fault}

/-! ### Text -/

theorem map_pairUp {xs : List (ExprId × ExprId)} (w : String → String → String)
    (h : (xs.flatMap fun x => [x.1, x.2]).map f = ids.map g) :
    (pairUp ids).map (fun x => w (g x.1) (g x.2)) = xs.map fun x => w (f x.1) (f x.2) := by
  induction xs generalizing ids with
  | nil =>
    rw [map_eq_nil_iff.mp h.symm]
    rfl
  | cons x _ ih =>
    obtain ⟨_, _, rfl, hc, hrest⟩ := map_eq_cons_iff.mp h.symm
    obtain ⟨_, _, rfl, ht, hrest⟩ := map_eq_cons_iff.mp hrest
    rw [pairUp, map_cons, map_cons, ih hrest.symm, hc, ht]

theorem Expr.displayWith_withOperands {e : Expr} (h : Forall₂ (fun x y => f x = g y) e.children ids) :
    (e.withOperands ids).displayWith g = e.displayWith f := by
  have hmap : e.children.map f = ids.map g := by
    rwa [← forall₂_eq_eq_eq, forall₂_map_left_iff, forall₂_map_right_iff]
  cases e with
  | compare =>
    rcases h with _ | ⟨hl, _ | ⟨hr, _ | _⟩⟩
    simp only [withOperands, displayWith, hl, hr]
  | connect | call =>
    simp only [children] at hmap
    simp only [withOperands, displayWith, hmap]
  | operate =>
    rcases h with _ | ⟨hx, _ | ⟨hy, _ | _⟩⟩
    · rfl
    · simp only [withOperands, displayWith, hx]
    · simp only [withOperands, displayWith, hx, hy]
    · rfl
  | aggregate function arg =>
    cases arg with
    | none =>
      cases h
      cases function <;> rfl
    | some =>
      rcases h with _ | ⟨hx, _ | _⟩
      cases function <;> simp only [withOperands, displayWith, head?_cons, hx]
  | cast =>
    rcases h with _ | ⟨hx, _ | _⟩
    simp only [withOperands, displayWith, hx]
  | case branches otherwise =>
    rw [children, map_append] at hmap
    cases otherwise with
    | none =>
      rw [Option.toList_none, map_nil, append_nil] at hmap
      simp only [withOperands, displayWith, map_pairUp (fun c t => s!" WHEN {c} THEN {t}") hmap]
    | some =>
      obtain ⟨l, r, rfl, hl, hr⟩ := map_eq_append_iff.mp hmap.symm
      obtain ⟨_, rfl, hy⟩ := map_eq_singleton_iff.mp hr
      simp only [withOperands, displayWith, dropLast_concat, getLast?_concat, hy,
        map_pairUp (fun c t => s!" WHEN {c} THEN {t}") hl.symm]
  | _ => rfl

/-! ### Copies -/

/-- The expression `id` is a copy, to some depth, of the expression `x` of another store: the same
nodes with copies as operands. -/
def Arena.CopyOf (other a : Arena) : Nat → ExprId → ExprId → Prop
  | 0, _, _ => False
  | depth + 1, x, id => id < a.size ∧
    a.node id = { other.node x with kind := (other.expr x).withOperands (a.expr id).children } ∧
    Forall₂ (CopyOf other a depth) (other.expr x).children (a.expr id).children

theorem Arena.CopyOf.grow (hsize : a.size ≤ a'.size)
    (hkept : ∀ {y}, y < a.size → a'.node y = a.node y) (h : CopyOf other a depth x id) :
    CopyOf other a' depth x id := by
  induction depth generalizing x id with
  | zero => exact h.elim
  | succ _ ih =>
    obtain ⟨hlt, hnode, hoperands⟩ := h
    have hexpr : a'.expr id = a.expr id := by rw [expr, hkept hlt, expr]
    rw [CopyOf, hexpr, hkept hlt]
    exact ⟨hlt.trans_le hsize, hnode, hoperands.imp fun _ _ => ih⟩

theorem Arena.Imports.copyOf {roots : List ExprId} (h : other.Imports fuel roots a ids a') :
    Forall₂ (CopyOf other a' fuel) roots ids := by
  induction h with
  | nil => exact .nil
  | @cons depth root node _ ids _ _ a1 _ hn _ hids hrest ih ih' =>
    have happends := hrest.appends.1
    refine .cons (CopyOf.grow happends.size_le happends.node ?_) ih'
    rw [CopyOf, expr, expr, node_push_size, node_of_node? hn,
      Expr.children_withOperands hids.appends.2.1]
    refine ⟨?_, rfl, ih.imp fun _ _ hcopy => ?_⟩
    · rw [size_push]
      exact Nat.lt_succ_self _
    · exact hcopy.grow (by rw [size_push]; exact Nat.le_succ _) fun hy => node_push_of_lt _ hy

namespace Arena

theorem displayFrom_copyOf (h : CopyOf other a depth x id) (hx : other.NestsIn m x)
    (hid : a.NestsIn n id) : a.displayFrom n id = other.displayFrom m x := by
  induction depth generalizing x id m n with
  | zero => exact h.elim
  | succ depth ih =>
    obtain ⟨_, hnode, hoperands⟩ := h
    cases m with
    | zero => exact hx.elim
    | succ m =>
      cases n with
      | zero => exact hid.elim
      | succ n =>
        have hexpr : a.expr id = (other.expr x).withOperands (a.expr id).children :=
          congrArg ExprNode.kind hnode
        rw [displayFrom, displayFrom, hexpr]
        refine Expr.displayWith_withOperands (forall₂_iff_get.mpr ⟨hoperands.length_eq, fun i hi hi' => ?_⟩)
        exact (ih (hoperands.get hi hi') (hx _ (get_mem ..)) (hid _ (get_mem ..))).symm

/-! ### Attempts -/

theorem not_hasSubquery_of_imports {roots : List ExprId} (h : other.Imports fuel roots a ids a') :
    ∀ x ∈ roots, ¬other.HasSubquery x := by
  induction h with
  | nil => exact forall_mem_nil _
  | cons hn hplain _ _ ih ih' =>
    refine forall_mem_cons.mpr ⟨fun hsub => ?_, ih'⟩
    rw [hasSubquery_iff, expr, node_of_node? hn, hplain] at hsub
    rcases hsub with hsub | ⟨c, hc, hsub⟩
    · cases hsub
    · exact ih c hc hsub

/-- The refusal to copy a subquery. -/
def subqueryRefusal : Fault :=
  .refused ⟨.featureNotSupported, "cannot copy a subquery out of a stored expression"⟩

theorem importFrom_fails (h : importFrom other fuel root a = .error e a') :
    a.Appends a' ∧ (other.NestsIn fuel root → other.Grounded root →
      other.HasSubquery root ∧ e = subqueryRefusal) := by
  induction fuel generalizing root a a' with
  | zero =>
    cases h
    exact ⟨.refl a, False.elim⟩
  | succ fuel ih =>
    rw [importFrom] at h
    cases hn : other.node? root with
    | none =>
      rw [hn] at h
      cases h
      refine ⟨.refl a, fun _ hground => ?_⟩
      rw [node?_of_lt hground.lt_size] at hn
      cases hn
    | some n =>
      have hexpr : other.expr root = n.kind := congrArg ExprNode.kind (node_of_node? hn)
      simp only [hn, Expr.traverse_eq, bind_assoc, pure_bind] at h
      split at h
      · rename_i hsub
        cases h
        exact ⟨.refl a, fun _ _ => ⟨⟨root, .here _, hexpr ▸ hsub⟩, rfl⟩⟩
      · rcases run_bind_error.mp h with h | ⟨_, _, _, h⟩
        · obtain ⟨before, c, after, _, _, hcs, hbefore, hc⟩ := run_mapM_error h
          obtain ⟨happends, hfails⟩ := ih hc
          have hmem : c ∈ (other.expr root).children := by simp [hexpr, hcs]
          refine ⟨(mapM_imports hbefore).appends.1.trans happends, fun hnests hground => ?_⟩
          obtain ⟨hsub, he⟩ := hfails (hnests c hmem) (hground.of_child hmem)
          exact ⟨hasSubquery_iff.mpr (Or.inr ⟨c, hmem, hsub⟩), he⟩
        · -- adding the new node cannot fail
          cases h

theorem Appends.grounded (h : a.Appends a') (hy : a.size ≤ y) (hlt : y < a'.size) : a'.Grounded y := by
  induction y using Nat.strongRecOn with | ind y ih =>
  refine .intro hlt fun c hc => ?_
  obtain ⟨hle, hcy⟩ := h.operand hy hc
  exact ih c hcy hle (hcy.trans hlt)

theorem Appends.of_contains (h : a.Appends a') (hid : a.size ≤ id) (hy : a'.Contains id y) :
    a.size ≤ y := by
  induction hy with
  | here => exact hid
  | child hc _ ih => exact ih (h.operand hid hc).1

theorem Appends.node? (h : a.Appends a') (hy : y < a.size) : a'.node? y = a.node? y := by
  rw [node?_of_lt (hy.trans_le h.size_le), node?_of_lt hy, h.node hy]

end Arena

open Arena

/-- **A stored expression is copied faithfully or not at all.**  An expression that does not run in a
circle is copied exactly if no subquery occurs in it.  The copy has the same node at every position and so
the same text; its nodes are new, and each comes after its operands, which belong to the copy.  Nothing
that was in the store before is changed, whether the expression is copied or refused. -/
theorem stored_expressions_copy (h : other.Grounded root) (a : Arena) :
    ((∃ id a', importTree other root a = .ok id a') ↔ ¬other.HasSubquery root) ∧
    (∀ id a', importTree other root a = .ok id a' →
      (∃ depth, other.CopyOf a' depth root id) ∧ a'.display id = other.display root ∧
      (∀ y, a'.Contains id y → a.size ≤ y ∧ y < a'.size ∧
        ∀ c ∈ (a'.expr y).children, a'.Contains id c ∧ c < y) ∧
      ∀ y < a.size, a'.node? y = a.node? y) ∧
    ∀ e a', importTree other root a = .error e a' →
      e = subqueryRefusal ∧ ∀ y < a.size, a'.node? y = a.node? y := by
  refine ⟨⟨?_, fun hplain => ?_⟩, fun id a' hrun => ?_, fun e a' hrun => ?_⟩
  · rintro ⟨id, a', hrun⟩
    exact not_hasSubquery_of_imports (importFrom_imports hrun) root mem_cons_self
  · cases hrun : importTree other root a with
    | ok id a' => exact ⟨id, a', rfl⟩
    | error => exact (hplain ((importFrom_fails hrun).2 h.nestsIn_bound h).1).elim
  · obtain ⟨happends, hle, hlt⟩ := importFrom_appends hrun
    have hground := happends.grounded hle hlt
    obtain ⟨hcopy, -⟩ := forall₂_cons.mp (importFrom_imports hrun).copyOf
    refine ⟨⟨_, hcopy⟩, displayFrom_copyOf hcopy h.nestsIn_bound hground.nestsIn_bound, fun y hy => ?_,
      fun y hy => happends.node? hy⟩
    have hley := happends.of_contains hle hy
    refine ⟨hley, (hground.of_contains hy).lt_size, fun c hc => ⟨?_, (happends.operand hley hc).2⟩⟩
    exact hy.trans (.child hc (.here c))
  · obtain ⟨happends, hfails⟩ := importFrom_fails hrun
    exact ⟨(hfails h.nestsIn_bound h).2, fun y hy => happends.node? hy⟩

/-- `7 + 7`, with one node for both operands, which stands after the sum. -/
def sharedSeven : Arena :=
  .ofExprs [.operate .plus [1, 1], .constant (.ofByte 7)]

theorem sharedSeven_copies : sharedSeven.Grounded 0 ∧ ∃ id a', importTree sharedSeven 0 sharedSeven = .ok id a' ∧
    (∃ depth, sharedSeven.CopyOf a' depth 0 id) ∧ a'.display id = sharedSeven.display 0 := by
  have hground : sharedSeven.Grounded 0 := by
    refine .intro (by decide) fun c hc => ?_
    rcases mem_pair.mp hc with rfl | rfl <;> exact .intro (by decide) (forall_mem_nil _)
  obtain ⟨id, a', hrun⟩ := exists_of_succeeds
    (show succeeds (importTree sharedSeven 0 sharedSeven) = true by decide)
  obtain ⟨hcopy, hdisplay, -⟩ := (stored_expressions_copy hground sharedSeven).2.1 id a' hrun
  exact ⟨hground, id, a', hrun, hcopy, hdisplay⟩

end SqlAnalysis
