import Mathlib.Algebra.BigOperators.Fin
import Mathlib.Algebra.Order.BigOperators.Group.Finset
import SqlAnalysis.Proofs.Expr.Nesting
import SqlAnalysis.Proofs.Expr.Refinement

/-!
# Measures of well-formed stores

* **`Arena.rank`**: how many nodes occur in an expression; it decreases from an expression to what it
  is made of.
* **`Arena.load`**: the number of parts of all queries that occur in some expressions; it bounds how
  deep the queries of subqueries nest.
-/

namespace SqlAnalysis

theorem Select.weight_eq (q : Select) :
    q.weight =
      1 + Cte.weightAll q.ctes + TableRef.weightOpt q.source + Select.weightOpt q.union := by
  cases q
  rfl

@[simp] theorem Cte.weightAll_cons (c : Cte) (cs : List Cte) :
    Cte.weightAll (c :: cs) = 1 + c.query.weight + Cte.weightAll cs := by
  cases c
  rfl

theorem Select.weight_pos (q : Select) : 0 < q.weight := by
  rw [weight_eq]
  omega

namespace Arena

variable {a a' : Arena} {x y : ExprId} {ids ids' : List ExprId}

/-! ### Rank -/

open Classical in
/-- How many nodes occur in an expression. -/
noncomputable def rank (a : Arena) (x : ExprId) : Nat :=
  ((Finset.range a.size).filter (a.Below x)).card

theorem rank_le (a : Arena) (x : ExprId) : a.rank x ≤ a.size := by
  classical
  calc a.rank x ≤ (Finset.range a.size).card := Finset.card_filter_le _ _
    _ = a.size := Finset.card_range _

theorem WellFormed.rank_lt (h : a.WellFormed) (hy : a.Refers x y) : a.rank y < a.rank x := by
  classical
  refine Finset.card_lt_card ((Finset.ssubset_iff_of_subset fun z hz => ?_).mpr ⟨y, ?_, ?_⟩)
  · obtain ⟨hz, hbelow⟩ := Finset.mem_filter.mp hz
    exact Finset.mem_filter.mpr ⟨hz, .head hy hbelow⟩
  · exact Finset.mem_filter.mpr ⟨Finset.mem_range.mpr (h.lt_size hy), .single hy⟩
  · exact fun hy => h.acyclic y (Finset.mem_filter.mp hy).2

/-! ### Load -/

theorem Contains.reaches (h : a.Contains x y) : a.Reaches x y := by
  induction h with
  | here => exact .refl
  | child hc _ ih => exact .head (Expr.mem_parts_of_children hc) ih

def queryWeight (a : Arena) (x : ExprId) : Nat := (((a.expr x).subquery?).map (·.weight)).getD 0

theorem queryWeight_of_query {q : Select} (h : a.expr x = .subquery q) :
    a.queryWeight x = q.weight := by
  rw [queryWeight, h]
  rfl

theorem queryWeight_of_not_isSubquery (h : (a.expr x).isSubquery = false) : a.queryWeight x = 0 := by
  rw [queryWeight]
  cases he : a.expr x with
  | subquery =>
    rw [he] at h
    cases h
  | _ => rfl

theorem weight_eq_sum (a : Arena) : a.weight = ∑ x ∈ Finset.range a.size, (1 + a.queryWeight x) := by
  have hlist (ns : List ExprNode) (k : Nat) :
      ns.foldl (fun total n => total + 1 + ((n.kind.subquery?).map (·.weight)).getD 0) k =
        k + (ns.map fun n => 1 + ((n.kind.subquery?).map (·.weight)).getD 0).sum := by
    induction ns generalizing k with
    | nil => rfl
    | cons n ns ih =>
      rw [List.foldl_cons, ih, List.map_cons, List.sum_cons]
      omega
  rw [weight, ← Array.foldl_toList, hlist, Nat.zero_add, Finset.sum_range, ← List.sum_ofFn]
  congr 1
  refine List.ext_getElem (by simp [size]) fun i hi _ => ?_
  have hi' : i < a.nodes.size := by simpa using hi
  simp [queryWeight, expr, node, Array.getD_eq_getD_getElem?, hi']

open Classical in
/-- The number of parts of all queries that occur in some expressions. -/
noncomputable def load (a : Arena) (ids : List ExprId) : Nat :=
  ∑ x ∈ (Finset.range a.size).filter (fun x => ∃ y ∈ ids, a.Reaches y x), a.queryWeight x

theorem load_le_weight (a : Arena) (ids : List ExprId) : a.load ids ≤ a.weight := by
  classical
  rw [weight_eq_sum]
  calc a.load ids ≤ ∑ x ∈ Finset.range a.size, a.queryWeight x :=
        Finset.sum_le_sum_of_subset (Finset.filter_subset _ _)
    _ ≤ ∑ x ∈ Finset.range a.size, (1 + a.queryWeight x) :=
        Finset.sum_le_sum fun x _ => Nat.le_add_left _ _

theorem queryWeight_lt_weight (hx : x < a.size) : a.queryWeight x < a.weight := by
  rw [weight_eq_sum]
  calc a.queryWeight x < 1 + a.queryWeight x := by omega
    _ ≤ ∑ x ∈ Finset.range a.size, (1 + a.queryWeight x) :=
        Finset.single_le_sum (f := fun x => 1 + a.queryWeight x) (fun _ _ => Nat.zero_le _)
          (Finset.mem_range.mpr hx)

theorem size_le_weight (a : Arena) : a.size ≤ a.weight := by
  rw [weight_eq_sum]
  calc a.size = ∑ _x ∈ Finset.range a.size, 1 := by simp
    _ ≤ ∑ x ∈ Finset.range a.size, (1 + a.queryWeight x) :=
        Finset.sum_le_sum fun x _ => Nat.le_add_right _ _

theorem load_le_of_reaches (h : ∀ y ∈ ids, ∃ z ∈ ids', a.Reaches z y) : a.load ids ≤ a.load ids' := by
  classical
  refine Finset.sum_le_sum_of_subset fun x hx => ?_
  obtain ⟨hx, y, hy, hreach⟩ := Finset.mem_filter.mp hx
  obtain ⟨z, hz, hreach'⟩ := h y hy
  exact Finset.mem_filter.mpr ⟨hx, z, hz, hreach'.trans hreach⟩

theorem load_mono (h : ∀ y ∈ ids, y ∈ ids') : a.load ids ≤ a.load ids' :=
  load_le_of_reaches fun y hy => ⟨y, h y hy, .refl⟩

theorem WellFormed.weight_add_load_le {q : Select} (h : a.WellFormed) (hy : y ∈ ids)
    (hreach : a.Reaches y x) (hq : a.expr x = .subquery q) : q.weight + a.load q.exprs ≤ a.load ids := by
  classical
  have hx : x < a.size := lt_size_of_isSubquery (by rw [hq]; rfl)
  have hmem : x ∈ (Finset.range a.size).filter fun x => ∃ y ∈ ids, a.Reaches y x :=
    Finset.mem_filter.mpr ⟨Finset.mem_range.mpr hx, y, hy, hreach⟩
  rw [load, load, ← Finset.add_sum_erase _ _ hmem, queryWeight_of_query hq]
  refine Nat.add_le_add_left (Finset.sum_le_sum_of_subset fun z hz => ?_) _
  obtain ⟨hz, w, hw, hreach'⟩ := Finset.mem_filter.mp hz
  have hbelow : a.Below x z := (below_of_query hq hw).trans_left hreach'
  refine Finset.mem_erase.mpr ⟨fun hzx => ?_, Finset.mem_filter.mpr ⟨hz, y, hy, ?_⟩⟩
  · rw [hzx] at hbelow
    exact h.acyclic x hbelow
  · exact hreach.trans hbelow.to_reflTransGen

theorem Refines.load_le (h : a.Refines a') (ha : a.WellFormed) (hids : ∀ y ∈ ids, y < a.size) :
    a'.load ids ≤ a.load ids := by
  classical
  have hreaches {y x : ExprId} (hy : y < a.size) (hx : x < a.size) (hreach : a'.Reaches y x) :
      a.Reaches y x := by
    rcases Relation.reflTransGen_iff_eq_or_transGen.mp hreach with rfl | hbelow
    · exact .refl
    · rcases h.below ha hy hbelow with hbelow | ⟨hcolumn, _⟩
      · exact hbelow.to_reflTransGen
      · exact (hcolumn.size_le.not_gt hx).elim
  -- only old nodes hold queries
  have hold : a'.load ids =
      ∑ x ∈ (Finset.range a.size).filter (fun x => ∃ y ∈ ids, a'.Reaches y x), a'.queryWeight x := by
    refine (Finset.sum_subset (fun x hx => ?_) fun x hx hx' => ?_).symm
    · obtain ⟨hx, hreach⟩ := Finset.mem_filter.mp hx
      exact Finset.mem_filter.mpr ⟨Finset.mem_range.mpr
        ((Finset.mem_range.mp hx).trans_le h.size_le), hreach⟩
    · refine queryWeight_of_not_isSubquery (h.plain (Nat.le_of_not_lt fun hlt => hx' ?_))
      exact Finset.mem_filter.mpr ⟨Finset.mem_range.mpr hlt, (Finset.mem_filter.mp hx).2⟩
  rw [hold, load]
  calc ∑ x ∈ (Finset.range a.size).filter (fun x => ∃ y ∈ ids, a'.Reaches y x), a'.queryWeight x
      ≤ ∑ x ∈ (Finset.range a.size).filter (fun x => ∃ y ∈ ids, a'.Reaches y x),
          a.queryWeight x := by
        refine Finset.sum_le_sum fun x hx => ?_
        have hlt := Finset.mem_range.mp (Finset.mem_filter.mp hx).1
        cases he : a'.expr x with
        | subquery =>
          obtain ⟨q, hq, hweight⟩ := h.query hlt he
          rw [queryWeight_of_query he, queryWeight_of_query hq]
          exact hweight
        | _ =>
          rw [queryWeight_of_not_isSubquery (by rw [he]; rfl)]
          exact Nat.zero_le _
    _ ≤ ∑ x ∈ (Finset.range a.size).filter (fun x => ∃ y ∈ ids, a.Reaches y x), a.queryWeight x := by
        refine Finset.sum_le_sum_of_subset fun x hx => ?_
        obtain ⟨hx, y, hy, hreach⟩ := Finset.mem_filter.mp hx
        exact Finset.mem_filter.mpr
          ⟨hx, y, hy, hreaches (hids y hy) (Finset.mem_range.mp hx) hreach⟩

end Arena

end SqlAnalysis
