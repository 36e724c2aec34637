import SqlAnalysis.Binding.Statement
import SqlAnalysis.Proofs.Expr.Measure

/-!
# Levels of a binding

An expression is bound with a given number of levels: its operands have one level less, and a query
takes two levels for each of its parts.

* **`Arena.BindsIn.refines`**: levels that are enough stay enough while the store is refined.
* **`Arena.WellFormed.bindsIn`**: how many levels are enough for the expressions of a well-formed
  store.
-/

namespace SqlAnalysis

/-- So many levels are enough to bind an expression. -/
inductive Arena.BindsIn (a : Arena) : Nat → ExprId → Prop where
  | plain {n : Nat} {id : ExprId} :
    id < a.size → (a.expr id).isSubquery = false → (∀ c ∈ (a.expr id).children, BindsIn a n c) →
    BindsIn a (n + 1) id
  | subquery {n m : Nat} {id : ExprId} {q : Select} :
    a.expr id = .subquery q → m + 2 * q.weight ≤ n → (∀ y ∈ q.exprs, BindsIn a m y) →
    BindsIn a (n + 1) id

namespace Arena

variable {a a' : Arena} {n m : Nat} {x y : ExprId}

namespace BindsIn

theorem pos (h : a.BindsIn n x) : 0 < n := by
  cases h <;> exact Nat.succ_pos _

theorem lt_size (h : a.BindsIn n x) : x < a.size := by
  cases h with
  | plain hlt => exact hlt
  | subquery hq =>
    refine lt_size_of_isSubquery ?_
    rw [hq]
    rfl

theorem mono (h : a.BindsIn n x) (hnm : n ≤ m) : a.BindsIn m x := by
  induction h generalizing m with
  | plain hlt hplain _ ih =>
    obtain ⟨k, rfl⟩ : ∃ k, m = k + 1 := ⟨m - 1, by omega⟩
    exact .plain hlt hplain fun c hc => ih c hc (Nat.le_of_succ_le_succ hnm)
  | subquery hq hle hexprs _ =>
    obtain ⟨k, rfl⟩ : ∃ k, m = k + 1 := ⟨m - 1, by omega⟩
    exact .subquery hq (hle.trans (Nat.le_of_succ_le_succ hnm)) hexprs

theorem child (h : a.BindsIn n x) (hy : y ∈ (a.expr x).children) : a.BindsIn n y := by
  cases h with
  | plain _ _ hchildren => exact (hchildren y hy).mono (Nat.le_succ _)
  | subquery hq =>
    rw [hq] at hy
    cases hy

theorem of_column (hlt : x < a.size) (hx : (a.expr x).column?.isSome = true) (hn : 0 < n) :
    a.BindsIn n x := by
  obtain ⟨k, rfl⟩ : ∃ k, n = k + 1 := ⟨n - 1, by omega⟩
  cases he : a.expr x with
  | column =>
    refine .plain hlt (by rw [he]; rfl) fun c hc => ?_
    rw [he] at hc
    cases hc
  | _ =>
    rw [he] at hx
    cases hx

theorem refines (h : a.BindsIn n x) (ha : a.Refines a') (hy : a.Reaches x y) : a'.BindsIn n y := by
  -- one induction for the expression and for all that it may come to refer to
  induction h generalizing y with
  | @plain n x hlt hplain _ ih =>
    have hpart {c y : ExprId} (hc : a.Refers x c) (hy : a.Reaches c y) : a'.BindsIn n y := by
      rw [Refers, Expr.parts_of_not_isSubquery hplain] at hc
      exact ih c hc hy
    rcases Relation.ReflTransGen.cases_head hy with rfl | ⟨c, hc, hy⟩
    · refine .plain (hlt.trans_le ha.size_le) (by rw [ha.isSubquery hlt, hplain])
        fun c hc => ?_
      rcases ha.refers hlt (Expr.mem_parts_of_children hc) with hc | ⟨hc, z, hz⟩
      · obtain ⟨z, hz, hc⟩ := Relation.TransGen.head'_iff.mp hc
        exact hpart hz hc
      · exact .of_column hc.lt_size hc.column (hpart hz .refl).pos
    · exact (hpart hc hy).mono (Nat.le_succ _)
  | @subquery n m x q hq hle hexprs ih =>
    have hpart {c y : ExprId} (hc : a.Refers x c) (hy : a.Reaches c y) : a'.BindsIn m y := by
      rw [Refers, hq] at hc
      exact ih c hc hy
    have hlt : x < a.size := lt_size_of_isSubquery (by rw [hq]; rfl)
    rcases Relation.ReflTransGen.cases_head hy with rfl | ⟨c, hc, hy⟩
    · cases he : a'.expr x with
      | subquery q' =>
        obtain ⟨r, hr, hweight⟩ := ha.query hlt he
        cases hq.symm.trans hr
        refine .subquery he (m := m) (by omega) fun c hc => ?_
        have hrefers : a'.Refers x c := by
          rw [Refers, he]
          exact hc
        rcases ha.refers hlt hrefers with hc | ⟨hc, z, hz⟩
        · obtain ⟨z, hz, hc⟩ := Relation.TransGen.head'_iff.mp hc
          exact hpart hz hc
        · exact .of_column hc.lt_size hc.column (hpart hz .refl).pos
      | _ =>
        have hsub := ha.isSubquery hlt
        rw [he, hq] at hsub
        cases hsub
    · exact (hpart hc hy).mono (by omega)

theorem of_expr (h : a.BindsIn n x) (hsize : a.size ≤ a'.size)
    (hexpr : ∀ {y}, y < a.size → a'.expr y = a.expr y) : a'.BindsIn n x := by
  induction h with
  | plain hlt hplain _ ih =>
    refine .plain (hlt.trans_le hsize) ?_ ?_
    · rw [hexpr hlt]
      exact hplain
    · rw [hexpr hlt]
      exact ih
  | @subquery n m x q hq hle _ ih =>
    have hlt : x < a.size := lt_size_of_isSubquery (by rw [hq]; rfl)
    exact .subquery ((hexpr hlt).trans hq) hle ih

theorem push {node : ExprNode} (hplain : node.kind.isSubquery = false)
    (hoperands : ∀ c ∈ node.kind.children, a.BindsIn n c) :
    (a.push node).2.BindsIn (n + 1) a.size := by
  have hnew : (a.push node).2.expr a.size = node.kind := by rw [expr, node_push_size]
  have hold {y : ExprId} (hy : y < a.size) : (a.push node).2.expr y = a.expr y := by
    rw [expr, node_push_of_lt _ hy, expr]
  refine .plain (by simp) (by rw [hnew, hplain]) fun c hc => ?_
  rw [hnew] at hc
  exact (hoperands c hc).of_expr (by simp) hold

end BindsIn

theorem Yields.bindsIn {ids ids' : List ExprId} (h : a.Yields a' ids ids') (ha : a.Refines a')
    (hids : ∀ y ∈ ids, a.BindsIn n y) : ∀ y ∈ ids', a'.BindsIn n y := by
  intro y hy
  rcases h y hy with hy | ⟨hy, hne⟩
  · exact (hids y hy).refines ha .refl
  · obtain ⟨z, hz⟩ := List.exists_mem_of_ne_nil _ hne
    exact .of_column hy.lt_size hy.column (hids z hz).pos

theorem WellFormed.bindsIn_rank {k : Nat} (h : a.WellFormed) (hk : 0 < k)
    (hqueries : ∀ x q, a.expr x = .subquery q → 2 * q.weight + 2 ≤ k) (hx : x < a.size) :
    a.BindsIn ((a.rank x + 1) * k) x := by
  induction hr : a.rank x using Nat.strong_induction_on generalizing x with
  | _ r ih =>
    have hpart {c : ExprId} (hc : a.Refers x c) : a.BindsIn (r * k) c := by
      have hlt : a.rank c < r := hr ▸ h.rank_lt hc
      exact (ih _ hlt (h.lt_size hc) rfl).mono (Nat.mul_le_mul_right k hlt)
    have hlevels : (r + 1) * k = (r * k + (k - 1)) + 1 := by
      rw [Nat.add_mul]
      omega
    rw [hlevels]
    cases he : a.expr x with
    | subquery q =>
      refine .subquery (m := r * k) he ?_ fun y hy => hpart ?_
      · have hweight := hqueries x q he
        omega
      · rw [Refers, he]
        exact hy
    | _ =>
      refine .plain hx (by rw [he]; rfl) fun c hc => ?_
      exact (hpart (Expr.mem_parts_of_children hc)).mono (Nat.le_add_right _ _)

theorem WellFormed.bindsIn (h : a.WellFormed) (hx : x < a.size) :
    a.BindsIn ((a.size + 1) * (2 * a.weight + 2)) x := by
  have hqueries : ∀ y q, a.expr y = .subquery q → 2 * q.weight + 2 ≤ 2 * a.weight + 2 := by
    intro y q hq
    have hlt : y < a.size := lt_size_of_isSubquery (by rw [hq]; rfl)
    have hweight := queryWeight_lt_weight hlt
    rw [queryWeight_of_query hq] at hweight
    omega
  have hrank := a.rank_le x
  exact (h.bindsIn_rank (Nat.succ_pos _) hqueries hx).mono
    (Nat.mul_le_mul_right _ (Nat.succ_le_succ hrank))

end Arena

end SqlAnalysis
