import SqlAnalysis.Proofs.Binding.References

/-!
# Items of select lists

In a bound statement that was tree-shaped no expression is an item of two derived tables or WITH
entries, wherever they are.

* **`Select.count_outputs_le`**: the items of derived tables and WITH entries are among the items of all
  select lists, and these among the expressions of a query.
* **`Arena.Uses.count_eq`**: where the uses of a node come from.
* **`BindsParts.nodup_items`**: a node is an item of at most one derived table or WITH entry, and once there.
-/

namespace SqlAnalysis

open List TableRef TableRef TableRef Arena

variable {a : Arena} {ids K : List ExprId} {x : ExprId}

variable {env : Accessor}

/-! ### Queries -/

mutual

theorem Select.count_outputs_le (x : ExprId) : (q : Select) →
    ((q.gather NamedPart.probe).flatMap NamedPart.items).count x + q.items.count x ≤
        (q.gather outputProbe).count x ∧
      (q.gather outputProbe).count x ≤ q.exprs.count x
  | ⟨ctes, _, items, source, _, _, _, _, union, _⟩ => by
    have hctes := Cte.count_outputs_le x ctes
    have hsource := TableRef.countOpt_outputs_le x source
    have hunion := Select.countOpt_outputs_le x union
    simp only [Select.gather, Select.exprs, outputProbe, NamedPart.probe, nil_append,
      flatMap_append, count_append] at hctes hsource hunion ⊢
    omega

theorem Select.countOpt_outputs_le (x : ExprId) : (right : Option Select) →
    ((Select.gatherOpt NamedPart.probe right).flatMap NamedPart.items).count x ≤
        (Select.gatherOpt outputProbe right).count x ∧
      (Select.gatherOpt outputProbe right).count x ≤ (Select.exprsOpt right).count x
  | none => ⟨le_rfl, le_rfl⟩
  | some q => by
    have hq := Select.count_outputs_le x q
    simp only [Select.gatherOpt, Select.exprsOpt]
    omega

theorem Cte.count_outputs_le (x : ExprId) : (cs : List Cte) →
    ((Cte.gatherAll NamedPart.probe cs).flatMap NamedPart.items).count x ≤
        (Cte.gatherAll outputProbe cs).count x ∧
      (Cte.gatherAll outputProbe cs).count x ≤ (Cte.exprsAll cs).count x
  | [] => ⟨le_rfl, le_rfl⟩
  | ⟨_, _, query, _⟩ :: rest => by
    have hq := Select.count_outputs_le x query
    have hrest := Cte.count_outputs_le x rest
    simp only [Cte.gatherAll, Cte.exprsAll, outputProbe, NamedPart.probe, NamedPart.ofEntry,
      NamedPart.items, nil_append, cons_append, flatMap_cons, flatMap_append,
      count_append] at hq hrest ⊢
    omega

theorem TableRef.countOpt_outputs_le (x : ExprId) : (item : Option TableRef) →
    ((gatherOpt NamedPart.probe item).flatMap NamedPart.items).count x ≤
        (gatherOpt outputProbe item).count x ∧
      (gatherOpt outputProbe item).count x ≤ (exprsOpt item).count x
  | none => ⟨le_rfl, le_rfl⟩
  | some item => TableRef.count_outputs_le x item

theorem TableRef.count_outputs_le (x : ExprId) : (item : TableRef) →
    ((item.gather NamedPart.probe).flatMap NamedPart.items).count x ≤
        (item.gather outputProbe).count x ∧
      (item.gather outputProbe).count x ≤ item.exprs.count x
  | .table _ => ⟨le_rfl, le_rfl⟩
  | .derived query _ => by
    have hq := Select.count_outputs_le x query
    simp only [gather, exprs, outputProbe, NamedPart.probe, NamedPart.ofReference,
      NamedPart.items, nil_append, cons_append, flatMap_cons, count_append] at hq ⊢
    omega
  | .join _ left right _ => by
    have hleft := TableRef.count_outputs_le x left
    have hright := TableRef.count_outputs_le x right
    simp only [gather, exprs, flatMap_append, count_append]
      at hleft hright ⊢
    omega
  | .list items => TableRef.countAll_outputs_le x items

theorem TableRef.countAll_outputs_le (x : ExprId) : (items : List TableRef) →
    ((gatherAll NamedPart.probe items).flatMap NamedPart.items).count x ≤
        (gatherAll outputProbe items).count x ∧
      (gatherAll outputProbe items).count x ≤ (exprsAll items).count x
  | [] => ⟨le_rfl, le_rfl⟩
  | item :: rest => by
    have hitem := TableRef.count_outputs_le x item
    have hrest := TableRef.countAll_outputs_le x rest
    simp only [gatherAll, exprsAll, flatMap_append, count_append]
      at hitem hrest ⊢
    omega

end

/-! ### Uses -/

theorem Arena.Uses.count_eq (h : a.Uses ids K) (x : ExprId) :
    ids.count x + (K.map fun y => (a.expr y).parts.count x).sum = K.count x := by
  induction h with
  | nil => rfl
  | cons _ _ _ ihp ih =>
    simp only [count_cons, count_append, map_cons, map_append, sum_cons,
      sum_append] at ihp ih ⊢
    omega

/-! ### Bound statements -/

def Weights.ofItem (x : ExprId) : Weights := { item := fun y => if y = x then 1 else 0 }

namespace Weights

theorem ofItems_ofItem (ids : List ExprId) : (ofItem x).ofItems ids = ids.count x := by
  induction ids with
  | nil => rfl
  | cons id ids ih =>
    rw [ofItems_cons, ih, count_cons]
    simp only [ofItem, beq_iff_eq]
    omega

theorem ofPart_ofItem (p : NamedPart) : (ofItem x).ofPart p = 0 := by
  rw [ofPart, ofNumbers_eq_zero _ fun _ => rfl, Nat.add_zero]
  cases p.alias? with
  | none => rfl
  | some k =>
    rw [Option.map_some, Option.getD_some, ofAlias]
    cases k.serial <;> rfl

theorem ofQuery_ofItem (q : Select) : (ofItem x).ofQuery q = q.outputs.count x := by
  rw [ofQuery, ofItems_ofItem, sum_eq_zero fun n hn => ?_, Nat.add_zero]
  obtain ⟨p, _, rfl⟩ := mem_map.mp hn
  exact ofPart_ofItem p

theorem taken_ofItem (v : BindView) : (ofItem x).taken v = if x < v.exprs.size then 1 else 0 := by
  simp [taken, ofItem, Finset.sum_ite_eq']

end Weights

theorem Arena.sum_boundQueries (a : Arena) (f : Select → Nat) :
    (a.boundQueries.map f).sum =
      ∑ y ∈ Finset.range a.size, (((a.query? y).filter (·.depth.isSome)).map f).getD 0 := by
  rw [boundQueries]
  generalize a.size = size
  induction size with
  | zero => rfl
  | succ size ih =>
    rw [range_succ, filterMap_append, map_append, sum_append, ih,
      Finset.sum_range_succ]
    cases hq : (a.query? size).filter (·.depth.isSome) <;> simp [hq]

theorem Weights.ofExpr_le_parts (e : Expr) : (ofItem x).ofExpr e ≤ e.parts.count x := by
  cases e with
  | subquery q =>
    exact ((ofQuery_ofItem q).le).trans (Select.count_outputs_le x q).2
  | _ => exact Nat.zero_le _

theorem Weights.store_of_uses (h : a.Uses ids K) (hnodup : K.Nodup) :
    (ofItem x).store a + ids.count x ≤
      K.count x + ∑ y ∈ (Finset.range a.size).filter (· ∉ K), (ofItem x).ofExpr (a.expr y) := by
  have hcount := h.count_eq x
  have hused : ∑ y ∈ (Finset.range a.size).filter (· ∈ K), (ofItem x).ofExpr (a.expr y) ≤
      (K.map fun y => (a.expr y).parts.count x).sum := by
    rw [← sum_toFinset _ hnodup]
    refine Nat.le_trans (Finset.sum_le_sum fun y _ => ofExpr_le_parts (a.expr y)) ?_
    refine Finset.sum_le_sum_of_subset fun y hy => ?_
    exact mem_toFinset.mpr (Finset.mem_filter.mp hy).2
  rw [store, ← Finset.sum_filter_add_sum_filter_not _ (· ∈ K)]
  omega

theorem Weights.boundQueries_add_le {a' : Arena} (hfresh : a.isFresh = true)
    (hsize : a.size ≤ a'.size) (hkept : ∀ y, y < a.size → y ∉ K → a'.expr y = a.expr y) :
    (a'.boundQueries.map fun q => (q.named.flatMap NamedPart.items).count x).sum +
        ∑ y ∈ (Finset.range a.size).filter (· ∉ K), (ofItem x).ofExpr (a.expr y) ≤
      (ofItem x).store a' := by
  have hsets : (Finset.range a'.size).filter (fun y => y < a.size ∧ y ∉ K) =
      (Finset.range a.size).filter (· ∉ K) := by
    ext y
    simp only [Finset.mem_filter, Finset.mem_range]
    exact ⟨And.right, fun h => ⟨h.1.trans_le hsize, h⟩⟩
  have hunused : ∑ y ∈ (Finset.range a.size).filter (· ∉ K), (ofItem x).ofExpr (a'.expr y) =
      ∑ y ∈ (Finset.range a.size).filter (· ∉ K), (ofItem x).ofExpr (a.expr y) := by
    refine Finset.sum_congr rfl fun y hy => ?_
    obtain ⟨hlt, hy⟩ := Finset.mem_filter.mp hy
    rw [hkept y (Finset.mem_range.mp hlt) hy]
  have hnone : ∀ y ∈ (Finset.range a.size).filter (· ∉ K),
      (((a'.query? y).filter (·.depth.isSome)).map fun q =>
        (q.named.flatMap NamedPart.items).count x).getD 0 = 0 := by
    intro y hy
    obtain ⟨hlt, hy⟩ := Finset.mem_filter.mp hy
    rw [query?, hkept y (Finset.mem_range.mp hlt) hy]
    have hisFresh := isFresh_expr hfresh y
    cases he : a.expr y with
    | subquery =>
      rw [he] at hisFresh
      simp [Expr.subquery?, Option.filter, (Select.isFresh_iff.mp hisFresh).2.2.2]
    | _ => rfl
  have hle : ∀ y, (((a'.query? y).filter (·.depth.isSome)).map fun q =>
      (q.named.flatMap NamedPart.items).count x).getD 0 ≤ (ofItem x).ofExpr (a'.expr y) := by
    intro y
    cases hq : (a'.query? y).filter (·.depth.isSome) with
    | none => exact Nat.zero_le _
    | some q =>
      rw [query?_eq_some.mp (Option.filter_eq_some_iff.mp hq).1]
      have hcount := (Select.count_outputs_le x q).1
      show (q.named.flatMap NamedPart.items).count x ≤ (ofItem x).ofQuery q
      rw [ofQuery_ofItem]
      exact (Nat.le_add_right _ _).trans hcount
  rw [sum_boundQueries, store,
    ← Finset.sum_filter_add_sum_filter_not (Finset.range a'.size) (fun y => y < a.size ∧ y ∉ K),
    ← Finset.sum_filter_add_sum_filter_not (Finset.range a'.size) (fun y => y < a.size ∧ y ∉ K), hsets,
    hunused, Finset.sum_eq_zero hnone, Nat.zero_add, Nat.add_comm]
  exact Nat.add_le_add_left (Finset.sum_le_sum fun y _ => hle y) _

theorem BindTask.count_made_le (x : ExprId) (task : BindTask) :
    (task.made.flatMap NamedPart.items).count x ≤ (Weights.ofItem x).made task := by
  have hle : (task.made.flatMap NamedPart.items).count x ≤ (task.gatherOut outputProbe).count x := by
    cases task with
    | expr | acts | roots | items => exact Nat.zero_le _
    | source _ item => exact (count_outputs_le x item).1
    | sources _ refs => exact (countAll_outputs_le x refs).1
    | from_ _ item => exact (countOpt_outputs_le x item).1
    | entry _ c => exact (Cte.count_outputs_le x [c]).1
    | entries _ cs => exact (Cte.count_outputs_le x cs).1
    | union _ right _ => exact (Select.countOpt_outputs_le x right).1
    | branch _ _ q | query _ q => exact (Nat.le_add_right _ _).trans (Select.count_outputs_le x q).1
  refine Nat.le_trans hle ?_
  rw [← Weights.ofItems_ofItem]
  cases task with
  | items => exact Nat.zero_le _
  | _ => exact Nat.le_add_right _ _

theorem Weights.sum_made_ofItem (x : ExprId) (tasks : List BindTask) :
    ((tasks.flatMap BindTask.made).flatMap NamedPart.items).count x ≤
      (tasks.map (ofItem x).made).sum := by
  induction tasks with
  | nil => exact le_rfl
  | cons task tasks ih =>
    have hfirst := task.count_made_le x
    simp only [flatMap_cons, flatMap_append, count_append, map_cons, sum_cons]
    omega

theorem Weights.sum_given_ofItem (x : ExprId) (tasks : List BindTask) :
    (tasks.map (ofItem x).given).sum = (tasks.flatMap BindTask.outputs).count x := by
  induction tasks with
  | nil => rfl
  | cons task _ ih =>
    have hzero : ((task.gatherIn NamedPart.probe).map (ofItem x).ofPart).sum = 0 :=
      sum_eq_zero fun n hn => by
        obtain ⟨p, _, rfl⟩ := mem_map.mp hn
        exact ofPart_ofItem p
    rw [map_cons, sum_cons, ih, flatMap_cons, count_append, given_eq, hzero,
      ofItems_ofItem, Nat.add_zero]

theorem BindsParts.nodup_items {tasks : List BindTask} {v v' : BindView}
    (h : BindsParts env tasks v v') (hfresh : v.exprs.isFresh = true) (huses : v.exprs.Uses ids K)
    (hnodup : K.Nodup) (houtputs : ∀ x, (tasks.flatMap BindTask.outputs).count x ≤ ids.count x)
    (hconfined : Confined (fun x => x ∈ K ∨ v.exprs.size ≤ x) v.exprs v'.exprs) :
    ∃ copied : List ExprId, ((tasks.flatMap BindTask.made ++
        v'.exprs.boundQueries.flatMap (·.named)).flatMap NamedPart.items ++ copied).Nodup ∧
      Names (fun x => x ∈ copied ∨ ∃ task ∈ tasks, task.EntryItem v'.exprs x) v v' := by
  obtain ⟨copied, hweight, hnames⟩ := h.exists_copied
  refine ⟨copied, nodup_iff_count_le_one.mpr fun x => ?_, hnames⟩
  have hweight := hweight (.ofItem x)
  have hmade := Weights.sum_made_ofItem x tasks
  have houtputs := houtputs x
  have hbefore := Weights.store_of_uses (x := x) huses hnodup
  have hafter := Weights.boundQueries_add_le (x := x) (K := K) hfresh hconfined.size_le
    fun y hlt hy => hconfined.kept y fun h => h.elim hy (Nat.not_le.mpr hlt)
  have hbound : ((v'.exprs.boundQueries.flatMap (·.named)).flatMap NamedPart.items).count x =
      (v'.exprs.boundQueries.map fun q => (q.named.flatMap NamedPart.items).count x).sum := by
    rw [flatMap_assoc, count_flatMap]
    rfl
  have hK : K.count x ≤ 1 := nodup_iff_count_le_one.mp hnodup x
  rw [Weights.sum_given_ofItem, Weights.ofItems_ofItem, Weights.taken_ofItem, Weights.taken_ofItem]
    at hweight
  rw [count_append, flatMap_append, count_append, hbound]
  by_cases hx : x < v.exprs.size
  · rw [if_pos hx, if_pos (hx.trans_le hconfined.size_le)] at hweight
    omega
  · have hnew : K.count x = 0 := count_eq_zero_of_not_mem fun hmem => hx (huses.lt_size hmem)
    have htaken : (if x < v'.exprs.size then 1 else 0) ≤ 1 := by split <;> omega
    rw [if_neg hx] at hweight
    omega

end SqlAnalysis
