import SqlAnalysis.Proofs.Binding.InsertRows
import SqlAnalysis.Proofs.Plan.Decorrelation
import SqlAnalysis.Proofs.Plan.Ending

/-!
# How far subqueries reach

A subquery in WHERE becomes a join with the block around it, so its columns should belong to itself or
to that block.  Only its select list and its WHERE condition are looked at before.

* **`joined_subqueries_reach_iff`**: select list and WHERE condition of every joined subquery reach one
  level out at most; the subquery as a whole does exactly if its other clauses do.
-/

namespace SqlAnalysis

open LowerM List Arena TableRef

variable {n depth : Nat} {a a' bound : Arena} {c first x : ExprId} {sub q : Select}
  {use : SubqueryUse} {more : List ExprId} {s : LowerState}

/-! ### Reachable columns -/

namespace Arena

variable {y z : ExprId}

/-- The expression `y` is so many operands down in `x`. -/
def OperandAt (a : Arena) (y : ExprId) : Nat → ExprId → Prop
  | 0, x => x = y
  | n + 1, x => ∃ c ∈ (a.expr x).children, a.OperandAt y n c

theorem Contains.exists_operandAt (h : a.Contains x y) : ∃ n, a.OperandAt y n x := by
  induction h with
  | here => exact ⟨0, rfl⟩
  | child hc _ ih =>
    obtain ⟨n, hn⟩ := ih
    exact ⟨n + 1, _, hc, hn⟩

theorem exists_exact_distance (h : a.OperandAt y n x) (hmin : ∀ m < n, ¬a.OperandAt y m x) {k : Nat}
    (hk : k ≤ n) : ∃ z, a.OperandAt y k z ∧ ∀ m < k, ¬a.OperandAt y m z := by
  induction n generalizing x with
  | zero =>
    cases Nat.le_zero.mp hk
    exact ⟨x, h, hmin⟩
  | succ n ih =>
    rcases Nat.lt_or_eq_of_le hk with hk | rfl
    · obtain ⟨c, hc, hn⟩ := h
      exact ih hn (fun m hm hcm => hmin (m + 1) (Nat.succ_lt_succ hm) ⟨c, hc, hcm⟩)
        (Nat.le_of_lt_succ hk)
    · exact ⟨x, h, hmin⟩

theorem lt_size_of_operandAt (hy : y < a.size) (h : a.OperandAt y n x) : x < a.size := by
  cases n with
  | zero => exact (show x = y from h) ▸ hy
  | succ =>
    obtain ⟨_, hc, _⟩ := h
    refine Nat.lt_of_not_le fun hx => ?_
    rw [expr_of_size_le hx] at hc
    cases hc

theorem distance_lt_size (hy : y < a.size) (h : a.OperandAt y n x)
    (hmin : ∀ m < n, ¬a.OperandAt y m x) : n < a.size := by
  have hnode : ∀ k : Fin (n + 1), ∃ z : Fin a.size, a.OperandAt y k z ∧ ∀ m < k.1,
      ¬a.OperandAt y m z := by
    intro k
    obtain ⟨z, hz, hz'⟩ := exists_exact_distance h hmin (Nat.le_of_lt_succ k.isLt)
    exact ⟨⟨z, lt_size_of_operandAt hy hz⟩, hz, hz'⟩
  choose node hnode hnode' using hnode
  have hinj : Function.Injective node := by
    intro k l hkl
    rcases Nat.lt_trichotomy k l with hlt | heq | hlt
    · exact absurd (hkl ▸ hnode k) (hnode' l k hlt)
    · exact Fin.ext heq
    · exact absurd (hkl ▸ hnode l) (hnode' k l hlt)
  exact Nat.succ_le_iff.mp (by simpa using Fintype.card_le_of_injective node hinj)

theorem mem_columnsFrom_of_operandAt {fuel : Nat} (h : a.OperandAt y n x)
    (hcol : (a.expr y).column?.isSome = true) (hfuel : n < fuel) : y ∈ a.columnsFrom fuel x := by
  induction n generalizing x fuel with
  | zero =>
    cases h
    obtain ⟨fuel, rfl⟩ := Nat.exists_eq_succ_of_ne_zero (Nat.ne_of_gt hfuel)
    rw [columnsFrom]
    split
    · exact mem_singleton.mpr rfl
    · rename_i hno
      cases he : a.expr y with
      | column ref => exact absurd he (hno ref)
      | _ => rw [he] at hcol; cases hcol
  | succ n ih =>
    obtain ⟨c, hc, h⟩ := h
    obtain ⟨_, rfl⟩ := Nat.exists_eq_succ_of_ne_zero (Nat.ne_of_gt (Nat.zero_lt_of_lt hfuel))
    rw [columnsFrom]
    split
    · rename_i ref he
      rw [he] at hc
      cases hc
    · exact mem_flatMap.mpr ⟨c, hc, ih h (Nat.lt_of_succ_lt_succ hfuel)⟩

theorem mem_columns_of_contains (h : a.Contains x y) (hcol : (a.expr y).column?.isSome = true) :
    y ∈ a.columns x := by
  classical
  have hy : y < a.size := by
    refine Nat.lt_of_not_le fun hle => ?_
    rw [expr_of_size_le hle] at hcol
    cases hcol
  have hn := Nat.find_spec h.exists_operandAt
  have hmin := fun m hm => Nat.find_min h.exists_operandAt (m := m) hm
  exact mem_columnsFrom_of_operandAt hn hcol
    (Nat.lt_succ_of_lt (distance_lt_size hy hn hmin))

end Arena

/-! ### Blocks and their clauses -/

mutual

def TableRef.queries : TableRef → List Select
  | .table _ => []
  | .derived query _ => [query]
  | .join _ left right _ => left.queries ++ right.queries
  | .list items => queriesAll items

def TableRef.queriesAll : List TableRef → List Select
  | [] => []
  | item :: rest => item.queries ++ queriesAll rest

end

def TableRef.queriesOpt (source : Option TableRef) : List Select :=
  (source.map (·.queries)).getD []

mutual

def TableRef.conditions : TableRef → List ExprId
  | .table _ | .derived _ _ => []
  | .join _ left right condition => left.conditions ++ right.conditions ++ condition.toList
  | .list items => conditionsAll items

def TableRef.conditionsAll : List TableRef → List ExprId
  | [] => []
  | item :: rest => item.conditions ++ conditionsAll rest

end

namespace Select

/-- The expressions of the select list and WHERE. -/
def mainExprs (q : Select) : List ExprId := q.items ++ q.filter.toList

/-- The expressions of the other clauses: JOIN, GROUP BY, HAVING and ORDER BY. -/
def sideExprs (q : Select) : List ExprId :=
  (q.source.map (·.conditions)).getD [] ++ (q.grouping.map (·.exprs)).getD [] ++
    (q.ordering.getD []).map (·.expr)

/-- The expressions of a query block. -/
def blockExprs (q : Select) : List ExprId := q.mainExprs ++ q.sideExprs

end Select

namespace Arena

def subqueryOf? (a : Arena) (c : ExprId) : Option Select :=
  if (a.node c).hasSubquery then
    match subqueryUse a c with
    | .ok use => a.query? use.subquery
    | .error _ => none
  else
    none

/-- The subqueries in the WHERE condition of a query block that become joins. -/
def joined (a : Arena) (q : Select) : List Select :=
  (q.filter.toList.flatMap a.conjuncts).filterMap a.subqueryOf?

/-- The second query block is lowered as part of the first one. -/
inductive HasBlock (a : Arena) : Select → Select → Prop where
  | self {q : Select} : HasBlock a q q
  | entry {q r : Select} {c : Cte} : c ∈ q.ctes → HasBlock a c.query r → HasBlock a q r
  | derived {q q' r : Select} : q' ∈ queriesOpt q.source → HasBlock a q' r → HasBlock a q r
  | union {q q' r : Select} : q.union = some q' → HasBlock a q' r → HasBlock a q r
  | joined {q sub r : Select} : sub ∈ a.joined q → HasBlock a sub r → HasBlock a q r

/-- The columns of an expression in a block of some depth belong to that block, the next one out, or
blocks further in. -/
def ReachesBack (a : Arena) (depth : Nat) (x : ExprId) : Prop :=
  ∀ y, a.Contains x y → (a.expr y).column?.isSome = true →
    ∀ n, (a.node y).depth = some n → depth ≤ n + 1

/-- The select list and the WHERE condition of a subquery reach one level out at most. -/
def MainReachesBack (a : Arena) (sub : Select) : Prop :=
  ∃ depth, sub.depth = some depth ∧ ∀ x ∈ sub.mainExprs, a.ReachesBack depth x

/-- All subqueries that are joined in the lowering of a query have that property. -/
def AllReachBack (a : Arena) (q : Select) : Prop :=
  ∀ r, a.HasBlock q r → ∀ sub ∈ a.joined r, a.MainReachesBack sub

/-- The subquery that a condition uses has that property, and so have those within. -/
def ConditionReachesBack (a : Arena) (c : ExprId) : Prop :=
  ∀ use sub, subqueryUse a c = .ok use → a.query? use.subquery = some sub →
    a.MainReachesBack sub ∧ a.AllReachBack sub

theorem subqueryOf?_eq_some (h : a.subqueryOf? c = some sub) :
    (a.node c).hasSubquery = true ∧
      ∃ use, subqueryUse a c = .ok use ∧ a.query? use.subquery = some sub := by
  unfold subqueryOf? at h
  split at h
  · rename_i hflag
    split at h
    · rename_i use huse
      exact ⟨hflag, use, huse, h⟩
    · cases h
  · cases h

theorem allReachBack_of (hentries : ∀ c ∈ q.ctes, a.AllReachBack c.query)
    (hderived : ∀ q' ∈ queriesOpt q.source, a.AllReachBack q')
    (hunion : ∀ q', q.union = some q' → a.AllReachBack q')
    (hjoined : ∀ filter, q.filter = some filter → ∀ c ∈ a.conjuncts filter,
      (a.node c).hasSubquery = true → a.ConditionReachesBack c) : a.AllReachBack q := by
  have hjoin {sub : Select} (h : sub ∈ a.joined q) : a.MainReachesBack sub ∧ a.AllReachBack sub := by
    obtain ⟨c, hc, hsub⟩ := mem_filterMap.mp h
    obtain ⟨filter, hfilter, hc⟩ := mem_flatMap.mp hc
    obtain ⟨hflag, use, huse, hsub⟩ := subqueryOf?_eq_some hsub
    exact hjoined filter (Option.mem_toList.mp hfilter) c hc hflag use sub huse hsub
  intro r hr sub hsub
  cases hr with
  | self => exact (hjoin hsub).1
  | entry hc hr => exact hentries _ hc r hr sub hsub
  | derived hq hr => exact hderived _ hq r hr sub hsub
  | union hq hr => exact hunion _ hq r hr sub hsub
  | joined hq hr => exact (hjoin hq).2 r hr sub hsub

end Arena

/-! ### The store while a plan is built -/

/-- A store that comes from that of a bound statement by taking out queries and rewriting conditions.
Only conditions are rewritten whose subquery was found not to reach too far, and they lose no operand
but a subquery. -/
structure Tracks (bound a : Arena) : Prop where
  size : a.size = bound.size
  depth : ∀ x, (a.node x).depth = (bound.node x).depth
  flag : ∀ x, (a.node x).hasSubquery = (bound.node x).hasSubquery
  kind : ∀ x, (a.expr x).ctorIdx = (bound.expr x).ctorIdx
  query : ∀ {x q}, a.query? x = some q → q = {} ∨ bound.query? x = some q
  conjunction : ∀ x operands, a.expr x = .connect .and operands ↔ bound.expr x = .connect .and operands
  rewritten : ∀ x, (bound.expr x).isSubquery = false → a.expr x = bound.expr x ∨
    bound.ConditionReachesBack x
  operand : ∀ {x c}, c ∈ (bound.expr x).children → (bound.expr c).isSubquery = true ∨
    c ∈ (a.expr x).children

namespace Tracks

variable {y : ExprId}

theorem refl (bound : Arena) : Tracks bound bound :=
  ⟨rfl, fun _ => rfl, fun _ => rfl, fun _ => rfl, fun h => .inr h, fun _ _ => Iff.rfl,
    fun _ _ => .inl rfl, fun h => .inr h⟩

section

variable (h : Tracks bound a)

include h

theorem isSubquery (x : ExprId) :
    (a.expr x).isSubquery = (bound.expr x).isSubquery := by
  rw [Expr.isSubquery_eq, Expr.isSubquery_eq, h.kind]

theorem isColumn (x : ExprId) :
    (a.expr x).column?.isSome = (bound.expr x).column?.isSome := by
  rw [Expr.isSome_column?_eq, Expr.isSome_column?_eq, h.kind]

theorem conjuncts (id : ExprId) : a.conjuncts id = bound.conjuncts id :=
  conjuncts_congr h.size h.conjunction id

theorem contains (hy : bound.Contains x y)
    (hplain : (bound.expr y).isSubquery = false) : a.Contains x y := by
  induction hy with
  | here x => exact .here x
  | child hc hy ih =>
    rcases h.operand hc with hsub | hc'
    · -- a subquery has no operands, so the way ends here
      cases hy with
      | here =>
        rw [hsub] at hplain
        cases hplain
      | child hd =>
        obtain ⟨_, _, he⟩ := query?_of_isSubquery hsub
        rw [he] at hd
        cases hd
    · exact .child hc' (ih hplain)

theorem reachesBack (hx : a.ReachesBack depth x) :
    bound.ReachesBack depth x := by
  intro y hy hcol n hn
  have hplain : (bound.expr y).isSubquery = false := by
    cases he : bound.expr y with
    | subquery =>
      rw [he] at hcol
      cases hcol
    | _ => rfl
  exact hx y (h.contains hy hplain) (h.isColumn y ▸ hcol) n (h.depth y ▸ hn)

theorem setQuery {id : ExprId} (hsub : (a.expr id).isSubquery = true)
    (hq : q = {} ∨ bound.query? id = some q) : Tracks bound (a.setQuery id q) := by
  have hself := expr_setQuery_self q hsub
  have hnode (x : ExprId) : ((a.setQuery id q).node x).depth = (a.node x).depth ∧
      ((a.setQuery id q).node x).hasSubquery = (a.node x).hasSubquery := by
    by_cases hne : x = id
    · rw [hne, node_setQuery_self q hsub]
      exact ⟨rfl, rfl⟩
    · rw [node_setQuery_of_ne q hne]
      exact ⟨rfl, rfl⟩
  have hkind : ((a.setQuery id q).expr id).ctorIdx = (a.expr id).ctorIdx := by
    obtain ⟨q', _, he⟩ := query?_of_isSubquery hsub
    rw [hself, he]
    rfl
  have hother {x : ExprId} (hx : (a.expr x).isSubquery = false) :
      (a.setQuery id q).expr x = a.expr x := by
    refine expr_setQuery_of_ne q fun heq => ?_
    rw [heq, hsub] at hx
    cases hx
  refine ⟨by rw [size_setQuery, h.size], fun x => (hnode x).1.trans (h.depth x),
    fun x => (hnode x).2.trans (h.flag x), fun x => ?_, fun {x q'} hx => ?_, fun x operands => ?_,
    fun x hx => ?_, fun {x c} hc => ?_⟩
  · by_cases hne : x = id
    · rw [hne, hkind, h.kind]
    · rw [expr_setQuery_of_ne q hne, h.kind]
  · by_cases hne : x = id
    · subst hne
      rw [query?_eq_some, hself] at hx
      cases hx
      exact hq
    · rw [query?_eq_some, expr_setQuery_of_ne q hne, ← query?_eq_some] at hx
      exact h.query hx
  · by_cases hne : x = id
    · subst hne
      rw [hself, ← h.conjunction x]
      refine iff_of_false (fun he => by cases he) fun he => ?_
      rw [he] at hsub
      cases hsub
    · rw [expr_setQuery_of_ne q hne]
      exact h.conjunction x operands
  · rw [hother (h.isSubquery x ▸ hx)]
    exact h.rewritten x hx
  · by_cases hx : (a.expr x).isSubquery = true
    · rw [h.isSubquery] at hx
      obtain ⟨_, _, he⟩ := query?_of_isSubquery hx
      rw [he] at hc
      cases hc
    · rw [hother (Bool.eq_false_iff.mpr hx)]
      exact h.operand hc

theorem operand_of_use (h' : Tracks bound a')
    (huse : subqueryUse a c = .ok use) {d : ExprId} (hd : d ∈ (bound.expr c).children) :
    (bound.expr d).isSubquery = true ∨
      d ∈ (decorrelatedPredicate use.subquery first (a'.expr c)).children := by
  have hsub : (bound.expr use.subquery).isSubquery = true :=
    h.isSubquery _ ▸ subqueryUse_isSubquery huse
  rcases subqueryUse_ok huse with ⟨op, left, right, he, _⟩ | ⟨operand, he, _, _, hoperand, _⟩
  · have hkind : (a'.expr c).ctorIdx = 5 := by
      rw [h'.kind, ← h.kind, he]
      rfl
    by_cases hd' : d = use.subquery
    · exact .inl (hd' ▸ hsub)
    refine (h'.operand hd).imp_right fun hd => ?_
    cases he' : a'.expr c with
    | compare =>
      rw [he'] at hd
      have hkept : (if d = use.subquery then first else d) = d := if_neg hd'
      rcases mem_pair.mp hd with rfl | rfl
      · exact mem_pair.mpr (.inl hkept.symm)
      · exact mem_pair.mpr (.inr hkept.symm)
    | _ =>
      rw [he'] at hkind
      cases hkind
  · rcases h.operand hd with hd | hd
    · exact .inl hd
    · rw [he] at hd
      cases mem_singleton.mp hd
      exact .inl (hoperand ▸ hsub)

theorem bound_of_use (huse : subqueryUse a c = .ok use) :
    (bound.expr c).isSubquery = false ∧ ∀ operands, bound.expr c ≠ .connect .and operands := by
  have hkind := (subqueryUse_refers huse).2
  rw [h.kind] at hkind
  refine ⟨?_, fun operands he => ?_⟩
  · rw [Expr.isSubquery_eq]
    rcases hkind with hkind | hkind
    · rw [hkind]
      rfl
    · rw [hkind]
      rfl
  · rw [he] at hkind
    rcases hkind with hkind | hkind
    · cases hkind
    · cases hkind

theorem rewrite (h' : Tracks bound a') (huse : subqueryUse a c = .ok use)
    (hc : bound.ConditionReachesBack c) (first : ExprId) :
    Tracks bound (a'.update c fun n =>
      { n with kind := decorrelatedPredicate use.subquery first n.kind }) := by
  obtain ⟨hplain, hand⟩ := h.bound_of_use huse
  have hlt : c < a'.size := by
    rw [h'.size, ← h.size]
    exact lt_size_of_use huse
  have hself : (a'.update c fun n =>
      { n with kind := decorrelatedPredicate use.subquery first n.kind }).expr c =
        decorrelatedPredicate use.subquery first (a'.expr c) := by
    rw [expr, node_update_self _ hlt]
    rfl
  have hkind : ((a'.update c fun n =>
      { n with kind := decorrelatedPredicate use.subquery first n.kind }).expr c).ctorIdx =
        (bound.expr c).ctorIdx := by rw [hself, ctorIdx_decorrelatedPredicate, h'.kind]
  refine ⟨by rw [size_update, h'.size], fun x => ?_, fun x => ?_, fun x => ?_,
    fun {x q} hx => ?_, fun x operands => ?_, fun x hx => ?_, fun {x d} hd => ?_⟩
  · rw [field_update (·.depth) rfl, h'.depth]
  · rw [field_update (·.hasSubquery) rfl, h'.flag]
  · by_cases hne : x = c
    · rw [hne, hkind]
    · rw [expr_update_of_ne _ hne, h'.kind]
  · by_cases hne : x = c
    · have hsub := isSubquery_of_query? hx
      rw [hne, Expr.isSubquery_eq, hkind, ← Expr.isSubquery_eq, hplain] at hsub
      cases hsub
    · rw [query?_eq_some, expr_update_of_ne _ hne, ← query?_eq_some] at hx
      exact h'.query hx
  · by_cases hne : x = c
    · subst hne
      refine iff_of_false (fun he => ?_) (hand operands)
      have hkind' := (subqueryUse_refers huse).2
      rw [h.kind, ← hkind, he] at hkind'
      rcases hkind' with hkind' | hkind'
      · cases hkind'
      · cases hkind'
    · rw [expr_update_of_ne _ hne]
      exact h'.conjunction x operands
  · by_cases hne : x = c
    · exact .inr (hne ▸ hc)
    · rw [expr_update_of_ne _ hne]
      exact h'.rewritten x hx
  · by_cases hne : x = c
    · subst hne
      rw [hself]
      exact h.operand_of_use h' huse hd
    · rw [expr_update_of_ne _ hne]
      exact h'.operand hd

end

end Tracks

/-! ### Joined subqueries -/

theorem checkSubquery_ok (h : checkSubquery a q = .ok ()) :
    ∃ depth, q.depth = some depth ∧ reachesTooFar a depth q = false := by
  unfold checkSubquery at h
  split at h
  · cases h
  · rename_i depth hdepth
    split at h
    · cases h
    · rename_i hfar
      exact ⟨depth, hdepth, Bool.eq_false_iff.mpr hfar⟩

theorem reachesBack_of_not_reachesTooFar (h : reachesTooFar a depth q = false)
    (hx : x ∈ q.mainExprs) : a.ReachesBack depth x := by
  intro y hy hcol n hn
  refine Nat.le_of_not_lt fun hlt => ?_
  rw [reachesTooFar, any_eq_false] at h
  refine h x hx (any_eq_true.mpr ⟨n, mem_filterMap.mpr ⟨y, ?_, hn⟩, by simpa using hlt⟩)
  exact mem_columns_of_contains hy hcol

theorem subqueryUse_congr (he : a'.expr c = a.expr c)
    (hsub : ∀ x, (a'.expr x).isSubquery = (a.expr x).isSubquery) :
    subqueryUse a' c = subqueryUse a c := by
  unfold subqueryUse
  simp only [he, hsub]

theorem Tracks.query_eq (h : Tracks bound a) (hq : a.query? x = some q) (hitems : q.items = first :: more) :
    bound.query? x = some q :=
  (h.query hq).resolve_left fun hempty => by
    rw [hempty] at hitems
    cases hitems

theorem Tracks.take (h : Tracks bound a) (hq : a.query? x = some q) : Tracks bound (a.setQuery x {}) :=
  h.setQuery (isSubquery_of_query? hq) (.inl rfl)

theorem Tracks.conditionReachesBack (h : Tracks bound a) (huse : subqueryUse a c = .ok use)
    (hq : a.query? use.subquery = some q) (hitems : q.items = first :: more)
    (hcheck : checkSubquery (a.setQuery use.subquery {}) q = .ok ())
    (hwithin : bound.AllReachBack q) : bound.ConditionReachesBack c := by
  refine (h.rewritten c (h.bound_of_use huse).1).elim (fun hsame use' sub huse' hsub => ?_) id
  -- the condition is as it was bound, so it still uses the same subquery
  rw [← subqueryUse_congr hsame h.isSubquery, huse] at huse'
  cases huse'
  have hbound := h.query_eq hq hitems
  cases hbound.symm.trans hsub
  obtain ⟨depth, hdepth, hfar⟩ := checkSubquery_ok hcheck
  exact ⟨⟨depth, hdepth, fun x hx => (h.take hq).reachesBack (reachesBack_of_not_reachesTooFar hfar hx)⟩,
    hwithin⟩

theorem Tracks.decorrelate (h : Tracks bound a) (h' : Tracks bound a')
    (huse : subqueryUse a c = .ok use) (hq : a.query? use.subquery = some q)
    (hitems : q.items = first :: more)
    (hcheck : checkSubquery (a.setQuery use.subquery {}) q = .ok ())
    (hwithin : bound.AllReachBack q) :
    Tracks bound ((a'.setQuery use.subquery q).update c fun n =>
      { n with kind := decorrelatedPredicate use.subquery first n.kind }) := by
  have hbound := h.query_eq hq hitems
  have hback : Tracks bound (a'.setQuery use.subquery q) := by
    refine h'.setQuery ?_ (.inr hbound)
    rw [h'.isSubquery, ← h.isSubquery]
    exact isSubquery_of_query? hq
  exact h.rewrite hback huse (h.conditionReachesBack huse hq hitems hcheck hwithin) first

/-- What is lowered has no joined subquery that reaches too far in its main clauses. -/
def LowerTask.ReachesBack (bound : Arena) : LowerTask → Prop
  | .query _ _ _ q _ => bound.AllReachBack q
  | .entries _ _ cs _ _ => ∀ c ∈ cs, bound.AllReachBack c.query
  | .block _ _ q _ => (∀ r ∈ queriesOpt q.source, bound.AllReachBack r) ∧
    ∀ filter, q.filter = some filter → ∀ c ∈ bound.conjuncts filter,
      (bound.node c).hasSubquery = true → bound.ConditionReachesBack c
  | .from_ _ _ item _ => ∀ r ∈ queriesOpt item, bound.AllReachBack r
  | .source _ _ item _ => ∀ r ∈ item.queries, bound.AllReachBack r
  | .sources _ _ _ items _ => ∀ r ∈ queriesAll items, bound.AllReachBack r
  | .where_ _ _ filter _ _ => ∀ x, filter = some x → ∀ c ∈ bound.conjuncts x,
    (bound.node c).hasSubquery = true → bound.ConditionReachesBack c
  | .conjuncts _ _ cs _ _ => ∀ c ∈ cs, (bound.node c).hasSubquery = true →
    bound.ConditionReachesBack c

/-- **Whatever is lowered joins only subqueries that do not reach too far in their main clauses.** -/
theorem Lowers.reachesBack {env : Accessor} {task : LowerTask} {s' : LowerState}
    (h : Lowers env task s s') (hs : Tracks bound s.exprs) :
    Tracks bound s'.exprs ∧ task.ReachesBack bound := by
  induction h with
  | entriesNil | fromNone | table _ | conjunctsNil => exact ⟨hs, forall_mem_nil _⟩
  | @entriesCons _ _ _ _ _ _ _ _ _ _ _ _ hv _ _ ihbody ihrest =>
    obtain ⟨_, rfl⟩ := visibleCte_run hv
    obtain ⟨hs2, hbody⟩ := ihbody hs
    obtain ⟨hs3, hrest⟩ := ihrest hs2
    exact ⟨hs3, forall_mem_cons.mpr ⟨hbody, hrest⟩⟩
  | queryAlone hunion _ _ ihe ihb =>
    obtain ⟨hs1, he⟩ := ihe hs
    obtain ⟨hs2, hsource, hfilter⟩ := ihb hs1
    refine ⟨hs2, allReachBack_of he hsource (fun q' hq' => ?_) hfilter⟩
    rw [hunion] at hq'
    cases hq'
  | queryUnion hunion _ _ _ ihe ihb ihr =>
    obtain ⟨hs1, he⟩ := ihe hs
    obtain ⟨hs2, hsource, hfilter⟩ := ihb hs1
    obtain ⟨hs3, hright⟩ := ihr hs2
    refine ⟨hs3, allReachBack_of he hsource (fun q' hq' => ?_) hfilter⟩
    cases hunion.symm.trans hq'
    exact hright
  | block _ _ _ _ _ ihf ihw =>
    obtain ⟨hs1, hf⟩ := ihf hs
    obtain ⟨hs2, hw⟩ := ihw hs1
    exact ⟨hs2, hf, hw⟩
  | fromSome _ ih => exact ih hs
  | derived _ ih =>
    obtain ⟨hs1, hq⟩ := ih hs
    refine ⟨hs1, fun r hr => ?_⟩
    rw [queries] at hr
    cases mem_singleton.mp hr
    exact hq
  | join _ _ _ ihl ihr =>
    obtain ⟨hs1, hl⟩ := ihl hs
    obtain ⟨hs2, hr⟩ := ihr hs1
    refine ⟨hs2, fun r hmem => ?_⟩
    rw [queries] at hmem
    exact (mem_append.mp hmem).elim (hl r) (hr r)
  | list _ _ ihf ihr =>
    obtain ⟨hs1, hf⟩ := ihf hs
    obtain ⟨hs2, hr⟩ := ihr hs1
    refine ⟨hs2, fun r hmem => ?_⟩
    rw [queries, queriesAll] at hmem
    exact (mem_append.mp hmem).elim (hf r) (hr r)
  | sourcesNil =>
    refine ⟨hs, fun r hr => ?_⟩
    rw [queriesAll] at hr
    cases hr
  | sourcesCons _ _ ihf ihr =>
    obtain ⟨hs1, hf⟩ := ihf hs
    obtain ⟨hs2, hr⟩ := ihr hs1
    refine ⟨hs2, fun r hmem => ?_⟩
    rw [queriesAll] at hmem
    exact (mem_append.mp hmem).elim (hf r) (hr r)
  | whereNone => exact ⟨hs, fun x hx => by cases hx⟩
  | @whereSome _ _ filter _ _ _ _ _ ih =>
    obtain ⟨hs1, hcs⟩ := ih hs
    refine ⟨hs1, fun x hx => ?_⟩
    cases hx
    exact fun c hc => hcs c (hs.conjuncts filter ▸ hc)
  | conjunctsPlain hflag _ ih =>
    obtain ⟨hs1, hcs⟩ := ih hs
    refine ⟨hs1, forall_mem_cons.mpr ⟨fun hflag' => ?_, hcs⟩⟩
    rw [← hs.flag, hflag] at hflag'
    cases hflag'
  | conjunctsJoin _ huse hq hitems _ hcheck _ _ ihq ihr =>
    obtain ⟨hs1, hwithin⟩ := ihq (hs.take hq)
    obtain ⟨hs2, hcs⟩ := ihr (hs.decorrelate hs1 huse hq hitems hcheck hwithin)
    exact ⟨hs2, forall_mem_cons.mpr
      ⟨fun _ => hs.conditionReachesBack huse hq hitems hcheck hwithin, hcs⟩⟩

theorem lowerSubquery_refused {lower : LowerQuery} {ctes : List VisibleCte} {single : Bool}
    (hdepth : sub.depth = some depth) (hx : x ∈ sub.mainExprs) (hfar : ¬s.exprs.ReachesBack depth x) :
    ∃ fault, lowerSubquery lower ctes single sub s = .error fault s ∧
      (s.exprs.look sub.mainExprs = .ok () → ∃ detail, fault = .refused ⟨.notImplemented, detail⟩) := by
  obtain ⟨detail, hcheck⟩ : ∃ detail, checkSubquery s.exprs sub = .error ⟨.notImplemented, detail⟩ := by
    unfold checkSubquery
    rw [hdepth]
    refine ⟨_, if_pos ?_⟩
    by_contra hnot
    exact hfar (reachesBack_of_not_reachesTooFar (Bool.eq_false_iff.mpr hnot) hx)
  unfold lowerSubquery
  split
  · exact ⟨_, rfl, fun _ => ⟨_, rfl⟩⟩
  · -- the expressions are looked at before they are checked
    show ∃ fault, EStateM.bind (exprs sub.mainExprs) _ s = .error fault s ∧ _
    unfold EStateM.bind
    rw [exprs_eq]
    cases s.exprs.look sub.mainExprs with
    | error fault => exact ⟨fault, rfl, nofun⟩
    | ok =>
      refine ⟨_, ?_, fun _ => ⟨detail, rfl⟩⟩
      show EStateM.bind (ofExcept (checkSubquery s.exprs sub)) _ s = _
      rw [hcheck]
      rfl

/-- **Correlation reaches one level out in the select list and WHERE.**  Of every SELECT that has a plan,
and every subquery in it that became a join, the columns of the select list and of the WHERE condition
belong to blocks one level out at most; all its columns do exactly if those in the other clauses and in
the further branches of a UNION do, which nothing looks at.  A subquery whose select list or WHERE
condition reaches further gets no plan, and is refused as not implemented if these can be looked at. -/
theorem joined_subqueries_reach_iff {env : Accessor} {b : Bound} {q : Select} {plan : Plan}
    (hq : b.statement = .select q) (h : (lower env b).result = .ok plan) :
    (∀ r, b.exprs.HasBlock q r → ∀ sub ∈ b.exprs.joined r, ∃ depth, sub.depth = some depth ∧
      (∀ x ∈ sub.mainExprs, b.exprs.ReachesBack depth x) ∧
      ((∀ branch ∈ sub.branches, ∀ x ∈ branch.blockExprs, b.exprs.ReachesBack depth x) ↔
        (∀ x ∈ sub.sideExprs, b.exprs.ReachesBack depth x) ∧
          ∀ branch ∈ sub.further, ∀ x ∈ branch.blockExprs, b.exprs.ReachesBack depth x)) ∧
    ∀ (lower : LowerQuery) (ctes : List VisibleCte) (single : Bool) (sub : Select) (s : LowerState)
      (depth : Nat), sub.depth = some depth →
      (∃ x ∈ sub.mainExprs, ¬s.exprs.ReachesBack depth x) →
      ∃ fault, lowerSubquery lower ctes single sub s = .error fault s ∧
        (s.exprs.look sub.mainExprs = .ok () → ∃ detail, fault = .refused ⟨.notImplemented, detail⟩) := by
  refine ⟨fun r hr sub hsub => ?_, fun lower ctes single sub s depth hdepth ⟨x, hx, hfar⟩ =>
    lowerSubquery_refused hdepth hx hfar⟩
  obtain ⟨_, hout⟩ := exists_derives hq h
  obtain ⟨depth, hdepth, hmain⟩ := (hout.lowers.reachesBack (.refl b.exprs)).2 r hr sub hsub
  refine ⟨depth, hdepth, hmain, ?_⟩
  rw [Select.branches, forall_mem_cons]
  refine and_congr_left fun _ => ⟨fun hall x hx => hall x (mem_append_right _ hx),
    fun hside x hx => ?_⟩
  exact (mem_append.mp hx).elim (hmain x) (hside x)

/-- `WITH c(a) AS (SELECT 1) SELECT 1 FROM c WHERE EXISTS (SELECT 1 WHERE EXISTS (SELECT 1 GROUP BY a))`
-/
def deepGrouping : Parsed :=
  { statement := .select {
      ctes := [{ name := "c", columns := [⟨"a", none⟩], query := { items := [0] } }]
      items := [1]
      source := some (.table (.named "c" "c"))
      filter := some 2 }
    exprs := .ofExprs [
      .constant (.ofByte 1),
      .constant (.ofByte 1),
      .operate .exists [3],
      .subquery { items := [4], filter := some 5 },
      .constant (.ofByte 1),
      .operate .exists [6],
      .subquery { items := [7], grouping := some { keys := [8] } },
      .constant (.ofByte 1),
      .column { column := "a" }] }

/-- The subquery in the WHERE condition of the subquery in the WHERE condition. -/
def innerSubquery? (b : Bound) (q : Select) : Option (Select × Select) :=
  match b.exprs.joined q with
  | [r] =>
    match b.exprs.joined r with
    | [sub] => some (r, sub)
    | _ => none
  | _ => none

theorem exists_of_innerSubquery? {b : Bound} {r : Select} (h : innerSubquery? b q = some (r, sub)) :
    b.exprs.HasBlock q r ∧ sub ∈ b.exprs.joined r := by
  unfold innerSubquery? at h
  split at h
  · rename_i r' hr
    split at h
    · rename_i sub' hsub
      cases h
      exact ⟨.joined (hr ▸ mem_singleton_self r) .self, hsub ▸ mem_singleton_self sub⟩
    · cases h
  · cases h

/-- What is known of the inner subquery and of the column that it groups by. -/
def deepGroupingFacts : Option (Option Nat × List ExprId × List ExprId × Bool × Option Nat) :=
  match (bind .initial deepGrouping []).result with
  | .ok b =>
    match b.statement with
    | .select q => (innerSubquery? b q).map fun x =>
      (x.2.depth, x.2.mainExprs, x.2.sideExprs, (b.exprs.expr 8).column?.isSome, (b.exprs.node 8).depth)
    | _ => none
  | .error _ => none

theorem exists_deepGrouping : ∃ env b q tree r sub, (bind .initial deepGrouping []).result = .ok b ∧
    b.statement = .select q ∧ (lower env b).result = .ok tree ∧ b.exprs.HasBlock q r ∧
    sub ∈ b.exprs.joined r ∧ sub.depth = some 2 ∧ sub.mainExprs = [7] ∧ sub.sideExprs = [8] ∧
    (b.exprs.expr 8).column?.isSome = true ∧ (b.exprs.node 8).depth = some 0 := by
  obtain ⟨b, q, tree, hb, hq, htree⟩ :=
    exists_of_isPlannedSelect (show isPlannedSelect .initial deepGrouping = true by decide +kernel)
  have hfacts : deepGroupingFacts = some (some 2, [7], [8], true, some 0) := by decide +kernel
  simp only [deepGroupingFacts, hb, hq, Option.map_eq_some_iff, Prod.mk.injEq] at hfacts
  obtain ⟨⟨r, sub⟩, hinner, hdepth, hmain, hside, hcolumn, hnode⟩ := hfacts
  obtain ⟨hr, hsub⟩ := exists_of_innerSubquery? hinner
  exact ⟨_, b, q, tree, r, sub, hb, hq, htree, hr, hsub, hdepth, hmain, hside, hcolumn, hnode⟩

theorem deepGrouping_reach_iff :
    ∃ env b q tree r sub, (bind .initial deepGrouping []).result = .ok b ∧ b.statement = .select q ∧
      (lower env b).result = .ok tree ∧ b.exprs.HasBlock q r ∧ sub ∈ b.exprs.joined r ∧
      sub.depth = some 2 ∧ sub.mainExprs = [7] ∧ b.exprs.ReachesBack 2 7 := by
  obtain ⟨env, b, q, tree, r, sub, hb, hq, htree, hr, hsub, hdepth, hmain, _⟩ := exists_deepGrouping
  obtain ⟨_, hdepth', hreach, _⟩ := (joined_subqueries_reach_iff hq htree).1 r hr sub hsub
  cases hdepth.symm.trans hdepth'
  exact ⟨env, b, q, tree, r, sub, hb, hq, htree, hr, hsub, hdepth, hmain,
    hreach 7 (hmain ▸ mem_singleton_self 7)⟩

/-- The inner subquery groups by a column of the outermost block, two levels out. -/
theorem deepGrouping_reaches_too_far :
    ∃ env b q tree r sub, (bind .initial deepGrouping []).result = .ok b ∧ b.statement = .select q ∧
      (lower env b).result = .ok tree ∧ b.exprs.HasBlock q r ∧ sub ∈ b.exprs.joined r ∧
      sub.depth = some 2 ∧ ∃ x ∈ sub.blockExprs, ¬b.exprs.ReachesBack 2 x := by
  obtain ⟨env, b, q, tree, r, sub, hb, hq, htree, hr, hsub, hdepth, _, hside, hcolumn, hnode⟩ :=
    exists_deepGrouping
  refine ⟨env, b, q, tree, r, sub, hb, hq, htree, hr, hsub, hdepth, 8, ?_, fun hreach => ?_⟩
  · exact mem_append_right _ (hside ▸ mem_singleton_self 8)
  · exact absurd (hreach 8 (.here 8) hcolumn 0 hnode) (by decide)

end SqlAnalysis
