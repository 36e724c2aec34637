import SqlAnalysis.Proofs.Expr.Nesting

/-!
# Derived attributes

What the derivation of depth, subquery flag and name leaves of a store.

* **`Arena.differ_deriveDepth`**, **`Arena.differ_deriveName`**: nothing but the attribute changes,
  and the depth of a column not even that.
* **`Arena.deriveSubqueryFlag_spec`**: afterwards the flags in an expression that does not run in a
  circle say exactly where subqueries occur.
-/

namespace SqlAnalysis

variable {id : ExprId} {l m n : ExprNode} {a : Arena}

namespace Arena

/-! ### Stores that agree node by node -/

/-- The stores have equally many nodes, and nodes of one number are related. -/
structure Differ (P : ExprNode → ExprNode → Prop) (a a' : Arena) : Prop where
  size : a'.size = a.size
  node : ∀ y, P (a.node y) (a'.node y)

section Differ

variable {P : ExprNode → ExprNode → Prop} {a' a'' : Arena}

theorem Differ.refl (hrefl : ∀ n, P n n) (a : Arena) : Differ P a a := ⟨rfl, fun _ => hrefl _⟩

theorem Differ.trans (htrans : ∀ {l m n}, P l m → P m n → P l n) (h : Differ P a a')
    (h' : Differ P a' a'') : Differ P a a'' :=
  ⟨h'.size.trans h.size, fun y => htrans (h.node y) (h'.node y)⟩

theorem Differ.of_update (hrefl : ∀ n, P n n) {f : ExprNode → ExprNode}
    (h : P (a.node id) (f (a.node id))) : Differ P a (a.update id f) := by
  refine ⟨size_update _ _, fun y => ?_⟩
  rw [node_update]
  split
  · rename_i hy
    rw [hy.1]
    exact h
  · exact hrefl _

theorem differ_mapM {α β : Type} (hrefl : ∀ n, P n n) (htrans : ∀ {l m n}, P l m → P m n → P l n)
    {f : α → StateM Arena β} (hf : ∀ x a, Differ P a ((f x).run a).2) (xs : List α) (a : Arena) :
    Differ P a ((xs.mapM f).run a).2 := by
  induction xs generalizing a with
  | nil => exact .refl hrefl a
  | cons x _ ih =>
    rw [List.mapM_cons]
    exact (hf x a).trans htrans (ih _)

end Differ

/-! ### Depth and name -/

/-- At most the depth differs, and not that of a column. -/
def DepthDiffers (n n' : ExprNode) : Prop :=
  ∃ d, n' = { n with depth := d } ∧ (n.kind.column?.isSome = true → d = n.depth)

theorem DepthDiffers.refl (n : ExprNode) : DepthDiffers n n := ⟨n.depth, rfl, fun _ => rfl⟩

theorem DepthDiffers.trans (h : DepthDiffers l m) (h' : DepthDiffers m n) : DepthDiffers l n := by
  obtain ⟨_, rfl, hd⟩ := h
  obtain ⟨d', rfl, hd'⟩ := h'
  exact ⟨d', rfl, fun hc => (hd' hc).trans (hd hc)⟩

theorem differ_deriveDepthFrom (fuel : Nat) (id : ExprId) (a : Arena) :
    Differ DepthDiffers a ((deriveDepthFrom fuel id).run a).2 := by
  induction fuel generalizing id a with
  | zero => exact .refl DepthDiffers.refl a
  | succ _ ih =>
    have hwalk := differ_mapM DepthDiffers.refl DepthDiffers.trans ih (a.node id).kind.depthInputs a
    cases hd : (a.node id).depth with
    | some =>
      simp only [deriveDepthFrom, StateT.run_bind, StateT.run_get, pure_bind, hd]
      exact .refl DepthDiffers.refl a
    | none =>
      cases hk : (a.node id).kind with
      | column =>
        simp only [deriveDepthFrom, StateT.run_bind, StateT.run_get, pure_bind, hd, hk]
        exact .refl DepthDiffers.refl a
      | _ =>
        rw [hk] at hwalk
        simp only [deriveDepthFrom, StateT.run_bind, StateT.run_get, pure_bind, hd, hk]
        refine hwalk.trans DepthDiffers.trans (.of_update DepthDiffers.refl ⟨_, rfl, fun hc => ?_⟩)
        obtain ⟨_, hn, _⟩ := hwalk.node id
        rw [hn] at hc
        simp only [hk] at hc
        cases hc

theorem differ_deriveDepth (a : Arena) (id : ExprId) : Differ DepthDiffers a (a.deriveDepth id).2 :=
  differ_deriveDepthFrom _ _ _

def NameDiffers (n n' : ExprNode) : Prop := ∃ name, n' = { n with name := name }

theorem NameDiffers.refl (n : ExprNode) : NameDiffers n n := ⟨n.name, rfl⟩

theorem NameDiffers.trans (h : NameDiffers l m) (h' : NameDiffers m n) : NameDiffers l n := by
  obtain ⟨_, rfl⟩ := h
  obtain ⟨name, rfl⟩ := h'
  exact ⟨name, rfl⟩

theorem differ_deriveNameFrom (fuel : Nat) (id : ExprId) (a : Arena) :
    Differ NameDiffers a ((deriveNameFrom fuel id).run a).2 := by
  induction fuel generalizing id a with
  | zero => exact .refl NameDiffers.refl a
  | succ _ ih =>
    have hupdate (a : Arena) (name : String) :
        Differ NameDiffers a (a.update id ({ · with name := name })) :=
      .of_update NameDiffers.refl ⟨name, rfl⟩
    cases hknown : (a.node id).knownAs with
    | some =>
      simp only [deriveNameFrom, StateT.run_bind, StateT.run_get, pure_bind, hknown]
      exact hupdate _ _
    | none =>
      cases hk : (a.node id).kind with
      | cast t operand =>
        simp only [deriveNameFrom, StateT.run_bind, StateT.run_get, pure_bind, hknown, hk]
        exact (ih operand a).trans NameDiffers.trans (hupdate _ _)
      | subquery q =>
        simp only [deriveNameFrom, StateT.run_bind, StateT.run_get, pure_bind, hknown, hk]
        cases hitems : q.items with
        | nil => exact hupdate _ _
        | cons first => exact (ih first a).trans NameDiffers.trans (hupdate _ _)
      | _ =>
        simp only [deriveNameFrom, StateT.run_bind, StateT.run_get, pure_bind, hknown, hk]
        exact hupdate _ _

theorem differ_deriveName (a : Arena) (id : ExprId) : Differ NameDiffers a (a.deriveName id).2 :=
  differ_deriveNameFrom _ _ _

@[simp] theorem expr_deriveName (a : Arena) (id z : ExprId) : (a.deriveName id).2.expr z = a.expr z := by
  obtain ⟨_, hz⟩ := (differ_deriveName a id).node z
  rw [expr, hz, expr]

@[simp] theorem typeOf_deriveName (a : Arena) (id z : ExprId) :
    (a.deriveName id).2.typeOf z = a.typeOf z := by
  obtain ⟨_, hz⟩ := (differ_deriveName a id).node z
  rw [typeOf, hz, typeOf]

@[simp] theorem knownAs_deriveName (a : Arena) (id z : ExprId) :
    ((a.deriveName id).2.node z).knownAs = (a.node z).knownAs := by
  obtain ⟨_, hz⟩ := (differ_deriveName a id).node z
  rw [hz]

/-! ### Subquery flag -/

def FlagDiffers (n n' : ExprNode) : Prop := ∃ flag, n' = { n with hasSubquery := flag }

theorem FlagDiffers.refl (n : ExprNode) : FlagDiffers n n := ⟨n.hasSubquery, rfl⟩

theorem FlagDiffers.trans (h : FlagDiffers l m) (h' : FlagDiffers m n) : FlagDiffers l n := by
  obtain ⟨_, rfl⟩ := h
  obtain ⟨flag, rfl⟩ := h'
  exact ⟨flag, rfl⟩

theorem differ_deriveSubqueryFlagFrom (fuel : Nat) (id : ExprId) (a : Arena) :
    Differ FlagDiffers a ((deriveSubqueryFlagFrom fuel id).run a).2 := by
  induction fuel generalizing id a with
  | zero => exact .refl FlagDiffers.refl a
  | succ _ ih =>
    have hwalk := differ_mapM FlagDiffers.refl FlagDiffers.trans ih (a.expr id).children a
    exact hwalk.trans FlagDiffers.trans (.of_update FlagDiffers.refl ⟨_, rfl⟩)

theorem differ_deriveSubqueryFlag (a : Arena) (id : ExprId) :
    Differ FlagDiffers a (a.deriveSubqueryFlag id).2 :=
  differ_deriveSubqueryFlagFrom _ _ _

/-- At most flags differ: those of the nodes in `S` say whether a subquery occurs, the others are as
before. -/
structure Flags (S : ExprId → Prop) (a a' : Arena) : Prop where
  size : a'.size = a.size
  node : ∀ y, ∃ flag, a'.node y = { a.node y with hasSubquery := flag } ∧
    (S y → (flag = true ↔ a.HasSubquery y)) ∧ (¬S y → flag = (a.node y).hasSubquery)

namespace Flags

variable {S T : ExprId → Prop} {a' a'' : Arena}

theorem expr (h : Flags S a a') (y : ExprId) : a'.expr y = a.expr y := by
  obtain ⟨_, hy, _⟩ := h.node y
  rw [Arena.expr, hy, Arena.expr]

theorem none (a : Arena) : Flags (fun _ => False) a a :=
  ⟨rfl, fun y => ⟨(a.node y).hasSubquery, rfl, False.elim, fun _ => rfl⟩⟩

theorem congr (h : Flags S a a') (hST : ∀ y, T y ↔ S y) : Flags T a a' := by
  refine ⟨h.size, fun y => ?_⟩
  rw [hST]
  exact h.node y

theorem trans (h : Flags S a a') (h' : Flags T a' a'') : Flags (fun y => S y ∨ T y) a a'' := by
  refine ⟨h'.size.trans h.size, fun y => ?_⟩
  obtain ⟨_, hy, hin, hout⟩ := h.node y
  obtain ⟨flag', hy', hin', hout'⟩ := h'.node y
  rw [hasSubquery_iff_of_expr h.expr] at hin'
  refine ⟨flag', by rw [hy', hy], fun hyST => ?_, fun hyST => ?_⟩
  · by_cases hT : T y
    · exact hin' hT
    · rw [hout' hT, hy]
      exact hin (hyST.resolve_right hT)
  · rw [hout' fun hT => hyST (.inr hT), hy]
    exact hout fun hS => hyST (.inl hS)

theorem of_update {flag : Bool} (h : flag = true ↔ a.HasSubquery id) :
    Flags (· = id) a (a.update id ({ · with hasSubquery := flag })) := by
  refine ⟨size_update _ _, fun y => ?_⟩
  rw [node_update]
  by_cases hy : y = id
  · subst hy
    by_cases hlt : y < a.size
    · rw [if_pos ⟨rfl, hlt⟩]
      exact ⟨flag, rfl, fun _ => h, fun hne => (hne rfl).elim⟩
    · -- a number without a node stands for the empty conjunction, which no update reaches
      rw [if_neg fun hy => hlt hy.2]
      refine ⟨(a.node y).hasSubquery, rfl, fun _ => ?_, fun _ => rfl⟩
      rw [hasSubquery_iff, expr_of_size_le (Nat.le_of_not_lt hlt),
        node_of_size_le (Nat.le_of_not_lt hlt)]
      simp [default, ExprNode.ofExpr, Expr.isSubquery, Expr.children]
  · rw [if_neg fun h => hy h.1]
    exact ⟨(a.node y).hasSubquery, rfl, fun h => (hy h).elim, fun _ => rfl⟩

end Flags

theorem flags_mapM {f : ExprId → StateM Arena Bool} (cs : List ExprId)
    (hf : ∀ c ∈ cs, ∀ a', (∀ y, a'.expr y = a.expr y) →
      (((f c).run a').1 = true ↔ a.HasSubquery c) ∧ Flags (a.Contains c) a' ((f c).run a').2)
    (a' : Arena) (ha : ∀ y, a'.expr y = a.expr y) :
    (((cs.mapM f).run a').1.any (·) = true ↔ ∃ c ∈ cs, a.HasSubquery c) ∧
      Flags (fun y => ∃ c ∈ cs, a.Contains c y) a' ((cs.mapM f).run a').2 := by
  induction cs generalizing a' with
  | nil =>
    refine ⟨?_, (Flags.none a').congr fun y => by simp⟩
    show ([] : List Bool).any (·) = true ↔ _
    simp
  | cons c cs ih =>
    obtain ⟨hflag, hfirst⟩ := hf c (by simp) a' ha
    obtain ⟨hany, hrest⟩ := ih (fun d hd => hf d (by simp [hd])) ((f c).run a').2
      fun y => (hfirst.expr y).trans (ha y)
    rw [List.mapM_cons]
    refine ⟨?_, (hfirst.trans hrest).congr fun y => by simp⟩
    show (((f c).run a').1 :: ((cs.mapM f).run ((f c).run a').2).1).any (·) = true ↔ _
    rw [List.any_cons, Bool.or_eq_true, hflag, hany, List.exists_mem_cons_iff]

theorem deriveSubqueryFlagFrom_spec {n : Nat} (hn : a.NestsIn n id) :
    (((deriveSubqueryFlagFrom n id).run a).1 = true ↔ a.HasSubquery id) ∧
      Flags (a.Contains id) a ((deriveSubqueryFlagFrom n id).run a).2 := by
  induction n generalizing id a with
  | zero => exact hn.elim
  | succ n ih =>
    obtain ⟨hany, hwalk⟩ := flags_mapM (f := deriveSubqueryFlagFrom n) (a.expr id).children
      (a := a) (fun c hc a' ha => by
        have hc' := ih ((hn c hc).congr ha)
        simp only [hasSubquery_iff_of_expr ha] at hc'
        exact ⟨hc'.1, hc'.2.congr fun y => (contains_iff_of_expr ha).symm⟩) a fun _ => rfl
    have hflag : ((a.expr id).isSubquery ||
        (((a.expr id).children.mapM (deriveSubqueryFlagFrom n)).run a).1.any (·)) = true ↔
          a.HasSubquery id := by
      rw [Bool.or_eq_true, hany, ← hasSubquery_iff]
    have hset := Flags.of_update ((hflag.trans (hasSubquery_iff_of_expr hwalk.expr).symm))
    refine ⟨hflag, (hwalk.trans hset).congr fun y => ?_⟩
    constructor
    · intro hy
      cases hy with
      | here => exact .inr rfl
      | child hc hy => exact .inl ⟨_, hc, hy⟩
    · rintro (⟨c, hc, hy⟩ | rfl)
      · exact .child hc hy
      · exact .here _

theorem deriveSubqueryFlag_spec (h : a.Grounded id) :
    Flags (a.Contains id) a (a.deriveSubqueryFlag id).2 :=
  (deriveSubqueryFlagFrom_spec h.nestsIn_bound).2

end Arena

end SqlAnalysis
