import Mathlib.Order.Nat
import SqlAnalysis.Proofs.Expr.Store
import SqlAnalysis.Proofs.Run

/-!
# Stores that grow

Expressions are added to a store by copying stored ones, operands first.

* **`Expr.traverse_eq`**: a visit of an expression is a visit of its operands in order.
-/

namespace SqlAnalysis

open List

variable {n : ExprNode} {α : Type} {ids : List ExprId} {a a' other : Arena} {fuel : Nat}
  {root id : ExprId}

/-! ### Stores -/

/-- Old nodes stay as they are; each new one refers to new ones before it and is not a subquery. -/
structure Arena.Appends (a a' : Arena) : Prop where
  size_le : a.size ≤ a'.size
  node : ∀ {y}, y < a.size → a'.node y = a.node y
  plain : ∀ {y}, a.size ≤ y → (a'.expr y).isSubquery = false
  operand : ∀ {y c}, a.size ≤ y → c ∈ (a'.expr y).children → a.size ≤ c ∧ c < y

namespace Arena.Appends

variable {a'' : Arena}

theorem refl (a : Arena) : a.Appends a where
  size_le := Nat.le_refl _
  node _ := rfl
  plain hy := by
    rw [expr_of_size_le hy]
    rfl
  operand hy hc := by
    rw [expr_of_size_le hy] at hc
    cases hc

theorem expr (h : a.Appends a') {y : ExprId} (hy : y < a.size) : a'.expr y = a.expr y := by
  rw [Arena.expr, h.node hy, Arena.expr]

theorem trans (h : a.Appends a') (h' : a'.Appends a'') : a.Appends a'' where
  size_le := h.size_le.trans h'.size_le
  node hy := (h'.node (hy.trans_le h.size_le)).trans (h.node hy)
  plain {y} hy := by
    rcases Nat.lt_or_ge y a'.size with hlt | hge
    · rw [h'.expr hlt]
      exact h.plain hy
    · exact h'.plain hge
  operand {y c} hy hc := by
    rcases Nat.lt_or_ge y a'.size with hlt | hge
    · rw [h'.expr hlt] at hc
      exact h.operand hy hc
    · obtain ⟨hle, hlt⟩ := h'.operand hge hc
      exact ⟨h.size_le.trans hle, hlt⟩

theorem push (h : a.Appends a') (hplain : n.kind.isSubquery = false)
    (hoperand : ∀ c ∈ n.kind.children, a.size ≤ c ∧ c < a'.size) : a.Appends (a'.push n).2 := by
  have hexpr {y : ExprId} : (a'.push n).2.expr y = a'.expr y ∨
      y = a'.size ∧ (a'.push n).2.expr y = n.kind := by
    rcases Nat.lt_trichotomy y a'.size with hlt | rfl | hgt
    · exact .inl (by rw [Arena.expr, node_push_of_lt n hlt, Arena.expr])
    · exact .inr ⟨rfl, by rw [Arena.expr, node_push_size]⟩
    · refine .inl ?_
      rw [expr_of_size_le (hgt.le), expr_of_size_le]
      rw [size_push]
      exact hgt
  refine ⟨?_, fun hy => ?_, fun {y} hy => ?_, fun {y c} hy hc => ?_⟩
  · rw [size_push]
    exact Nat.le_succ_of_le h.size_le
  · rw [node_push_of_lt n (hy.trans_le h.size_le), h.node hy]
  · rcases @hexpr y with he | ⟨_, he⟩
    · rw [he]
      exact h.plain hy
    · rw [he]
      exact hplain
  · rcases @hexpr y with he | ⟨rfl, he⟩
    · rw [he] at hc
      exact h.operand hy hc
    · rw [he] at hc
      exact hoperand c hc

theorem of_push (hplain : n.kind.isSubquery = false) (hleaf : n.kind.children = []) :
    a.Appends (a.push n).2 :=
  (refl a).push hplain fun c hc => by
    rw [hleaf] at hc
    cases hc

theorem of_pushAll {ns : List ExprNode}
    (h : ∀ n ∈ ns, n.kind.isSubquery = false ∧ n.kind.children = []) : a.Appends (a.pushAll ns) := by
  induction ns generalizing a with
  | nil =>
    rw [show a.pushAll [] = a by simp [pushAll]]
    exact .refl a
  | cons n _ ih =>
    obtain ⟨hplain, hleaf⟩ := h n mem_cons_self
    rw [pushAll_cons]
    exact (of_push hplain hleaf).trans (ih fun m hm => h m (mem_cons_of_mem _ hm))

end Arena.Appends

/-! ### Visits -/

def pairUp {α : Type} : List α → List (α × α)
  | x :: y :: rest => (x, y) :: pairUp rest
  | _ => []

def Expr.withOperands (e : Expr) (ids : List ExprId) : Expr :=
  match e, ids with
  | .compare op _ _, [left, right] => .compare op left right
  | .connect op _, operands => .connect op operands
  | .operate op _, operands => .operate op operands
  | .call name _ procId, args => .call name args procId
  | .aggregate function _ distinct, ids => .aggregate function ids.head? distinct
  | .cast target _, [operand] => .cast target operand
  | .case _ none, ids => .case (pairUp ids) none
  | .case _ (some _), ids => .case (pairUp ids.dropLast) ids.getLast?
  | e, _ => e

theorem flatMap_pairUp (n : Nat) {xs : List α} (h : xs.length = 2 * n) :
    (pairUp xs).flatMap (fun x => [x.1, x.2]) = xs := by
  induction n generalizing xs with
  | zero =>
    rw [eq_nil_of_length_eq_zero h]
    rfl
  | succ n ih =>
    match xs, h with
    | x :: y :: rest, h =>
      rw [pairUp, flatMap_cons, ih (by simp only [length_cons] at h; omega)]
      rfl

theorem length_flatMap_pair (xs : List (α × α)) :
    (xs.flatMap fun x => [x.1, x.2]).length = 2 * xs.length := by
  induction xs with
  | nil => rfl
  | cons x xs ih =>
    rw [flatMap_cons, length_append, ih, length_cons]
    simp only [length_cons, length_nil]
    omega

theorem Expr.isSubquery_withOperands (e : Expr) (ids : List ExprId) :
    (e.withOperands ids).isSubquery = e.isSubquery := by
  unfold withOperands
  split <;> rfl

theorem Expr.children_withOperands {e : Expr} (h : ids.length = e.children.length) :
    (e.withOperands ids).children = ids := by
  cases e with
  | compare =>
    match ids, h with
    | [_, _], _ => rfl
  | connect | operate | call => rfl
  | aggregate _ arg =>
    cases arg with
    | none =>
      rw [eq_nil_of_length_eq_zero h]
      rfl
    | some =>
      match ids, h with
      | [_], _ => rfl
  | cast =>
    match ids, h with
    | [_], _ => rfl
  | case branches otherwise =>
    have hlength : ids.length = 2 * branches.length + otherwise.toList.length := by
      rw [h, children, length_append]
      exact congrArg (· + _) (length_flatMap_pair branches)
    cases otherwise with
    | none =>
      show (pairUp ids).flatMap (fun x => [x.1, x.2]) ++ [] = ids
      rw [flatMap_pairUp _ hlength, append_nil]
    | some =>
      have hne : ids ≠ [] := by
        rintro rfl
        cases hlength
      have hpairs : ids.dropLast.length = 2 * branches.length := by
        rw [length_dropLast, hlength]
        rfl
      show (pairUp ids.dropLast).flatMap (fun x => [x.1, x.2]) ++ ids.getLast?.toList = ids
      rw [flatMap_pairUp _ hpairs, getLast?_eq_some_getLast hne]
      exact dropLast_concat_getLast hne
  | _ =>
    rw [eq_nil_of_length_eq_zero h]
    rfl

section

variable {m : Type → Type} [Monad m] [LawfulMonad m] (f : ExprId → m ExprId)

theorem mapM_pairs (branches : List (ExprId × ExprId)) :
    (branches.mapM fun x => do
      let c ← f x.1
      let t ← f x.2
      pure (c, t)) =
      (do pure (pairUp (← (branches.flatMap fun x => [x.1, x.2]).mapM f))) := by
  induction branches with
  | nil => simp [pairUp]
  | cons _ _ ih =>
    rw [mapM_cons, ih]
    simp [pairUp]

theorem Expr.traverse_eq (e : Expr) :
    e.traverse f = (do pure (e.withOperands (← e.children.mapM f))) := by
  cases e with
  | case branches otherwise =>
    have hpairs := mapM_pairs f branches
    cases otherwise with
    | none =>
      simp only [traverse, children, Option.toList_none, append_nil, withOperands]
      rw [hpairs]
      simp
    | some =>
      simp only [traverse, children, Option.toList_some, withOperands]
      rw [hpairs]
      simp
  | aggregate _ arg =>
    cases arg with
    | none | some => simp [traverse, children, withOperands]
  | _ => simp [traverse, children, withOperands]

end

/-! ### Copies -/

theorem Arena.importFrom_succ (h : importFrom other (fuel + 1) root a = .ok id a') :
    ∃ n ids a1, other.node? root = some n ∧ n.kind.isSubquery = false ∧
      n.kind.children.mapM (importFrom other fuel) a = .ok ids a1 ∧ id = a1.size ∧
      a' = (a1.push { n with kind := n.kind.withOperands ids }).2 := by
  rw [importFrom] at h
  cases hn : other.node? root with
  | none =>
    rw [hn] at h
    simp at h
  | some n =>
    simp only [hn, run_ite] at h
    rcases h with ⟨_, h⟩ | ⟨hplain, h⟩
    · simp at h
    · simp only [Expr.traverse_eq, run_bind, run_pure, run_modifyGet] at h
      obtain ⟨_, _, ⟨ids, _, hids, rfl, rfl⟩, rfl, rfl⟩ := h
      exact ⟨n, ids, _, rfl, Bool.eq_false_iff.mpr hplain, hids, rfl, rfl⟩

/-- Expressions of another store are copied one after the other, each behind its operands and to no more
than some depth. -/
inductive Arena.Imports (other : Arena) : Nat → List ExprId → Arena → List ExprId → Arena → Prop where
  | nil {depth : Nat} {b : Arena} : Imports other depth [] b [] b
  | cons {depth : Nat} {x : ExprId} {node : ExprNode} {xs ys ys' : List ExprId} {b b1 b' : Arena} :
    other.node? x = some node → node.kind.isSubquery = false →
    Imports other depth node.kind.children b ys b1 →
    Imports other (depth + 1) xs (b1.push { node with kind := node.kind.withOperands ys }).2 ys' b' →
    Imports other (depth + 1) (x :: xs) b (b1.size :: ys') b'

theorem Arena.mapM_imports {roots : List ExprId}
    (h : roots.mapM (importFrom other fuel) a = .ok ids a') : other.Imports fuel roots a ids a' := by
  induction fuel generalizing roots a ids a' with
  | zero =>
    cases roots with
    | nil =>
      obtain ⟨rfl, rfl⟩ := run_mapM_nil.mp h
      exact .nil
    | cons =>
      obtain ⟨_, _, _, hfirst, _⟩ := run_mapM_cons.mp h
      cases hfirst
  | succ fuel ih =>
    induction roots generalizing a ids with
    | nil =>
      obtain ⟨rfl, rfl⟩ := run_mapM_nil.mp h
      exact .nil
    | cons _ _ ihroots =>
      obtain ⟨_, _, _, hfirst, hrest, rfl⟩ := run_mapM_cons.mp h
      obtain ⟨_, _, _, hn, hplain, hids, rfl, rfl⟩ := importFrom_succ hfirst
      exact .cons hn hplain (ih hids) (ihroots hrest)

theorem Arena.importFrom_imports (h : importFrom other fuel root a = .ok id a') :
    other.Imports fuel [root] a [id] a' :=
  mapM_imports (run_mapM_cons.mpr ⟨id, a', [], h, run_mapM_nil.mpr ⟨rfl, rfl⟩, rfl⟩)

theorem Arena.Imports.appends {roots : List ExprId} (h : other.Imports fuel roots a ids a') :
    a.Appends a' ∧ ids.length = roots.length ∧ ∀ id ∈ ids, a.size ≤ id ∧ id < a'.size := by
  induction h with
  | nil => exact ⟨.refl _, rfl, forall_mem_nil _⟩
  | @cons _ _ node _ ys _ _ b1 b' _ hplain _ _ ih ih' =>
    obtain ⟨happends, hlength, hrange⟩ := ih
    obtain ⟨happends', hlength', hrange'⟩ := ih'
    have hpush := happends.push (n := { node with kind := node.kind.withOperands ys })
      ((Expr.isSubquery_withOperands _ _).trans hplain)
      fun c hc => hrange c (Expr.children_withOperands hlength ▸ hc)
    have hlt : b1.size < b'.size := by
      have hle := happends'.size_le
      rwa [size_push] at hle
    refine ⟨hpush.trans happends', congrArg (· + 1) hlength',
      forall_mem_cons.mpr ⟨⟨happends.size_le, hlt⟩, fun y hy => ?_⟩⟩
    exact ⟨hpush.size_le.trans (hrange' y hy).1, (hrange' y hy).2⟩

theorem Arena.importFrom_appends (h : importFrom other fuel root a = .ok id a') :
    a.Appends a' ∧ a.size ≤ id ∧ id < a'.size := by
  obtain ⟨happends, _, hrange⟩ := (importFrom_imports h).appends
  exact ⟨happends, hrange id mem_cons_self⟩

end SqlAnalysis
