import Mathlib.Data.Fintype.Card
import SqlAnalysis.Plan.Predicate
import SqlAnalysis.Proofs.Expr.Store

/-!
# Nesting of expressions

Expressions refer to each other by number, so a store may hold circles.  The functions that walk
through an expression stop at a fixed number of levels.

* **`Arena.Grounded.nestsIn_bound`**: an expression without circles nests at most as deep as the walks
  go, since no node occurs twice on a way down.
* **`Arena.look_ok`**: such expressions can be looked at.
-/

namespace SqlAnalysis

variable {n : Nat}

namespace Arena

variable {a a' : Arena} {id c y z : ExprId}

/-! ### Occurrence -/

/-- The expression `y` occurs in `id`; what subqueries mention does not. -/
inductive Contains (a : Arena) : ExprId → ExprId → Prop where
  | here (id : ExprId) : Contains a id id
  | child {id c y : ExprId} : c ∈ (a.expr id).children → Contains a c y → Contains a id y

/-- A subquery occurs in an expression. -/
def HasSubquery (a : Arena) (id : ExprId) : Prop :=
  ∃ y, a.Contains id y ∧ (a.expr y).isSubquery = true

theorem Contains.trans (h : a.Contains id y) (h' : a.Contains y z) : a.Contains id z := by
  induction h with
  | here => exact h'
  | child hc _ ih => exact .child hc (ih h')

theorem Contains.congr (h : a.Contains id y)
    (hkind : ∀ z, a.Contains id z → (a'.expr z).children = (a.expr z).children) :
    a'.Contains id y := by
  induction h with
  | here => exact .here _
  | child hc _ ih =>
    refine .child ?_ (ih fun z hz => hkind z (.child hc hz))
    rw [hkind _ (.here _)]
    exact hc

theorem contains_iff_of_expr (h : ∀ z, a'.expr z = a.expr z) :
    a'.Contains id y ↔ a.Contains id y :=
  ⟨fun hy => hy.congr fun z _ => by rw [h], fun hy => hy.congr fun z _ => by rw [h]⟩

theorem hasSubquery_iff_of_expr (h : ∀ z, a'.expr z = a.expr z) :
    a'.HasSubquery id ↔ a.HasSubquery id := by
  simp only [HasSubquery, contains_iff_of_expr h, h]

theorem hasSubquery_iff :
    a.HasSubquery id ↔
      (a.expr id).isSubquery = true ∨ ∃ c ∈ (a.expr id).children, a.HasSubquery c := by
  constructor
  · rintro ⟨y, hy, hs⟩
    cases hy with
    | here => exact Or.inl hs
    | child hc hy => exact Or.inr ⟨_, hc, y, hy, hs⟩
  · rintro (hs | ⟨c, hc, y, hy, hs⟩)
    · exact ⟨id, .here _, hs⟩
    · exact ⟨y, .child hc hy, hs⟩

theorem not_hasSubquery_of_contains (h : ¬a.HasSubquery id) (hy : a.Contains id y) :
    ¬a.HasSubquery y :=
  fun ⟨z, hz, hs⟩ => h ⟨z, hy.trans hz, hs⟩

/-! ### Levels -/

def NestsIn (a : Arena) : Nat → ExprId → Prop
  | 0, _ => False
  | n + 1, id => ∀ c ∈ (a.expr id).children, a.NestsIn n c

theorem NestsIn.succ {n : Nat} (h : a.NestsIn n id) : a.NestsIn (n + 1) id := by
  induction n generalizing id with
  | zero => exact h.elim
  | succ n ih => exact fun c hc => ih (h c hc)

theorem NestsIn.mono {m : Nat} (h : a.NestsIn n id) (hnm : n ≤ m) : a.NestsIn m id := by
  induction hnm with
  | refl => exact h
  | step _ ih => exact ih.succ

theorem NestsIn.congr (h : a.NestsIn n id) (hkind : ∀ z, a'.expr z = a.expr z) :
    a'.NestsIn n id := by
  induction n generalizing id with
  | zero => exact h
  | succ n ih =>
    intro c hc
    rw [hkind] at hc
    exact ih (h c hc)

/-- All parts of an expression are in the store, and it does not run in a circle. -/
inductive Grounded (a : Arena) : ExprId → Prop where
  | intro {id : ExprId} :
    id < a.size → (∀ c ∈ (a.expr id).children, Grounded a c) → Grounded a id

theorem Grounded.lt_size (h : a.Grounded id) : id < a.size := by
  cases h with
  | intro h _ => exact h

theorem Grounded.of_child (h : a.Grounded id) (hc : c ∈ (a.expr id).children) : a.Grounded c := by
  cases h with
  | intro _ h => exact h c hc

theorem Grounded.of_contains (h : a.Grounded id) (hy : a.Contains id y) : a.Grounded y := by
  induction hy with
  | here => exact h
  | child hc _ ih => exact ih (h.of_child hc)

theorem Grounded.exists_nestsIn (h : a.Grounded id) : ∃ n, a.NestsIn n id := by
  induction h with
  | @intro _ _ _ ih =>
    have hall : ∀ cs : List ExprId, (∀ c ∈ cs, ∃ n, a.NestsIn n c) →
        ∃ n, ∀ c ∈ cs, a.NestsIn n c := by
      intro cs hcs
      induction cs with
      | nil => exact ⟨0, by simp⟩
      | cons c _ ihcs =>
        obtain ⟨n, hn⟩ := hcs c (by simp)
        obtain ⟨m, hm⟩ := ihcs fun d hd => hcs d (by simp [hd])
        refine ⟨max n m, fun d hd => ?_⟩
        rcases List.mem_cons.mp hd with rfl | hd
        · exact hn.mono (Nat.le_max_left _ _)
        · exact (hm d hd).mono (Nat.le_max_right _ _)
    obtain ⟨n, hn⟩ := hall _ ih
    exact ⟨n + 1, hn⟩

theorem exists_exact_level (h : a.NestsIn (n + 1) id) (h' : ¬a.NestsIn n id) {k : Nat} (hk : k ≤ n) :
    ∃ y, a.NestsIn (k + 1) y ∧ ¬a.NestsIn k y := by
  induction n generalizing id with
  | zero =>
    obtain rfl : k = 0 := Nat.le_zero.mp hk
    exact ⟨id, h, h'⟩
  | succ n ih =>
    rcases Nat.lt_or_eq_of_le hk with hk | rfl
    · have hchild : ∃ c ∈ (a.expr id).children, ¬a.NestsIn n c := by
        simpa only [NestsIn, not_forall, exists_prop] using h'
      obtain ⟨c, hc, hcn⟩ := hchild
      exact ih (h c hc) hcn (Nat.le_of_lt_succ hk)
    · exact ⟨id, h, h'⟩

theorem level_le_bound (h : a.NestsIn (n + 1) id) (h' : ¬a.NestsIn n id) : n ≤ a.size := by
  have hlevel : ∀ k : Fin n, ∃ y : Fin a.size, a.NestsIn (k + 2) y ∧ ¬a.NestsIn (k + 1) y := by
    intro k
    obtain ⟨y, hy, hy'⟩ := exists_exact_level h h' k.isLt
    have hlt : y < a.size := by
      refine Nat.lt_of_not_le fun hle => hy' fun c hc => ?_
      rw [expr_of_size_le hle] at hc
      cases hc
    exact ⟨⟨y, hlt⟩, hy, hy'⟩
  choose node hnode hnode' using hlevel
  have hinj : Function.Injective node := by
    intro k l hkl
    rcases Nat.lt_trichotomy k l with hlt | heq | hlt
    · exact absurd ((hnode k).mono (by omega)) (hkl ▸ hnode' l)
    · exact Fin.ext heq
    · exact absurd ((hnode l).mono (by omega)) (hkl ▸ hnode' k)
  simpa using Fintype.card_le_of_injective node hinj

theorem Grounded.nestsIn_bound (h : a.Grounded id) : a.NestsIn a.bound id := by
  obtain ⟨n, hn⟩ := h.exists_nestsIn
  induction n with
  | zero => exact hn.elim
  | succ n ih =>
    by_cases hless : a.NestsIn n id
    · exact ih hless
    · exact hn.mono (Nat.succ_le_succ (level_le_bound hn hless))

/-! ### Walks -/

theorem forM_ok {f : ExprId → Except Fault Unit} {ids : List ExprId} (h : ∀ id ∈ ids, f id = .ok ()) :
    ids.forM f = .ok () := by
  induction ids with
  | nil => rfl
  | cons id ids ih =>
    obtain ⟨hid, hids⟩ := List.forall_mem_cons.mp h
    show (f id >>= fun _ => ids.forM f) = .ok ()
    rw [hid]
    exact ih hids

theorem lookFrom_ok (h : a.NestsIn n id) (hid : a.Grounded id) : a.lookFrom n id = .ok () := by
  induction n generalizing id with
  | zero => exact h.elim
  | succ n ih =>
    rw [lookFrom, node?_of_lt hid.lt_size]
    exact forM_ok fun c hc => ih (h c hc) (hid.of_child hc)

theorem look_ok {ids : List ExprId} (h : ∀ id ∈ ids, a.Grounded id) : a.look ids = .ok () :=
  forM_ok fun id hid => lookFrom_ok (h id hid).nestsIn_bound (h id hid)

theorem contains_of_mem_columnsFrom (h : y ∈ a.columnsFrom n id) :
    a.Contains id y ∧ (a.expr y).column?.isSome = true := by
  induction n generalizing id with
  | zero => cases h
  | succ n ih =>
    rw [columnsFrom] at h
    split at h
    · rename_i ref he
      obtain rfl := List.mem_singleton.mp h
      exact ⟨.here _, by rw [he]; rfl⟩
    · obtain ⟨c, hc, hy⟩ := List.mem_flatMap.mp h
      obtain ⟨hcy, hcol⟩ := ih hy
      exact ⟨.child hc hcy, hcol⟩

theorem conjunctsFrom_and {operands : List ExprId} (h : a.expr id = .connect .and operands) (n : Nat) :
    a.conjunctsFrom (n + 1) id = operands.flatMap (a.conjunctsFrom n) := by
  rw [conjunctsFrom, h]

theorem conjunctsFrom_of_ne (h : ∀ operands, a.expr id ≠ .connect .and operands) (n : Nat) :
    a.conjunctsFrom (n + 1) id = [id] := by
  rw [conjunctsFrom]
  split
  · rename_i operands he
    exact (h operands he).elim
  · rfl

theorem conjunctsFrom_congr
    (h : ∀ x operands, a'.expr x = .connect .and operands ↔ a.expr x = .connect .and operands)
    (n : Nat) (id : ExprId) : a'.conjunctsFrom n id = a.conjunctsFrom n id := by
  induction n generalizing id with
  | zero => rfl
  | succ n ih =>
    by_cases hand : ∃ operands, a.expr id = .connect .and operands
    · obtain ⟨operands, hand⟩ := hand
      rw [conjunctsFrom_and ((h id operands).mpr hand), conjunctsFrom_and hand]
      exact congrArg (List.flatMap · operands) (funext ih)
    · rw [conjunctsFrom_of_ne fun operands hb => hand ⟨operands, hb⟩,
        conjunctsFrom_of_ne fun operands ha => hand ⟨operands, (h _ _).mp ha⟩]

theorem conjuncts_congr (hsize : a'.size = a.size)
    (h : ∀ x operands, a'.expr x = .connect .and operands ↔ a.expr x = .connect .and operands)
    (id : ExprId) : a'.conjuncts id = a.conjuncts id := by
  rw [conjuncts, conjuncts, bound, bound, hsize, conjunctsFrom_congr h]

theorem contains_of_mem_conjunctsFrom (h : c ∈ a.conjunctsFrom n id) : a.Contains id c := by
  induction n generalizing id with
  | zero => cases h
  | succ n ih =>
    rw [conjunctsFrom] at h
    split at h
    · rename_i operands he
      obtain ⟨d, hd, hc⟩ := List.mem_flatMap.mp h
      exact .child (by rw [he]; exact hd) (ih hc)
    · obtain rfl := List.mem_singleton.mp h
      exact .here _

theorem contains_of_mem_conjuncts (h : c ∈ a.conjuncts id) : a.Contains id c :=
  contains_of_mem_conjunctsFrom h

end Arena

end SqlAnalysis
