import SqlAnalysis.Proofs.Expr.Attributes
import SqlAnalysis.Proofs.Expr.Measure

/-!
# Depths that are kept

Deriving the depth of an expression keeps it on every node on the way, and a depth that is kept is not
derived again.

* **`Arena.derives_deriveDepthFrom`**: a walk keeps least depths only, and keeps them everywhere below.
* **`derived_depths_least`**: what follows for derivations in any order.
-/

namespace SqlAnalysis

open List

variable {a b b' : Arena} {x y id : ExprId} {fuel : Nat} {S T : Set Nat} {d d' : Option Nat}

/-- The least number of a set, if it has any. -/
def LeastOf (S : Set Nat) : Option Nat → Prop
  | none => S = ∅
  | some m => IsLeast S m

theorem LeastOf.unique (h : LeastOf S d) (h' : LeastOf S d') : d = d' := by
  cases d with
  | none =>
    cases d' with
    | none => rfl
    | some => exact (Set.notMem_empty _ (h ▸ h'.1)).elim
  | some =>
    cases d' with
    | none => exact (Set.notMem_empty _ (h' ▸ h.1)).elim
    | some => exact congrArg some (IsLeast.unique h h')

theorem LeastOf.cons {ds : List (Option Nat)} (h : LeastOf S d) (h' : LeastOf T (leastDepth ds)) :
    LeastOf (S ∪ T) (leastDepth (d :: ds)) := by
  cases d with
  | none =>
    rw [show S = ∅ from h, Set.empty_union]
    exact h'
  | some m =>
    have hmin : leastDepth (some m :: ds) = some ((leastDepth ds).elim m (min m)) := min?_cons
    rw [hmin]
    cases hds : leastDepth ds with
    | none =>
      rw [hds] at h'
      rw [show T = ∅ from h', Set.union_empty]
      exact h
    | some k =>
      rw [hds] at h'
      exact IsLeast.union h h'

namespace Arena

/-- What decides about the depth of an expression: the expression itself, and what decides about its
operands or, for a subquery, about its select list and its WHERE. -/
def Decides (a : Arena) : ExprId → ExprId → Prop :=
  Relation.ReflTransGen fun x y => y ∈ (a.expr x).depthInputs

/-- The depths of the columns that decide about the depth of an expression. -/
def usedDepths (a : Arena) (x : ExprId) : Set Nat :=
  {m | ∃ y, a.Decides x y ∧ (a.expr y).column?.isSome = true ∧ (a.node y).depth = some m}

/-- In the store `b`, every node that decides about the depth of `x` keeps its least depth. -/
def KeepsLeast (a b : Arena) (x : ExprId) : Prop :=
  ∀ y, a.Decides x y → LeastOf (a.usedDepths y) (b.node y).depth

/-- The store `b` is `a` with depths kept on some nodes, and on everything that decides about these. -/
structure Caches (a b : Arena) : Prop where
  differ : Differ DepthDiffers a b
  settled : ∀ {y}, (b.node y).depth.isSome = true → a.KeepsLeast b y

/-- The depths of some expressions were derived. -/
structure DerivesDepths (a b : Arena) (xs : List ExprId) (b' : Arena) : Prop extends Caches a b' where
  derived : ∀ x ∈ xs, a.KeepsLeast b' x
  kept : ∀ {y}, a.KeepsLeast b y → a.KeepsLeast b' y
  frame : ∀ y, (∀ x ∈ xs, ¬a.Decides x y) → b'.node y = b.node y

theorem refers_of_mem_depthInputs (h : y ∈ (a.expr x).depthInputs) : a.Refers x y := by
  rw [Refers]
  cases he : a.expr x with
  | subquery q =>
    rw [he] at h
    cases q with | mk =>
    simp only [Expr.depthInputs, Expr.parts, Select.exprs, mem_append] at h ⊢
    tauto
  | _ =>
    rw [he] at h
    exact h

theorem decides_leaf (h : (a.expr x).depthInputs = []) (hy : a.Decides x y) : y = x := by
  rcases Relation.ReflTransGen.cases_head_iff.mp hy with rfl | ⟨c, hc, -⟩
  · rfl
  · rw [h] at hc
    cases hc

theorem keepsLeast_column (h : (a.expr x).column?.isSome = true) (hb : (b.node x).depth = (a.node x).depth) :
    a.KeepsLeast b x := by
  have hleaf : (a.expr x).depthInputs = [] := by
    cases he : a.expr x with
    | column => rfl
    | _ =>
      rw [he] at h
      cases h
  have hused : a.usedDepths x = {m | (a.node x).depth = some m} := by
    ext m
    constructor
    · rintro ⟨z, hz, -, hm⟩
      cases decides_leaf hleaf hz
      exact hm
    · exact fun hm => ⟨x, .refl, h, hm⟩
  intro y hy
  rw [decides_leaf hleaf hy, hb, hused]
  cases (a.node x).depth with
  | none => exact Set.eq_empty_of_forall_notMem fun m hm => by cases hm
  | some m => exact ⟨rfl, fun n hn => (Option.some.inj hn).le⟩

theorem mem_usedDepths (h : (a.expr x).column? = none) {m : Nat} :
    m ∈ a.usedDepths x ↔ ∃ c ∈ (a.expr x).depthInputs, m ∈ a.usedDepths c := by
  constructor
  · rintro ⟨y, hy, hcolumn, hm⟩
    rcases Relation.ReflTransGen.cases_head_iff.mp hy with rfl | ⟨c, hc, hy⟩
    · rw [h] at hcolumn
      cases hcolumn
    · exact ⟨c, hc, y, hy, hcolumn, hm⟩
  · rintro ⟨c, hc, y, hy, hm⟩
    exact ⟨y, .head hc hy, hm⟩

theorem Caches.refl (h : ∀ y < a.size, (a.node y).depth.isSome = true → (a.expr y).column?.isSome = true) :
    a.Caches a := by
  refine ⟨.refl DepthDiffers.refl a, fun {y} hy => keepsLeast_column (h y ?_ hy) rfl⟩
  refine Nat.lt_of_not_le fun hle => ?_
  rw [node_of_size_le hle] at hy
  cases hy

theorem Caches.expr (h : a.Caches b) (y : ExprId) : b.expr y = a.expr y := by
  obtain ⟨_, hy, _⟩ := h.differ.node y
  rw [Arena.expr, hy, Arena.expr]

theorem Caches.derives (h : a.Caches b) (hx : a.KeepsLeast b x) : a.DerivesDepths b [x] b where
  toCaches := h
  derived := forall_mem_singleton.mpr hx
  kept := id
  frame _ _ := rfl

theorem derivesDepths_mapM {cs : List ExprId} (hb : a.Caches b)
    (hf : ∀ c ∈ cs, ∀ {b}, a.Caches b → a.DerivesDepths b [c] ((deriveDepthFrom fuel c).run b).2 ∧
      LeastOf (a.usedDepths c) ((deriveDepthFrom fuel c).run b).1) :
    a.DerivesDepths b cs ((cs.mapM (deriveDepthFrom fuel)).run b).2 ∧
      LeastOf {m | ∃ c ∈ cs, m ∈ a.usedDepths c}
        (leastDepth ((cs.mapM (deriveDepthFrom fuel)).run b).1) := by
  induction cs generalizing b with
  | nil =>
    refine ⟨⟨hb, forall_mem_nil _, id, fun _ _ => rfl⟩, ?_⟩
    show {m | ∃ c ∈ [], m ∈ a.usedDepths c} = ∅
    simp
  | cons c cs ih =>
    obtain ⟨hc, hcs⟩ := forall_mem_cons.mp hf
    obtain ⟨hfirst, hleast⟩ := hc hb
    obtain ⟨hrest, hleast'⟩ := ih hfirst.toCaches hcs
    rw [mapM_cons]
    refine ⟨⟨hrest.toCaches, forall_mem_cons.mpr ⟨hrest.kept (hfirst.derived c mem_cons_self), hrest.derived⟩,
      fun hy => hrest.kept (hfirst.kept hy), fun y hy => ?_⟩, ?_⟩
    · obtain ⟨hyc, hycs⟩ := forall_mem_cons.mp hy
      exact (hrest.frame y hycs).trans (hfirst.frame y (forall_mem_singleton.mpr hyc))
    · have hunion : {m | ∃ d ∈ c :: cs, m ∈ a.usedDepths d} =
          a.usedDepths c ∪ {m | ∃ d ∈ cs, m ∈ a.usedDepths d} := by
        ext m
        simp
      rw [hunion]
      exact hleast.cons hleast'

theorem DerivesDepths.setDepth (h : a.DerivesDepths b (a.expr x).depthInputs b') (hx : (a.expr x).column? = none)
    (hd : LeastOf (a.usedDepths x) d) : a.DerivesDepths b [x] (b'.update x ({ · with depth := d })) := by
  generalize hset : b'.update x ({ · with depth := d }) = b''
  have hother {y : ExprId} (hy : y ≠ x) : b''.node y = b'.node y := by
    rw [← hset, node_update_of_ne _ hy]
  have hself : (b''.node x).depth = d := by
    by_cases hlt : x < b'.size
    · rw [← hset, node_update_self _ hlt]
    · -- a number without a node stands for the empty conjunction, which no update reaches
      have hle := Nat.le_of_not_lt hlt
      have hempty : a.usedDepths x = ∅ := by
        refine Set.eq_empty_of_forall_notMem fun m hm => ?_
        obtain ⟨c, hc, -⟩ := (mem_usedDepths hx).mp hm
        rw [← h.expr, expr_of_size_le hle] at hc
        cases hc
      rw [← hset, node_of_size_le (by rw [size_update]; exact hle)]
      exact LeastOf.unique (d := none) hempty hd
  have hkeep {y : ExprId} (hy : a.KeepsLeast b' y) : a.KeepsLeast b'' y := by
    intro z hz
    by_cases hzx : z = x
    · rw [hzx, hself]
      exact hd
    · rw [hother hzx]
      exact hy z hz
  have hleast : a.KeepsLeast b'' x := by
    intro z hz
    rcases Relation.ReflTransGen.cases_head_iff.mp hz with rfl | ⟨c, hc, hz⟩
    · rw [hself]
      exact hd
    · exact hkeep (h.derived c hc) z hz
  refine ⟨⟨h.differ.trans DepthDiffers.trans ?_, fun {y} hy => ?_⟩, forall_mem_singleton.mpr hleast,
    fun hy => hkeep (h.kept hy), fun y hy => ?_⟩
  · rw [← hset]
    refine .of_update DepthDiffers.refl ⟨d, rfl, fun hc => ?_⟩
    rw [show (b'.node x).kind.column? = none from (congrArg Expr.column? (h.expr x)).trans hx] at hc
    cases hc
  · by_cases hyx : y = x
    · exact hyx ▸ hleast
    · rw [hother hyx] at hy
      exact hkeep (h.settled hy)
  · have hyx := hy x mem_cons_self
    rw [hother fun he => hyx (he ▸ .refl)]
    exact h.frame y fun c hc hcy => hyx (.head hc hcy)

theorem derives_deriveDepthFrom (ha : a.WellFormed) (hb : a.Caches b) (hfuel : a.rank x < fuel) :
    a.DerivesDepths b [x] ((deriveDepthFrom fuel x).run b).2 ∧
      LeastOf (a.usedDepths x) ((deriveDepthFrom fuel x).run b).1 := by
  induction fuel generalizing x b with
  | zero => exact absurd hfuel (Nat.not_lt_zero _)
  | succ fuel ih =>
    cases hd : (b.node x).depth with
    | some d =>
      have hx := hb.settled (y := x) (by rw [hd]; rfl)
      simp only [deriveDepthFrom, StateT.run_bind, StateT.run_get, pure_bind, hd]
      exact ⟨hb.derives hx, hd ▸ hx x .refl⟩
    | none =>
      have hwalk := derivesDepths_mapM hb fun c (hc : c ∈ (a.expr x).depthInputs) {b} hb => by
        have hrank := ha.rank_lt (refers_of_mem_depthInputs hc)
        exact ih hb (by omega)
      cases hk : (b.node x).kind with
      | column ref =>
        have he : a.expr x = .column ref := (hb.expr x).symm.trans hk
        have hdepth : (b.node x).depth = (a.node x).depth := by
          obtain ⟨_, hnode, hcolumn⟩ := hb.differ.node x
          rw [hnode]
          exact hcolumn (congrArg (·.column?.isSome) he)
        have hx : a.KeepsLeast b x := keepsLeast_column (congrArg (·.column?.isSome) he) hdepth
        simp only [deriveDepthFrom, StateT.run_bind, StateT.run_get, pure_bind, hd, hk]
        exact ⟨hb.derives hx, hd ▸ hx x .refl⟩
      | _ =>
        have he := (hb.expr x).symm.trans hk
        have hx : (a.expr x).column? = none := by rw [he]; rfl
        have hleast := hwalk.2
        rw [← show a.usedDepths x = _ from Set.ext fun m => mem_usedDepths hx] at hleast
        have hset := hwalk.1.setDepth hx hleast
        rw [he] at hleast hset
        simp only [deriveDepthFrom, StateT.run_bind, StateT.run_get, pure_bind, hd, hk]
        exact ⟨hset, hleast⟩

theorem derives_deriveDepth (ha : a.WellFormed) (hb : a.Caches b) (x : ExprId) :
    a.DerivesDepths b [x] (b.deriveDepth x).2 ∧ LeastOf (a.usedDepths x) (b.deriveDepth x).1 := by
  refine derives_deriveDepthFrom ha hb ?_
  rw [bound, hb.differ.size]
  exact Nat.lt_succ_of_le (rank_le a x)

theorem Caches.foldl (ha : a.WellFormed) (hb : a.Caches b) (xs : List ExprId) :
    a.Caches (xs.foldl (fun b x => (b.deriveDepth x).2) b) := by
  induction xs generalizing b with
  | nil => exact hb
  | cons x _ ih => exact ih (derives_deriveDepth ha hb x).1.toCaches

end Arena

open Arena

/-- **A derived depth is that of the outermost column, and it is kept where it was derived.**  In a
well-formed store whose columns alone have depths, deriving the depth of an expression gives the least
depth of the columns that decide about it, and none without such a column.  Afterwards everything that
decides about the expression keeps its own least depth, nothing else is changed, and derivations in any
order give what they would have given at first. -/
theorem derived_depths_least (ha : a.WellFormed)
    (hcolumns : ∀ y < a.size, (a.node y).depth.isSome = true → (a.expr y).column?.isSome = true)
    (id : ExprId) :
    LeastOf (a.usedDepths id) (a.deriveDepth id).1 ∧
    (∀ y, a.Decides id y → LeastOf (a.usedDepths y) ((a.deriveDepth id).2.node y).depth) ∧
    Differ DepthDiffers a (a.deriveDepth id).2 ∧
    (∀ y, ¬a.Decides id y → (a.deriveDepth id).2.node y = a.node y) ∧
    ∀ (later : List ExprId) (y : ExprId),
      ((later.foldl (fun b x => (b.deriveDepth x).2) (a.deriveDepth id).2).deriveDepth y).1 =
        (a.deriveDepth y).1 := by
  have hstart := Caches.refl hcolumns
  obtain ⟨hderives, hleast⟩ := derives_deriveDepth ha hstart id
  refine ⟨hleast, hderives.derived id mem_cons_self, hderives.differ,
    fun y hy => hderives.frame y (forall_mem_singleton.mpr hy), fun later y => ?_⟩
  have hlater := derives_deriveDepth ha (hderives.toCaches.foldl ha later) y
  exact hlater.2.unique (derives_deriveDepth ha hstart y).2

/-- `b = (SELECT b WHERE a)`, where `a` and `b` are columns of depth 0 and 1 and `b` is shared. -/
def sharedColumn : Arena :=
  ⟨#[{ ExprNode.ofExpr (.column { column := "a" }) with depth := some 0 },
    { ExprNode.ofExpr (.column { column := "b" }) with depth := some 1 },
    .ofExpr (.subquery { items := [1], filter := some 0 }), .ofExpr (.compare .equal 1 2)]⟩

theorem sharedColumn_least : sharedColumn.WellFormed ∧ (sharedColumn.deriveDepth 3).1 = some 0 ∧
    IsLeast (sharedColumn.usedDepths 3) 0 ∧
    ((sharedColumn.deriveDepth 3).2.deriveDepth 2).1 = (sharedColumn.deriveDepth 2).1 := by
  have hwell : sharedColumn.WellFormed := wellFormed_of_ordered (by decide)
  obtain ⟨hleast, -, -, -, hlater⟩ := derived_depths_least hwell (by decide) 3
  have hdepth : (sharedColumn.deriveDepth 3).1 = some 0 := by decide
  rw [hdepth] at hleast
  exact ⟨hwell, hdepth, hleast, hlater [] 2⟩

end SqlAnalysis
