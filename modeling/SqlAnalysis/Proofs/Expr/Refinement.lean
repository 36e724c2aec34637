import Mathlib.Logic.Relation
import SqlAnalysis.Proofs.Expr.Growth
import SqlAnalysis.Proofs.Expr.Uses

/-!
# Well-formed stores

A store is well formed if every number in it is that of a node and no expression is made of itself.
Binding and planning only leave out references, replace one by a reference to something further down,
and add nodes; none of this closes a circle.

* **`Arena.wellFormed_of_ordered`**: a store in which operands come first is well formed.
* **`Arena.Refines.wellFormed`**: a well-formed store stays well formed.
-/

namespace SqlAnalysis

variable {e : Expr} {q q' : Select} {f : ExprNode → ExprNode}

theorem Expr.isSubquery_eq (e : Expr) : e.isSubquery = (e.ctorIdx == 12) := by
  cases e <;> rfl

theorem Expr.eq_column_of_column? {e : Expr} {ref : ColumnRef} (h : e.column? = some ref) :
    e = .column ref := by
  cases e with
  | column => exact congrArg Expr.column (Option.some.inj h)
  | _ => cases h

theorem Expr.isSome_column?_eq (e : Expr) : e.column?.isSome = (e.ctorIdx == 2) := by
  cases e <;> rfl

theorem Expr.parts_of_column? (h : e.column?.isSome = true) : e.parts = [] := by
  cases e with
  | column => rfl
  | _ => cases h

theorem Expr.mem_parts_of_children {c : ExprId} (h : c ∈ e.children) : c ∈ e.parts := by
  cases e with
  | subquery => cases h
  | _ => exact h

/-! ### Occurrence -/

namespace Arena

/-- The expression `y` is an operand of `x` or mentioned by its query. -/
def Refers (a : Arena) (x y : ExprId) : Prop := y ∈ (a.expr x).parts

/-- The expression `y` occurs in `x` and is not `x` itself, unless `x` is made of itself. -/
def Below (a : Arena) : ExprId → ExprId → Prop := Relation.TransGen a.Refers

/-- The expression `y` occurs in `x` or is `x`. -/
def Reaches (a : Arena) : ExprId → ExprId → Prop := Relation.ReflTransGen a.Refers

/-- Every number is that of a node, and no expression occurs in itself. -/
structure WellFormed (a : Arena) : Prop where
  lt_size : ∀ {x y}, a.Refers x y → y < a.size
  acyclic : ∀ x, ¬a.Below x x

variable {a a' a'' : Arena} {x y c id : ExprId}

theorem below_of_child (h : c ∈ (a.expr x).children) : a.Below x c :=
  .single (Expr.mem_parts_of_children h)

theorem below_of_query (hq : a.expr x = .subquery q) (hy : y ∈ q.exprs) : a.Below x y := by
  refine .single ?_
  rw [Refers, hq]
  exact hy

theorem WellFormed.lt_size_of_below (h : a.WellFormed) (hy : a.Below x y) : y < a.size := by
  cases hy with
  | single hy => exact h.lt_size hy
  | tail _ hy => exact h.lt_size hy

theorem wellFormed_of_ordered (h : ∀ x < a.size, ∀ y ∈ (a.expr x).parts, y < x) : a.WellFormed := by
  have hlt {x y : ExprId} (hy : a.Refers x y) : y < x ∧ x < a.size := by
    by_cases hx : x < a.size
    · exact ⟨h x hx y hy, hx⟩
    · rw [Refers, expr_of_size_le (Nat.le_of_not_lt hx)] at hy
      cases hy
  have hbelow {x y : ExprId} (hy : a.Below x y) : y < x := by
    induction hy with
    | single hy => exact (hlt hy).1
    | tail _ hy ih => exact (hlt hy).1.trans ih
  exact ⟨fun hy => (hlt hy).1.trans (hlt hy).2, fun x hx => Nat.lt_irrefl x (hbelow hx)⟩

/-! ### Refinement -/

/-- The expression `y` is a column that was added. -/
structure AddedColumn (a a' : Arena) (y : ExprId) : Prop where
  size_le : a.size ≤ y
  lt_size : y < a'.size
  column : (a'.expr y).column?.isSome = true

theorem AddedColumn.of_le (h : a'.AddedColumn a'' y) (hsize : a.size ≤ a'.size) :
    a.AddedColumn a'' y :=
  ⟨hsize.trans h.size_le, h.lt_size, h.column⟩

theorem AddedColumn.not_refers (h : a.AddedColumn a' x) : ¬a'.Refers x y := by
  intro hy
  rw [Refers, Expr.parts_of_column? h.column] at hy
  cases hy

/-- The expression `x` may come to refer to `y`: what occurred in it before, or an added column if it
referred to anything. -/
def Inherits (a a' : Arena) (x y : ExprId) : Prop :=
  a.Below x y ∨ a.AddedColumn a' y ∧ ∃ z, a.Refers x z

/-- How a store may change: every node stays of its kind and refers to what occurred in it before or
to added columns, a function call keeps its arguments; an added node is not a subquery and refers to
nodes that were added before it or to added columns. -/
structure Refines (a a' : Arena) : Prop where
  size_le : a.size ≤ a'.size
  kind : ∀ {x}, x < a.size → (a'.expr x).ctorIdx = (a.expr x).ctorIdx
  refers : ∀ {x y}, x < a.size → a'.Refers x y → a.Inherits a' x y
  query : ∀ {x q'}, x < a.size → a'.expr x = .subquery q' →
    ∃ q, a.expr x = .subquery q ∧ q'.weight ≤ q.weight
  call : ∀ {x name args procId}, x < a.size → a.expr x = .call name args procId →
    ∃ procId', a'.expr x = .call name args procId'
  plain : ∀ {x}, a.size ≤ x → (a'.expr x).isSubquery = false
  added : ∀ {x y}, a.size ≤ x → a'.Refers x y → a.size ≤ y ∧ y < x ∨ a.AddedColumn a' y

theorem exists_refers_of_below (h : a.Below x y) : ∃ z, a.Refers x z := by
  obtain ⟨z, hz, _⟩ := Relation.TransGen.head'_iff.mp h
  exact ⟨z, hz⟩

theorem Inherits.exists_refers (h : a.Inherits a' x y) : ∃ z, a.Refers x z :=
  h.elim exists_refers_of_below And.right

namespace Refines

theorem isSubquery (h : a.Refines a') (hx : x < a.size) :
    (a'.expr x).isSubquery = (a.expr x).isSubquery := by
  rw [Expr.isSubquery_eq, Expr.isSubquery_eq, h.kind hx]

theorem isSome_column? (h : a.Refines a') (hx : x < a.size) :
    (a'.expr x).column?.isSome = (a.expr x).column?.isSome := by
  rw [Expr.isSome_column?_eq, Expr.isSome_column?_eq, h.kind hx]

theorem addedColumn (h : a'.Refines a'') (hy : a.AddedColumn a' y) : a.AddedColumn a'' y where
  size_le := hy.size_le
  lt_size := hy.lt_size.trans_le h.size_le
  column := by
    rw [h.isSome_column? hy.lt_size]
    exact hy.column

theorem below (h : a.Refines a') (ha : a.WellFormed) (hx : x < a.size) (hy : a'.Below x y) :
    a.Inherits a' x y := by
  induction hy with
  | single hy => exact h.refers hx hy
  | tail _ hz ih =>
    rcases ih with ih | ⟨ih, _⟩
    · rcases h.refers (ha.lt_size_of_below ih) hz with hz | ⟨hz, _⟩
      · exact .inl (ih.trans hz)
      · exact .inr ⟨hz, exists_refers_of_below ih⟩
    · exact (ih.not_refers hz).elim

theorem below_added (h : a.Refines a') (hx : a.size ≤ x) (hy : a'.Below x y) :
    a.size ≤ y ∧ y < x ∨ a.AddedColumn a' y := by
  induction hy with
  | single hy => exact h.added hx hy
  | tail _ hz ih =>
    rcases ih with ⟨hle, hlt⟩ | ih
    · exact (h.added hle hz).imp_left fun ⟨hle', hlt'⟩ => ⟨hle', hlt'.trans hlt⟩
    · exact (ih.not_refers hz).elim

theorem wellFormed (h : a.Refines a') (ha : a.WellFormed) : a'.WellFormed := by
  refine ⟨fun {x y} hy => ?_, fun x hx => ?_⟩
  · rcases Nat.lt_or_ge x a.size with hlt | hge
    · rcases h.refers hlt hy with hy | ⟨hy, _⟩
      · exact (ha.lt_size_of_below hy).trans_le h.size_le
      · exact hy.lt_size
    · rcases h.added hge hy with ⟨_, hlt⟩ | hy'
      · refine hlt.trans (Nat.lt_of_not_le fun hge' => ?_)
        rw [Refers, expr_of_size_le hge'] at hy
        cases hy
      · exact hy'.lt_size
  · rcases Nat.lt_or_ge x a.size with hlt | hge
    · rcases h.below ha hlt hx with hx | ⟨hx, _⟩
      · exact ha.acyclic x hx
      · exact hx.size_le.not_gt hlt
    · rcases h.below_added hge hx with ⟨_, hlt⟩ | hx'
      · exact Nat.lt_irrefl x hlt
      · obtain ⟨_, hz⟩ := exists_refers_of_below hx
        exact hx'.not_refers hz

theorem trans (h : a.Refines a') (h' : a'.Refines a'') (ha : a.WellFormed) : a.Refines a'' where
  size_le := h.size_le.trans h'.size_le
  kind hx := by rw [h'.kind (hx.trans_le h.size_le), h.kind hx]
  refers {x y} hx hy := by
    have hlater := h'.refers (hx.trans_le h.size_le) hy
    obtain ⟨_, hz⟩ := hlater.exists_refers
    rcases hlater with hy | ⟨hy, _⟩
    · exact (h.below ha hx hy).imp_right fun hy => ⟨h'.addedColumn hy.1, hy.2⟩
    · exact .inr ⟨hy.of_le h.size_le, (h.refers hx hz).exists_refers⟩
  query hx hq := by
    obtain ⟨_, hq', hweight'⟩ := h'.query (hx.trans_le h.size_le) hq
    obtain ⟨q, hq, hweight⟩ := h.query hx hq'
    exact ⟨q, hq, hweight'.trans hweight⟩
  call hx he := by
    obtain ⟨_, he'⟩ := h.call hx he
    exact h'.call (hx.trans_le h.size_le) he'
  plain {x} hx := by
    rcases Nat.lt_or_ge x a'.size with hlt | hge
    · rw [h'.isSubquery hlt]
      exact h.plain hx
    · exact h'.plain hge
  added {x y} hx hy := by
    rcases Nat.lt_or_ge x a'.size with hlt | hge
    · rcases h'.refers hlt hy with hy | ⟨hy, _⟩
      · exact (h.below_added hx hy).imp_right h'.addedColumn
      · exact .inr (hy.of_le h.size_le)
    · rcases h'.added hge hy with ⟨hle, hlt⟩ | hy
      · exact .inl ⟨h.size_le.trans hle, hlt⟩
      · exact .inr (hy.of_le h.size_le)

/-! ### Changes -/

theorem of_expr (hsize : a'.size = a.size) (hexpr : ∀ x, a'.expr x = a.expr x) : a.Refines a' where
  size_le := hsize.symm.le
  kind _ := by rw [hexpr]
  refers _ hy := by
    rw [Refers, hexpr] at hy
    exact .inl (.single hy)
  query _ hq := by
    rw [hexpr] at hq
    exact ⟨_, hq, Nat.le_refl _⟩
  call _ he := ⟨_, (hexpr _).trans he⟩
  plain hx := by
    rw [hexpr, expr_of_size_le hx]
    rfl
  added hx hy := by
    rw [Refers, hexpr, expr_of_size_le hx] at hy
    cases hy

theorem refl (a : Arena) : a.Refines a := of_expr rfl fun _ => rfl

theorem of_update_kind (hf : ∀ n, (f n).kind = n.kind) : a.Refines (a.update id f) :=
  of_expr (size_update _ _) (expr_update_of_kind hf)

theorem update (h : a.Refines a') (hid : id < a.size) (hplain : (a'.expr id).isSubquery = false)
    (hkind : (f (a'.node id)).kind.ctorIdx = (a'.expr id).ctorIdx)
    (hcall : ∀ {name args procId}, a'.expr id = .call name args procId →
      ∃ procId', (f (a'.node id)).kind = .call name args procId')
    (hchild : ∀ c ∈ (f (a'.node id)).kind.children, a.Inherits a' id c) :
    a.Refines (a'.update id f) := by
  have hexpr (x : ExprId) : (a'.update id f).expr x = a'.expr x ∨
      x = id ∧ (a'.update id f).expr x = (f (a'.node id)).kind := by
    rw [expr, node_update]
    split
    · rename_i hx
      exact .inr ⟨hx.1, by rw [hx.1]⟩
    · exact .inl rfl
  have hnew {x : ExprId} (hx : a.size ≤ x) : (a'.update id f).expr x = a'.expr x :=
    (hexpr x).resolve_right fun heq => hx.not_gt (heq.1 ▸ hid)
  have hplain' : (f (a'.node id)).kind.isSubquery = false := by
    rw [Expr.isSubquery_eq, hkind, ← Expr.isSubquery_eq, hplain]
  have hcolumn {y : ExprId} (hy : a.AddedColumn a' y) : a.AddedColumn (a'.update id f) y := by
    refine ⟨hy.size_le, by rw [size_update]; exact hy.lt_size, ?_⟩
    rw [hnew hy.size_le]
    exact hy.column
  have hinherits {x y : ExprId} (hy : a.Inherits a' x y) : a.Inherits (a'.update id f) x y :=
    hy.imp_right fun hy => ⟨hcolumn hy.1, hy.2⟩
  refine ⟨by rw [size_update]; exact h.size_le, fun {x} hx => ?_, fun {x y} hx hy => ?_,
    fun {x q'} hx hq => ?_, fun {x name args procId} hx he => ?_, fun {x} hx => ?_,
    fun {x y} hx hy => ?_⟩
  · rcases hexpr x with he | ⟨rfl, he⟩
    · rw [he, h.kind hx]
    · rw [he, hkind, h.kind hx]
  · rcases hexpr x with he | ⟨rfl, he⟩
    · rw [Refers, he] at hy
      exact hinherits (h.refers hx hy)
    · rw [Refers, he, Expr.parts_of_not_isSubquery hplain'] at hy
      exact hinherits (hchild y hy)
  · rcases hexpr x with he | ⟨rfl, he⟩
    · rw [he] at hq
      exact h.query hx hq
    · rw [← he, hq] at hplain'
      cases hplain'
  · obtain ⟨procId', he'⟩ := h.call hx he
    rcases hexpr x with heq | ⟨rfl, heq⟩
    · exact ⟨procId', heq.trans he'⟩
    · rw [heq]
      exact hcall he'
  · rw [hnew hx]
    exact h.plain hx
  · rw [Refers, hnew hx] at hy
    exact (h.added hx hy).imp_right hcolumn

theorem of_update (hplain : (a.expr id).isSubquery = false)
    (hkind : (f (a.node id)).kind.ctorIdx = (a.expr id).ctorIdx)
    (hcall : ∀ {name args procId}, a.expr id = .call name args procId →
      ∃ procId', (f (a.node id)).kind = .call name args procId')
    (hchild : ∀ c ∈ (f (a.node id)).kind.children, a.Below id c) : a.Refines (a.update id f) := by
  by_cases hid : id < a.size
  · exact (refl a).update hid hplain hkind hcall fun c hc => .inl (hchild c hc)
  · refine of_expr (size_update _ _) fun x => ?_
    rw [expr, node_update, if_neg (fun hx : x = id ∧ id < a.size => hid hx.2), expr]

theorem of_appends (h : a.Appends a') : a.Refines a' where
  size_le := h.size_le
  kind hx := by rw [h.expr hx]
  refers hx hy := by
    rw [Refers, h.expr hx] at hy
    exact .inl (.single hy)
  query hx hq := by
    rw [h.expr hx] at hq
    exact ⟨_, hq, Nat.le_refl _⟩
  call hx he := ⟨_, (h.expr hx).trans he⟩
  plain := h.plain
  added hx hy := by
    rw [Refers, Expr.parts_of_not_isSubquery (h.plain hx)] at hy
    exact .inl (h.operand hx hy)

end Refines

/-! ### Queries -/

/-- The expressions `ids'` are among `ids` or are added columns. -/
def Yields (a a' : Arena) (ids ids' : List ExprId) : Prop :=
  ∀ y ∈ ids', y ∈ ids ∨ a.AddedColumn a' y ∧ ids ≠ []

theorem Yields.of_subset {ids ids' : List ExprId} (h : ∀ y ∈ ids', y ∈ ids) : a.Yields a' ids ids' :=
  fun y hy => .inl (h y hy)

/-- The query `q'` came of `q`: it has not more parts and mentions the same or added columns. -/
structure Renders (a : Arena) (q : Select) (a' : Arena) (q' : Select) : Prop where
  weight_le : q'.weight ≤ q.weight
  yields : a.Yields a' q.exprs q'.exprs

theorem Renders.of_le (h : a'.Renders q a'' q') (hsize : a.size ≤ a'.size) : a.Renders q a'' q' :=
  ⟨h.weight_le, fun y hy => (h.yields y hy).imp_right fun ⟨hcolumn, hne⟩ => ⟨hcolumn.of_le hsize, hne⟩⟩

theorem Refines.setQuery (h : a.Refines a') (hq : a.expr id = .subquery q) (hq' : a.Renders q a' q') :
    a.Refines (a'.setQuery id q') := by
  have hid : id < a.size := lt_size_of_isSubquery (by rw [hq]; rfl)
  have hsub : (a'.expr id).isSubquery = true := by
    rw [h.isSubquery hid, hq]
    rfl
  have hself : (a'.setQuery id q').expr id = .subquery q' := expr_setQuery_self q' hsub
  have hnew {x : ExprId} (hx : a.size ≤ x) : (a'.setQuery id q').expr x = a'.expr x := by
    refine expr_setQuery_of_ne q' fun hxid => ?_
    rw [hxid] at hx
    exact hx.not_gt hid
  have hcolumn {y : ExprId} (hy : a.AddedColumn a' y) : a.AddedColumn (a'.setQuery id q') y := by
    refine ⟨hy.size_le, by rw [size_setQuery]; exact hy.lt_size, ?_⟩
    rw [hnew hy.size_le]
    exact hy.column
  refine ⟨by rw [size_setQuery]; exact h.size_le, fun {x} hx => ?_, fun {x y} hx hy => ?_,
    fun {x r} hx hr => ?_, fun {x name args procId} hx he => ?_, fun {x} hx => ?_,
    fun {x y} hx hy => ?_⟩
  · by_cases hxid : x = id
    · rw [hxid, hself, hq]
      rfl
    · rw [expr_setQuery_of_ne q' hxid, h.kind hx]
  · by_cases hxid : x = id
    · rw [hxid] at hy ⊢
      rw [Refers, hself] at hy
      rcases hq'.yields y hy with hy | ⟨hy, hne⟩
      · exact .inl (below_of_query hq hy)
      · obtain ⟨z, hz⟩ := List.exists_mem_of_ne_nil _ hne
        exact .inr ⟨hcolumn hy, z, by rw [Refers, hq]; exact hz⟩
    · rw [Refers, expr_setQuery_of_ne q' hxid] at hy
      exact (h.refers hx hy).imp_right fun hy => ⟨hcolumn hy.1, hy.2⟩
  · by_cases hxid : x = id
    · rw [hxid, hself] at hr
      cases hr
      exact ⟨q, by rw [hxid, hq], hq'.weight_le⟩
    · rw [expr_setQuery_of_ne q' hxid] at hr
      exact h.query hx hr
  · by_cases hxid : x = id
    · rw [hxid, hq] at he
      cases he
    · rw [expr_setQuery_of_ne q' hxid]
      exact h.call hx he
  · rw [hnew hx]
    exact h.plain hx
  · rw [Refers, hnew hx] at hy
    exact (h.added hx hy).imp_right hcolumn

theorem refines_takeQuery (hq : a.expr id = .subquery q) : a.Refines (a.setQuery id {}) := by
  have hempty : ({} : Select).weight ≤ q.weight := by
    show 1 ≤ q.weight
    cases q
    rw [Select.weight]
    omega
  exact (Refines.refl a).setQuery hq ⟨hempty, List.forall_mem_nil _⟩

end Arena

end SqlAnalysis
