import Mathlib.Logic.Relation
import SqlAnalysis.Proofs.Expr.Attributes
import SqlAnalysis.Proofs.Expr.Growth

/-!
# Stores that evolve

While a statement is bound its expressions change in few ways only.  What has been found out stays
true.

* **`Arena.Sound`**: the flags everywhere in the given expressions can be relied on, which stays so
  (**`Reshapes.sound`**).
-/

namespace SqlAnalysis

open Arena

variable {ref : ColumnRef} {e : Expr} {a a' : Arena} {id : ExprId} {f : ExprNode → ExprNode}

/-! ### Expressions -/

/-- The value comes from the other one by promotions. -/
def Value.Promotes : Value → Value → Prop := Relation.ReflTransGen fun v v' => ∃ t, v.promote t = .ok v'

/-- How an expression may change until the store is `a`. -/
inductive KindEvolves (a : Arena) : Expr → Expr → Prop where
  | refl (e : Expr) : KindEvolves a e e
  | constant {v v' : Value} : v.Promotes v' → KindEvolves a (.constant v) (.constant v')
  | column {ref : ColumnRef} (ref' : ColumnRef) :
    ref.isResolved = false → KindEvolves a (.column ref) (.column ref')
  | call (name : String) (args : List ExprId) (procId procId' : Oid) :
    KindEvolves a (.call name args procId) (.call name args procId')
  | compare (op : CompareOp) {left right left' right' : ExprId} :
    left' = left ∨ (a.expr left').isLiteral = true →
    right' = right ∨ (a.expr right').isLiteral = true →
    KindEvolves a (.compare op left right) (.compare op left' right')
  | subquery (q q' : Select) : KindEvolves a (.subquery q) (.subquery q')

namespace KindEvolves

variable {e' e'' : Expr}

section

variable (h : KindEvolves a e e')

include h

theorem trans (h' : KindEvolves a' e' e'')
    (hliteral : ∀ c, (a.expr c).isLiteral = true → (a'.expr c).isLiteral = true) :
    KindEvolves a' e e'' := by
  cases h with
  | refl => exact h'
  | constant hv =>
    cases h' with
    | refl => exact .constant hv
    | constant hv' => exact .constant (Relation.ReflTransGen.trans hv hv')
  | column _ hres =>
    cases h' with
    | refl => exact .column _ hres
    | column => exact .column _ hres
  | call =>
    cases h' with
    | refl => exact .call _ _ _ _
    | call => exact .call _ _ _ _
  | compare op hl hr =>
    cases h' with
    | refl => exact .compare op (hl.imp_right (hliteral _)) (hr.imp_right (hliteral _))
    | compare _ hl' hr' =>
      refine .compare op ?_ ?_
      · rcases hl' with rfl | hl'
        · exact hl.imp_right (hliteral _)
        · exact .inr hl'
      · rcases hr' with rfl | hr'
        · exact hr.imp_right (hliteral _)
        · exact .inr hr'
  | subquery =>
    cases h' with
    | refl => exact .subquery _ _
    | subquery => exact .subquery _ _

theorem isSubquery : e'.isSubquery = e.isSubquery := by
  cases h <;> rfl

theorem isLiteral : e'.isLiteral = e.isLiteral := by
  cases h <;> rfl

theorem isSome_column? : e'.column?.isSome = e.column?.isSome := by
  cases h <;> rfl

theorem mem_children {c : ExprId} (hc : c ∈ e'.children) :
    c ∈ e.children ∨ (a.expr c).isLiteral = true := by
  cases h with
  | compare _ hl hr =>
    rcases List.mem_cons.mp hc with rfl | hc
    · exact hl.imp_left fun h : c = _ => by simp [Expr.children, h]
    · obtain rfl := List.mem_singleton.mp hc
      exact hr.imp_left fun h : c = _ => by simp [Expr.children, h]
  | _ => exact .inl hc

end

theorem column_of_isResolved (h : KindEvolves a (.column ref) e') (hres : ref.isResolved = true) :
    e' = .column ref := by
  cases h with
  | refl => rfl
  | column _ hno =>
    rw [hres] at hno
    cases hno

end KindEvolves

theorem Expr.children_of_isLiteral (h : e.isLiteral = true) : e.children = [] := by
  cases e <;> first | rfl | cases h

theorem Expr.isSubquery_of_isLiteral (h : e.isLiteral = true) : e.isSubquery = false := by
  cases e <;> first | rfl | cases h

theorem Arena.lt_size_of_isLiteral (h : (a.expr id).isLiteral = true) : id < a.size := by
  refine Nat.lt_of_not_le fun hid => ?_
  rw [expr_of_size_le hid] at h
  cases h

theorem Arena.grounded_of_isLiteral (h : (a.expr id).isLiteral = true) : a.Grounded id := by
  refine .intro (lt_size_of_isLiteral h) fun c hc => ?_
  rw [Expr.children_of_isLiteral h] at hc
  cases hc

theorem Arena.not_hasSubquery_of_isLiteral (h : (a.expr id).isLiteral = true) :
    ¬a.HasSubquery id := by
  rw [hasSubquery_iff, Expr.children_of_isLiteral h, Expr.isSubquery_of_isLiteral h]
  simp

/-! ### Stores -/

/-- An expression that does not run in a circle and has no subquery unless its flag says so. -/
def Arena.Flagged (a : Arena) (id : ExprId) : Prop :=
  a.Grounded id ∧ ((a.node id).hasSubquery = false → ¬a.HasSubquery id)

/-- The changes of a store that keep what its expressions are made of. -/
structure Reshapes (a a' : Arena) : Prop where
  size_le : a.size ≤ a'.size
  kind : ∀ id, id < a.size → KindEvolves a' (a.expr id) (a'.expr id)
  /-- Resolved columns keep the depth of the block they belong to. -/
  depth : ∀ {id ref}, a.expr id = .column ref → ref.isResolved = true →
    (a'.node id).depth = (a.node id).depth
  flagged : ∀ {id}, a.Flagged id → a'.Flagged id

/-- The changes of a store while a statement is bound: what is bound stays. -/
structure Evolves (a a' : Arena) : Prop extends Reshapes a a' where
  bound : ∀ {id q}, a.expr id = .subquery q → q.depth.isSome = true → a'.expr id = .subquery q

namespace Reshapes

variable {a'' : Arena}

theorem isLiteral (h : Reshapes a a') (hl : (a.expr id).isLiteral = true) :
    (a'.expr id).isLiteral = true := by
  rw [(h.kind id (lt_size_of_isLiteral hl)).isLiteral]
  exact hl

theorem column (h : Reshapes a a') (hc : a.expr id = .column ref) (hres : ref.isResolved = true) :
    a'.expr id = .column ref := by
  have hlt : id < a.size := by
    refine Nat.lt_of_not_le fun hid => ?_
    rw [expr_of_size_le hid] at hc
    cases hc
  have hkind := h.kind id hlt
  rw [hc] at hkind
  exact hkind.column_of_isResolved hres

theorem refl (a : Arena) : Reshapes a a :=
  ⟨le_rfl, fun _ _ => .refl _, fun _ _ => rfl, fun h => h⟩

theorem trans (h : Reshapes a a') (h' : Reshapes a' a'') : Reshapes a a'' where
  size_le := h.size_le.trans h'.size_le
  kind id hid := (h.kind id hid).trans (h'.kind id (hid.trans_le h.size_le))
    fun _ => h'.isLiteral
  depth hc hres := (h'.depth (h.column hc hres) hres).trans (h.depth hc hres)
  flagged hid := h'.flagged (h.flagged hid)

end Reshapes

section Kinds

theorem grounded_of_kinds (hsize : a.size ≤ a'.size)
    (hkind : ∀ id, id < a.size → KindEvolves a' (a.expr id) (a'.expr id)) (h : a.Grounded id) :
    a'.Grounded id := by
  induction h with
  | intro hlt _ ih =>
    refine .intro (hlt.trans_le hsize) fun c hc => ?_
    rcases (hkind _ hlt).mem_children hc with hc | hc
    · exact ih c hc
    · exact grounded_of_isLiteral hc

theorem contains_of_kinds (hkind : ∀ id, id < a.size → KindEvolves a' (a.expr id) (a'.expr id))
    (h : a.Grounded id) {y : ExprId} (hy : a'.Contains id y) :
    a.Contains id y ∨ (a'.expr y).isLiteral = true := by
  induction hy with
  | here => exact .inl (.here _)
  | child hc hy ih =>
    rcases (hkind _ h.lt_size).mem_children hc with hc | hc
    · exact (ih (h.of_child hc)).imp_left (.child hc)
    · refine .inr ?_
      cases hy with
      | here => exact hc
      | child hd _ =>
        rw [Expr.children_of_isLiteral hc] at hd
        cases hd

theorem hasSubquery_of_kinds (hkind : ∀ id, id < a.size → KindEvolves a' (a.expr id) (a'.expr id))
    (h : a.Grounded id) (hs : a'.HasSubquery id) : a.HasSubquery id := by
  obtain ⟨y, hy, hsub⟩ := hs
  rcases contains_of_kinds hkind h hy with hy | hl
  · refine ⟨y, hy, ?_⟩
    rw [← (hkind y (h.of_contains hy).lt_size).isSubquery]
    exact hsub
  · rw [Expr.isSubquery_of_isLiteral hl] at hsub
    cases hsub

end Kinds

theorem Reshapes.grounded (h : Reshapes a a') (hid : a.Grounded id) : a'.Grounded id :=
  grounded_of_kinds h.size_le h.kind hid

/-! ### Steps -/

/-- How a node may change in one step. -/
structure NodeReshapes (a : Arena) (n n' : ExprNode) : Prop where
  kind : KindEvolves a n.kind n'.kind
  depth : ∀ {ref}, n.kind = .column ref → ref.isResolved = true → n'.depth = n.depth
  flag : n'.hasSubquery = n.hasSubquery ∨ n'.hasSubquery = true

/-- How a node may change in one step, so that no subquery becomes bound. -/
structure NodeStep (a : Arena) (n n' : ExprNode) : Prop extends NodeReshapes a n n' where
  query : n.kind.isSubquery = true → n'.kind = n.kind

theorem NodeStep.of_kind {n n' : ExprNode} (hkind : n'.kind = n.kind)
    (hdepth : n.kind.column?.isSome = true → n'.depth = n.depth)
    (hflag : n'.hasSubquery = n.hasSubquery ∨ n'.hasSubquery = true) : NodeStep a n n' :=
  ⟨⟨by rw [hkind]; exact .refl _, fun hc _ => hdepth (by rw [hc]; rfl), hflag⟩, fun _ => hkind⟩

theorem NodeStep.refl (a : Arena) (n : ExprNode) : NodeStep a n n :=
  .of_kind rfl (fun _ => rfl) (.inl rfl)

theorem Reshapes.of_nodes (hsize : a'.size = a.size)
    (h : ∀ y, NodeReshapes a' (a.node y) (a'.node y)) : Reshapes a a' := by
  have hkind : ∀ id, id < a.size → KindEvolves a' (a.expr id) (a'.expr id) := fun y _ => (h y).kind
  refine ⟨hsize.symm.le, hkind, (h _).depth, fun {y} hy => ?_⟩
  refine ⟨grounded_of_kinds (hsize.symm.le) hkind hy.1, fun hflag hs => ?_⟩
  refine hy.2 ?_ (hasSubquery_of_kinds hkind hy.1 hs)
  rcases (h y).flag with hsame | htrue
  · rw [← hsame]
    exact hflag
  · rw [htrue] at hflag
    cases hflag

theorem Reshapes.of_setQuery (a : Arena) (id : ExprId) (q : Select) :
    Reshapes a (a.setQuery id q) := by
  refine of_nodes (size_setQuery _ _) fun y => ?_
  rw [setQuery, node_update]
  split
  · split
    · rename_i hs
      refine ⟨?_, fun _ _ => rfl, .inl rfl⟩
      cases hk : (a.node y).kind with
      | subquery => exact .subquery _ _
      | _ => rw [hk] at hs; cases hs
    · exact (NodeStep.refl _ _).toNodeReshapes
  · exact (NodeStep.refl _ _).toNodeReshapes

/-- A change of a store in which no subquery becomes bound. -/
structure Adjusts (a a' : Arena) : Prop extends Evolves a a' where
  bound_of : ∀ {id q}, a'.expr id = .subquery q → q.depth.isSome = true → a.expr id = .subquery q

namespace Adjusts

variable {a'' : Arena}

theorem refl (a : Arena) : Adjusts a a := ⟨⟨.refl a, fun h _ => h⟩, fun h _ => h⟩

theorem trans (h : Adjusts a a') (h' : Adjusts a' a'') : Adjusts a a'' :=
  ⟨⟨h.toReshapes.trans h'.toReshapes, fun hq hd => h'.bound (h.bound hq hd) hd⟩,
    fun hq hd => h.bound_of (h'.bound_of hq hd) hd⟩

theorem of_nodes (hsize : a'.size = a.size) (h : ∀ y, NodeStep a' (a.node y) (a'.node y)) :
    Adjusts a a' := by
  refine ⟨⟨Reshapes.of_nodes hsize fun y => (h y).toNodeReshapes, fun {y q} hq _ => ?_⟩,
    fun {y q} hq _ => ?_⟩
  · rw [expr, (h y).query (by rw [show (a.node y).kind = _ from hq]; rfl)]
    exact hq
  · have hs : (a.node y).kind.isSubquery = true := by
      rw [← (h y).kind.isSubquery, show (a'.node y).kind = _ from hq]
      rfl
    rw [expr, ← (h y).query hs]
    exact hq

theorem of_update (h : NodeStep (a.update id f) (a.node id) (f (a.node id))) :
    Adjusts a (a.update id f) := by
  refine of_nodes (size_update _ _) fun y => ?_
  rw [node_update]
  split
  · rename_i hy
    rw [hy.1]
    exact h
  · exact .refl _ _

theorem of_update_kind (hkind : ∀ n, (f n).kind = n.kind) (hdepth : ∀ n, (f n).depth = n.depth)
    (hflag : ∀ n, (f n).hasSubquery = n.hasSubquery ∨ (f n).hasSubquery = true) :
    Adjusts a (a.update id f) :=
  of_update (.of_kind (hkind _) (fun _ => hdepth _) (hflag _))

theorem of_deriveDepth (a : Arena) (id : ExprId) : Adjusts a (a.deriveDepth id).2 :=
  of_nodes (differ_deriveDepth a id).size fun y => by
    obtain ⟨_, hy, hd⟩ := (differ_deriveDepth a id).node y
    rw [hy]
    exact .of_kind rfl hd (.inl rfl)

theorem of_deriveName (a : Arena) (id : ExprId) : Adjusts a (a.deriveName id).2 :=
  of_nodes (differ_deriveName a id).size fun y => by
    obtain ⟨_, hy⟩ := (differ_deriveName a id).node y
    rw [hy]
    exact .of_kind rfl (fun _ => rfl) (.inl rfl)

theorem of_flags {S : ExprId → Prop} (h : Flags S a a') : Adjusts a a' := by
  have hkind : ∀ id, id < a.size → KindEvolves a' (a.expr id) (a'.expr id) := fun y _ => by
    rw [h.expr]
    exact .refl _
  refine ⟨⟨⟨h.size.symm.le, hkind, fun {y ref} _ _ => ?_, fun {y} hy => ?_⟩, fun hq _ => ?_⟩,
    fun hq _ => ?_⟩
  · obtain ⟨flag, hn, _⟩ := h.node y
    rw [hn]
  · refine ⟨grounded_of_kinds (h.size.symm.le) hkind hy.1, fun hflag hs => ?_⟩
    rw [hasSubquery_iff_of_expr h.expr] at hs
    obtain ⟨_, hn, hin, hout⟩ := h.node y
    rw [hn] at hflag
    by_cases hS : S y
    · rw [(hin hS).mpr hs] at hflag
      cases hflag
    · exact hy.2 ((hout hS).symm.trans hflag) hs
  · rw [h.expr]
    exact hq
  · rw [← h.expr]
    exact hq

theorem of_appends (h : a.Appends a') : Adjusts a a' := by
  have hkind : ∀ id, id < a.size → KindEvolves a' (a.expr id) (a'.expr id) := fun y hy => by
    rw [h.expr hy]
    exact .refl _
  have hlt : ∀ {y : ExprId} {q : Select}, a.expr y = .subquery q → y < a.size := fun hq =>
    lt_size_of_isSubquery (by rw [hq]; rfl)
  refine ⟨⟨⟨h.size_le, hkind, fun {y ref} hc _ => ?_, fun {y} hy => ?_⟩, fun {y q} hq _ => ?_⟩,
    fun {y q} hq _ => ?_⟩
  · have hy : y < a.size := by
      refine Nat.lt_of_not_le fun hid => ?_
      rw [expr_of_size_le hid] at hc
      cases hc
    rw [h.node hy]
  · refine ⟨grounded_of_kinds h.size_le hkind hy.1, fun hflag hs => ?_⟩
    rw [h.node hy.1.lt_size] at hflag
    exact hy.2 hflag (hasSubquery_of_kinds hkind hy.1 hs)
  · rw [h.expr (hlt hq)]
    exact hq
  · rcases Nat.lt_or_ge y a.size with hy | hy
    · rw [← h.expr hy]
      exact hq
    · have hplain := h.plain hy
      rw [hq] at hplain
      cases hplain

end Adjusts

namespace Evolves

variable {a'' : Arena}

theorem refl (a : Arena) : Evolves a a := (Adjusts.refl a).toEvolves

theorem trans (h : Evolves a a') (h' : Evolves a' a'') : Evolves a a'' :=
  ⟨h.toReshapes.trans h'.toReshapes, fun hq hd => h'.bound (h.bound hq hd) hd⟩

end Evolves

/-! ### Sound expressions -/

/-- The flags everywhere in the expressions can be relied on. -/
def Arena.Sound (a : Arena) (ids : List ExprId) : Prop :=
  ∀ id ∈ ids, ∀ y, a.Contains id y → a.Flagged y

/-- What bound subqueries mention is sound. -/
def Arena.Settled (a : Arena) : Prop :=
  ∀ id q, a.expr id = .subquery q → q.depth.isSome = true → a.Sound q.exprs

namespace Arena.Sound

variable {ids ids' : List ExprId}

theorem nil (a : Arena) : a.Sound [] := fun _ h => by cases h

theorem append (h : a.Sound ids) (h' : a.Sound ids') : a.Sound (ids ++ ids') := fun id hid =>
  (List.mem_append.mp hid).elim (h id) (h' id)

theorem lt_size (h : a.Sound ids) : ∀ y ∈ ids, y < a.size := fun y hy => (h y hy y (.here _)).1.lt_size

theorem append_iff : a.Sound (ids ++ ids') ↔ a.Sound ids ∧ a.Sound ids' :=
  ⟨fun h => ⟨fun id hid => h id (List.mem_append_left _ hid),
    fun id hid => h id (List.mem_append_right _ hid)⟩, fun h => h.1.append h.2⟩

theorem cons (h : ∀ y, a.Contains id y → a.Flagged y) (h' : a.Sound ids) :
    a.Sound (id :: ids) := fun j hj => by
  rcases List.mem_cons.mp hj with rfl | hj
  · exact h
  · exact h' j hj

theorem grounded (h : a.Sound ids) (hid : id ∈ ids) : a.Grounded id :=
  (h id hid id (.here _)).1

end Arena.Sound

theorem Reshapes.sound (h : Reshapes a a') {ids : List ExprId} (hids : a.Sound ids) :
    a'.Sound ids := by
  intro id hid y hy
  rcases contains_of_kinds h.kind (hids.grounded hid) hy with hy | hl
  · exact h.flagged (hids id hid y hy)
  · exact ⟨grounded_of_isLiteral hl, fun _ => not_hasSubquery_of_isLiteral hl⟩

theorem Adjusts.settled (h : Adjusts a a') (ha : a.Settled) : a'.Settled :=
  fun _ _ hq hd => h.sound (ha _ _ (h.bound_of hq hd) hd)

def Arena.isUnbound (a : Arena) : Bool :=
  a.nodes.all fun n => n.kind.subquery?.all (·.depth.isNone)

theorem Arena.settled_of_isUnbound (h : a.isUnbound = true) : a.Settled := by
  intro id q hq hd
  have hlt : id < a.nodes.size := lt_size_of_isSubquery (by rw [hq]; rfl)
  have hnode := Array.all_eq_true.mp h id hlt
  have hkind : a.nodes[id].kind = .subquery q := by
    rw [← hq, expr, node, Array.getD_eq_getD_getElem?, Array.getElem?_eq_getElem hlt]
    rfl
  rw [hkind] at hnode
  rw [Option.isNone_iff_eq_none.mp hnode] at hd
  cases hd

end SqlAnalysis
