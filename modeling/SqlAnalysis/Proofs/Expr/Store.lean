import SqlAnalysis.Expr.Arena

/-!
# Changes of the expression store

What a change of the store leaves at each number.

* **`Arena.node_update`**, **`Arena.expr_setQuery`**, **`Arena.node_pushAll`**: one lemma for each
  operation, so that later arguments do not look into arrays.
-/

namespace SqlAnalysis

variable {id j : ExprId} {n : ExprNode} {q : Select}

def Value.ofByte (n : UInt8) : Value :=
  .integral .regular n.toNat (by
    have hbound : IntWidth.regular.bound = 2147483648 := rfl
    have hn : n.toNat < 256 := n.toNat_lt
    rw [IntWidth.holds, hbound, Bool.and_eq_true, decide_eq_true_iff, decide_eq_true_iff]
    omega)

def Expr.columnOf (table column : String) : Expr :=
  .column { table := some { name := table }, column := column }

def BaseTable.named (name knownAs : String) : BaseTable :=
  { name := { name := name }, knownAs := { name := knownAs } }

namespace Arena

/-- A store as it is parsed. -/
def ofExprs (es : List Expr) : Arena := ⟨(es.map .ofExpr).toArray⟩

variable {a : Arena}

theorem node_of_node? (h : a.node? id = some n) : a.node id = n := by
  rw [node, Array.getD_eq_getD_getElem?]
  rw [node?] at h
  rw [h, Option.getD_some]

theorem lt_size_of_node? (h : a.node? id = some n) : id < a.size :=
  (Array.getElem?_eq_some_iff.mp h).1

theorem node_of_size_le (h : a.size ≤ id) : a.node id = default := by
  rw [node, Array.getD_eq_getD_getElem?, Array.getElem?_eq_none h]
  rfl

theorem expr_of_size_le (h : a.size ≤ id) : a.expr id = .connect .and [] := by
  rw [expr, node_of_size_le h]
  rfl

@[simp] theorem size_update (id : ExprId) (f : ExprNode → ExprNode) :
    (a.update id f).size = a.size :=
  Array.size_modify

theorem node_update (id j : ExprId) (f : ExprNode → ExprNode) :
    (a.update id f).node j = if j = id ∧ id < a.size then f (a.node j) else a.node j := by
  rw [node, node, Array.getD_eq_getD_getElem?, Array.getD_eq_getD_getElem?, update,
    Array.getElem?_modify]
  by_cases hj : id = j
  · subst hj
    by_cases hid : id < a.size
    · have hid' : id < a.nodes.size := hid
      simp [hid, hid']
    · have hid' : ¬id < a.nodes.size := hid
      simp [hid, hid']
  · simp [hj, Ne.symm hj]

@[simp] theorem node_update_of_ne (f : ExprNode → ExprNode) (h : j ≠ id) :
    (a.update id f).node j = a.node j := by
  rw [node_update, if_neg (fun hj => h hj.1)]

@[simp] theorem node_update_self (f : ExprNode → ExprNode) (h : id < a.size) :
    (a.update id f).node id = f (a.node id) := by
  rw [node_update, if_pos ⟨rfl, h⟩]

@[simp] theorem expr_update_of_ne (f : ExprNode → ExprNode) (h : j ≠ id) :
    (a.update id f).expr j = a.expr j := by
  rw [expr, node_update_of_ne f h, expr]

/-- A change that leaves a field of its node alone leaves it alone everywhere. -/
theorem field_update {α : Type} (field : ExprNode → α) {f : ExprNode → ExprNode}
    (hf : field (f (a.node id)) = field (a.node id)) (j : ExprId) :
    field ((a.update id f).node j) = field (a.node j) := by
  rw [node_update]
  split
  · rename_i hj
    rw [hj.1, hf]
  · rfl

@[simp] theorem expr_update_of_kind {f : ExprNode → ExprNode} (hf : ∀ n, (f n).kind = n.kind) (j : ExprId) :
    (a.update id f).expr j = a.expr j :=
  field_update _ (hf _) j

@[simp] theorem knownAs_update {f : ExprNode → ExprNode} (hf : ∀ n, (f n).knownAs = n.knownAs) (j : ExprId) :
    ((a.update id f).node j).knownAs = (a.node j).knownAs :=
  field_update _ (hf _) j

@[simp] theorem typeOf_update {f : ExprNode → ExprNode} (hf : ∀ n, (f n).type = n.type) (j : ExprId) :
    (a.update id f).typeOf j = a.typeOf j :=
  field_update _ (hf _) j

@[simp] theorem expr_setType (t : SqlType) : (a.setType id t).expr j = a.expr j := by
  simp [setType]

@[simp] theorem size_setQuery (id : ExprId) (q : Select) : (a.setQuery id q).size = a.size :=
  size_update _ _

@[simp] theorem node_setQuery_of_ne (q : Select) (h : j ≠ id) : (a.setQuery id q).node j = a.node j :=
  node_update_of_ne _ h

@[simp] theorem expr_setQuery_of_ne (q : Select) (h : j ≠ id) : (a.setQuery id q).expr j = a.expr j :=
  expr_update_of_ne _ h

theorem lt_size_of_isSubquery (h : (a.expr id).isSubquery = true) : id < a.size := by
  refine Nat.lt_of_not_le fun hid => ?_
  rw [expr_of_size_le hid] at h
  cases h

@[simp] theorem node_setQuery_self (q : Select) (h : (a.expr id).isSubquery = true) :
    (a.setQuery id q).node id = { a.node id with kind := .subquery q } := by
  rw [setQuery, node_update_self _ (lt_size_of_isSubquery h)]
  exact if_pos h

@[simp] theorem expr_setQuery_self (q : Select) (h : (a.expr id).isSubquery = true) :
    (a.setQuery id q).expr id = .subquery q := by
  rw [expr, node_setQuery_self q h]

@[simp] theorem knownAs_setQuery (a : Arena) (id : ExprId) (q : Select) (j : ExprId) :
    ((a.setQuery id q).node j).knownAs = (a.node j).knownAs :=
  knownAs_update (fun n => by split <;> rfl) j

theorem eq_of_node {a' : Arena} (hsize : a'.size = a.size) (h : ∀ j, a'.node j = a.node j) :
    a' = a := by
  cases a with | mk nodes =>
  cases a' with | mk nodes' =>
  congr 1
  refine Array.ext hsize fun j hj hj' => ?_
  have hnode := h j
  rw [node, node, Array.getD_eq_getD_getElem?, Array.getD_eq_getD_getElem?,
    Array.getElem?_eq_getElem hj, Array.getElem?_eq_getElem hj'] at hnode
  exact hnode

@[simp] theorem setQuery_of_not_isSubquery (q : Select) (h : (a.expr id).isSubquery = false) :
    a.setQuery id q = a := by
  refine eq_of_node (size_setQuery _ _) fun j => ?_
  rw [setQuery, node_update]
  split
  · rename_i hj
    rw [hj.1]
    exact if_neg (by rw [show (a.node id).kind.isSubquery = false from h]; simp)
  · rfl

theorem query?_eq_some : a.query? id = some q ↔ a.expr id = .subquery q := by
  unfold query?
  cases a.expr id <;> simp [Expr.subquery?]

theorem isSubquery_of_query? (h : a.query? id = some q) : (a.expr id).isSubquery = true := by
  rw [query?_eq_some.mp h]
  rfl

@[simp] theorem size_push (n : ExprNode) : (a.push n).2.size = a.size + 1 := Array.size_push n

def pushAll (a : Arena) (ns : List ExprNode) : Arena := ⟨a.nodes ++ ns.toArray⟩

@[simp] theorem size_pushAll (ns : List ExprNode) : (a.pushAll ns).size = a.size + ns.length := by
  simp [size, pushAll]

theorem pushAll_cons (n : ExprNode) (ns : List ExprNode) :
    a.pushAll (n :: ns) = (a.push n).2.pushAll ns := by
  simp [pushAll, push]

@[simp] theorem node_pushAll_of_lt (ns : List ExprNode) (h : id < a.size) :
    (a.pushAll ns).node id = a.node id := by
  have h' : id < a.nodes.size := h
  rw [node, node, Array.getD_eq_getD_getElem?, Array.getD_eq_getD_getElem?, pushAll,
    Array.getElem?_append_left h']

theorem node_pushAll_of_size_le (ns : List ExprNode) (h : a.size ≤ id) :
    (a.pushAll ns).node id = ns.getD (id - a.size) default := by
  have h' : a.nodes.size ≤ id := h
  rw [node, Array.getD_eq_getD_getElem?, pushAll, Array.getElem?_append_right h']
  simp [size]

theorem push_eq_pushAll (n : ExprNode) : (a.push n).2 = a.pushAll [n] := by
  rw [pushAll_cons]
  simp [pushAll]

@[simp] theorem node_push_of_lt (n : ExprNode) (h : id < a.size) : (a.push n).2.node id = a.node id := by
  rw [push_eq_pushAll, node_pushAll_of_lt _ h]

@[simp] theorem node_push_size (n : ExprNode) : (a.push n).2.node a.size = n := by
  rw [push_eq_pushAll, node_pushAll_of_size_le _ (Nat.le_refl _), Nat.sub_self]
  rfl

theorem node?_of_lt (h : id < a.size) : a.node? id = some (a.node id) := by
  have h' : id < a.nodes.size := h
  rw [node?, node, Array.getD_eq_getD_getElem?, Array.getElem?_eq_getElem h']
  rfl

end Arena

end SqlAnalysis
