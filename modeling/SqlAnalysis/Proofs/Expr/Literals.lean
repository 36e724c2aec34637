import SqlAnalysis.Proofs.Expr.Growth
import SqlAnalysis.Proofs.Value.Promotion

/-!
# Literals and their types

A literal stands in a node that has a type of its own, and a star in a node that has none.

* **`Value.conforms_of_promote`**: a promoted literal conforms to the type it was promoted to.
* **`NodeRule`**: what is to be known of a property of nodes that is about literals and stars only.
* **`Arena.Obeys.update`**, **`Arena.Obeys.push`**, **`Arena.Imports.obeys`**: changes of a store that keep
  such a property of its nodes.
-/

namespace SqlAnalysis

variable {v : Value} {t : SqlType} {id : ExprId} {f : ExprNode → ExprNode}

namespace Value

def fitsScale : Value → SqlType → Bool
  | .decimal d, .decimal _ scale => d.places ≤ scale
  | _, _ => false

/-- The literal may stand for a value of the type: it is NULL, the type is its natural one, or both are
decimal and the literal has no more places than the type. -/
def conforms (v : Value) (t : SqlType) : Bool := v.isNull || v.sqlType = t || v.fitsScale t

theorem conforms_of_sqlType (h : v.sqlType = t) : v.conforms t = true := by
  simp [conforms, h]

theorem conforms_of_promote {w : Value} (ht : t.isValid = true) (h : v.promote t = .ok w) :
    w.conforms t = true := by
  unfold promote at h
  split at h
  · rename_i hkept
    cases h
    simp only [ht, Bool.not_true, Bool.false_or, Bool.or_eq_true, decide_eq_true_eq] at hkept
    rcases hkept with hnull | htype
    · simp [conforms, hnull]
    · exact conforms_of_sqlType htype
  · rcases convert_cases h with ⟨precision, scale, d, r, rfl, _, hfit, rfl⟩ | htype
    · -- a decimal that fits was rounded to the places of the type
      have hplaces : r.places ≤ scale := by
        rw [(Decimal.fit?_eq_some_iff.mp hfit).1]
        exact Decimal.places_roundPlaces_le d scale
      simp [conforms, fitsScale, hplaces]
    · exact conforms_of_sqlType htype

end Value

/-- Stars, which have no type. -/
def Expr.isStar : Expr → Bool
  | .star | .tableStar _ => true
  | _ => false

def ExprNode.Conforms (n : ExprNode) : Prop := ∀ v, n.kind = .constant v → v.conforms n.type = true

theorem ExprNode.conforms_ofExpr (e : Expr) : (ofExpr e).Conforms := fun v hv =>
  Value.conforms_of_sqlType (by rw [ofExpr, show e = .constant v from hv]; rfl)

/-- The node is not a star to which a type was given. -/
def ExprNode.Untyped (n : ExprNode) : Prop := n.kind.isStar = true → n.type = .invalid

instance : DecidablePred ExprNode.Untyped := fun n =>
  inferInstanceAs (Decidable (n.kind.isStar = true → n.type = .invalid))

/-- A property of nodes that is about literals and stars and their types: other nodes have it, and so do
literals that conform to their types. -/
structure NodeRule (P : ExprNode → Prop) : Prop where
  congr : ∀ {n n' : ExprNode}, n'.kind = n.kind → n'.type = n.type → P n → P n'
  other : ∀ {n : ExprNode}, (∀ v, n.kind ≠ .constant v) → n.kind.isStar = false → P n
  literal : ∀ {n : ExprNode} {v : Value}, n.kind = .constant v → v.conforms n.type = true → P n

theorem nodeRule_conforms : NodeRule ExprNode.Conforms where
  congr hkind htype h v hv := by
    rw [htype]
    exact h v (hkind.symm.trans hv)
  other hn _ v hv := absurd hv (hn v)
  literal hn hconforms v hv := by
    cases hn.symm.trans hv
    exact hconforms

theorem nodeRule_untyped : NodeRule ExprNode.Untyped where
  congr hkind htype h hstar := htype.trans (h (hkind ▸ hstar))
  other _ hn hstar := by
    rw [hn] at hstar
    cases hstar
  literal hn _ hstar := by
    rw [hn] at hstar
    cases hstar

/-- Every node of the store has the property. -/
def Arena.Obeys (P : ExprNode → Prop) (a : Arena) : Prop := ∀ x, P (a.node x)

theorem Arena.obeys_of_nodes {P : ExprNode → Prop} (hP : NodeRule P) {nodes : List ExprNode}
    (h : ∀ n ∈ nodes, P n) : (⟨nodes.toArray⟩ : Arena).Obeys P := fun x => by
  rw [node, Array.getD_eq_getD_getElem?, List.getElem?_toArray]
  cases hn : nodes[x]? with
  | none => exact hP.other (fun v hv => by cases hv) rfl
  | some n => exact h n (List.mem_of_getElem? hn)

/-- Every literal of the store conforms to the type of its node. -/
def Arena.Conforming (a : Arena) : Prop := a.Obeys ExprNode.Conforms

namespace Arena.Obeys

variable {a a' : Arena} {P : ExprNode → Prop}

section

variable (hP : NodeRule P) (h : a.Obeys P)

include h

theorem update (hf : P (a.node id) → P (f (a.node id))) : (a.update id f).Obeys P := fun x => by
  rw [node_update]
  split
  · rename_i hx
    rw [hx.1]
    exact hf (h id)
  · exact h x

include hP

theorem of_eq (hexpr : ∀ x, a'.expr x = a.expr x)
    (htype : ∀ x, a'.typeOf x = a.typeOf x) : a'.Obeys P := fun x => hP.congr (hexpr x) (htype x) (h x)

theorem update_other (hf : ∀ v, (f (a.node id)).kind ≠ .constant v)
    (hstar : (f (a.node id)).kind.isStar = false) : (a.update id f).Obeys P :=
  h.update fun _ => hP.other hf hstar

theorem setQuery (id : ExprId) (q : Select) : (a.setQuery id q).Obeys P :=
  h.update fun hid => by
    split
    · exact hP.other (fun v hv => nomatch hv) rfl
    · exact hid

theorem pushAll {ns : List ExprNode} (hns : ∀ n ∈ ns, P n) : (a.pushAll ns).Obeys P := fun x => by
  rcases Nat.lt_or_ge x a.size with hlt | hge
  · rw [node_pushAll_of_lt _ hlt]
    exact h x
  · rw [node_pushAll_of_size_le _ hge, List.getD_eq_getElem?_getD]
    cases hn : ns[x - a.size]? with
    | none => exact hP.other (fun v hv => nomatch hv) rfl
    | some n => exact hns n (List.mem_of_getElem? hn)

theorem push {n : ExprNode} (hn : P n) : (a.push n).2.Obeys P := by
  rw [push_eq_pushAll]
  exact h.pushAll hP (List.forall_mem_singleton.mpr hn)

end

end Arena.Obeys

theorem Expr.leaf_of_withOperands {e : Expr} {ids : List ExprId}
    (h : (∃ v, e.withOperands ids = .constant v) ∨ (e.withOperands ids).isStar = true) :
    e.withOperands ids = e := by
  unfold withOperands at h ⊢
  split at h <;> first | rfl | (rcases h with ⟨_, h⟩ | h <;> cases h)

theorem NodeRule.withOperands {P : ExprNode → Prop} (hP : NodeRule P) {n : ExprNode} (h : P n)
    (ids : List ExprId) : P { n with kind := n.kind.withOperands ids } := by
  by_cases hleaf : (∃ v, n.kind.withOperands ids = .constant v) ∨ (n.kind.withOperands ids).isStar = true
  · exact hP.congr (Expr.leaf_of_withOperands hleaf) rfl h
  · obtain ⟨hliteral, hstar⟩ := not_or.mp hleaf
    exact hP.other (fun v hv => hliteral ⟨v, hv⟩) (Bool.eq_false_iff.mpr hstar)

theorem Arena.Imports.obeys {P : ExprNode → Prop} (hP : NodeRule P) {other a a' : Arena} {fuel : Nat}
    {roots ids : List ExprId} (h : other.Imports fuel roots a ids a') (hother : other.Obeys P)
    (ha : a.Obeys P) : a'.Obeys P := by
  induction h with
  | nil => exact ha
  | @cons _ root _ _ _ _ _ _ _ hn _ _ _ ih ih' =>
    have hroot := hother root
    rw [node_of_node? hn] at hroot
    exact ih' ((ih ha).push hP (hP.withOperands hroot _))

end SqlAnalysis
