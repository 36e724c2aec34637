import SqlAnalysis.Proofs.Binding.Conduct

/-!
# What is expected elsewhere

While an expression is bound, types are expected of what it is made of and of nothing else.

* **`bindItem_spares`**: binding what is in a set changes nothing that is expected outside.
* **`recurTo_keepsOwn`**: a type expected of an expression stays expected while the expression is
  bound, unless it is made of itself.
-/

namespace SqlAnalysis

open BindM

/-- Keeps a set closed, and what is expected of expressions outside of it. -/
structure BindState.Spares (S : ExprId → Prop) (s t : BindState) : Prop where
  store : StoreStep S s.exprs t.exprs
  kept : ∀ x, ¬S x → t.expectations.expectedOf x = s.expectations.expectedOf x

theorem BindState.Spares.trans {S : ExprId → Prop} {s t u : BindState} (h : s.Spares S t)
    (h' : t.Spares S u) : s.Spares S u :=
  ⟨h.store.trans h'.store, fun x hx => (h'.kept x hx).trans (h.kept x hx)⟩

def sparingConduct (S : ExprId → Prop) : Conduct S where
  Inv s := s.exprs.Encloses S
  Whole := BindState.Spares S
  Part := BindState.Spares S
  inv_encloses hs := hs
  inv_part hs h := h.store.encloses hs
  inv_open hs := hs
  inv_sibling hs _ := hs
  whole_refl := ⟨.refl, fun _ _ => rfl⟩
  whole_trans h h' := h.trans h'
  part_trans h h' := h.trans h'
  part_of_whole h := h
  store h := h.store
  exprs _ h := ⟨h, fun _ _ => rfl⟩
  expectations _ _ h := ⟨.refl, h⟩
  temp _ := ⟨.refl, fun _ _ => rfl⟩
  parameter _ _ _ _ _ _ := ⟨.of_update_kind fun _ => rfl, fun _ _ => rfl⟩
  scope _ _ _ := ⟨.refl, fun _ _ => rfl⟩
  close _ h := ⟨h.store, h.kept⟩
  restore _ _ h := ⟨h.store, h.kept⟩

section

variable {env : Accessor} {S : ExprId → Prop} {levels : Nat} {s s' : BindState} {id : ExprId} {u : Unit}

theorem bindItem_spares (h : bindItem (recurTo env levels) id s = .ok u s') (hS : s.exprs.Encloses S)
    (hid : S id) : s.Spares S s' := by
  have hrec := @recurTo_conducts S (sparingConduct S) env levels
  have hfollows := (Clauses.agree_bindItem hrec hid ⟨hS, fun _ hx => hx⟩).2
  rw [h] at hfollows
  exact hfollows

theorem expectedOf_of_bindParameter {index : Nat} (h : bindParameter id index s = .ok u s') (x : ExprId) :
    s'.expectations.expectedOf x = s.expectations.expectedOf x := by
  obtain ⟨_, _, _, rfl⟩ := run_bindParameter h
  rfl

theorem recurTo_keepsOwn (h : (recurTo env levels).expr id s = .ok u s') (hS : s.exprs.Encloses S)
    (hparts : ∀ y ∈ (s.exprs.expr id).parts, S y) (hid : ¬S id)
    (hvalid : (s.expectations.expectedOf id).isValid = true) :
    s'.expectations.expectedOf id = s.expectations.expectedOf id := by
  cases levels with
  | zero => cases h
  | succ n =>
    have hsize : id < s.exprs.size := Nat.lt_of_not_le fun hge => hid (hS.free id hge)
    cases hkind : (s.exprs.expr id).placeholder? with
    | none =>
      have hfollows := (Conduct.agreeFrom_bindExprWith (@recurTo_conducts S (sparingConduct S) env n)
        (recurTo_derived n) hS hparts (Or.inr ⟨hvalid, hsize, hkind⟩)).2
      rw [show bindExprWith env (recurTo env n) id s = .ok u s' from h] at hfollows
      exact hfollows.kept id hid
    | some index =>
      have h : bindExprWith env (recurTo env n) id s = .ok u s' := h
      simp only [bindExprWith, run_bind, run_getNode] at h
      obtain ⟨node, _, ⟨hnode, rfl⟩, h⟩ := h
      have hparameter : node.kind = .parameter index := by
        rw [← Expr.eq_of_placeholder? hkind, Arena.expr, Arena.node_of_node? hnode]
      rw [hparameter] at h
      exact expectedOf_of_bindParameter h id

end

end SqlAnalysis
