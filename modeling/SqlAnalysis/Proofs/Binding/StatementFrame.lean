import SqlAnalysis.Proofs.Binding.InsertRows
import SqlAnalysis.Proofs.Binding.StatementParts

/-!
# What the binding of a statement leaves alone

* **`bind_confined`**: expressions that are no part of a statement stay as they are when it is bound.
-/

namespace SqlAnalysis

open BindM

variable {env : Accessor} {S : ExprId → Prop}

theorem Confined.of_appends {a a' : Arena} (h : a.Appends a') (hS : a.Encloses S) : Confined S a a' where
  size_le := h.size_le
  closed := (h.encloses hS).closed
  kept x hx := h.expr (Nat.lt_of_not_le fun hle => hx (hS.free x hle))

def confinedClauses (S : ExprId → Prop) : Clauses where
  Inv s := s.exprs.Encloses S
  Visits _ id := S id
  Fits _ := True
  Whole s t := s.exprs.Encloses S → Confined S s.exprs t.exprs
  Part s t := s.exprs.Encloses S → Confined S s.exprs t.exprs
  WholeFail _ _ _ := True
  PartFail _ _ _ := True
  inv_part hs h := (h hs).encloses hs
  inv_open hs := hs
  inv_sibling hs _ := hs
  visits_part _ _ hid := hid
  visits_operand hs hid he := hs.closed _ hid _ (by rw [he]; exact List.mem_singleton_self _)
  visits_yielded hs _ hbinds _ hin := (hbinds.confined hs hin).2
  fits_le _ _ := trivial
  whole_refl := .refl
  whole_trans h h' hs := (h hs).trans (h' ((h hs).encloses hs))
  part_trans h h' hs := (h hs).trans (h' ((h hs).encloses hs))
  part_of_whole h := h
  refused := trivial
  whole_fail _ _ := trivial
  part_fail _ _ := trivial
  part_of_fail _ := trivial
  relabel _ h hs :=
    ⟨h.size.symm.le, hs.closed.congr fun x => (h.node x).kind, fun x _ => (h.node x).kind⟩
  push _ hplain hleaf := .of_appends (.of_push hplain hleaf)
  Fills _ := True
  copy {s _ stored} _ _ _ := by
    cases hrun : onExprs (Arena.importTree stored.arena stored.root) s with
    | ok id t =>
      obtain ⟨_, himport, rfl⟩ := run_onExprs.mp hrun
      exact .of_appends (Arena.importFrom_appends himport).1
    | error e t => exact trivial
  visits_default hs _ h := hs.free _ (columnDefault_appends h).2.1
  serial _ := .refl
  temp _ := .refl
  scope _ _ _ := .refl
  close _ h := h
  close_fail _ _ := trivial
  restore _ _ h := h
  restore_fail _ _ _ := trivial

theorem endsBy_confined {α : Type} {act : BindM α} {s : BindState}
    (h : ∀ {r t}, act s = .ok r t → Confined S s.exprs t.exprs) :
    EndsBy (confinedClauses S).Whole (confinedClauses S).WholeFail s (act s) := by
  cases hrun : act s with
  | ok => exact fun _ => h hrun
  | error => exact trivial

theorem Recur.Derived.confined {rec : Recur} (hrec : rec.Derived env) : rec.Agree (confinedClauses S) rec where
  expr {_ id} hid _ hs := ⟨rfl, endsBy_confined fun hrun =>
    ((hrec.expr hrun).confined hs.1 (List.forall_mem_singleton.mpr (hs.2 id hid))).1⟩
  expecting {_ id} t hid s hs := ⟨rfl, endsBy_confined (s := s) fun hrun =>
    ((hrec.expr (s := { s with expectations := s.expectations.expect id t }) hrun).confined hs.1
      (List.forall_mem_singleton.mpr (hs.2 id hid))).1⟩
  query _ hq _ hs := ⟨rfl, endsBy_confined fun hrun =>
    ((hrec.query hrun).confined hs.1 fun x hx => hs.2 x (hq x hx)).1⟩
  branch _ hq _ hs := ⟨rfl, endsBy_confined fun hrun =>
    ((hrec.branch hrun).confined hs.1 fun x hx => hs.2 x (hq x hx)).1⟩

theorem bind_confined {p : Parsed} {parameters : List Value} {b : Bound}
    (h : (bind env p parameters).result = .ok b) (hS : p.exprs.Encloses S)
    (hexprs : ∀ x ∈ p.statement.exprs, S x) : Confined S p.exprs b.exprs := by
  obtain ⟨s, hrun, hstore, _⟩ := bind_run h
  have hderived : (recurTo env (bindLevels env p)).Derived env := recurTo_derived _
  have hagree := (Clauses.agree_bindStatementWith (S := S) hderived.confined hderived
    (fun _ _ _ => trivial) trivial hexprs (s := BindState.initial env p parameters) ⟨hS, fun _ hx => hx⟩).2
  rw [hrun] at hagree
  rw [hstore]
  exact hagree hS

end SqlAnalysis
