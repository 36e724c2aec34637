import SqlAnalysis.Proofs.Binding.InsertRows
import SqlAnalysis.Proofs.Plan.Ending

/-!
# Well-formed statements from parsing to planning

Binding and planning change the store of a statement while they walk it: nodes are added, operands
replaced, queries taken out and put back.  A well-formed statement stays well formed through all of it,
so neither runs in a circle nor meets a number without a node.

* **`bind_lower_wellFormed`**: both passes end, keep the nodes and leave a well-formed statement.
-/

namespace SqlAnalysis

/-- The nodes of a store stay, under their numbers and of their kinds; others may follow. -/
structure Arena.KeepsNodes (a a' : Arena) : Prop where
  size_le : a.size ≤ a'.size
  kind : ∀ x, x < a.size → (a'.expr x).ctorIdx = (a.expr x).ctorIdx

theorem Arena.Refines.keepsNodes {a a' : Arena} (h : a.Refines a') : a.KeepsNodes a' :=
  ⟨h.size_le, fun _ hx => h.kind hx⟩

/-- **A well-formed statement is bound and gets its plan, or is refused; it stays well formed.**  The
binding and the building of the plan, with any catalog, never run in a circle nor meet a number
without a node. -/
theorem bind_lower_wellFormed {env : Accessor} {p : Parsed} (hp : p.WellFormed)
    (henv : env.catalog.WellFormed) (parameters : List Value) :
    (∀ fault, (bind env p parameters).result = .error fault → ∃ d, fault = .refused d) ∧
    ∀ b, (bind env p parameters).result = .ok b →
      p.exprs.KeepsNodes b.exprs ∧ b.WellFormed ∧
      ∀ env',
        (∀ fault, (lower env' b).result = .error fault → ∃ d, fault = .refused d) ∧
        b.exprs.KeepsNodes (lower env' b).bound.exprs ∧ (lower env' b).bound.WellFormed := by
  refine ⟨fun fault h => bind_refused hp henv h, fun b hbound => ?_⟩
  obtain ⟨hrefines, hb⟩ := bind_refines hp henv hbound
  refine ⟨hrefines.keepsNodes, hb, fun env' => ⟨fun fault h => lower_refused hb h, ?_⟩⟩
  obtain ⟨hrefines', hb'⟩ := lower_refines env' hb
  exact ⟨hrefines'.keepsNodes, hb'⟩

/-! ### An INSERT with a default and a subquery -/

theorem StoredExpr.wellFormed_constant (v : Value) : (StoredExpr.constant v).WellFormed := by
  refine ⟨Arena.wellFormed_of_ordered fun x hx y hy => ?_, Nat.one_pos⟩
  have hzero : x = 0 := Nat.lt_one_iff.mp hx
  rw [hzero] at hy
  cases hy

/-- `t(a INTEGER DEFAULT 7, b INTEGER)` -/
def defaulted : Accessor :=
  .withTable "t"
    [{ name := "a", type := .integer, default := some (.constant (.integral .regular 7 rfl)) },
      { name := "b", type := .integer }]

/-- `INSERT INTO t (b) SELECT a FROM t WHERE EXISTS (SELECT b FROM t)` -/
def defaultedInsert : Parsed :=
  let t : TableRef := .table (.named "t" "t")
  { statement := .insert ⟨.named "t" "t", ["b"],
      .query { items := [0], source := some t, filter := some 3 }⟩
    exprs := .ofExprs [.column { column := "a" }, .column { column := "b" },
      .subquery { items := [1], source := some t }, .operate .exists [2]] }

theorem defaultedInsert_wellFormed :
    defaultedInsert.WellFormed ∧ defaulted.catalog.WellFormed ∧
      ∃ b, (bind defaulted defaultedInsert []).result = .ok b ∧
        defaultedInsert.exprs.KeepsNodes b.exprs ∧ b.WellFormed ∧
        (lower defaulted b).bound.WellFormed := by
  have hp : defaultedInsert.WellFormed :=
    ⟨Arena.wellFormed_of_ordered (by decide), by decide⟩
  have henv : defaulted.catalog.WellFormed := by
    refine Accessor.withTable_defaults fun column hcolumn stored hstored => ?_
    rcases List.mem_pair.mp hcolumn with rfl | rfl
    · cases hstored
      exact StoredExpr.wellFormed_constant _
    · cases hstored
  have hbound : (bind defaulted defaultedInsert []).result.isOk = true := by decide +kernel
  refine ⟨hp, henv, ?_⟩
  cases hb : (bind defaulted defaultedInsert []).result with
  | error =>
    rw [hb] at hbound
    cases hbound
  | ok b =>
    obtain ⟨hkeeps, hwell, hlower⟩ := (bind_lower_wellFormed hp henv []).2 b hb
    exact ⟨b, rfl, hkeeps, hwell, (hlower defaulted).2.2⟩

end SqlAnalysis
