import SqlAnalysis.Proofs.Catalog.Numbering
import SqlAnalysis.Proofs.Plan.Provenance

/-!
# The scope of filters

The filter that a WHERE clause becomes stands above all that its conditions read: a column in it belongs
to an enclosing query block, or its table is read below the filter.  The table references noted with a
condition are those of its columns.

* **`Arena.mem_aliasesOf`**: the table references noted with a condition.
* **`Fits.wellScoped`**: conditions whose columns are all within reach are well scoped.
* **`where_filters_wellScoped`**: in the plan of every SELECT, the filters from WHERE are the conditions
  of the query blocks, and well scoped.
-/

namespace SqlAnalysis

open List Arena

theorem Alias.mem_insertSorted {x y : Alias} {l : List Alias} :
    x ∈ Alias.insertSorted y l ↔ x = y ∨ x ∈ l := by
  induction l with
  | nil => rw [Alias.insertSorted, mem_singleton, or_iff_left not_mem_nil]
  | cons _ _ ih =>
    rw [Alias.insertSorted]
    split
    · next heq => rw [mem_cons, heq, or_self_left]
    · split
      · exact mem_cons
      · rw [mem_cons, ih, mem_cons, or_left_comm]

theorem Arena.mem_aliasesOf {a : Arena} {x : ExprId} {knownAs : Alias} :
    knownAs ∈ a.aliasesOf x ↔
      ∃ y ref, a.Contains x y ∧ a.expr y = .column ref ∧ ref.table = some knownAs := by
  have hsorted (l : List Alias) : knownAs ∈ l.foldr Alias.insertSorted [] ↔ knownAs ∈ l := by
    induction l with
    | nil => rfl
    | cons _ _ ih => rw [foldr_cons, Alias.mem_insertSorted, ih, mem_cons]
  rw [aliasesOf, hsorted, mem_filterMap]
  constructor
  · rintro ⟨y, hy, htable⟩
    obtain ⟨ref, hcolumn, htable⟩ := Option.bind_eq_some_iff.mp htable
    exact ⟨y, ref, (contains_of_mem_columnsFrom hy).1, Expr.eq_column_of_column? hcolumn, htable⟩
  · rintro ⟨y, ref, hy, he, htable⟩
    exact ⟨y, mem_columns_of_contains hy (by rw [he]; rfl), by rw [he]; exact htable⟩

/-! ### Well-scoped filters -/

/-- A filter with its input has the conditions of the WHERE clause of a query block.  Every column in
them belongs to an enclosing block or is read under its alias in the input, and the aliases noted with
each condition are those of its columns. -/
def WellScoped (a : Arena) (block : PlannedBlock) (w : List Predicate × Plan) : Prop :=
  ∃ filter depth, block.query.filter = some filter ∧ block.query.depth = some depth ∧
    w.1.map (·.expr) = a.conjuncts filter ∧ ∀ predicate ∈ w.1,
      (∀ y ref, a.Contains predicate.expr y → a.expr y = .column ref →
        (∃ d, (a.node y).depth = some d ∧ d < depth) ∨
          ∃ scan ∈ w.2.scans, ref.table = some scan.knownAs) ∧
      ∀ knownAs, knownAs ∈ predicate.aliases ↔
        ∃ y ref, a.Contains predicate.expr y ∧ a.expr y = .column ref ∧ ref.table = some knownAs

theorem Fits.wellScoped {bound a : Arena} {R : Registry} {K : List ExprId} {block : PlannedBlock}
    {w : List Predicate × Plan} (h : Fits bound a R K block w) (ht : Tracks bound a) :
    WellScoped a block w := by
  obtain ⟨filter, Γ, hfilter, hdepth, hpredicates, hplaced⟩ := h
  refine ⟨filter, Γ.length, hfilter, hdepth, ?_, fun predicate hmem => ?_⟩
  · rw [hpredicates, predicates, map_map]
    exact map_id _
  · rw [hpredicates] at hmem
    obtain ⟨c, hc, rfl⟩ := mem_map.mp hmem
    refine ⟨fun y ref hy hcolumn => ?_, fun knownAs => mem_aliasesOf⟩
    obtain ⟨_, rfl, hrecorded, hcovered⟩ := (hplaced c hc y hy).2 ref hcolumn
    rcases hcovered with hresolves | ⟨r, _, ⟨_, hcolumns⟩, scan, hscan, hknown⟩
    · exact Or.inl ⟨_, (ht.depth y).trans hrecorded, hresolves.depth_lt⟩
    · refine Or.inr ⟨scan, hscan, congrArg some ?_⟩
      rw [hknown, ScopeTable.knownAs_of_mem_columns hcolumns]

/-- **WHERE filters are well scoped.**  In the plan of every SELECT that can be bound and planned, every
query block with a WHERE clause has a filter with its conditions, every filter that does not come from
HAVING is that of a query block, and all of them are well scoped. -/
theorem where_filters_wellScoped {env : Accessor} {p : Parsed} {parameters : List Value} {b : Bound}
    {q0 q : Select} {tree : Plan} (henv : env.Numbered) (hp : p.statement = .select q0)
    (hfresh : p.exprs.FreshQuery q0) (hb : (bind env p parameters).result = .ok b)
    (hq : b.statement = .select q)
    (htree : (lower (env.withNextTemp (bind env p parameters).nextTemp) b).result = .ok tree) :
    (∃ out, Derives (env.withNextTemp (bind env p parameters).nextTemp) b q out) ∧
    ∀ out, Derives (env.withNextTemp (bind env p parameters).nextTemp) b q out →
      (∀ block ∈ out.blocks, block.query.filter.isSome = true → ∃ w ∈ tree.wheres,
        WellScoped (lower (env.withNextTemp (bind env p parameters).nextTemp) b).bound.exprs block w) ∧
      ∀ w ∈ tree.wheres, ∃ block ∈ out.blocks,
        WellScoped (lower (env.withNextTemp (bind env p parameters).nextTemp) b).bound.exprs block w := by
  refine ⟨exists_derives hq htree, fun out hout => ?_⟩
  obtain rfl : out.plan = tree := Except.ok.inj (hout.result.symm.trans htree)
  obtain ⟨_, _, _, _, _, haccount⟩ := exists_account henv hp hfresh hb hq hout
  have htracks := (hout.lowers.reachesBack (.refl b.exprs)).1
  constructor
  · intro block hblock hfilter
    obtain ⟨w, hw, hfits⟩ := haccount.filtered block hblock hfilter
    exact ⟨w, hw, hfits.wellScoped htracks⟩
  · intro w hw
    obtain ⟨block, hblock, hfits⟩ := haccount.filters w hw
    exact ⟨block, hblock, hfits.wellScoped htracks⟩

/-- `SELECT a FROM t WHERE a = (SELECT x.a FROM t AS x WHERE x.b = t.b) AND b = 1` -/
def correlatedPair : Parsed :=
  { statement := .select {
      items := [0]
      source := some (.table (.named "t" "t"))
      filter := some 1 }
    exprs := .ofExprs [
      .column { column := "a" },
      .connect .and [2, 9],
      .compare .equal 3 4,
      .column { column := "a" },
      .subquery {
        items := [5]
        source := some (.table (.named "t" "x"))
        filter := some 6 },
      .columnOf "x" "a",
      .compare .equal 7 8,
      .columnOf "x" "b",
      .columnOf "t" "b",
      .compare .equal 10 11,
      .column { column := "b" },
      .constant (.ofByte 1)] }

def correlatedPairFacts : Bool :=
  match (bind twoColumns correlatedPair []).result with
  | .ok b =>
    match (lower (twoColumns.withNextTemp (bind twoColumns correlatedPair []).nextTemp) b).result with
    | .ok tree => (tree.wheres.map fun w => w.1.map (·.expr)) = [[2, 9], [6]]
    | .error _ => false
  | .error _ => false

theorem correlatedPair_wellScoped :
    ∃ b q tree out, (bind twoColumns correlatedPair []).result = .ok b ∧ b.statement = .select q ∧
      (lower (twoColumns.withNextTemp (bind twoColumns correlatedPair []).nextTemp) b).result = .ok tree ∧
      Derives (twoColumns.withNextTemp (bind twoColumns correlatedPair []).nextTemp) b q out ∧
      (tree.wheres.map fun w => w.1.map (·.expr)) = [[2, 9], [6]] ∧
      ∀ w ∈ tree.wheres, ∃ block ∈ out.blocks, WellScoped (lower (twoColumns.withNextTemp
        (bind twoColumns correlatedPair []).nextTemp) b).bound.exprs block w := by
  obtain ⟨b, q, tree, hb, hq, htree⟩ :=
    exists_of_isPlannedSelect (show isPlannedSelect twoColumns correlatedPair = true by decide +kernel)
  have hfacts : correlatedPairFacts = true := by decide +kernel
  simp only [correlatedPairFacts, hb, htree, decide_eq_true_eq] at hfacts
  obtain ⟨⟨out, hout⟩, hscoped⟩ := where_filters_wellScoped
    (Catalog.Reachable.accessor (.create (.table _ _ _) _ .initial)) rfl
    (freshQuery_of_isFreshQuery (show correlatedPair.exprs.isFreshQuery 13 _ = true by decide +kernel))
    hb hq htree
  exact ⟨b, q, tree, out, hb, hq, htree, hout, hfacts, (hscoped out hout).2⟩

end SqlAnalysis
