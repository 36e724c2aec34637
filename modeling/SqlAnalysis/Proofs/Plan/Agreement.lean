import SqlAnalysis.Proofs.Catalog.Numbering
import SqlAnalysis.Proofs.Plan.Attachment
import SqlAnalysis.Proofs.Plan.Provenance

/-!
# What FROM items are for binding and planning

A column of a bound statement names its table by alias and serial.  The plan reads that table under the
same alias, with one exception: a name in the base case of the recursive WITH entry of that name is bound
to what the name means outside, and planned as a reference to the entry.

* **`Reads.readsAs_iff`**: what the scans under the alias of a table reference are.
* **`from_items_agree_iff`**: for every column of a planned query block, the plan reads the table that the
  column was bound to exactly if the exception does not apply.
-/

namespace SqlAnalysis

open List

variable {c : Cte} {out : Lowered} {env : Accessor} {ctes : List VisibleCte}
  {own right : List String} {q : Select} {s s' : LowerState} {base : BaseTable}

namespace Plan

/-- A scan of the catalog table of a number. -/
def Scan.IsTable (id : Oid) : Scan → Prop
  | .table scan => scan.table.tableId = id
  | _ => False

/-- A reference to a WITH entry that has a column of a number. -/
def Scan.IsEntryWith (id : Oid) : Scan → Prop
  | .cte scan => ∃ c ∈ scan.columns, c.id = id
  | _ => False

/-- The rows of a derived table. -/
def Scan.IsDerived : Scan → Prop
  | .derived _ _ => True
  | _ => False

/-- Something is read under the alias, and all that is read under it is of one kind. -/
def ReadsAs (p : Plan) (knownAs : Alias) (kind : Scan → Prop) : Prop :=
  p.scansOf knownAs ≠ [] ∧ ∀ scan ∈ p.scansOf knownAs, kind scan

theorem mem_scansOf {p : Plan} {knownAs : Alias} {scan : Scan} :
    scan ∈ p.scansOf knownAs ↔ scan ∈ p.scans ∧ scan.knownAs = knownAs := by
  simp only [scansOf, mem_filter, decide_eq_true_eq]

end Plan

/-- A name in FROM under the alias is that of a recursive WITH entry in whose base case it stands. -/
def Lowered.Shadows (out : Lowered) (knownAs : Alias) : Prop :=
  ∃ u ∈ out.uses, u.IsOwn ∧ u.base.knownAs = knownAs

/-! ### Scans of a table reference -/

section

variable {R : Registry} {next : Nat} {uses : List NameUse} {p : Plan} {r : Reference}

theorem Registered.eq_of_knownAs (h : Registered R.references next) {r' : Reference}
    (hr : r ∈ R.references) (hr' : r' ∈ R.references) (heq : r'.table.knownAs = r.table.knownAs) :
    r' = r :=
  h.eq_of_serial hr' hr (congrArg Alias.serial heq)

theorem Reads.of_scansOf (h : Reads R uses p.scans) (hreg : Registered R.references next)
    (hr : r ∈ R.references) {scan : Plan.Scan} (hscan : scan ∈ p.scansOf r.table.knownAs) :
    (r.named = true → ∃ u ∈ uses, u.base.knownAs = r.table.knownAs) ∧
      (Stands r scan ∨ Overrides R.nextTemp r scan ∧
        ∃ u ∈ uses, u.IsOwn ∧ u.base.knownAs = r.table.knownAs) := by
  obtain ⟨hmem, hknown⟩ := Plan.mem_scansOf.mp hscan
  rcases h.explained scan hmem with hnone | ⟨r', hr', hknown', hexplains⟩
  · obtain ⟨_, hn, _⟩ := hreg.given r hr
    rw [hknown] at hnone
    cases hn.symm.trans hnone
  · cases hreg.eq_of_knownAs hr hr' (hknown'.trans hknown)
    rw [hknown] at hexplains
    exact hexplains

theorem Reads.readsAs_iff (h : Reads R uses p.scans) (hreg : Registered R.references next)
    (hr : r ∈ R.references) (hscan : p.scansOf r.table.knownAs ≠ []) {kind : Plan.Scan → Prop}
    (hstands : ∀ scan, Stands r scan → kind scan)
    (hover : ∀ scan, Overrides R.nextTemp r scan → ¬kind scan) :
    p.ReadsAs r.table.knownAs kind ↔ ¬∃ u ∈ uses, u.IsOwn ∧ u.base.knownAs = r.table.knownAs := by
  constructor
  · rintro ⟨_, hall⟩ ⟨u, hu, hown, hknown⟩
    obtain ⟨_, hr', _, hknown', hoverridden⟩ := h.answered u hu
    cases hreg.eq_of_knownAs hr hr' (hknown'.trans hknown)
    obtain ⟨scan, hmem, hscan, hover'⟩ := hoverridden hown
    exact hover scan hover' (hall scan (Plan.mem_scansOf.mpr ⟨hmem, hscan.trans hknown⟩))
  · intro hno
    refine ⟨hscan, fun scan hmem => ?_⟩
    rcases (h.of_scansOf hreg hr hmem).2 with hstands' | ⟨_, hown⟩
    · exact hstands scan hstands'
    · exact (hno hown).elim

/-! ### Kinds of table references -/

theorem Reads.table_iff (h : Reads R uses p.scans) (hreg : Registered R.references next)
    (hr : r ∈ R.references) (hscan : p.scansOf r.table.knownAs ≠ []) {databaseId tableId : Oid}
    {schema : Schema} (hsource : r.table.source = .regular databaseId tableId schema) :
    p.ReadsAs r.table.knownAs (·.IsTable tableId) ↔
      ¬∃ u ∈ uses, u.IsOwn ∧ u.base.knownAs = r.table.knownAs := by
  refine h.readsAs_iff hreg hr hscan (fun scan hstands => ?_) fun scan hover htable => ?_
  · cases hstands with
    | table hid =>
      cases hsource
      exact hid
    | entry | derived => cases hsource
  · cases hover
    exact htable

theorem Reads.entry_iff (h : Reads R uses p.scans) (hreg : Registered R.references next)
    (hr : r ∈ R.references) (hscan : p.scansOf r.table.knownAs ≠ [])
    (htemp : R.nextTemp ≤ Oid.tempMark) {columns : List DerivedColumn}
    (hsource : r.table.source = .derived columns) (hnamed : r.named = true) {c : DerivedColumn}
    (hc : c ∈ columns) :
    p.ReadsAs r.table.knownAs (·.IsEntryWith c.id) ↔
      ¬∃ u ∈ uses, u.IsOwn ∧ u.base.knownAs = r.table.knownAs := by
  refine h.readsAs_iff hreg hr hscan (fun scan hstands => ?_) fun scan hover hentry => ?_
  · cases hstands with
    | table => cases hsource
    | entry hserials =>
      cases hsource
      have hmem : c.knownAs.serial ∈ columns.map (·.knownAs.serial) := mem_map_of_mem hc
      obtain ⟨d, hd, hserial⟩ := mem_map.mp (hserials ▸ hmem)
      exact ⟨d, hd, by rw [DerivedColumn.id, DerivedColumn.id, hserial]⟩
    | derived => cases hnamed
  · cases hover with
    | intro hbelow hnew =>
      obtain ⟨d, hd, heq⟩ := hentry
      obtain ⟨_, hm, hlt⟩ := hbelow columns hsource c hc
      obtain ⟨_, hm', hlt', hother⟩ := hnew d.knownAs.serial (mem_map_of_mem hd)
      rw [DerivedColumn.id, DerivedColumn.id, hm, hm'] at heq
      -- numbers below the mark are told apart by the identifiers made from them
      have hsame := Oid.temp_injOn (hlt'.trans_le htemp) (hlt.trans_le htemp) heq
      refine hother columns hsource ?_
      rw [hm', hsame, ← hm]
      exact mem_map_of_mem hc

theorem Reads.derived_readsAs (h : Reads R uses p.scans) (hreg : Registered R.references next)
    (hr : r ∈ R.references) (hscan : p.scansOf r.table.knownAs ≠ []) (hnamed : r.named = false) :
    p.ReadsAs r.table.knownAs (·.IsDerived) := by
  refine ⟨hscan, fun scan hmem => ?_⟩
  rcases (h.of_scansOf hreg hr hmem).2 with hstands | ⟨hover, _⟩
  · cases hstands with
    | table | entry => cases hnamed
    | derived => exact trivial
  · cases hover
    cases hnamed

end

/-! ### Columns of planned blocks -/

/-- **Binding and planning agree on what every FROM item is**, with one exception.  Of every SELECT that
can be bound and planned, a column in the select list, WHERE, GROUP BY or HAVING of a planned query block
has an alias that the plan reads something under.  If the column was bound to a catalog table, that is a
scan of the table; if it was bound to a WITH entry, it is a reference to an entry that has the column; and
otherwise it is a derived table.  The first two hold exactly if the item is not the name of a recursive
WITH entry in the base case of that entry. -/
theorem from_items_agree_iff {env : Accessor} {p : Parsed} {parameters : List Value} {b : Bound}
    {q0 q : Select} {tree : Plan} (henv : env.Numbered) (hp : p.statement = .select q0)
    (hfresh : p.exprs.FreshQuery q0) (hb : (bind env p parameters).result = .ok b)
    (hq : b.statement = .select q) (htemp : (bind env p parameters).nextTemp ≤ Oid.tempMark)
    (htree : (lower (env.withNextTemp (bind env p parameters).nextTemp) b).result = .ok tree) :
    (∃ out, Derives (env.withNextTemp (bind env p parameters).nextTemp) b q out) ∧
    ∀ out, Derives (env.withNextTemp (bind env p parameters).nextTemp) b q out →
      ∀ block ∈ out.blocks, ∀ x ∈ block.query.clauses, ∀ y ref, b.exprs.Contains x y →
      b.exprs.expr y = .column ref → ∃ knownAs, ref.table = some knownAs ∧
        (ref.tableId.isValid = true →
          (tree.ReadsAs knownAs (·.IsTable ref.tableId) ↔ ¬out.Shadows knownAs)) ∧
        (ref.tableId.isValid = false → tree.ReadsAs knownAs (·.IsDerived) ∨
          (∃ u ∈ out.uses, u.base.knownAs = knownAs) ∧
            (tree.ReadsAs knownAs (·.IsEntryWith ref.columnId) ↔ ¬out.Shadows knownAs)) := by
  refine ⟨exists_derives hq htree, fun out hout block hblock x hx y ref hy hcolumn => ?_⟩
  obtain rfl : out.plan = tree := Except.ok.inj (hout.result.symm.trans htree)
  obtain ⟨R, _, _, hR, hreg, haccount⟩ := exists_account henv hp hfresh hb hq hout
  obtain ⟨c, rfl, _, hcovered⟩ := (haccount.columns block hblock x hx y hy).2 ref hcolumn
  obtain ⟨r, hr, ⟨depth, hc⟩, _, hscan, hknown⟩ := hcovered.resolve_left fun h =>
    absurd h.depth_lt (Nat.not_lt_zero _)
  have hreads : Reads R out.uses out.plan.scans := haccount.reads
  have hscans : out.plan.scansOf r.table.knownAs ≠ [] :=
    ne_nil_of_mem (Plan.mem_scansOf.mpr ⟨hscan, hknown⟩)
  have hvalid := (hreg.numbered r hr depth c hc).2
  refine ⟨r.table.knownAs, congrArg some (ScopeTable.knownAs_of_mem_columns hc), ?_⟩
  rw [ScopeTable.columns] at hc
  cases hsource : r.table.source with
  | regular =>
    rw [hsource] at hc
    obtain ⟨column, _, rfl⟩ := mem_map.mp hc
    rw [ScopeTable.isRegular, hsource] at hvalid
    refine ⟨fun _ => hreads.table_iff hreg hr hscans hsource, fun hinvalid => ?_⟩
    cases hvalid.symm.trans hinvalid
  | derived =>
    rw [hsource] at hc
    obtain ⟨_, hmem, rfl⟩ := mem_map.mp hc
    refine ⟨(fun hvalid => by cases hvalid), fun _ => ?_⟩
    cases hnamed : r.named with
    | false => exact Or.inl (hreads.derived_readsAs hreg hr hscans hnamed)
    | true =>
      have huse := (hreads.of_scansOf hreg hr (Plan.mem_scansOf.mpr ⟨hscan, hknown⟩)).1 hnamed
      exact Or.inr ⟨huse, hreads.entry_iff hreg hr hscans (hR ▸ htemp) hsource hnamed hmem⟩

/-! ### A name in its own base case -/

theorem Lowered.blocks_attachAll (out : Lowered) (bodies : List (VisibleCte × Lowered)) :
    out.blocks ⊆ (out.attachAll bodies).blocks :=
  attachAll_keeps (P := (out.blocks ⊆ ·.blocks)) (Subset.refl _) fun _ _ _ _ _ hl _ =>
    subset_append_of_subset_left _ hl

theorem Lowered.mem_blocks_attach {body : Lowered} {entry : VisibleCte} {scan : CteScan}
    {block : PlannedBlock} (hopen : .cteScan scan ∈ out.plan.subplans)
    (hname : scan.cte = entry.name) (hblock : block ∈ body.blocks) :
    block ∈ (out.attach entry body).blocks := by
  rcases out.attach_cases entry body with ⟨hnone, _⟩ | ⟨_, _, _, _, heq⟩
  · exact absurd hname (Plan.attachCte_eq_none.mp hnone _ hopen)
  · rw [heq]
    exact mem_append_right _ hblock

theorem Lowers.mem_blocks (h : Lowers env (.query ctes own right q out) s s') :
    ⟨q, namesBeside own q.ctes⟩ ∈ out.blocks := by
  cases h with
  | queryAlone _ _ hb =>
    refine Lowered.blocks_attachAll _ _ ?_
    cases hb
    exact mem_cons_self
  | queryUnion _ _ hb =>
    refine Lowered.blocks_attachAll _ _ (mem_append_left _ ?_)
    cases hb
    exact mem_cons_self

theorem Lowers.mem_blocks_entry (h : Lowers env (.query ctes own right q out) s s')
    (hctes : q.ctes = [c]) (hsource : q.source = some (.table base))
    (hschema : base.name.schema = none) (hname : base.name.name = c.name)
    (hfilter : q.filter = none) (hunion : q.union = none) :
    ⟨c.query, namesBeside (if c.recursive then c.name :: own else own) c.query.ctes⟩ ∈ out.blocks := by
  cases h with
  | queryUnion hu =>
    rw [hunion] at hu
    cases hu
  | queryAlone _ he hb =>
    rw [hctes] at he
    cases he with
    | @entriesCons _ _ _ _ v _ _ _ _ _ _ _ hv hq hrest =>
      cases hrest
      have hv := visibleCte_name hv
      cases hb with
      | @block _ _ _ _ _ _ _ limited _ _ _ _ hf hw hagg hlimit =>
        rw [hsource] at hf
        rw [hfilter] at hw
        cases hw
        cases hf with
        | fromSome hitem =>
          cases hitem with
          | table hbase =>
            have hfound : (v :: ctes).find? (·.name == base.name.name) = some v :=
              find?_cons_of_pos (by rw [hname, hv, beq_self_eq_true])
            -- the reference stays open up to the end of the block
            have hopen : Plan.cteScan (v.scan base.knownAs) ∈ limited.subplans := by
              refine finish_keeps hagg hlimit (Plan.cteScan (v.scan base.knownAs) ∈ ·.subplans) ?_
                (fun _ _ h => mem_cons_of_mem _ h) (fun _ _ _ _ _ _ h => mem_cons_of_mem _ h)
                fun _ _ _ _ h => mem_cons_of_mem _ h
              rcases lowerBaseTable_ok hbase with ⟨v', _, hv', rfl⟩ | ⟨_, hnone, _⟩
              · cases hfound.symm.trans hv'
                exact Plan.mem_subplans_self _
              · rw [hnone hschema] at hfound
                cases hfound
            exact Lowered.mem_blocks_attach hopen rfl hq.mem_blocks

/-- `WITH RECURSIVE t AS (SELECT a FROM t) SELECT a FROM t AS x` -/
def selfNamed : Parsed :=
  { statement := .select {
      ctes := [{ name := "t", recursive := true, query := {
        items := [0]
        source := some (.table (.named "t" "t")) } }]
      items := [1]
      source := some (.table (.named "t" "x")) }
    exprs := .ofExprs [.column { column := "a" }, .column { column := "a" }] }

/-- The WITH entry and the name of a query that has just one of each, without WHERE and UNION. -/
def Select.entryAndName? (q : Select) : Option (Cte × BaseTable) :=
  match q.ctes, q.source, q.filter, q.union with
  | [c], some (.table base), none, none => some (c, base)
  | _, _, _, _ => none

theorem Select.of_entryAndName? (h : q.entryAndName? = some (c, base)) :
    q.ctes = [c] ∧ q.source = some (.table base) ∧ q.filter = none ∧ q.union = none := by
  unfold entryAndName? at h
  split at h
  · rename_i hctes hsource hfilter hunion
    cases h
    exact ⟨hctes, hsource, hfilter, hunion⟩
  · cases h

/-- The entry has the name that the query reads from and the select list `0`.  That is a column of a
catalog table, and the plan refers to a WITH entry under its alias; the column `1` is none of a table. -/
def selfNamedFacts : Bool :=
  match (bind twoColumns selfNamed []).result with
  | .ok b =>
    match b.statement, (lower (twoColumns.withNextTemp (bind twoColumns selfNamed []).nextTemp) b).result with
    | .select q, .ok tree => q.items = [1] && q.entryAndName?.any fun x =>
      x.2.name.schema = none && x.2.name.name = x.1.name && x.1.query.items = [0] &&
      (b.exprs.expr 0).column?.any (fun ref => ref.tableId.isValid &&
        ref.table.any (· ∈ tree.cteScans.map (·.knownAs))) &&
      (b.exprs.expr 1).column?.any (!·.tableId.isValid)
    | _, _ => false
  | .error _ => false

theorem exists_selfNamed :
    ∃ b q tree c base ref ref', (bind twoColumns selfNamed []).result = .ok b ∧ b.statement = .select q ∧
      (lower (twoColumns.withNextTemp (bind twoColumns selfNamed []).nextTemp) b).result = .ok tree ∧
      q.items = [1] ∧ q.entryAndName? = some (c, base) ∧ base.name.schema = none ∧
      base.name.name = c.name ∧ c.query.items = [0] ∧ b.exprs.expr 0 = .column ref ∧
      ref.tableId.isValid = true ∧ (∃ scan ∈ tree.cteScans, ref.table = some scan.knownAs) ∧
      b.exprs.expr 1 = .column ref' ∧ ref'.tableId.isValid = false := by
  obtain ⟨b, q, tree, hb, hq, htree⟩ :=
    exists_of_isPlannedSelect (show isPlannedSelect twoColumns selfNamed = true by decide +kernel)
  have hfacts : selfNamedFacts = true := by decide +kernel
  simp only [selfNamedFacts, hb, hq, htree, Bool.and_eq_true, Option.any_eq_true, decide_eq_true_eq,
    Bool.not_eq_true', mem_map] at hfacts
  obtain ⟨hitems, ⟨c, base⟩, hparts, ⟨⟨⟨hschema, hname⟩, hbody⟩, ref, href, hvalid, knownAs, hknown, scan,
    hscan, rfl⟩, ref', href', hinvalid⟩ := hfacts
  exact ⟨b, q, tree, c, base, ref, ref', hb, hq, htree, hitems, hparts, hschema, hname, hbody,
    Expr.eq_column_of_column? href, hvalid, ⟨scan, hscan, hknown⟩, Expr.eq_column_of_column? href', hinvalid⟩

theorem selfNamed_agree_iff :
    ∃ b q tree out ref knownAs, (bind twoColumns selfNamed []).result = .ok b ∧ b.statement = .select q ∧
      (lower (twoColumns.withNextTemp (bind twoColumns selfNamed []).nextTemp) b).result = .ok tree ∧
      Derives (twoColumns.withNextTemp (bind twoColumns selfNamed []).nextTemp) b q out ∧
      b.exprs.expr 1 = .column ref ∧ ref.table = some knownAs ∧ ref.tableId.isValid = false ∧
      (tree.ReadsAs knownAs (·.IsDerived) ∨ (∃ u ∈ out.uses, u.base.knownAs = knownAs) ∧
        (tree.ReadsAs knownAs (·.IsEntryWith ref.columnId) ↔ ¬out.Shadows knownAs)) := by
  obtain ⟨b, q, tree, _, _, _, ref, hb, hq, htree, hitems, _, _, _, _, _, _, _, href, hinvalid⟩ :=
    exists_selfNamed
  obtain ⟨⟨out, hout⟩, hagree⟩ := from_items_agree_iff
    (Catalog.Reachable.accessor (.create (.table _ _ _) _ .initial)) rfl
    (Arena.freshQuery_of_isFreshQuery (show selfNamed.exprs.isFreshQuery 3 _ = true by decide +kernel))
    hb hq (show _ ≤ _ by decide +kernel) htree
  obtain ⟨knownAs, hknown, _, hderived⟩ := hagree out hout _ hout.lowers.mem_blocks 1
    (by simp [Select.clauses, hitems]) 1 ref (.here 1) href
  exact ⟨b, q, tree, out, ref, knownAs, hb, hq, htree, hout, href, hknown, hinvalid, hderived hinvalid⟩

/-- The column of the base case was bound to a table of the catalog, and the plan reads the WITH entry. -/
theorem selfNamed_reads_entry :
    ∃ b q tree out block ref knownAs, (bind twoColumns selfNamed []).result = .ok b ∧
      b.statement = .select q ∧
      (lower (twoColumns.withNextTemp (bind twoColumns selfNamed []).nextTemp) b).result = .ok tree ∧
      Derives (twoColumns.withNextTemp (bind twoColumns selfNamed []).nextTemp) b q out ∧
      block ∈ out.blocks ∧ 0 ∈ block.query.clauses ∧ b.exprs.expr 0 = .column ref ∧
      ref.table = some knownAs ∧ ref.tableId.isValid = true ∧
      ¬tree.ReadsAs knownAs (·.IsTable ref.tableId) := by
  obtain ⟨b, q, tree, _, _, ref, _, hb, hq, htree, _, hparts, hschema, hname, hbody, href, hvalid,
    ⟨scan, hscan, hknown⟩, _⟩ := exists_selfNamed
  obtain ⟨hctes, hsource, hfilter, hunion⟩ := Select.of_entryAndName? hparts
  obtain ⟨out, hout⟩ := exists_derives hq htree
  have hblock := hout.lowers.mem_blocks_entry hctes hsource hschema hname hfilter hunion
  refine ⟨b, q, tree, out, _, ref, scan.knownAs, hb, hq, htree, hout, hblock, ?_, href, hknown, hvalid, ?_⟩
  · simp [Select.clauses, hbody]
  · rintro ⟨_, hall⟩
    refine hall (.cte scan) (Plan.mem_scansOf.mpr ⟨?_, rfl⟩)
    rcases Plan.mem_cteScans.mp hscan with hopen | ⟨input, hinput⟩
    · exact mem_filterMap.mpr ⟨_, Plan.mem_openScans.mp hopen, rfl⟩
    · exact mem_filterMap.mpr ⟨_, Plan.mem_bodies.mp hinput, rfl⟩

end SqlAnalysis
