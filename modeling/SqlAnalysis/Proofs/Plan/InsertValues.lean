import SqlAnalysis.Proofs.Binding.InsertMeaning
import SqlAnalysis.Proofs.Plan.Literals

/-!
# `INSERT ... VALUES`

The rows of an `INSERT ... VALUES` are put into the order of the target's columns when the statement
is bound, with defaults for what is left out, and the plan of the statement has the rows that were
bound.

* **`arrangeRows_fills`**: every column of every row is filled from the value given for it.
* **`insert_values_normalized`**: what a bound `INSERT ... VALUES` holds, and when it has a plan.
-/

namespace SqlAnalysis

open BindM Text List Arena

variable {i : Nat} {a a' : Arena} {rows rows' : List (List ExprId)} {names : List String}
  {row : List ExprId} {column : Column} {schema : Schema} {id root : ExprId} {u : Unit}
  {env : Accessor}

/-! ### Values of their own -/

namespace Arena

variable {ids K : List ExprId} {x y z : ExprId}

theorem Uses.reaches (h : a.Uses ids K) (hx : x ∈ K) (hy : a.Reaches x y) : y ∈ K := by
  induction hy with
  | refl => exact hx
  | tail _ hy ih => exact h.parts ih hy

theorem Uses.disjoint (h : a.Uses ids K) (hK : K.Nodup) :
    ids.Pairwise fun v w => ∀ z, a.Reaches v z → ¬a.Reaches w z := by
  induction h with
  | nil => exact .nil
  | @cons _ _ _ _ hlt hparts hrest _ ih =>
    obtain ⟨hid, hnodup⟩ := nodup_cons.mp hK
    obtain ⟨_, hR, hapart⟩ := nodup_append.mp hnodup
    refine .cons (fun w hw z hz hz' => ?_) (ih hR)
    have hfirst := (Uses.cons hlt hparts .nil).reaches mem_cons_self hz
    have hlater := hrest.reaches (hrest.mem hw) hz'
    rw [append_nil] at hfirst
    rcases mem_cons.mp hfirst with rfl | hfirst
    · exact hid (mem_append_right _ hlater)
    · exact hapart z hfirst z hlater rfl

theorem Uses.proper (h : a.Uses ids K) (hK : K.Nodup) (hx : x ∈ K) (hz : z ∈ (a.expr x).parts) :
    ¬a.Reaches z x := by
  induction h with
  | nil => cases hx
  | @cons _ _ _ _ _ hparts _ ihp ih =>
    obtain ⟨hid, hnodup⟩ := nodup_cons.mp hK
    obtain ⟨hP, hR, _⟩ := nodup_append.mp hnodup
    rcases mem_cons.mp hx with rfl | hx
    · exact fun hreach => hid (mem_append_left _ (hparts.reaches (hparts.mem hz) hreach))
    · exact (mem_append.mp hx).elim (ihp hP) (ih hR)

end Arena

theorem mem_row_of_mem_rowValues {index : Nat} {v : ExprId}
    (h : some v ∈ rowValues names row index schema) : v ∈ row := by
  obtain ⟨_, _, _, hgiven⟩ := mem_rowValues_iff.mp h
  obtain ⟨_, _, hv⟩ := Option.bind_eq_some_iff.mp hgiven
  exact mem_of_getElem? hv

theorem insertPosition_ne {j p q : Nat} {c d : Column} (hp : insertPosition names i c = some p)
    (hq : insertPosition names j d = some q) (hij : i ≠ j) (hname : c.name ≠ d.name) : p ≠ q := by
  rintro rfl
  unfold insertPosition at hp hq
  split at hp
  · rw [if_pos ‹_›] at hq
    exact hij ((Option.some.inj hp).trans (Option.some.inj hq).symm)
  · rw [if_neg ‹_›] at hq
    obtain ⟨_, hc, _⟩ := findIdx?_eq_some_iff_getElem.mp hp
    obtain ⟨_, hd, _⟩ := findIdx?_eq_some_iff_getElem.mp hq
    exact hname ((eq_of_beq hc).symm.trans (eq_of_beq hd))

theorem pairwise_rowValues {R : ExprId → ExprId → Prop} (hsymm : ∀ {v w}, R v w → R w v)
    (hnames : (schema.map (·.name)).Nodup) (hrow : row.Pairwise R) (index : Nat) :
    (rowValues names row index schema).Pairwise fun x y => ∀ v ∈ x, ∀ w ∈ y, R v w := by
  induction schema generalizing index with
  | nil => exact .nil
  | cons column rest ih =>
    obtain ⟨hcolumn, hrest⟩ := nodup_cons.mp hnames
    refine .cons (fun y hy v hv w hw => ?_) (ih hrest _)
    obtain ⟨i, c, hc, rfl⟩ := mem_rowValues_iff.mp hy
    obtain ⟨p, hp, hv⟩ := Option.bind_eq_some_iff.mp hv
    obtain ⟨q, hq, hw⟩ := Option.bind_eq_some_iff.mp hw
    have hname : column.name ≠ c.name := by
      intro heq
      exact hcolumn (mem_map.mpr ⟨c, mem_of_getElem? hc, heq.symm⟩)
    obtain ⟨hplt, rfl⟩ := List.getElem?_eq_some_iff.mp hv
    obtain ⟨hqlt, rfl⟩ := List.getElem?_eq_some_iff.mp hw
    have hall := pairwise_iff_getElem.mp hrow
    rcases Nat.lt_or_gt_of_ne (insertPosition_ne hp hq (by omega) hname) with hlt | hgt
    · exact hall p q hplt hqlt hlt
    · exact hsymm (hall q p hqlt hplt hgt)

theorem Arena.TreeShaped.apart (h : a.TreeShaped rows.flatten)
    (hnames : (schema.map (·.name)).Nodup) (names : List String) :
    a.Apart (rows.flatMap (rowValues names · 0 schema)) := by
  obtain ⟨K, huses, hK⟩ := h
  have hmem {v : ExprId} (hv : some v ∈ rows.flatMap (rowValues names · 0 schema)) : v ∈ K := by
    obtain ⟨row, hrow, hv⟩ := mem_flatMap.mp hv
    exact huses.mem (mem_flatten.mpr ⟨row, hrow, mem_row_of_mem_rowValues hv⟩)
  obtain ⟨hrows, hacross⟩ := pairwise_flatten.mp (huses.disjoint hK)
  refine ⟨fun hv hy => huses.lt_size (huses.reaches (hmem hv) hy),
    fun hv hy hz => huses.proper hK (huses.reaches (hmem hv) hy) hz,
    pairwise_flatMap.mpr ⟨fun row hrow => ?_, hacross.imp fun hapart x hx y hy v hv w hw => ?_⟩⟩
  · exact pairwise_rowValues (fun hapart z hz hz' => hapart z hz' hz) hnames (hrows row hrow) 0
  · exact hapart v (mem_row_of_mem_rowValues (hv ▸ hx)) w (mem_row_of_mem_rowValues (hw ▸ hy))

/-! ### What stands for a column -/

/-- What is written for a column: the expression at its place in the column list or, if there is no
list, at its place in the schema. -/
inductive WrittenFor (names : List String) (row : List ExprId) (i : Nat) (column : Column) :
    Option ExprId → Prop where
  | listed {p : Nat} {v : ExprId} :
    names[p]? = some column.name → row[p]? = some v → WrittenFor names row i column (some v)
  | placed {v : ExprId} : names = [] → row[i]? = some v → WrittenFor names row i column (some v)
  | omitted : names ≠ [] → column.name ∉ names → WrittenFor names row i column none

theorem writtenFor_insertPosition
    (hlength : row.length = if names.isEmpty then schema.length else names.length)
    (hcolumn : schema[i]? = some column) :
    WrittenFor names row i column ((insertPosition names i column).bind (row[·]?)) := by
  obtain ⟨hi, _⟩ := List.getElem?_eq_some_iff.mp hcolumn
  unfold insertPosition
  by_cases hempty : names.isEmpty = true
  · rw [if_pos hempty] at hlength ⊢
    have hget : row[i]? = some (row[i]) := getElem?_eq_getElem (by omega)
    rw [Option.bind_some, hget]
    exact .placed (isEmpty_iff.mp hempty) hget
  · rw [if_neg hempty] at hlength ⊢
    cases hfind : names.findIdx? (· == column.name) with
    | none =>
      refine .omitted (fun hnil => hempty (isEmpty_iff.mpr hnil)) fun hmem => ?_
      have hnone := findIdx?_eq_none_iff.mp hfind column.name hmem
      rw [beq_self_eq_true] at hnone
      cases hnone
    | some p =>
      obtain ⟨hp, hname, _⟩ := findIdx?_eq_some_iff_getElem.mp hfind
      have hget : row[p]? = some (row[p]) := getElem?_eq_getElem (by omega)
      rw [Option.bind_some, hget]
      refine .listed (p := p) ?_ hget
      rw [getElem?_eq_getElem hp, eq_of_beq hname]

/-- The binding that leads from the store `a` to `a'` promotes the expression to the type of the column if
it is a literal. -/
def Column.Promotes (column : Column) (a a' : Arena) (id : ExprId) : Prop :=
  ∀ v, a.expr id = .constant v → ∃ w, v.promote column.type = .ok w ∧ a'.expr id = .constant w

/-- What stands for a column that is left out: a new copy of its default, bound and without an outer
cast, or NULL if there is no default and the column takes it.  The statement had the store `a` and
has the store `a'` now. -/
inductive Column.Filled (column : Column) (a a' : Arena) (id : ExprId) : Prop where
  | copied {stored : StoredExpr} {a0 a1 : Arena} {depth : Nat} {root : ExprId} :
    column.default = some stored → a.size ≤ a0.size → a0.Appends a1 → a0.size ≤ root →
    stored.arena.CopyOf a1 depth stored.root root → a1.Sheds column.type root id → Evolves a1 a' →
    column.Promotes a1 a' id → Filled column a a' id
  | null : column.default = none → column.nullable = true → a.size ≤ id →
    a'.expr id = .constant .null → a'.typeOf id = column.type → Filled column a a' id

/-- The value of a column in a bound row: what is written, without an outer cast to the column's type,
or what stands for a column that is left out. -/
inductive Column.Normalized (column : Column) (a a' : Arena) : Option ExprId → ExprId → Prop where
  | written {v id : ExprId} : a.expr v ≠ .default → a.Sheds column.type v id →
    column.Promotes a a' id → Normalized column a a' (some v) id
  | marked {v id : ExprId} :
    a.expr v = .default → column.Filled a a' id → Normalized column a a' (some v) id
  | omitted {id : ExprId} : column.Filled a a' id → Normalized column a a' none id

section

variable {levels : Nat} {s s' : BindState}

theorem bindItem_literal {v : Value} (h : bindItem (recurTo env levels) id s = .ok u s')
    (hv : s.exprs.expr id = .constant v) (hvalid : (s.expectations.expectedOf id).isValid = true) :
    ∃ w, v.promote (s.expectations.expectedOf id) = .ok w ∧ s'.exprs.expr id = .constant w := by
  simp only [bindItem, run_bind, finishExpr, run_modifyExprs] at h
  obtain ⟨_, s1, hexpr, rfl⟩ := h
  show ∃ w, _ ∧ (s1.exprs.finish id).expr id = _
  rw [expr_finish]
  cases levels with
  | zero => cases hexpr
  | succ levels =>
    have hexpr : bindExpr env (levels + 1) id s = .ok _ s1 := hexpr
    simp only [bindExpr, bindExprWith, run_bind, run_getNode] at hexpr
    obtain ⟨node, _, ⟨hnode, rfl⟩, hexpr⟩ := hexpr
    have hkind : node.kind = .constant v := by rw [← hv, expr, node_of_node? hnode]
    simp only [hkind, bindConstant, run_bind, run_expectedOf] at hexpr
    obtain ⟨_, _, ⟨rfl, rfl⟩, hexpr⟩ := hexpr
    simp only [hvalid, if_true, run_bind, run_ofExcept, run_modifyExprs] at hexpr
    obtain ⟨w, _, ⟨hw, rfl⟩, rfl⟩ := hexpr
    refine ⟨w, hw, ?_⟩
    show ((s.exprs.setExpr id (.constant w)).setType id _).expr id = _
    rw [expr_setType, setExpr, expr,
      node_update, if_pos ⟨rfl, lt_size_of_node? hnode⟩]

section

variable {t t1 s1 : BindState} (hvalid : column.type.isValid = true)
  (hitem : bindItem (recurTo env levels) id
    { t1 with expectations := t1.expectations.expect id column.type } = .ok u s1)
  (hexpr : s'.exprs.expr id = s1.exprs.expr id)

include hvalid hitem hexpr

theorem promotes_of_bindItem : column.Promotes t1.exprs s'.exprs id := fun v hv => by
  have hexpected : (t1.expectations.expect id column.type).expectedOf id = column.type := by simp
  rw [hexpr]
  have hliteral := bindItem_literal (v := v) hitem hv (by rw [hexpected]; exact hvalid)
  rwa [hexpected] at hliteral

theorem filled_of_columnDefault (hsize : a.size ≤ t.exprs.size)
    (hdefault : columnDefault column t = .ok root t1) (hsheds : t1.exprs.Sheds column.type root id)
    (hevolves : Evolves s1.exprs s'.exprs)
    (htype : (s'.exprs.expr id).isLiteral = true → s'.exprs.typeOf id = column.type) :
    column.Filled a s'.exprs id := by
  have hpromotes := promotes_of_bindItem hvalid hitem hexpr
  obtain ⟨happends, hroot, _, _⟩ := columnDefault_appends hdefault
  have hbound : Evolves t1.exprs s1.exprs := (bindItem_progress (recurTo_derived levels) hitem).toEvolves
  rcases run_columnDefault hdefault with
    ⟨_, _, hstored, himport, rfl⟩ | ⟨hstored, hnullable, rfl, rfl⟩
  · exact .copied hstored hsize happends hroot (forall₂_cons.mp (importFrom_imports himport).copyOf).1 hsheds
      (hbound.trans hevolves) hpromotes
  · have hnull : (t.exprs.push { ExprNode.ofExpr (.constant .null) with type := column.type }).2.expr
        t.exprs.size = .constant .null := by
      rw [expr, node_push_size]
      rfl
    obtain rfl : id = t.exprs.size := by
      rcases hsheds with hcast | ⟨hid, _⟩
      · cases hnull.symm.trans hcast
      · exact hid
    obtain ⟨w, hw, hfinal⟩ := hpromotes .null hnull
    obtain rfl : Value.null = w := by
      rw [Value.promote, if_pos (by simp [Value.isNull])] at hw
      exact Except.ok.inj hw
    exact .null hstored hnullable hsize hfinal (htype (by rw [hfinal]; rfl))

end

theorem FilledFrom.normalized {given : Option ExprId} (h : FilledFrom env levels a given column id s')
    (hvalid : column.type.isValid = true)
    (htype : (s'.exprs.expr id).isLiteral = true → s'.exprs.typeOf id = column.type) :
    column.Normalized a s'.exprs given id := by
  obtain ⟨_, value, _, _, hsize, hkept, hfrom, hrun, hevolves, hexpr⟩ := h.run
  obtain ⟨value', _, hvalue, hsheds, hitem⟩ := coerceToColumn_sheds hrun
  rcases hfrom with ⟨rfl, rfl⟩ | ⟨rfl, hdefault⟩
  · have hsame := hkept value rfl value .refl
    rcases hvalue with ⟨hmark, hdefault⟩ | ⟨hmark, rfl, rfl⟩
    · refine .marked (hsame ▸ hmark) ?_
      exact filled_of_columnDefault hvalid hitem hexpr hsize hdefault hsheds hevolves htype
    · rw [hsame] at hmark
      unfold Sheds at hsheds
      rw [hsame] at hsheds
      refine .written hmark hsheds fun v hv => promotes_of_bindItem hvalid hitem hexpr v ?_
      -- what is bound is the expression that is written or, without its cast, the operand of it
      have hreach : a.Reaches value' id := by
        rcases hsheds with hcast | ⟨rfl, _⟩
        · exact .single (by rw [Arena.Refers, hcast]; exact mem_singleton_self _)
        · exact .refl
      exact (hkept value' rfl id hreach).trans hv
  · have hgrown := hsize.trans (columnDefault_appends hdefault).1.size_le
    -- a default that is the marker itself would be replaced once more
    rcases hvalue with ⟨_, hdefault'⟩ | ⟨_, rfl, rfl⟩
    · exact .omitted (filled_of_columnDefault hvalid hitem hexpr hgrown hdefault' hsheds hevolves htype)
    · exact .omitted (filled_of_columnDefault hvalid hitem hexpr hsize hdefault hsheds hevolves htype)

theorem arrangeRows_fills (hapart : a.Apart (rows.flatMap (rowValues names · 0 schema)))
    (hawaits : a.Awaits (rows.flatMap (rowValues names · 0 schema)) s.exprs)
    (h : rows.mapM (arrangeRow (recurTo env levels) names schema) s = .ok rows' s') :
    Forall₂ (fun row row' =>
      row.length = (if names.isEmpty then schema.length else names.length) ∧
      row'.length = schema.length ∧
      ∀ {i column id}, schema[i]? = some column → row'[i]? = some id →
        FilledFrom env levels a ((insertPosition names i column).bind (row[·]?)) column id s') rows rows' ∧
    a.Spares (rows.flatMap (rowValues names · 0 schema)) s s' := by
  induction rows generalizing s rows' with
  | nil =>
    obtain ⟨rfl, rfl⟩ := run_mapM_nil.mp h
    exact ⟨.nil, fun _ _ _ => ⟨rfl, rfl⟩⟩
  | cons _ rest ih =>
    obtain ⟨_, s1, _, hrow, hrest, rfl⟩ := run_mapM_cons.mp h
    obtain ⟨hlength, hrow⟩ := arrangeRow_run hrow
    rw [flatMap_cons] at hapart hawaits ⊢
    have hnow := hapart.sublist (sublist_append_left _ _)
    have hlater := hapart.sublist (sublist_append_right _ _)
    have hdisjoint := (pairwise_append.mp hapart.disjoint).2.2
    obtain ⟨hlength', hfills, hspares⟩ := arrangeRowFrom_fills hnow
      ⟨hawaits.size_le, fun hv => hawaits.kept (mem_append_left _ hv)⟩ hrow
    have hsize : s.exprs.size ≤ s1.exprs.size :=
      (arrangeRowFrom_progress (recurTo_derived levels) hrow).size_le
    have hawaits' : a.Awaits (rest.flatMap (rowValues names · 0 schema)) s1.exprs := by
      refine ⟨hawaits.size_le.trans hsize, fun {w y} hw hy => ?_⟩
      have hlt := (hlater.lt_size hw hy).trans_le hawaits.size_le
      rw [(hspares y hlt fun v hv hreach => hdisjoint _ hv _ hw v rfl w rfl y hreach hy).2,
        hawaits.kept (mem_append_right _ hw) hy]
    obtain ⟨hrows, hspares'⟩ := ih hlater hawaits' hrest
    have hevolves : Evolves s1.exprs s'.exprs :=
      (arrangeRows_progress (recurTo_derived levels) hrest).toEvolves
    refine ⟨.cons ⟨hlength, hlength', fun {i column id} hcolumn hid => ?_⟩ hrows, fun x hx hreach => ?_⟩
    · have hkept := (hfills hcolumn hid).keep hevolves hspares' (fun hw => hlater.lt_size hw)
        fun v hv w hw => hdisjoint _ (mem_rowValues_iff.mpr ⟨_, _, hcolumn, by rw [Nat.zero_add]⟩) _ hw v hv w rfl
      rwa [Nat.zero_add] at hkept
    · have hearly := hspares x hx fun v hv => hreach v (mem_append_left _ hv)
      have hlate := hspares' x (hx.trans_le hsize) fun v hv => hreach v (mem_append_right _ hv)
      exact ⟨hlate.1.trans hearly.1, hlate.2.trans hearly.2⟩

end

/-! ### Plans -/

theorem Schema.column?_of_nodup (hnames : (schema.map (·.name)).Nodup) (hcolumn : column ∈ schema) :
    schema.column? column.name = some column := by
  induction schema with
  | nil => cases hcolumn
  | cons c _ ih =>
    obtain ⟨hc, hrest⟩ := nodup_cons.mp hnames
    unfold column? at ih ⊢
    rw [find?_cons]
    rcases mem_cons.mp hcolumn with rfl | hcolumn
    · rw [beq_self_eq_true]
    · have hne : (c.name == column.name) = false :=
        beq_eq_false_iff_ne.mpr fun heq => hc (mem_map.mpr ⟨column, hcolumn, heq.symm⟩)
      rw [hne]
      exact ih hrest hcolumn

theorem requireColumns_of_nodup (hnames : (schema.map (·.name)).Nodup) (table : String) :
    (schema.map (·.name)).mapM (requireColumn schema table) = .ok schema := by
  have hsome {columns : List Column} (hsub : ∀ column ∈ columns, column ∈ schema) :
      (columns.map (·.name)).mapM (requireColumn schema table) = .ok columns := by
    induction columns with
    | nil => rfl
    | cons _ _ ih =>
      obtain ⟨hcolumn, hrest⟩ := forall_mem_cons.mp hsub
      rw [map_cons, mapM_cons, requireColumn, Schema.column?_of_nodup hnames hcolumn, ih hrest]
      rfl
  exact hsome fun _ h => h

theorem checkRow_iff (hlength : row.length = schema.length) :
    checkRow a schema row = .ok () ↔ ∀ (i : Nat) (column : Column) (id : ExprId),
      schema[i]? = some column → row[i]? = some id → column.nullable = false →
        (a.expr id).isNull = false := by
  unfold checkRow
  rw [if_neg (by omega), if_neg (by omega)]
  split
  · rename_i value column hfind
    obtain ⟨i, hi⟩ := getElem?_of_mem (mem_of_find?_eq_some hfind)
    obtain ⟨hid, hcolumn⟩ := getElem?_zip_eq_some.mp hi
    have hbad := find?_some hfind
    simp only [Bool.and_eq_true, Bool.not_eq_true'] at hbad
    refine ⟨nofun, fun h => ?_⟩
    have hgood := h i column value hcolumn hid hbad.1
    rw [hbad.2] at hgood
    cases hgood
  · rename_i hfind
    refine ⟨fun _ i column id hcolumn hid hnullable => ?_, fun _ => rfl⟩
    have hzip : (row.zip schema)[i]? = some (id, column) := getElem?_zip_eq_some.mpr ⟨hid, hcolumn⟩
    have hgood := find?_eq_none.mp hfind _ (mem_of_getElem? hzip)
    simpa [hnullable] using hgood

theorem run_forM_checkRow {s t : LowerState} {u : PUnit} :
    (rows.forM fun row => LowerM.ofExcept (checkRow a schema row)) s = .ok u t ↔
      (∀ row ∈ rows, checkRow a schema row = .ok ()) ∧ s = t := by
  induction rows generalizing s with
  | nil =>
    rw [run_forM_nil]
    exact ⟨fun h => ⟨forall_mem_nil _, h⟩, And.right⟩
  | cons _ _ ih =>
    rw [run_forM_cons]
    simp only [LowerM.run_ofExcept, ih, forall_mem_cons]
    constructor
    · rintro ⟨_, ⟨hrow, rfl⟩, hrest, ht⟩
      exact ⟨⟨hrow, hrest⟩, ht⟩
    · rintro ⟨⟨hrow, hrest⟩, ht⟩
      exact ⟨s, ⟨hrow, rfl⟩, hrest, ht⟩

theorem bindTarget_name {table : BaseTable} {r : BaseTable × Schema} {s s' : BindState}
    (h : bindTarget env table s = .ok r s') : r.1.name = table.name.normalize := by
  simp only [bindTarget, run_bind, run_currentScope] at h
  obtain ⟨base, _, hbase, scope, _, _, h⟩ := h
  generalize scope.table? base.knownAs.name = found at h
  rcases found with _ | ⟨_, _ | _⟩
  · simp at h
  · obtain ⟨rfl, _⟩ := run_pure.mp h
    exact (bindBaseTable_rests hbase).2.1
  · simp at h

theorem planTable_of_requireTable {name : ObjectName} {id : Oid}
    (h : env.requireTable name = .ok (id, schema)) :
    (∃ space, planTable env name = .ok ⟨env.databaseId, space, id⟩) ∧ env.requireSchema id = .ok schema := by
  obtain ⟨_, hid, h⟩ := except_bind.mp h
  obtain ⟨_, hschema, h⟩ := except_bind.mp h
  cases h
  refine ⟨?_, hschema⟩
  unfold Accessor.requireTableId at hid
  split at hid
  · rename_i found hfound
    cases hid
    obtain ⟨key, hkey, _⟩ := Option.bind_eq_some_iff.mp hfound
    -- the key of the table has its namespace
    obtain ⟨space, hspace⟩ : ∃ space, env.requireNamespace name = .ok space := by
      unfold Accessor.key? at hkey
      unfold Accessor.requireNamespace
      cases hname : name.schema with
      | none => exact ⟨_, rfl⟩
      | some =>
        rw [hname] at hkey
        obtain ⟨found, hfound, _⟩ := Option.bind_eq_some_iff.mp hkey
        exact ⟨found, by dsimp only; rw [hfound]⟩
    refine ⟨space, ?_⟩
    unfold planTable Accessor.requireTableId
    rw [hspace, hfound]
    rfl
  · cases hid

section

variable {p : Parsed} {parameters : List Value} {b : Bound} {table : BaseTable}
  {columns : List String} {tableId : Oid}

theorem lower_values_iff {table' : BaseTable} {target : TableId} {plan : Plan}
    (hb : b.statement = .insert ⟨table', schema.map (·.name), .values rows'⟩)
    (htable : planTable env table'.name = .ok target)
    (hschema : env.requireSchema target.tableId = .ok schema) (hnames : (schema.map (·.name)).Nodup)
    (hlook : b.exprs.look rows'.flatten = .ok ()) :
    (lower env b).result = .ok plan ↔
      plan = .insert target (schema.map (·.id)) rows' ∧ ∀ row ∈ rows', checkRow b.exprs schema row = .ok () := by
  have hcolumns := requireColumns_of_nodup hnames table'.name.name
  constructor
  · intro h
    have hrun := lower_run h
    simp only [hb, lowerStatementWith, lowerInsert, run_bind, LowerM.run_ofExcept, LowerM.run_exprs,
      run_pure, run_forM_checkRow] at hrun
    obtain ⟨_, _, ⟨htarget, rfl⟩, _, _, ⟨hschema', rfl⟩, _, _, ⟨hfound, rfl⟩, _, _,
      ⟨_, rfl, rfl⟩, _, _, ⟨hrows, rfl⟩, rfl, _⟩ := hrun
    cases htable.symm.trans htarget
    cases hschema.symm.trans hschema'
    cases hcolumns.symm.trans hfound
    exact ⟨rfl, hrows⟩
  · rintro ⟨rfl, hrows⟩
    have hrun : lowerStatementWith env (lowerQuery env (lowerLevels b)) b.statement
        ⟨b.exprs, env.catalog.nextTemp⟩ =
          .ok (.insert target (schema.map (·.id)) rows') ⟨b.exprs, env.catalog.nextTemp⟩ := by
      simp only [hb, lowerStatementWith, lowerInsert, run_bind, LowerM.run_ofExcept, LowerM.run_exprs,
        run_pure, run_forM_checkRow]
      exact ⟨target, _, ⟨htable, rfl⟩, schema, _, ⟨hschema, rfl⟩, schema, _, ⟨hcolumns, rfl⟩, _, _,
        ⟨hlook, rfl, rfl⟩, PUnit.unit, _, ⟨hrows, rfl⟩, rfl, rfl⟩
    unfold lower
    dsimp only
    rw [hrun]

/-- **A bound `INSERT ... VALUES` has all columns of its target in the order of the schema, and in every
row a value for each of them that fits its type.**  Columns have types and stars have none, as in every
statement that is read and every table that is created.  There is a plan, with these rows, unless a
column that takes no NULL gets one. -/
theorem insert_values_normalized (hp : p.statement = .insert ⟨table, columns, .values rows⟩)
    (htable : env.requireTable table.name.normalize = .ok (tableId, schema))
    (hnames : (schema.map (·.name)).Nodup) (hvalid : ∀ column ∈ schema, column.type.isValid = true)
    (hstars : p.exprs.Obeys ExprNode.Untyped) (hdefaults : env.catalog.Obeys ExprNode.Untyped)
    (htree : p.exprs.TreeShaped rows.flatten) (h : (bind env p parameters).result = .ok b) :
    ∃ table' rows' space,
      b.statement = .insert ⟨table', schema.map (·.name), .values rows'⟩ ∧
      List.Forall₂ (fun row row' => row'.length = schema.length ∧
        ∀ (i : Nat) (column : Column) (id : ExprId), schema[i]? = some column → row'[i]? = some id →
          (∃ given, WrittenFor (columns.map lowercase) row i column given ∧
            column.Normalized p.exprs b.exprs given id) ∧
          (b.exprs.typeOf id).implicitlyCasts column.type = true ∧
          ((b.exprs.expr id).isLiteral = true → b.exprs.typeOf id = column.type)) rows rows' ∧
      ∀ n plan, (lower (env.withNextTemp n) b).result = .ok plan ↔
        plan = .insert ⟨env.databaseId, space, tableId⟩ (schema.map (·.id)) rows' ∧
        ∀ row' ∈ rows', ∀ (i : Nat) (column : Column) (id : ExprId), schema[i]? = some column →
          row'[i]? = some id → column.nullable = false → (b.exprs.expr id).isNull = false := by
  have hbound := bind_obeys nodeRule_untyped hdefaults hstars h
  obtain ⟨_, hrun, hexprs, _⟩ := bind_run h
  have hinitial : (BindState.initial env p parameters).MeetsBut [] := fun x _ hvalid => by
    cases hvalid
  have hmeets := heeds_bindStatementWith (recurTo_pays _) p.statement hrun hinitial
  rw [hp] at hrun
  simp only [bindStatementWith, run_inScope, run_bind, run_pure] at hrun
  obtain ⟨_, ⟨_, _, hinsert, hstatement, rfl⟩, rfl⟩ := hrun
  simp only [bindInsert, run_bind, run_ofExcept, run_pure] at hinsert
  obtain ⟨⟨table', _⟩, s0, htarget, _, _, ⟨hcolumns, rfl⟩, _, _, hsource, rfl, rfl⟩ := hinsert
  have hsound := (bindInsertSource_progress (recurTo_derived _) hsource).finished
  simp only [bindInsertSource, run_bind, run_pure] at hsource
  obtain ⟨rows', _, hrows, rfl, rfl⟩ := hsource
  have hlook : b.exprs.look rows'.flatten = .ok () := by
    rw [hexprs]
    exact look_ok fun id hid => hsound.grounded hid
  obtain ⟨_, hrequire⟩ := bindTarget_schema rfl rfl htarget
  obtain ⟨rfl, rfl⟩ := Prod.mk.inj (Except.ok.inj (htable.symm.trans hrequire))
  obtain ⟨rfl, _⟩ := checkColumns_spec hcolumns
  have hstart : s0.exprs = p.exprs := bindTarget_exprs htarget
  obtain ⟨hfills, _⟩ := arrangeRows_fills (htree.apart hnames _)
    (by rw [hstart]; exact ⟨le_rfl, fun _ _ => rfl⟩) hrows
  obtain ⟨⟨space, hplan⟩, hschema⟩ := planTable_of_requireTable htable
  have hlengths : ∀ row' ∈ rows', row'.length = schema.length := by
    intro row' hrow'
    obtain ⟨i, rfl⟩ := mem_iff_get.mp hrow'
    obtain ⟨hlength, hall⟩ := forall₂_iff_get.mp hfills
    exact (hall i (by rw [hlength]; exact i.2) i.2).2.1
  refine ⟨table', rows', space, hstatement.symm, hfills.imp ?_, fun n plan => ?_⟩
  · rintro row row' ⟨hlength, hlength', hfilled⟩
    refine ⟨hlength', fun i column id hcolumn hid => ?_⟩
    have hfilled := hfilled hcolumn hid
    have hvalid := hvalid column (mem_of_getElem? hcolumn)
    have hmet := hmeets id not_mem_nil
    rw [Expectations.Met, ← hexprs, hfilled.expects hvalid] at hmet
    obtain ⟨_, hfits⟩ := hmet hvalid
    have htypes : (b.exprs.typeOf id).implicitlyCasts column.type = true ∧
        ((b.exprs.expr id).isLiteral = true → b.exprs.typeOf id = column.type) := by
      cases hstar : (b.exprs.expr id).isStar with
      | false => exact hfits hstar
      | true =>
        refine ⟨?_, fun hliteral => ?_⟩
        · rw [show b.exprs.typeOf id = .invalid from hbound id hstar]
          exact Bool.or_true _
        · cases he : b.exprs.expr id <;> simp [he, Expr.isStar, Expr.isLiteral] at hstar hliteral
    refine ⟨⟨_, writtenFor_insertPosition hlength hcolumn, ?_⟩, htypes⟩
    rw [hexprs] at htypes ⊢
    exact hfilled.normalized hvalid htypes.2
  · have hplan : planTable (env.withNextTemp n) table'.name = .ok ⟨env.databaseId, space, tableId⟩ := by
      rw [show table'.name = table.name.normalize from bindTarget_name htarget]
      exact hplan
    rw [lower_values_iff hstatement.symm hplan hschema hnames hlook]
    exact and_congr_right fun _ => forall₂_congr fun row' hrow' => checkRow_iff (hlengths row' hrow')

end

/-- The rows of an `INSERT` once it is bound, the types of its values, and whether it has a plan. -/
def boundRows (env : Accessor) (p : Parsed) :
    Option (List (List ExprId) × List (List SqlType) × Bool) :=
  match (bind env p []).result with
  | .ok b =>
    match b.statement with
    | .insert ⟨_, _, .values rows⟩ =>
      some (rows, rows.map (·.map b.exprs.typeOf), (lower (env.withNextTemp 0) b).result.isOk)
    | _ => none
  | .error _ => none

theorem exists_of_boundRows {p : Parsed} {types : List (List SqlType)} {planned : Bool}
    (h : boundRows env p = some (rows, types, planned)) :
    ∃ b table columns, (bind env p []).result = .ok b ∧
      b.statement = .insert ⟨table, columns, .values rows⟩ ∧
      rows.map (·.map b.exprs.typeOf) = types ∧
      (lower (env.withNextTemp 0) b).result.isOk = planned := by
  unfold boundRows at h
  split at h
  · split at h
    · cases h
      exact ⟨_, _, _, ‹_›, ‹_›, rfl, rfl⟩
    · cases h
  · cases h

/-- `a INTEGER DEFAULT 7, b INTEGER NOT NULL` -/
def defaultThenRequired : Schema :=
  [{ name := "a", type := .integer, default := some ⟨.ofExprs [.constant (.ofByte 7)], 0⟩ },
    { name := "b", type := .integer, nullable := false }]

/-- `INSERT INTO t (B) VALUES (CAST(1 AS INTEGER)), (2)` -/
def castRow : Parsed :=
  { statement := .insert ⟨.named "t" "t", ["B"],
      .values [[1], [2]]⟩
    exprs := .ofExprs [.constant (.ofByte 1), .cast .integer 0,
      .constant (.ofByte 2)] }

theorem boundRows_castRow : boundRows (.withTable "t" defaultThenRequired) castRow =
    some ([[3, 0], [4, 2]], [[.integer, .integer], [.integer, .integer]], true) := by
  decide +kernel

/-- The column that is left out gets its default, and a cast to the type of the other is left out. -/
theorem castRow_normalized :
    ∃ b table target column given, (bind (.withTable "t" defaultThenRequired) castRow []).result = .ok b ∧
      b.statement = .insert ⟨table, ["a", "b"], .values [[3, 0], [4, 2]]⟩ ∧ column.name = "b" ∧
      WrittenFor ["b"] [1] 1 column given ∧ column.Normalized castRow.exprs b.exprs given 0 ∧
      (lower ((Accessor.withTable "t" defaultThenRequired).withNextTemp 0) b).result =
        .ok (.insert target (defaultThenRequired.number.map (·.id)) [[3, 0], [4, 2]]) := by
  obtain ⟨b, table, columns, hb, hstatement, -, hplanned⟩ :=
    exists_of_boundRows boundRows_castRow
  have htable : (Accessor.withTable "t" defaultThenRequired).requireTable (ObjectName.normalize { name := "t" }) =
      .ok (3, defaultThenRequired.number) := rfl
  have hstars : castRow.exprs.Obeys ExprNode.Untyped := obeys_of_nodes nodeRule_untyped (by decide)
  have hdefaults : (Accessor.withTable "t" defaultThenRequired).catalog.Obeys ExprNode.Untyped := by
    refine Accessor.withTable_defaults fun column hcolumn stored hstored => ?_
    rcases mem_cons.mp hcolumn with rfl | hcolumn
    · cases hstored
      exact obeys_of_nodes nodeRule_untyped (by decide)
    · cases mem_singleton.mp hcolumn
      cases hstored
  obtain ⟨table', rows', space, hstatement', hrows, hplan⟩ := insert_values_normalized rfl htable (by decide)
    (by decide) hstars hdefaults
    (treeShaped_of_isTreeShaped (show castRow.exprs.isTreeShaped 4 _ = true by decide)) hb
  cases hstatement.symm.trans hstatement'
  obtain ⟨⟩ | ⟨⟨_, hvalues⟩, _⟩ := hrows
  obtain ⟨⟨given, hgiven, hvalue⟩, _⟩ := hvalues 1 _ 0 rfl rfl
  cases hl : (lower ((Accessor.withTable "t" defaultThenRequired).withNextTemp 0) b).result with
  | error =>
    rw [hl] at hplanned
    cases hplanned
  | ok plan =>
    obtain ⟨rfl, -⟩ := (hplan 0 plan).mp hl
    exact ⟨b, _, _, _, given, hb, hstatement', rfl, hgiven, hvalue, hl⟩

end SqlAnalysis
