import SqlAnalysis.Proofs.Binding.Sparing

/-!
# Rows of INSERT

The rows of an INSERT are put into the order of the target's columns, with defaults for the columns
that are left out.  If the rows come from a query, that is done with its select list after the query
is bound, and the select lists of further branches of its UNION stay as they are.

* **`Binds.even`**: all branches of a bound query have equally many columns.
* **`arrangeRowFrom_stores`**, **`arrangeRowFrom_expects`**: a row has for each column what is given
  for it, and the type of the column stays expected of it.
* **`inOrder_of_arranges`**: a select list that stays as it is stands in the order of the schema only if
  the columns are named in that order.
* **`insert_select_aligned_iff`**: the first branch is aligned with the target, and the others exactly if
  the columns are named in the order of the schema and their types happen to fit.
-/

namespace SqlAnalysis

open Text BindM List Arena

variable {v w value : ExprId} {columns : List String} {row ids : List ExprId} {schema : Schema}
  {index : Nat} {given : Option ExprId} {a a' : Arena} {column : Column} {e : Expr} {rec : Recur}
  {values : List (Option ExprId)} {insert : Insert}

/-! ### Branches -/

mutual

def Select.further : Select → List Select
  | ⟨_, _, _, _, _, _, _, _, union, _⟩ => Select.furtherOpt union

def Select.furtherOpt : Option Select → List Select
  | none => []
  | some right => right :: right.further

end

/-- The branches of a UNION. -/
def Select.branches (q : Select) : List Select := q :: q.further

theorem Select.further_eq (q : Select) : q.further = furtherOpt q.union := by
  cases q
  rfl

/-- Every branch of what is bound has as many columns as the first one. -/
def BindTask.Even : BindTask → Prop
  | .branch _ _ q | .query _ q => ∀ r ∈ q.further, r.items.length = q.items.length
  | .union _ right _ => ∀ q ∈ right, ∀ r ∈ q.further, r.items.length = q.items.length
  | _ => True

theorem Binds.even {env : Accessor} {task : BindTask} {v v' : BindView} (h : Binds env task v v') :
    task.Even := by
  induction h with
  | unionNone => nofun
  | unionSome _ _ ih =>
    rintro q ⟨⟩
    exact ih
  | @branch _ _ _ _ _ union _ _ _ _ _ _ _ _ _ _ _ _ _ _ _ hlength _ _ _ _ ihu =>
    intro r hr
    rw [Select.further_eq] at hr
    cases union with
    | none => cases hr
    | some right =>
      rcases mem_cons.mp hr with rfl | hr
      · exact hlength r rfl
      · exact (ihu right rfl r hr).trans (hlength right rfl)
  | query _ ih => exact ih
  | _ => trivial

/-! ### What is given -/

/-- What is given for each column of a schema from `index` on. -/
def rowValues (columns : List String) (row : List ExprId) : Nat → Schema → List (Option ExprId)
  | _, [] => []
  | index, column :: rest =>
    (insertPosition columns index column).bind (row[·]?) :: rowValues columns row (index + 1) rest

theorem getElem?_rowValues (columns : List String) (row : List ExprId) (schema : Schema) (index i : Nat) :
    (rowValues columns row index schema)[i]? =
      schema[i]?.map fun column => (insertPosition columns (index + i) column).bind (row[·]?) := by
  induction schema generalizing index i with
  | nil => rfl
  | cons _ _ ih =>
    cases i with
    | zero => rfl
    | succ i => simp only [rowValues, getElem?_cons_succ, ih, Nat.add_assoc, Nat.add_comm 1 i]

theorem mem_rowValues_iff : given ∈ rowValues columns row index schema ↔ ∃ i column,
      schema[i]? = some column ∧ (insertPosition columns (index + i) column).bind (row[·]?) = given := by
  simp only [mem_iff_getElem?, getElem?_rowValues, Option.map_eq_some_iff]

theorem Schema.hasColumn_iff (schema : Schema) (name : String) :
    schema.hasColumn name = true ↔ name ∈ schema.map (·.name) := by
  simp [hasColumn, column?]

theorem checkColumns_spec {table : String} {seen columns' : List String}
    (h : checkColumns schema table seen columns = .ok columns') :
    columns' = columns.map lowercase ∧
      (∀ column ∈ columns', schema.hasColumn column = true ∧ column ∉ seen) ∧ columns'.Nodup := by
  induction columns generalizing seen columns' with
  | nil =>
    cases h
    exact ⟨rfl, forall_mem_nil _, nodup_nil⟩
  | cons column rest ih =>
    simp only [checkColumns] at h
    split at h
    · cases h
    rename_i hknown
    split at h
    · cases h
    rename_i hseen
    cases hrest : checkColumns schema table (lowercase column :: seen) rest with
    | error =>
      rw [hrest] at h
      cases h
    | ok =>
      rw [hrest] at h
      cases h
      obtain ⟨rfl, hall, hnodup⟩ := ih hrest
      refine ⟨rfl, forall_mem_cons.mpr ⟨⟨by simpa using hknown, by simpa using hseen⟩, ?_⟩, ?_⟩
      · exact fun c hc => ⟨(hall c hc).1, fun hmem => (hall c hc).2 (mem_cons_of_mem _ hmem)⟩
      · exact nodup_cons.mpr ⟨fun hmem => (hall _ hmem).2 mem_cons_self, hnodup⟩

/-- What a row holds for a column: the value given for it, without a cast to the column's type, or
an expression that was added because nothing is given or only `DEFAULT`. -/
inductive StoredFor (a : Arena) (given : Option ExprId) (column : Column) : ExprId → Prop where
  | value {v : ExprId} : given = some v → StoredFor a given column v
  | operand {v w : ExprId} :
    given = some v → a.expr v = .cast column.type w → StoredFor a given column w
  | added {id : ExprId} :
    (∀ v ∈ given, a.expr v = .default) → a.size ≤ id → StoredFor a given column id

/-- A row holds something for each column, in the order of the schema. -/
inductive Arranges (a : Arena) : List (Option ExprId) → Schema → List ExprId → Prop where
  | nil : Arranges a [] [] []
  | cons {given : Option ExprId} {values : List (Option ExprId)} {column : Column} {schema : Schema}
      {id : ExprId} {ids : List ExprId} :
    StoredFor a given column id → Arranges a values schema ids →
    Arranges a (given :: values) (column :: schema) (id :: ids)

/-- The values given for different columns have no node in common, and none is made of itself. -/
structure Arena.Apart (a : Arena) (values : List (Option ExprId)) : Prop where
  lt_size : ∀ {v y}, some v ∈ values → a.Reaches v y → y < a.size
  proper : ∀ {v y z}, some v ∈ values → a.Reaches v y → z ∈ (a.expr y).parts → ¬a.Reaches z y
  disjoint : values.Pairwise fun x y => ∀ v ∈ x, ∀ w ∈ y, ∀ z, a.Reaches v z → ¬a.Reaches w z

/-! ### Values of columns -/

section

variable {env : Accessor} {levels : Nat} {S : ExprId → Prop} {s s' : BindState} {id : ExprId}

theorem Arena.Appends.encloses_parts (h : a.Appends a') (hw : a.size ≤ w) (hlt : w < a'.size) :
    ∃ U, a'.Encloses U ∧ (∀ y ∈ (a'.expr w).parts, U y) ∧ ¬U w := by
  have hparts {x y : ExprId} (hx : a.size ≤ x) (hy : y ∈ (a'.expr x).parts) :
      a.size ≤ y ∧ y < x := by
    rw [Expr.parts_of_not_isSubquery (h.plain hx)] at hy
    exact h.operand hx hy
  refine ⟨fun y => a.size ≤ y ∧ y < w ∨ a'.size ≤ y,
    ⟨fun x hx y hy => ?_, fun x hx => .inr hx⟩, fun y hy => .inl (hparts hw hy), ?_⟩
  · rcases hx with ⟨hle, hlt⟩ | hx
    · obtain ⟨hle', hlt'⟩ := hparts hle hy
      exact .inl ⟨hle', hlt'.trans hlt⟩
    · rw [expr_of_size_le hx] at hy
      cases hy
  · rintro (⟨_, hself⟩ | hge)
    · exact Nat.lt_irrefl w hself
    · exact hge.not_gt hlt

theorem bindItem_keepsOwn {u : Unit} (h : bindItem (recurTo env levels) id s = .ok u s')
    (hS : s.exprs.Encloses S) (hparts : ∀ y ∈ (s.exprs.expr id).parts, S y) (hid : ¬S id)
    (hvalid : (s.expectations.expectedOf id).isValid = true) :
    s'.expectations.expectedOf id = s.expectations.expectedOf id := by
  simp only [bindItem, run_bind, finishExpr, run_modifyExprs] at h
  obtain ⟨_, _, hexpr, rfl⟩ := h
  have hkept := recurTo_keepsOwn hexpr hS hparts hid hvalid
  exact hkept

theorem coerceToColumn_frame (h : coerceToColumn (recurTo env levels) value column s = .ok id s')
    (hS : s.exprs.Encloses S) (hvalue : S value) :
    S id ∧ ∀ x, ¬S x → s'.expectations.expectedOf x = s.expectations.expectedOf x ∧
      s'.exprs.expr x = s.exprs.expr x := by
  obtain ⟨value', s1, hfrom, hid, hitem⟩ := coerceToColumn_run h
  have hstart : S value' ∧ s1.exprs.Encloses S ∧ s1.expectations = s.expectations ∧
      ∀ x, ¬S x → s1.exprs.expr x = s.exprs.expr x := by
    rcases hfrom with ⟨_, hdefault⟩ | ⟨_, rfl, rfl⟩
    · obtain ⟨happends, hle, _, hexpected⟩ := columnDefault_appends hdefault
      refine ⟨hS.free _ hle, happends.encloses hS, hexpected, fun x hx => happends.expr ?_⟩
      exact Nat.lt_of_not_le fun hfree => hx (hS.free x hfree)
    · exact ⟨hvalue, hS, rfl, fun _ _ => rfl⟩
  obtain ⟨hvalue', hS1, hexpected, hexprs⟩ := hstart
  have hin : S id := by
    rcases hid with rfl | hcast
    · exact hvalue'
    · exact hS1.closed value' hvalue' id (by rw [hcast]; exact mem_singleton_self _)
  refine ⟨hin, fun x hx => ⟨?_, ?_⟩⟩
  · have hkept := (bindItem_spares hitem hS1 hin).kept x hx
    have hne : id ≠ x := fun heq => hx (heq ▸ hin)
    rw [hkept, Expectations.expectedOf_expect, if_neg hne, hexpected]
  · obtain ⟨_, hexpr, hfinished⟩ := (bindItem_root (recurTo_derived levels) hitem).exprs
    have hconfined := (hexpr.confined hS1 fun y hy => by
      rw [mem_singleton.mp hy]
      exact hin).1.finish hS1 id
    rw [← hfinished] at hconfined
    exact (hconfined.kept x hx).trans (hexprs x hx)

theorem coerceToColumn_expects (h : coerceToColumn (recurTo env levels) value column s = .ok id s')
    (hvalid : column.type.isValid = true)
    (hproper : ∀ w, w = value ∨ s.exprs.expr value = .cast column.type w →
      ∃ U, s.exprs.Encloses U ∧ (∀ y ∈ (s.exprs.expr w).parts, U y) ∧ ¬U w) :
    s'.expectations.expectedOf id = column.type := by
  obtain ⟨_, s1, hfrom, hid, hitem⟩ := coerceToColumn_run h
  have hself {x : Expectations} : (x.expect id column.type).expectedOf id = column.type := by simp
  have hown : ∃ U, s1.exprs.Encloses U ∧ (∀ y ∈ (s1.exprs.expr id).parts, U y) ∧ ¬U id := by
    rcases hfrom with ⟨_, hdefault⟩ | ⟨_, rfl, rfl⟩
    · obtain ⟨happends, hle, hlt, _⟩ := columnDefault_appends hdefault
      rcases hid with rfl | hcast
      · exact happends.encloses_parts hle hlt
      · obtain ⟨hle', hlt'⟩ := happends.operand hle (by rw [hcast]; exact mem_singleton_self _)
        exact happends.encloses_parts hle' (hlt'.trans hlt)
    · exact hproper id hid
  obtain ⟨_, hU, hparts, hnot⟩ := hown
  rw [bindItem_keepsOwn hitem hU hparts hnot (by rw [hself]; exact hvalid), hself]

/-! ### Rows -/

theorem KindEvolves.of_cast {t : SqlType} {c : ExprId} (h : KindEvolves a e (.cast t c)) :
    e = .cast t c := by
  cases h
  rfl

theorem KindEvolves.of_default (h : KindEvolves a e .default) : e = .default := by
  cases h
  rfl

theorem coerceToColumn_added (happends : a.Appends s.exprs) (hvalue : a.size ≤ value)
    (h : coerceToColumn rec value column s = .ok id s') : a.size ≤ id := by
  obtain ⟨value', s1, hfrom, hid, _⟩ := coerceToColumn_run h
  have hstart : a.Appends s1.exprs ∧ a.size ≤ value' := by
    rcases hfrom with ⟨_, hdefault⟩ | ⟨_, rfl, rfl⟩
    · obtain ⟨happends', hle, _, _⟩ := columnDefault_appends hdefault
      exact ⟨happends.trans happends', happends.size_le.trans hle⟩
    · exact ⟨happends, hvalue⟩
  rcases hid with rfl | hcast
  · exact hstart.2
  · exact (hstart.1.operand hstart.2 (by rw [hcast]; exact mem_singleton_self _)).1

theorem arrangeRowFrom_stores (hrec : rec.Derived env) (ha : Reshapes a s.exprs)
    (hrow : ∀ v ∈ row, v < a.size) (h : arrangeRowFrom rec columns row index schema s = .ok ids s') :
    Arranges a (rowValues columns row index schema) schema ids := by
  induction schema generalizing s index ids with
  | nil =>
    rw [arrangeRowFrom] at h
    obtain ⟨rfl, rfl⟩ := run_pure.mp h
    exact .nil
  | cons _ _ ih =>
    obtain ⟨value, s0, id, _, _, hgiven, hvalue, hvalues, rfl⟩ := arrangeRowFrom_cons_run h
    have hadvances := (coerceToColumn_progress hrec hvalue).toReshapes
    rcases hgiven with ⟨hgiven, rfl⟩ | ⟨hgiven, hdefault⟩
    · refine .cons ?_ (ih (ha.trans hadvances) hvalues)
      rw [hgiven]
      have hlt : value < a.size := by
        obtain ⟨_, _, hposition⟩ := Option.bind_eq_some_iff.mp hgiven
        exact hrow value (mem_of_getElem? hposition)
      have hkind := ha.kind value hlt
      obtain ⟨_, _, hfrom, hid, _⟩ := coerceToColumn_run hvalue
      rcases hfrom with ⟨he, hdefault⟩ | ⟨_, rfl, rfl⟩
      · obtain ⟨happends, hle, _, _⟩ := columnDefault_appends hdefault
        have hnew : s0.exprs.size ≤ id := by
          rcases hid with rfl | hcast
          · exact hle
          · exact (happends.operand hle (by rw [hcast]; exact mem_singleton_self _)).1
        rw [he] at hkind
        refine .added (fun v hv => ?_) (ha.size_le.trans hnew)
        cases hv
        exact hkind.of_default
      · rcases hid with rfl | hcast
        · exact .value rfl
        · rw [hcast] at hkind
          exact .operand rfl hkind.of_cast
    · obtain ⟨happends, hle, _, _⟩ := columnDefault_appends hdefault
      have hdefault := (columnDefault_advances hdefault).toReshapes
      refine .cons ?_ (ih ((ha.trans hdefault).trans hadvances) hvalues)
      rw [hgiven]
      exact .added (fun v hv => by cases hv)
        (ha.size_le.trans (coerceToColumn_added happends hle hvalue))

theorem Arena.encloses_reaches (hkept : ∀ y, a.Reaches v y → a'.expr y = a.expr y) :
    a'.Encloses fun y => a.Reaches v y ∨ a'.size ≤ y := by
  refine ⟨fun x hx y hy => ?_, fun x hx => .inr hx⟩
  rcases hx with hx | hx
  · rw [hkept x hx] at hy
    exact .inl (hx.tail hy)
  · rw [expr_of_size_le hx] at hy
    cases hy

theorem Arena.Apart.encloses_parts (h : a.Apart values) (hv : some v ∈ values) (hw : a.Reaches v w)
    (hsize : a.size ≤ a'.size) (hkept : ∀ y, a.Reaches v y → a'.expr y = a.expr y) :
    ∃ U, a'.Encloses U ∧ (∀ y ∈ (a'.expr w).parts, U y) ∧ ¬U w := by
  refine ⟨fun y => (∃ z ∈ (a.expr w).parts, a.Reaches z y) ∨ a'.size ≤ y,
    ⟨fun x hx y hy => ?_, fun x hx => .inr hx⟩, fun y hy => ?_, fun hU => ?_⟩
  · rcases hx with ⟨z, hz, hx⟩ | hx
    · rw [hkept x ((hw.tail hz).trans hx)] at hy
      exact .inl ⟨z, hz, hx.tail hy⟩
    · rw [expr_of_size_le hx] at hy
      cases hy
  · rw [hkept w hw] at hy
    exact .inl ⟨y, hy, .refl⟩
  · rcases hU with ⟨z, hz, hU⟩ | hU
    · exact h.proper hv hw hz hU
    · exact (hsize.trans hU).not_gt (h.lt_size hv hw)

theorem Arena.Apart.sublist {values' : List (Option ExprId)} (h : a.Apart values)
    (hsub : values'.Sublist values) : a.Apart values' :=
  ⟨fun hv => h.lt_size (hsub.subset hv), fun hv => h.proper (hsub.subset hv), h.disjoint.sublist hsub⟩

/-- What is found in the store while a row is arranged: the values still to come are as they were. -/
structure Arena.Awaits (a : Arena) (values : List (Option ExprId)) (a' : Arena) : Prop where
  size_le : a.size ≤ a'.size
  kept : ∀ {v y}, some v ∈ values → a.Reaches v y → a'.expr y = a.expr y

theorem arrangeColumn_expects {s0 : BindState} (hapart : a.Apart (given :: values))
    (hawaits : a.Awaits (given :: values) s.exprs)
    (hgiven : given = some value ∧ s0 = s ∨ given = none ∧ columnDefault column s = .ok value s0)
    (h : coerceToColumn (recurTo env levels) value column s0 = .ok id s') :
    (column.type.isValid = true → s'.expectations.expectedOf id = column.type) ∧
    ((∃ v, given = some v ∧ a.Reaches v id) ∨ a.size ≤ id) ∧
    ∀ x, x < s.exprs.size → (∀ v, given = some v → ¬a.Reaches v x) →
      s'.expectations.expectedOf x = s.expectations.expectedOf x ∧
      s'.exprs.expr x = s.exprs.expr x := by
  rcases hgiven with ⟨rfl, rfl⟩ | ⟨rfl, hdefault⟩
  · have hmem : some value ∈ some value :: values := mem_cons_self
    have hkept : ∀ y, a.Reaches value y → s0.exprs.expr y = a.expr y := fun _ => hawaits.kept hmem
    obtain ⟨hin, hframe⟩ := coerceToColumn_frame h (encloses_reaches hkept) (.inl .refl)
    refine ⟨fun hvalid => coerceToColumn_expects h hvalid fun w hw => ?_, ?_, fun x hx hreach => ?_⟩
    · refine hapart.encloses_parts hmem ?_ hawaits.size_le hkept
      rcases hw with rfl | hcast
      · exact .refl
      · rw [hkept value .refl] at hcast
        exact .single (by rw [Arena.Refers, hcast]; exact mem_singleton_self _)
    · exact hin.imp (fun hreach => ⟨value, rfl, hreach⟩) (Nat.le_trans hawaits.size_le)
    · refine hframe x ?_
      rintro (hx' | hx')
      · exact hreach value rfl hx'
      · exact hx'.not_gt hx
  · obtain ⟨happends, hle, hlt, hexpected⟩ := columnDefault_appends hdefault
    have hold : s.exprs.Encloses (s.exprs.size ≤ ·) := by
      refine ⟨fun x hx y hy => ?_, fun _ hx => hx⟩
      rw [expr_of_size_le hx] at hy
      cases hy
    obtain ⟨hin, hframe⟩ := coerceToColumn_frame h (happends.encloses hold) hle
    refine ⟨fun hvalid => coerceToColumn_expects h hvalid fun w hw => ?_,
      .inr (hawaits.size_le.trans hin), fun x hx _ => ?_⟩
    · rcases hw with rfl | hcast
      · exact happends.encloses_parts hle hlt
      · obtain ⟨hle', hlt'⟩ := happends.operand hle (by rw [hcast]; exact mem_singleton_self _)
        exact happends.encloses_parts hle' (hlt'.trans hlt)
    · obtain ⟨hexpected', hexpr⟩ := hframe x (hx.not_ge)
      exact ⟨by rw [hexpected', hexpected], by rw [hexpr, happends.expr hx]⟩

/-- Nodes that are no part of the values stay as they are, and so does what is expected of them. -/
def Arena.Spares (a : Arena) (values : List (Option ExprId)) (s s' : BindState) : Prop :=
  ∀ x, x < s.exprs.size → (∀ v, some v ∈ values → ¬a.Reaches v x) →
    s'.expectations.expectedOf x = s.expectations.expectedOf x ∧ s'.exprs.expr x = s.exprs.expr x

/-- How the content of a column came about: from the value given for it as it was in the store `a`, or
from nothing.  Afterwards it was left alone. -/
structure FilledFrom (env : Accessor) (levels : Nat) (a : Arena) (given : Option ExprId) (column : Column)
    (id : ExprId) (s' : BindState) : Prop where
  run : ∃ s value s0 s1, a.size ≤ s.exprs.size ∧
    (∀ v, given = some v → ∀ y, a.Reaches v y → s.exprs.expr y = a.expr y) ∧
    (given = some value ∧ s0 = s ∨ given = none ∧ columnDefault column s = .ok value s0) ∧
    coerceToColumn (recurTo env levels) value column s0 = .ok id s1 ∧ Evolves s1.exprs s'.exprs ∧
    s'.exprs.expr id = s1.exprs.expr id
  expects : column.type.isValid = true → s'.expectations.expectedOf id = column.type
  origin : (∃ v, given = some v ∧ a.Reaches v id) ∨ a.size ≤ id
  lt_size : id < s'.exprs.size

theorem FilledFrom.keep (h : FilledFrom env levels a given column id s)
    (hevolves : Evolves s.exprs s'.exprs) (hspares : a.Spares values s s')
    (hlt : ∀ {w y}, some w ∈ values → a.Reaches w y → y < a.size)
    (hdisjoint : ∀ v ∈ given, ∀ w, some w ∈ values → ∀ z, a.Reaches v z → ¬a.Reaches w z) :
    FilledFrom env levels a given column id s' := by
  have hkept := hspares id h.lt_size fun w hw hreach => ?_
  · obtain ⟨s2, value, s0, s1, hsize, hgiven, hfrom, hrun, hevolves', hexpr⟩ := h.run
    refine ⟨⟨s2, value, s0, s1, hsize, hgiven, hfrom, hrun, hevolves'.trans hevolves, ?_⟩, fun hvalid => ?_,
      h.origin, h.lt_size.trans_le hevolves.size_le⟩
    · rw [hkept.2, hexpr]
    · rw [hkept.1, h.expects hvalid]
  · rcases h.origin with ⟨v, hv, hid⟩ | hid
    · exact hdisjoint v hv w hw id hid hreach
    · exact hid.not_gt (hlt hw hreach)

/-- **Every column of a row is filled from the value given for it.** -/
theorem arrangeRowFrom_fills (hapart : a.Apart (rowValues columns row index schema))
    (hawaits : a.Awaits (rowValues columns row index schema) s.exprs)
    (h : arrangeRowFrom (recurTo env levels) columns row index schema s = .ok ids s') :
    ids.length = schema.length ∧
    (∀ {i column id}, schema[i]? = some column → ids[i]? = some id →
      FilledFrom env levels a ((insertPosition columns (index + i) column).bind (row[·]?)) column id s') ∧
    a.Spares (rowValues columns row index schema) s s' := by
  induction schema generalizing s index ids with
  | nil =>
    rw [arrangeRowFrom] at h
    obtain ⟨rfl, rfl⟩ := run_pure.mp h
    exact ⟨rfl, fun hi _ => absurd hi (by simp), fun _ _ _ => ⟨rfl, rfl⟩⟩
  | cons column rest ih =>
    obtain ⟨value, s0, id, s1, _, hgiven, hvalue, hvalues, rfl⟩ := arrangeRowFrom_cons_run h
    obtain ⟨hexpected, hid, hframe⟩ := arrangeColumn_expects hapart hawaits hgiven hvalue
    have hprogress := coerceToColumn_progress (recurTo_derived levels) hvalue
    have hsize : s.exprs.size ≤ s1.exprs.size := by
      rcases hgiven with ⟨_, rfl⟩ | ⟨_, hdefault⟩
      · exact hprogress.size_le
      · exact (columnDefault_advances hdefault).size_le.trans hprogress.size_le
    have hdisjoint := (pairwise_cons.mp hapart.disjoint).1
    have hapart' := hapart.sublist (sublist_cons_self _ _)
    have hawaits' : a.Awaits (rowValues columns row (index + 1) rest) s1.exprs := by
      refine ⟨hawaits.size_le.trans hsize, fun {w y} hw hy => ?_⟩
      have hw' : some w ∈ rowValues columns row index (column :: rest) := mem_cons_of_mem _ hw
      have hlt := (hapart.lt_size hw' hy).trans_le hawaits.size_le
      rw [(hframe y hlt fun v hv hreach => hdisjoint _ hw v hv w rfl y hreach hy).2,
        hawaits.kept hw' hy]
    obtain ⟨hlength, hfills, hspares⟩ := ih hapart' hawaits' hvalues
    have hevolves := (arrangeRowFrom_progress (recurTo_derived levels) hvalues).toEvolves
    refine ⟨congrArg (· + 1) hlength, fun {i c x} hc hx => ?_, fun x hx hreach => ?_⟩
    · cases i with
      | zero =>
        cases hc
        cases hx
        refine FilledFrom.keep ⟨⟨s, value, s0, s1, hawaits.size_le, fun v hv _ => ?_, hgiven, hvalue,
          (Advances.refl _).toEvolves, rfl⟩, hexpected, hid, ?_⟩ hevolves hspares
          (fun hw => hapart'.lt_size hw) fun v hv w hw => hdisjoint _ hw v hv w rfl
        · exact hawaits.kept (hv ▸ mem_cons_self)
        · exact (hprogress.finished id (mem_singleton_self _) id (.here _)).1.lt_size
      | succ i =>
        have hfilled := hfills (i := i) hc hx
        rwa [Nat.add_assoc, Nat.add_comm 1 i] at hfilled
    · have hlater := hspares x (hx.trans_le hsize) fun w hw => hreach w (mem_cons_of_mem _ hw)
      have hnow := hframe x hx fun v hv => hreach v (hv ▸ mem_cons_self)
      exact ⟨hlater.1.trans hnow.1, hlater.2.trans hnow.2⟩

theorem arrangeRowFrom_expects (hapart : a.Apart (rowValues columns row index schema))
    (hawaits : a.Awaits (rowValues columns row index schema) s.exprs)
    (h : arrangeRowFrom (recurTo env levels) columns row index schema s = .ok ids s') :
    Forall₂ (fun id column => column.type.isValid = true →
      s'.expectations.expectedOf id = column.type) ids schema ∧
    ∀ x, x < s.exprs.size → (∀ v, some v ∈ rowValues columns row index schema → ¬a.Reaches v x) →
      s'.expectations.expectedOf x = s.expectations.expectedOf x := by
  obtain ⟨hlength, hfills, hspares⟩ := arrangeRowFrom_fills hapart hawaits h
  refine ⟨forall₂_iff_get.mpr ⟨hlength, fun i hi hi' => ?_⟩, fun x hx hreach => (hspares x hx hreach).1⟩
  exact (hfills (getElem?_eq_getElem hi') (getElem?_eq_getElem hi)).expects

/-! ### The order of the columns -/

theorem Arranges.length_eq (h : Arranges a values schema ids) : ids.length = schema.length := by
  induction h with
  | nil => rfl
  | cons _ _ ih => exact congrArg (· + 1) ih

theorem Arranges.get (h : Arranges a values schema ids) {i : Nat} (hgiven : values[i]? = some given)
    (hcolumn : schema[i]? = some column) (hid : ids[i]? = some id) : StoredFor a given column id := by
  induction h generalizing i with
  | nil => cases hid
  | cons hstored _ ih =>
    cases i with
    | zero =>
      cases hgiven
      cases hcolumn
      cases hid
      exact hstored
    | succ i => exact ih hgiven hcolumn hid

theorem arranges_own (hlength : ids.length = schema.length) : Arranges a (ids.map some) schema ids := by
  induction ids generalizing schema with
  | nil =>
    rw [length_eq_zero_iff.mp hlength.symm]
    exact .nil
  | cons _ _ ih =>
    cases schema with
    | nil => cases hlength
    | cons => exact .cons (.value rfl) (ih (Nat.succ.inj hlength))

theorem Arena.Apart.not_reaches {i j : Nat} {z : ExprId} (h : a.Apart values) (hij : i ≠ j)
    (hv : values[i]? = some (some v)) (hw : values[j]? = some (some w)) (hz : a.Reaches v z) :
    ¬a.Reaches w z := by
  obtain ⟨hi, hv⟩ := List.getElem?_eq_some_iff.mp hv
  obtain ⟨hj, hw⟩ := List.getElem?_eq_some_iff.mp hw
  have hall := pairwise_iff_getElem.mp h.disjoint
  rcases Nat.lt_or_gt_of_ne hij with hlt | hgt
  · exact hall i j hi hj hlt v hv w hw z hz
  · exact fun hz' => hall j i hj hi hgt w hw v hv z hz' hz

/-- The columns are named in the order of the schema, or not named at all. -/
def Schema.InOrder (schema : Schema) (columns : List String) : Prop :=
  columns = [] ∨ columns = schema.map (·.name)

theorem insertPosition_eq_some_iff {i p : Nat} (hne : columns ≠ []) (hnodup : columns.Nodup) :
    insertPosition columns i column = some p ↔ columns[p]? = some column.name := by
  rw [insertPosition, if_neg (by rwa [List.isEmpty_iff]), List.getElem?_eq_some_iff,
    findIdx?_eq_some_iff_getElem]
  constructor
  · rintro ⟨hp, hname, _⟩
    exact ⟨hp, eq_of_beq hname⟩
  · rintro ⟨hp, hname⟩
    refine ⟨hp, by rw [hname, beq_self_eq_true], fun j hj heq => ?_⟩
    have hsame : columns[j] = columns[p] := (eq_of_beq heq).trans hname.symm
    exact hj.ne (hnodup.getElem_inj_iff.mp hsame)

theorem rowValues_of_inOrder (hnodup : columns.Nodup) (horder : schema.InOrder columns)
    (hlength : ids.length = schema.length) : rowValues columns ids 0 schema = ids.map some := by
  refine ext_getElem? fun i => ?_
  rw [getElem?_rowValues, getElem?_map, Nat.zero_add]
  rcases Nat.lt_or_ge i schema.length with hi | hi
  · rw [getElem?_eq_getElem hi, getElem?_eq_getElem (hlength ▸ hi)]
    have hposition : insertPosition columns i schema[i] = some i := by
      rcases horder with rfl | rfl
      · rfl
      · refine (insertPosition_eq_some_iff ?_ hnodup).mpr (by rw [getElem?_map, getElem?_eq_getElem hi]; rfl)
        exact ne_nil_of_length_pos (by rw [length_map]; omega)
    rw [Option.map_some, hposition, Option.bind_some, getElem?_eq_getElem (hlength ▸ hi)]
    rfl
  · rw [getElem?_eq_none hi, getElem?_eq_none (hlength ▸ hi)]
    rfl

/-- A select list that is as it was written stands in the order of the schema only if the columns are
named in that order: an entry out of its place would be a part of two values. -/
theorem inOrder_of_arranges (hcolumns : ∀ name ∈ columns, schema.hasColumn name = true)
    (hnodup : columns.Nodup)
    (hlength : ids.length = if columns.isEmpty then schema.length else columns.length)
    (hapart : a.Apart (rowValues columns ids 0 schema))
    (h : Arranges a (rowValues columns ids 0 schema) schema ids) : schema.InOrder columns := by
  by_cases hne : columns = []
  · exact .inl hne
  rw [if_neg (by rwa [List.isEmpty_iff])] at hlength
  have hsub : columns ⊆ schema.map (·.name) := fun name hname =>
    schema.hasColumn_iff name |>.mp (hcolumns name hname)
  have hsize : columns.length = (schema.map (·.name)).length := by
    rw [length_map, ← hlength, h.length_eq]
  have hperm : columns.Perm (schema.map (·.name)) :=
    (subperm_of_subset hnodup hsub).perm_of_length_le hsize.ge
  refine .inr (ext_getElem hsize fun i hi hi' => ?_)
  rw [length_map] at hi'
  obtain ⟨p, hp, hname⟩ := mem_iff_getElem.mp
    (hperm.mem_iff.mpr (mem_map.mpr ⟨schema[i], getElem_mem hi', rfl⟩))
  obtain ⟨j, hj, hother⟩ := mem_iff_getElem.mp (hperm.mem_iff.mp (getElem_mem hi))
  rw [length_map] at hj
  rw [getElem_map] at hother ⊢
  -- the value of column `i` stands at place `p` of the list, and the entry at place `i` is for column `j`
  have hvalue {k q : Nat} (hk : k < schema.length) (hq : q < columns.length)
      (hat : columns[q] = schema[k].name) :
      (rowValues columns ids 0 schema)[k]? = some (some (ids[q])) := by
    have hposition : insertPosition columns k schema[k] = some q :=
      (insertPosition_eq_some_iff hne hnodup).mpr (by rw [getElem?_eq_getElem hq, hat])
    rw [getElem?_rowValues, getElem?_eq_getElem hk, Option.map_some, Nat.zero_add, hposition,
      Option.bind_some, getElem?_eq_getElem]
  by_contra hout
  have hij : i ≠ j := fun heq => hout (by subst heq; exact hother.symm)
  have hi'' : i < ids.length := hlength ▸ hi
  have hown := hvalue hj hi hother.symm
  have hgiven := hvalue hi' hp hname
  have hreach : a.Reaches ids[p] ids[i] := by
    cases h.get hgiven (getElem?_eq_getElem hi') (getElem?_eq_getElem hi'') with
    | value heq => exact Option.some.inj heq ▸ .refl
    | operand heq hcast =>
      cases heq
      exact .single (by rw [Arena.Refers, hcast]; exact mem_singleton_self _)
    | added _ hle => exact absurd (hapart.lt_size (mem_of_getElem? hown) .refl) (hle.not_gt)
  exact hapart.not_reaches hij hgiven hown hreach .refl

/-! ### Statements -/

/-- The INSERT that a statement is or that it explains. -/
def Statement.insert? : Statement → Option Insert
  | .insert i => some i
  | .explain inner => inner.insert?
  | .select _ | .update _ | .delete _ | .create .. | .drop _ | .analyze _ => none

theorem bindStatementWith_insert {statement statement' : Statement}
    (hinsert : statement.insert? = some insert)
    (h : bindStatementWith env rec statement s = .ok statement' s') :
    ∃ insert' s1, Statement.insert? statement' = some insert' ∧ s'.exprs = s1.exprs ∧
      s'.expectations = s1.expectations ∧
      bindInsert env rec insert { s with scopes := s.scopes.open_ } = .ok insert' s1 := by
  have run := bindStatementWith_run h
  clear h
  induction run with
  | insert hrun =>
    cases hinsert
    refine ⟨_, _, rfl, ?_, ?_, hrun⟩ <;> rfl
  | explain _ ih => exact ih hinsert
  | _ => cases hinsert

theorem bindInsert_query_run {insert' : Insert} {q : Select} (hq : insert.source = .query q)
    (h : bindInsert env rec insert s = .ok insert' s') :
    ∃ s0 s1 table schema columns source row,
      bindTarget env insert.table s = .ok (table, schema) s0 ∧
      checkColumns schema table.name.name [] insert.columns = .ok columns ∧
      rec.query q s0 = .ok source s1 ∧ arrangeRow rec columns schema source.items s1 = .ok row s' ∧
      insert' = ⟨table, schema.map (·.name), .query { source with items := row }⟩ := by
  simp only [bindInsert, run_bind, run_ofExcept, run_pure] at h
  obtain ⟨⟨table, schema⟩, s0, htarget, columns, _, ⟨hcolumns, rfl⟩, _, _, hsource, rfl, rfl⟩ := h
  simp only [hq, bindInsertSource, run_bind, run_pure] at hsource
  obtain ⟨bound, s1, hquery, row, _, hrow, rfl, rfl⟩ := hsource
  exact ⟨s0, s1, table, schema, columns, bound, row, htarget, hcolumns, hquery, hrow, rfl⟩

end

/-- The types of a select list fit the columns of a schema, one entry for each. -/
def Arena.FitsSchema (a : Arena) (schema : Schema) (ids : List ExprId) : Prop :=
  Forall₂ (fun id column => (a.typeOf id).implicitlyCasts column.type = true) ids schema

theorem Arena.fitsSchema_iff : a.FitsSchema schema ids ↔
    Forall₂ (fun t u => t.implicitlyCasts u = true) (ids.map a.typeOf) (schema.map (·.type)) := by
  rw [FitsSchema, forall₂_map_left_iff, forall₂_map_right_iff]

/-- The list `ids` stands for the select list `items`, as the store `a` has it, in front of a table: it has
one entry for each column, in the order of the schema, which is what `items` gives for the column, or
its default, and which fits the column's type in the store `a'`. -/
structure Arena.Aligned (a a' : Arena) (columns : List String) (schema : Schema)
    (items ids : List ExprId) : Prop where
  arranges : Arranges a (rowValues columns items 0 schema) schema ids
  fits : a'.FitsSchema schema ids

/-- **`INSERT ... SELECT` aligns the first branch of its source with the target, and only that one.**
The select list of the first branch gets one entry for each column of the target, in the order of
its schema and of a type that fits, if the values given for different columns have nothing in
common.  Further branches keep the entries that they were bound with, as many as columns are named;
they are aligned if and only if the columns are named in the order of the schema, or not named at all,
and their types happen to fit. -/
theorem insert_select_aligned_iff {env : Accessor} {p : Parsed} {parameters : List Value} {b : Bound}
    {insert : Insert} {q : Select} (h : (bind env p parameters).result = .ok b)
    (hinsert : p.statement.insert? = some insert) (hq : insert.source = .query q) :
    ∃ s0 s1 table schema columns source row,
      bindTarget env insert.table
          { BindState.initial env p parameters with
            scopes := (BindState.initial env p parameters).scopes.open_ } = .ok (table, schema) s0 ∧
      checkColumns schema table.name.name [] insert.columns = .ok columns ∧
      (recurTo env (bindLevels env p)).query q s0 = .ok source s1 ∧
      b.statement.insert? =
        some ⟨table, schema.map (·.name), .query { source with items := row }⟩ ∧
      Arranges s1.exprs (rowValues columns source.items 0 schema) schema row ∧
      (∀ r ∈ source.further,
        r.items.length = if columns.isEmpty then schema.length else columns.length) ∧
      ((∀ r ∈ source.branches, s1.exprs.Apart (rowValues columns r.items 0 schema)) →
        (∀ column ∈ schema, column.type.isValid = true) →
        (∀ id ∈ row, (b.exprs.expr id).isStar = false) →
        s1.exprs.Aligned b.exprs columns schema source.items row ∧
        ((∀ r ∈ source.further, s1.exprs.Aligned b.exprs columns schema r.items r.items) ↔
          source.further = [] ∨
            schema.InOrder columns ∧ ∀ r ∈ source.further, b.exprs.FitsSchema schema r.items)) := by
  obtain ⟨_, hrun, hexprs, _⟩ := bind_run h
  obtain ⟨_, _, hinsert', _, hexpected, hbind⟩ := bindStatementWith_insert hinsert hrun
  obtain ⟨s0, s1, table, schema, columns, source, row, htarget, hcolumns, hquery, hrow, rfl⟩ :=
    bindInsert_query_run hq hbind
  obtain ⟨hlength, hrow⟩ := arrangeRow_run hrow
  have hderived : (recurTo env (bindLevels env p)).Derived env := recurTo_derived _
  have hsound := (hderived.query hquery).progress trivial
  have hlt : ∀ v ∈ source.items, v < s1.exprs.size := fun v hv =>
    ((sound_select.mp hsound.finished).2.1 v hv v (.here _)).1.lt_size
  have harranges := arrangeRowFrom_stores hderived (.refl _) hlt hrow
  have heven : ∀ r ∈ source.further,
      r.items.length = if columns.isEmpty then schema.length else columns.length := fun r hr => by
    rw [(hderived.query hquery).even r hr, hlength]
  obtain ⟨_, hknown, hnodup⟩ := checkColumns_spec hcolumns
  refine ⟨s0, s1, table, schema, columns, source, row, htarget, hcolumns, hquery, hinsert', harranges,
    heven, fun hapart hvalid hstar => ⟨⟨harranges, ?_⟩, ⟨fun haligned => ?_, ?_⟩⟩⟩
  · have hinitial : (BindState.initial env p parameters).MeetsBut [] := fun x _ hvalid => by
      cases hvalid
    have hmeets := heeds_bindStatementWith (recurTo_pays _) p.statement hrun hinitial
    have hcolumn := (arrangeRowFrom_expects (hapart source mem_cons_self) ⟨le_rfl, fun _ _ => rfl⟩ hrow).1
    refine forall₂_iff_get.mpr ⟨hcolumn.length_eq, fun i hi hi' => ?_⟩
    have hcolumn := (forall₂_iff_get.mp hcolumn).2 i hi hi'
      (hvalid _ (get_mem schema ⟨i, hi'⟩))
    have hmet := hmeets (row.get ⟨i, hi⟩) not_mem_nil
    rw [Expectations.Met, hexpected, hcolumn, ← hexprs] at hmet
    exact ((hmet (hvalid _ (get_mem schema ⟨i, hi'⟩))).2
      (hstar _ (get_mem row ⟨i, hi⟩))).1
  · refine or_iff_not_imp_left.mpr fun hne => ⟨?_, fun r hr => (haligned r hr).fits⟩
    obtain ⟨r, hr⟩ := exists_mem_of_ne_nil _ hne
    exact inOrder_of_arranges (fun c hc => (hknown c hc).1) hnodup (heven r hr)
      (hapart r (mem_cons_of_mem _ hr)) (haligned r hr).arranges
  · rintro (hnone | ⟨horder, hfits⟩) r hr
    · rw [hnone] at hr
      cases hr
    · have hlength := (hfits r hr).length_eq
      refine ⟨?_, hfits r hr⟩
      rw [rowValues_of_inOrder hnodup horder hlength]
      exact arranges_own hlength

def Accessor.withTable (name : String) (schema : Schema) : Accessor :=
  ⟨(Catalog.initial.createTable { id := "1" } 1 { name := name } schema).2.1, 1, 2⟩

theorem Accessor.withTable_defaults {P : StoredExpr → Prop} {name : String}
    (h : ∀ column ∈ schema, ∀ stored ∈ column.default, P stored) :
    ∀ table ∈ (Accessor.withTable name schema).catalog.schemas, ∀ column ∈ table.2,
      ∀ stored ∈ column.default, P stored := by
  have hschemas : (Accessor.withTable name schema).catalog.schemas = [(3, schema.number)] := rfl
  intro table htable column hcolumn stored hstored
  rw [hschemas] at htable
  rw [mem_singleton.mp htable] at hcolumn
  obtain ⟨_, hi, rfl⟩ := mem_mapIdx.mp hcolumn
  exact h _ (getElem_mem hi) stored hstored

/-- `t(a INTEGER, b INTEGER)` -/
def twoColumns : Accessor :=
  .withTable "t" [{ name := "a", type := .integer }, { name := "b", type := .integer }]

/-- The select lists of the query that an `INSERT` reads. -/
def InsertSource.lists : InsertSource → List (List ExprId)
  | .query q => q.branches.map (·.items)
  | .values _ => []

/-- The columns and the select lists of a bound `INSERT`. -/
def Bound.insertLists (b : Bound) : Option (List String × List (List ExprId)) :=
  b.statement.insert?.map fun i => (i.columns, i.source.lists)

/-- `INSERT INTO t (a, b) SELECT 1, 2 UNION SELECT 3, 4` -/
def pairUnion : Parsed :=
  { statement := .insert ⟨.named "t" "t", ["a", "b"],
      .query { items := [0, 1], union := some { items := [2, 3] } }⟩
    exprs := .ofExprs [.constant (.ofByte 1), .constant (.ofByte 2),
      .constant (.ofByte 3), .constant (.ofByte 4)] }

/-- What the statement is made of before its select list is arranged: the types of the columns, what is
given for them in each branch, and whether the columns are in order and the values literals. -/
def pairUnionParts : Option (List SqlType × List (List (Option ExprId)) × Bool) :=
  match bindTarget twoColumns (.named "t" "t")
      { BindState.initial twoColumns pairUnion [] with
        scopes := (BindState.initial twoColumns pairUnion []).scopes.open_ } with
  | .ok (table, schema) s0 =>
    match checkColumns schema table.name.name [] ["a", "b"],
        (recurTo twoColumns (bindLevels twoColumns pairUnion)).query
          { items := [0, 1], union := some { items := [2, 3] } } s0 with
    | .ok columns, .ok source s1 =>
      some (schema.map (·.type), source.branches.map (rowValues columns ·.items 0 schema),
        columns == schema.map (·.name) && [0, 1, 2, 3].all fun id => (s1.exprs.expr id).isLiteral)
    | _, _ => none
  | .error _ _ => none

theorem Arena.Apart.of_literals (ids : List ExprId) (hids : ∀ id ∈ ids, (a.expr id).isLiteral = true)
    (hnodup : ids.Nodup) : a.Apart (ids.map some) := by
  have hmem {v : ExprId} (hv : some v ∈ ids.map some) : v ∈ ids := by simpa using hv
  have hparts {v : ExprId} (hv : v ∈ ids) : (a.expr v).parts = [] := by
    have hv := hids v hv
    cases he : a.expr v <;> simp [he, Expr.isLiteral] at hv <;> rfl
  have hself {v y : ExprId} (hv : v ∈ ids) (hy : a.Reaches v y) : y = v := by
    induction hy with
    | refl => rfl
    | tail _ hy ih =>
      rw [ih, Refers, hparts hv] at hy
      cases hy
  refine ⟨fun {v y} hv hy => ?_, fun {v y z} hv hy hz => ?_, ?_⟩
  · rw [hself (hmem hv) hy]
    exact lt_size_of_isLiteral (hids v (hmem hv))
  · rw [hself (hmem hv) hy, hparts (hmem hv)] at hz
    cases hz
  · refine pairwise_map.mpr (hnodup.imp_of_mem fun hv hw hne v hv' w hw' z hz hz' => hne ?_)
    cases hv'
    cases hw'
    exact (hself hv hz).symm.trans (hself hw hz')

/-- Both branches are aligned if the columns are named in their order. -/
theorem pairUnion_aligned :
    ∃ (b : Bound) (table : BaseTable) (schema : Schema) (columns : List String) (source : Select)
      (row : List ExprId) (a : Arena), (bind twoColumns pairUnion []).result = .ok b ∧
      b.statement.insert? = some ⟨table, schema.map (·.name), .query { source with items := row }⟩ ∧
      schema.map (·.type) = [.integer, .integer] ∧ source.further ≠ [] ∧
      a.Aligned b.exprs columns schema source.items row ∧
      ∀ r ∈ source.further, a.Aligned b.exprs columns schema r.items r.items := by
  have hbound : (bind twoColumns pairUnion []).result.toOption.map (fun b => b.insertLists.map fun l =>
      l.2.map fun ids => (ids.map fun id => (b.exprs.expr id).isStar, ids.map b.exprs.typeOf)) =
        some (some (replicate 2 ([false, false], [.integer, .integer]))) := by decide +kernel
  cases hb : (bind twoColumns pairUnion []).result with
  | error =>
    rw [hb] at hbound
    cases hbound
  | ok b =>
    obtain ⟨s0, s1, table, schema, columns, source, row, htarget, hcolumns, hquery, hinsert, _, _,
      haligned⟩ := insert_select_aligned_iff hb rfl rfl
    have hparts : pairUnionParts = some ([.integer, .integer],
        [[some 0, some 1], [some 2, some 3]], true) := by
      decide +kernel
    have htarget : bindTarget twoColumns (.named "t" "t")
      { BindState.initial twoColumns pairUnion [] with
        scopes := (BindState.initial twoColumns pairUnion []).scopes.open_ } =
          .ok (table, schema) s0 := htarget
    have hcolumns : checkColumns schema table.name.name [] ["a", "b"] = .ok columns := hcolumns
    simp only [pairUnionParts, htarget, hcolumns, hquery, Option.some.injEq, Prod.mk.injEq,
      Bool.and_eq_true, beq_iff_eq, all_eq_true] at hparts
    obtain ⟨htypes, hvalues, horder, hliteral⟩ := hparts
    simp only [hb, Except.toOption, Option.map_some, Bound.insertLists, hinsert, InsertSource.lists,
      Select.branches, map_cons, Option.some.injEq, Select.further_eq] at hbound
    rw [← Select.further_eq source] at hbound
    obtain ⟨hlength, hlists⟩ := eq_replicate_iff.mp hbound
    obtain ⟨hrow, hfurther⟩ := forall_mem_cons.mp hlists
    have hapart : ∀ r ∈ source.branches, s1.exprs.Apart (rowValues columns r.items 0 schema) := by
      rw [← forall_mem_map (P := s1.exprs.Apart), hvalues]
      refine forall_mem_cons.mpr ⟨.of_literals [0, 1] (fun id hid => hliteral id ?_) (by decide),
        forall_mem_singleton.mpr (.of_literals [2, 3] (fun id hid => hliteral id ?_) (by decide))⟩
      · exact mem_append_left [2, 3] hid
      · exact mem_append_right [0, 1] hid
    have hvalid : ∀ column ∈ schema, column.type.isValid = true := by
      rw [← forall_mem_map (P := (SqlType.isValid · = true)), htypes]
      decide
    have hstars : ∀ id ∈ row, (b.exprs.expr id).isStar = false := by
      rw [← forall_mem_map (P := (· = false)), (Prod.mk.inj hrow).1]
      decide
    obtain ⟨hfirst, hall⟩ := haligned hapart hvalid hstars
    refine ⟨b, table, schema, columns, source, row, s1.exprs, rfl, hinsert, htypes, fun hnil => ?_, hfirst,
      hall.mpr (.inr ⟨.inr horder, fun r hr => ?_⟩)⟩
    · rw [hnil] at hlength
      cases hlength
    · have hr := hfurther _ (mem_map_of_mem (mem_map_of_mem hr))
      rw [fitsSchema_iff, htypes, (Prod.mk.inj hr).2]
      exact .cons rfl (.cons rfl .nil)

/-- `INSERT INTO t (b) SELECT 1 UNION SELECT 2` -/
def oneOfTwoUnion : Parsed :=
  { statement := .insert ⟨.named "t" "t", ["b"],
      .query { items := [0], union := some { items := [1] } }⟩
    exprs := .ofExprs [.constant (.ofByte 1),
      .constant (.ofByte 2)] }

theorem oneOfTwoUnion_not_aligned :
    ∃ b table columns source, (bind twoColumns oneOfTwoUnion []).result = .ok b ∧
      b.statement.insert? = some ⟨table, columns, .query source⟩ ∧
      ∃ r ∈ source.branches, r.items.length ≠ columns.length := by
  have hbound : (bind twoColumns oneOfTwoUnion []).result.toOption.bind Bound.insertLists =
      some (["a", "b"], [[2, 0], [1]]) := by decide +kernel
  cases hb : (bind twoColumns oneOfTwoUnion []).result with
  | error =>
    rw [hb] at hbound
    cases hbound
  | ok b =>
    rw [hb] at hbound
    obtain ⟨⟨table, columns, source⟩, hinsert, hlists⟩ := Option.map_eq_some_iff.mp hbound
    obtain ⟨rfl, hlists⟩ := Prod.mk.inj hlists
    cases source with
    | values => cases hlists
    | query source =>
      obtain ⟨r, hr, hlist⟩ : ∃ r ∈ source.branches, r.items = [1] := by
        have hmem : [1] ∈ source.branches.map (·.items) := by
          rw [show source.branches.map (·.items) = [[2, 0], [1]] from hlists]
          decide
        exact mem_map.mp hmem
      refine ⟨b, table, _, source, rfl, hinsert, r, hr, ?_⟩
      rw [hlist]
      decide

end SqlAnalysis
