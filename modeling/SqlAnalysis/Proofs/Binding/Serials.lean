import Mathlib.Algebra.BigOperators.Intervals
import Mathlib.Algebra.Order.BigOperators.Group.Finset
import SqlAnalysis.Proofs.Binding.Registration
import SqlAnalysis.Proofs.Binding.StoreSteps
import SqlAnalysis.Proofs.Query.Gathering

/-!
# Numbers given out by a binding

A binding takes serials for table references, numbers for the columns of WITH entries and numbers of
new nodes for select lists.  However often a part of a statement is bound, and however its expressions
share nodes, no number is used twice.

* **`Binds.weight_le`**: what a binding adds to the weight is the weight of the numbers it takes.
-/

namespace SqlAnalysis

open List Arena BindTask TableRef NamedPart Select

variable {v v' : BindView} {f : Scope → Except Diagnostic Scope} {ids : List ExprId}
  {columns : List DerivedColumn}

variable {α : Type}

/-! ### What is bound and what it becomes -/

/-- What a probe finds in what is bound. -/
def BindTask.gatherIn (p : Probe α) : BindTask → List α
  | .expr _ | .acts _ _ _ | .roots _ | .items _ _ => []
  | .source item _ => item.gather p
  | .sources refs _ => gatherAll p refs
  | .from_ item _ => gatherOpt p item
  | .entry c _ => Cte.gatherAll p [c]
  | .entries cs _ => Cte.gatherAll p cs
  | .union right _ _ => gatherOpt p right
  | .branch q _ _ | .query q _ => q.gather p

/-- What a probe finds in what it becomes. -/
def BindTask.gatherOut (p : Probe α) : BindTask → List α
  | .expr _ | .acts _ _ _ | .roots _ | .items _ _ => []
  | .source _ item => item.gather p
  | .sources _ refs => gatherAll p refs
  | .from_ _ item => gatherOpt p item
  | .entry _ c => Cte.gatherAll p [c]
  | .entries _ cs => Cte.gatherAll p cs
  | .union _ right _ => gatherOpt p right
  | .branch _ _ q | .query _ q => q.gather p

/-! ### Weights -/

/-- A weight for every node, every serial and every number of a column of a WITH entry. -/
structure Weights where
  item : ExprId → Nat := fun _ => 0
  serial : Nat → Nat := fun _ => 0
  column : Nat → Nat := fun _ => 0

def NamedPart.numbers : NamedPart → List (Option Nat)
  | .entry _ serials _ => serials
  | .table _ | .derived .. => []

namespace Weights

variable (w : Weights)

def ofAlias (k : Alias) : Nat := (k.serial.map w.serial).getD 0

def ofNumbers (numbers : List (Option Nat)) : Nat := (numbers.map fun n => (n.map w.column).getD 0).sum

def ofPart (p : NamedPart) : Nat := (p.alias?.map w.ofAlias).getD 0 + w.ofNumbers p.numbers

def ofItems (ids : List ExprId) : Nat := (ids.map w.item).sum

/-- The weight of the table references and the select lists of a query. -/
def ofQuery (q : Select) : Nat := w.ofItems q.outputs + (q.named.map w.ofPart).sum

/-- The weight of the query of a subquery; other expressions have none. -/
def ofExpr (e : Expr) : Nat := (e.subquery?.map w.ofQuery).getD 0

def store (a : Arena) : Nat := ∑ x ∈ Finset.range a.size, w.ofExpr (a.expr x)

def taken (v : BindView) : Nat :=
  ∑ x ∈ Finset.range v.exprs.size, w.item x + ∑ n ∈ Finset.range v.nextSerial, w.serial n +
    ∑ n ∈ Finset.range v.nextTemp, w.column n

@[simp] theorem ofItems_nil : w.ofItems [] = 0 := rfl

@[simp] theorem ofItems_append (ids ids' : List ExprId) :
    w.ofItems (ids ++ ids') = w.ofItems ids + w.ofItems ids' := by
  simp [ofItems]

@[simp] theorem ofItems_cons (id : ExprId) (ids : List ExprId) :
    w.ofItems (id :: ids) = w.item id + w.ofItems ids := by
  simp [ofItems]

theorem sum_range_add (size n : Nat) :
    ∑ x ∈ Finset.range (size + n), w.item x =
      ∑ x ∈ Finset.range size, w.item x + w.ofItems (range' size n) := by
  induction n with
  | zero => simp
  | succ n ih =>
    rw [← Nat.add_assoc, Finset.sum_range_succ, ih, range'_concat]
    simp [Nat.add_assoc]

@[simp] theorem ofQuery_default : w.ofQuery {} = 0 := by
  simp [ofQuery, Select.outputs, Select.named, Select.gather, Cte.gatherAll, TableRef.gatherOpt,
    Select.gatherOpt, outputProbe, NamedPart.probe]

theorem taken_congr (hsize : v'.exprs.size = v.exprs.size) (hnext : v'.nextSerial = v.nextSerial)
    (htemp : v'.nextTemp = v.nextTemp) : w.taken v' = w.taken v := by
  rw [taken, taken, hsize, hnext, htemp]

theorem taken_mono (hsize : v.exprs.size ≤ v'.exprs.size) (hnext : v.nextSerial ≤ v'.nextSerial)
    (htemp : v.nextTemp ≤ v'.nextTemp) : w.taken v ≤ w.taken v' :=
  Nat.add_le_add (Nat.add_le_add
    (Finset.sum_le_sum_of_subset (Finset.range_subset_range.mpr hsize))
    (Finset.sum_le_sum_of_subset (Finset.range_subset_range.mpr hnext)))
    (Finset.sum_le_sum_of_subset (Finset.range_subset_range.mpr htemp))

theorem ofEntry (c : Cte) : w.ofPart (.ofEntry c) = w.ofNumbers (c.columns.map (·.serial)) :=
  Nat.zero_add _

@[simp] theorem ofNumbers_nil : w.ofNumbers [] = 0 := rfl

theorem ofNumbers_cons (n : Option Nat) (numbers : List (Option Nat)) :
    w.ofNumbers (n :: numbers) = (n.map w.column).getD 0 + w.ofNumbers numbers := by
  simp [ofNumbers]

theorem ofItems_eq_zero (hw : ∀ x, w.item x = 0) (ids : List ExprId) : w.ofItems ids = 0 := by
  induction ids with
  | nil => rfl
  | cons _ _ ih => rw [ofItems_cons, ih, hw]

theorem ofNumbers_eq_zero (hw : ∀ n, w.column n = 0) (numbers : List (Option Nat)) :
    w.ofNumbers numbers = 0 := by
  induction numbers with
  | nil => rfl
  | cons n _ ih =>
    rw [ofNumbers_cons, ih]
    cases n with
    | none => rfl
    | some n => exact hw n

theorem ofExpr_of_isSubquery {e : Expr} (h : e.isSubquery = false) : w.ofExpr e = 0 := by
  cases e <;> first | rfl | cases h

variable {w} {a a' : Arena}

theorem store_congr (hsize : a'.size = a.size)
    (h : ∀ x, w.ofExpr (a'.expr x) = w.ofExpr (a.expr x)) : w.store a' = w.store a := by
  rw [store, store, hsize]
  exact Finset.sum_congr rfl fun x _ => h x

@[simp] theorem store_mark (id : ExprId) (t : SqlType) :
    w.store (a.update id fun n => { n with type := t, hasSubquery := true }) = w.store a :=
  store_congr (size_update _ _) fun x => by simp

@[simp] theorem store_finish (id : ExprId) : w.store (a.finish id) = w.store a :=
  store_congr (size_finish _ _) fun x => by simp

theorem store_setQuery {id : ExprId} {q : Select} (h : (a.expr id).isSubquery = true) :
    w.store (a.setQuery id q) + w.ofExpr (a.expr id) = w.store a + w.ofQuery q := by
  have hid : id ∈ Finset.range a.size := Finset.mem_range.mpr (lt_size_of_isSubquery h)
  rw [store, store, size_setQuery, ← Finset.add_sum_erase _ _ hid,
    ← Finset.add_sum_erase _ (fun x => w.ofExpr (a.expr x)) hid, expr_setQuery_self q h,
    Finset.sum_congr rfl fun x hx => by rw [expr_setQuery_of_ne q (Finset.ne_of_mem_erase hx)],
    show w.ofExpr (.subquery q) = w.ofQuery q from rfl]
  omega

theorem store_setQuery_le (id : ExprId) (q : Select) :
    w.store (a.setQuery id q) ≤ w.store a + w.ofQuery q := by
  by_cases h : (a.expr id).isSubquery = true
  · have heq := store_setQuery (w := w) (q := q) h
    omega
  · rw [setQuery_of_not_isSubquery q (Bool.not_eq_true _ ▸ h)]
    exact Nat.le_add_right _ _

theorem store_pushAll (depth : Nat) (tables : List ScopeTable) :
    w.store (a.pushAll (starNodes depth tables)) = w.store a := by
  have hsize : a.size ≤ (a.pushAll (starNodes depth tables)).size := by
    rw [size_pushAll]
    exact Nat.le_add_right _ _
  rw [store, store, ← Finset.sum_range_add_sum_Ico _ hsize,
    Finset.sum_eq_zero (s := Finset.Ico _ _) fun x hx => ?_, Nat.add_zero]
  · refine Finset.sum_congr rfl fun x hx => ?_
    rw [Arena.expr, Arena.node_pushAll_of_lt _ (Finset.mem_range.mp hx), Arena.expr]
  · obtain ⟨hle, hlt⟩ := Finset.mem_Ico.mp hx
    obtain ⟨_, _, c, _, hnode⟩ := node_pushAll_starNodes hle hlt
    rw [Arena.expr, hnode]
    rfl

end Weights

/-! ### Single steps -/

theorem Aliases.weight_le {given known : Alias} (h : Aliases given v known v') (w : Weights) :
    w.ofAlias known + w.taken v ≤ w.ofAlias given + w.taken v' := by
  cases h with
  | intro _ htakes =>
    cases hserial : given.serial with
    | some =>
      rw [hserial] at htakes
      cases htakes
      simp [Weights.ofAlias, Weights.taken, hserial]
    | none =>
      rw [hserial] at htakes
      cases htakes
      simp [Weights.ofAlias, Weights.taken, hserial, Finset.sum_range_succ]
      omega

theorem Rescopes.nextSerial_eq (h : Rescopes f v v') : v'.nextSerial = v.nextSerial := by
  cases h
  rfl

theorem Rescopes.nextTemp_eq (h : Rescopes f v v') : v'.nextTemp = v.nextTemp := by
  cases h
  rfl

theorem NamesEntry.nextSerial_eq {given : List Alias} (h : NamesEntry ids given v columns v') :
    v'.nextSerial = v.nextSerial := by
  induction h with
  | nil => rfl
  | cons _ _ _ ih => exact ih

theorem NamesEntry.weight_le {given : List Alias} (h : NamesEntry ids given v columns v')
    (w : Weights) :
    w.ofNumbers (columns.map (·.knownAs.serial)) + w.taken v ≤
      w.ofNumbers (given.map (·.serial)) + w.taken v' := by
  induction h with
  | nil => simp
  | @cons id ids given columns known serial next v v' htakes hknown hrest ih =>
    have hsize : (v.exprs.nameColumn id known).size = v.exprs.size :=
      (differ_deriveName _ _).size.trans (size_update _ _)
    have hgiven : w.ofNumbers (given.map (·.serial)) =
        ((given.head?.bind (·.serial)).map w.column).getD 0 + w.ofNumbers (given.tail.map (·.serial)) := by
      cases given with
      | nil => rfl
      | cons => exact w.ofNumbers_cons _ _
    rw [map_cons, w.ofNumbers_cons, hgiven, hknown]
    simp only [Weights.taken, hsize] at ih ⊢
    cases hserial : given.head?.bind (·.serial) with
    | some n =>
      rw [hserial] at htakes
      cases htakes
      simp only [Option.map_some, Option.getD_some]
      omega
    | none =>
      rw [hserial] at htakes
      cases htakes
      simp only [Finset.sum_range_succ, Option.map_some, Option.getD_some, Option.map_none,
        Option.getD_none] at ih ⊢
      omega

/-! ### Whole bindings -/

def BindTask.outputs : BindTask → List ExprId
  | .items ids _ => ids
  | task => task.gatherIn outputProbe

namespace Weights

variable (w : Weights)

/-- The weight of the table references and select lists in what is bound. -/
def given : BindTask → Nat
  | .items ids _ => w.ofItems ids
  | task => w.ofItems (task.gatherIn outputProbe) + ((task.gatherIn probe).map w.ofPart).sum

/-- The weight of the table references and select lists in what it becomes. -/
def made : BindTask → Nat
  | .items _ ids => w.ofItems ids
  | task => w.ofItems (task.gatherOut outputProbe) + ((task.gatherOut probe).map w.ofPart).sum

theorem given_eq (task : BindTask) :
    w.given task = w.ofItems task.outputs + ((task.gatherIn probe).map w.ofPart).sum := by
  cases task <;> rfl

theorem le_made (task : BindTask) :
    ((task.gatherOut probe).map w.ofPart).sum ≤ w.made task := by
  cases task with
  | items => exact Nat.zero_le _
  | _ => exact Nat.le_add_left _ _

end Weights

theorem Binds.weight_le {env : Accessor} {task : BindTask} (h : Binds env task v v')
    (hready : task.Ready v.exprs) (w : Weights) :
    w.made task + w.store v'.exprs + w.taken v ≤ w.given task + w.store v.exprs + w.taken v' := by
  induction h with
  | @columnFresh id ref c v hlt he hres hc =>
    have hstore : w.store (v.exprs.update id fun n =>
        { n with kind := .column c.ref, type := c.type, depth := some c.depth }) = w.store v.exprs := by
      refine Weights.store_congr (size_update _ _) (Arena.field_update (w.ofExpr ·.kind) ?_)
      exact (congrArg w.ofExpr he).symm
    simp only [Weights.taken, size_update, hstore]
    exact le_rfl
  | subqueryDone =>
    simp only [Weights.taken, size_update, Weights.store_mark]
    exact le_rfl
  | @subqueryFresh id q q' t v v1 hlt he hq _ ih =>
    have ih := ih trivial
    have hsub : (v.exprs.expr id).isSubquery = true := by rw [he]; rfl
    have htaken := Weights.store_setQuery (w := w) (q := {}) hsub
    have hput := Weights.store_setQuery_le (w := w) (a := v1.exprs) id q'
    rw [he, w.ofQuery_default, show w.ofExpr (.subquery q) = w.ofQuery q from rfl] at htaken
    have hgiven : w.given (.query q q') = w.ofQuery q := rfl
    have hmade : w.made (.query q q') = w.ofQuery q' := rfl
    have hzero : w.given (.expr id) = 0 ∧ w.made (.expr id) = 0 := ⟨rfl, rfl⟩
    simp only [Weights.taken, size_update, size_setQuery, Weights.store_mark] at ih ⊢
    omega
  | node hlt _ _ _ _ ih => exact ih ⟨hlt, .refl _⟩
  | actsLocal hl _ ih =>
    have ih := ih (hready.reshape (hl.adjusts hready.1 hready.2).toReshapes _)
    have hstore := Weights.store_congr (w := w) hl.size_eq fun x => by
      rw [Weights.ofExpr, hl.subquery?_eq hready.2, Weights.ofExpr]
    simp only [Weights.taken, hl.size_eq, hstore] at ih ⊢
    exact ih
  | @actsVisit id e c visited v v1 v' _ hc _ ihc ih =>
    have ihc := ihc trivial
    have ih := ih (hready.reshape hc.reshapes _)
    have hzero : w.given (.expr c) = 0 ∧ w.made (.expr c) = 0 := ⟨rfl, rfl⟩
    have hacts : w.given (.acts id e visited) = 0 ∧ w.made (.acts id e visited) = 0 := ⟨rfl, rfl⟩
    have hacts' : w.given (.acts id e (c :: visited)) = 0 ∧ w.made (.acts id e (c :: visited)) = 0 :=
      ⟨rfl, rfl⟩
    omega
  | @rootsCons id ids v v1 v' _ _ ih ih' =>
    have ih := ih trivial
    have ih' := ih' trivial
    have hzero : w.given (.expr id) = 0 ∧ w.made (.expr id) = 0 := ⟨rfl, rfl⟩
    have hroots : w.given (.roots ids) = 0 ∧ w.made (.roots ids) = 0 := ⟨rfl, rfl⟩
    have hroots' : w.given (.roots (id :: ids)) = 0 ∧ w.made (.roots (id :: ids)) = 0 := ⟨rfl, rfl⟩
    simp only [Weights.taken, size_finish, Weights.store_finish] at ih ih' ⊢
    omega
  | itemsStar hstar hscope htables _ ih =>
    have ih := ih trivial
    simp only [Weights.taken, size_pushAll, Weights.store_pushAll, w.sum_range_add, Weights.given,
      Weights.made, Weights.ofItems_append, Weights.ofItems_cons] at ih ⊢
    omega
  | @itemsRoot id ids ids' v v1 v' hstar _ _ ih ih' =>
    have ih := ih trivial
    have ih' := ih' trivial
    have hzero : w.given (.expr id) = 0 ∧ w.made (.expr id) = 0 := ⟨rfl, rfl⟩
    simp only [Weights.taken, size_finish, Weights.store_finish] at ih ih' ⊢
    simp only [show ∀ l l', w.given (.items l l') = w.ofItems l from fun _ _ => rfl,
      show ∀ l l', w.made (.items l l') = w.ofItems l' from fun _ _ => rfl, Weights.ofItems_cons] at ih' ⊢
    omega
  | @table base known source v v1 v2 halias hnamed hscope =>
    have hweight := halias.weight_le w
    rw [w.taken_congr (congrArg size hscope.exprs_eq) hscope.nextSerial_eq
      hscope.nextTemp_eq, hscope.exprs_eq,
      halias.exprs_eq]
    simp [Weights.given, Weights.made, BindTask.gatherIn, BindTask.gatherOut, TableRef.gather,
      NamedPart.probe, outputProbe, NamedPart.ofReference,
      Weights.ofPart, alias?, numbers]
    omega
  | @derived q q' given known columns v v1 v2 v3 v4 halias hq hnames hscope ih =>
    have ih := ih trivial
    have hweight := halias.weight_le w
    have hnext := Weights.taken_mono w (hnames.size_eq.symm.le) hnames.countersLe.1
      hnames.countersLe.2
    rw [w.taken_congr (congrArg size hscope.exprs_eq) hscope.nextSerial_eq
      hscope.nextTemp_eq, hscope.exprs_eq,
      Weights.store_congr hnames.size_eq fun x => by rw [hnames.expr_eq]]
    rw [halias.exprs_eq] at ih
    simp only [Weights.given, Weights.made, BindTask.gatherIn, BindTask.gatherOut, TableRef.gather,
      probe, outputProbe, ofReference, Weights.ofPart, alias?,
      numbers, Weights.ofNumbers_nil, Nat.add_zero,
      nil_append, cons_append, map_cons, sum_cons, Option.map_some,
      Option.getD_some] at ih ⊢
    omega
  | @join kind left left' right right' condition v v1 v2 v3 _ _ _ ihl ihr ihc =>
    have ihl := ihl trivial
    have ihr := ihr trivial
    have ihc := ihc trivial
    simp only [Weights.given, Weights.made, BindTask.gatherIn, BindTask.gatherOut, TableRef.gather,
      Weights.ofItems_append, Weights.ofItems_nil, map_append, sum_append, map_nil,
      sum_nil] at ihl ihr ihc ⊢
    omega
  | list _ ih | fromSome _ ih | unionSome _ _ ih | query _ ih =>
    have ih := ih trivial
    exact ih
  | @sourcesCons item item' rest rest' v v1 v' _ _ ih ih' =>
    have ih := ih trivial
    have ih' := ih' trivial
    simp only [Weights.given, Weights.made, gatherIn, gatherOut, gatherAll,
      Weights.ofItems_append, map_append, sum_append] at ih ih' ⊢
    omega
  | entryPlain hind _ hlen hnames hscope ih =>
    have ih := ih trivial
    have hnumbers := hnames.weight_le w
    rw [hscope.exprs_eq, w.taken_congr (congrArg size hscope.exprs_eq) hscope.nextSerial_eq
      hscope.nextTemp_eq,
      Weights.store_congr hnames.size_eq fun x => by rw [hnames.expr_eq]]
    simp only [Weights.given, Weights.made, gatherIn, gatherOut, Cte.gatherAll_cons,
      Cte.gatherAll, probe, outputProbe, Weights.ofEntry, nil_append, append_nil,
      cons_append, map_cons, sum_cons, map_map] at ih ⊢
    simp only [Function.comp_def] at hnumbers ⊢
    omega
  | entryInductive hind _ hlen hnames hscope _ ih ih' =>
    have ih := ih trivial
    have ih' := ih' trivial
    -- the second binding starts from what the first one has made, and from the other branches
    have hnumbers := hnames.weight_le w
    rw [hscope.exprs_eq, w.taken_congr (congrArg size hscope.exprs_eq) hscope.nextSerial_eq
      hscope.nextTemp_eq,
      Weights.store_congr hnames.size_eq fun x => by rw [hnames.expr_eq]] at ih'
    simp only [Weights.given, Weights.made, gatherIn, gatherOut, Cte.gatherAll_cons,
      Cte.gatherAll, probe, outputProbe, Weights.ofEntry, nil_append, append_nil,
      List.cons_append, List.map_cons, List.sum_cons, Select.gather_eq, Select.gatherOpt,
      Weights.ofItems_append, map_append, sum_append, map_map] at ih ih' ⊢
    simp only [Function.comp_def] at hnumbers ⊢
    omega
  | @entriesCons c c' cs cs' v v1 v' _ _ ih ih' =>
    have ih := ih trivial
    have ih' := ih' trivial
    simp only [Weights.given, Weights.made, gatherIn, gatherOut, Cte.gatherAll_cons,
      Cte.gatherAll, append_nil, Weights.ofItems_append, map_append, sum_append]
      at ih ih' ⊢
    omega
  | branch _ _ _ _ _ hsorts _ _ ihe ihf ihr ihi ihu iho =>
    have ihe := ihe trivial
    have ihf := ihf trivial
    have ihr := ihr trivial
    have ihi := ihi trivial
    have ihu := ihu trivial
    have iho := iho trivial
    simp only [Weights.given, Weights.made, gatherIn, gatherOut, gather_eq,
      probe, outputProbe, nil_append, Weights.ofItems_append, Weights.ofItems_nil,
      map_append, sum_append, map_nil, sum_nil] at ihe ihf ihr ihi ihu iho ⊢
    omega
  | _ => exact le_rfl

end SqlAnalysis
