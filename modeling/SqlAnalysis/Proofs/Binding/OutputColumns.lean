import SqlAnalysis.Proofs.Binding.DerivedColumns
import SqlAnalysis.Proofs.Binding.StatementFrame

/-!
# Identifiers of output columns

The output columns of derived tables and of WITH entries have identifiers for one statement, made from
numbers.  Derived tables take their numbers from the serials of the statement and WITH entries from a
counter of the catalog, so that the two kinds of columns may clash.

* **`bind_nodup_derivedNumbers`**, **`bind_nodup_entryNumbers`**: columns of one kind differ.
* **`bind_columnIds`**: all identifiers differ exactly if no column of a derived table has the
  identifier of a column of a WITH entry.
-/

namespace SqlAnalysis

open List Arena NamedPart

variable {env : Accessor}

/-! ### Output columns of a bound statement -/

def NamedPart.derivedItems : NamedPart → List ExprId
  | .derived ids _ => ids
  | .table _ | .entry .. => []

theorem NamedPart.derivedItems_subset (p : NamedPart) : p.derivedItems ⊆ p.items := by
  cases p with
  | derived => exact fun _ hx => hx
  | _ => exact nil_subset _

def columnId (n : Option Nat) : Oid := (n.map Oid.temp).getD Oid.invalid

namespace Bound

variable (b : Bound)

/-- The table references and WITH entries of a bound statement of any kind and of its subqueries. -/
def parts : List NamedPart := b.statement.parts ++ b.exprs.boundQueries.flatMap (·.named)

/-- The numbers of the output columns of all derived tables. -/
def derivedNumbers : List (Option Nat) := (b.parts.flatMap derivedItems).map b.exprs.serial?

/-- The numbers of the output columns of all WITH entries. -/
def entryNumbers : List (Option Nat) := b.parts.flatMap numbers

/-- The identifiers of all output columns. -/
def columnIds : List Oid := (b.derivedNumbers ++ b.entryNumbers).map columnId

end Bound

/-! ### Statements that are not bound -/

def Statement.isUnbound : Statement → Bool
  | .create _ (.view _ q) => q.isFresh
  | .explain inner => inner.isUnbound
  | statement => statement.isFresh

/-- Whether nothing of a statement of any kind or of its expressions is bound. -/
def Parsed.isUnbound (p : Parsed) : Bool := p.statement.isUnbound && p.exprs.isFresh

theorem Statement.fresh_parts {statement : Statement} (h : statement.isUnbound = true) :
    ∀ p ∈ statement.parts, p.Fresh := by
  induction statement with
  | explain _ ih => exact ih h
  | create _ c =>
    cases c with
    | view _ q => exact Select.fresh_named q h
    | _ => exact forall_mem_nil _
  | _ => exact Statement.fresh_named _ h

theorem Statement.count_outputs_le (statement : Statement) (x : ExprId) :
    statement.outputs.count x ≤ statement.exprs.count x := by
  induction statement with
  | explain _ ih => exact ih
  | select q => exact (Select.count_outputs_le x q).2
  | insert i =>
    obtain ⟨_, _, source⟩ := i
    cases source with
    | query q => exact (Select.count_outputs_le x q).2
    | values => exact Nat.zero_le _
  | create _ c =>
    cases c with
    | view _ q => exact (Select.count_outputs_le x q).2
    | _ => exact Nat.zero_le _
  | _ => exact Nat.zero_le _

/-! ### Columns of derived tables -/

def NamedPart.Numbered (p : NamedPart) (a : Arena) : Prop :=
  ∀ x ∈ p.derivedItems, (a.serial? x).isSome = true

theorem NamedPart.Numbered.of_knownAs {p : NamedPart} {a a' : Arena} (h : p.Numbered a)
    (hsame : ∀ x, (a'.node x).knownAs = (a.node x).knownAs) : p.Numbered a' := by
  intro x hx
  rw [serial?, hsame x]
  exact h x hx

theorem NamedPart.Numbered.rename {p : NamedPart} {a : Arena} (h : p.Numbered a) (id : ExprId)
    (name : String) (n : Nat) :
    p.Numbered (a.update id fun node => { node with knownAs := some ⟨name, some n⟩ }) := by
  intro x hx
  rw [serial?, node_update]
  split
  · rfl
  · exact h x hx

theorem storeSteps_numbered (env : Accessor) :
    StoreSteps env fun a a' => ∀ p : NamedPart, p.Numbered a → p.Numbered a' where
  refl _ _ hp := hp
  trans h h' p hp := h' p (h p hp)
  resolve _ _ _ _ hp := hp.of_knownAs fun x => by simp [Arena.resolve]
  mark _ _ _ _ hp := hp.of_knownAs fun x => by simp [markSubquery]
  query {id q q' v v1} t _ _ _ ih p hp := by
    have hbefore : p.Numbered (v.exprs.setQuery id {}) := hp.of_knownAs (v.exprs.knownAs_setQuery id {})
    exact (ih p hbefore).of_knownAs fun x => by simp [markSubquery]
  work _ _ _ _ hl _ hp := hp.of_knownAs hl.knownAs_eq
  finish _ _ hp := hp.of_knownAs fun x => knownAs_finish _ _ x
  star a depth tables _ hp := hp.of_knownAs (a.knownAs_pushAll depth tables)
  nameOutput _ _ hp := hp.rename _ _ _
  nameColumn a id name n p hp := by
    exact (hp.rename id name n).of_knownAs fun x => by simp [nameColumn]

theorem partRule_numbered (env : Accessor) : PartRule env NamedPart.Numbered where
  steps := storeSteps_numbered env
  setQuery id q hp := hp.of_knownAs (knownAs_setQuery _ id q)
  mark id t hp := hp.of_knownAs fun x => by simp [markSubquery]
  copy happends hp x hx := by
    have hsome := hp x hx
    have hlt : x < _ := Nat.lt_of_not_le fun hge => by
      rw [serial?, node_of_size_le hge] at hsome
      cases hsome
    rw [serial?, happends.node hlt]
    exact hsome
  table _ _ _ hx := (not_mem_nil hx).elim
  derived _ hquery hnames x hx := by
    obtain ⟨_, haliased⟩ := hnames.columns_eq fun id hid => (hquery.starless_query id hid).1
    obtain ⟨_, _, hknown⟩ := haliased x hx
    rw [serial?, hknown]
    rfl
  entry _ _ _ _ hx := (not_mem_nil hx).elim

/-! ### Columns of WITH entries -/

def Weights.ofColumn (n : Nat) : Weights := { column := fun m => if m = n then 1 else 0 }

namespace Weights

variable {n : Nat}

theorem ofNumbers_ofColumn (numbers : List (Option Nat)) :
    (ofColumn n).ofNumbers numbers = numbers.count (some n) := by
  induction numbers with
  | nil => rfl
  | cons m numbers ih =>
    rw [ofNumbers_cons, ih, count_cons]
    cases m with
    | none => simp
    | some m =>
      simp [ofColumn]
      omega

theorem ofPart_ofColumn (p : NamedPart) : (ofColumn n).ofPart p = p.numbers.count (some n) := by
  rw [ofPart, ofNumbers_ofColumn]
  cases hk : p.alias? with
  | none => exact Nat.zero_add _
  | some k =>
    rw [Option.map_some, Option.getD_some, ofAlias]
    cases k.serial <;> exact Nat.zero_add _

theorem sum_ofColumn (parts : List NamedPart) :
    (parts.map (ofColumn n).ofPart).sum = (parts.flatMap numbers).count (some n) := by
  rw [count_flatMap]
  congr 1
  exact map_congr_left fun p _ => ofPart_ofColumn p

theorem taken_ofColumn (v : BindView) : (ofColumn n).taken v = if n < v.nextTemp then 1 else 0 := by
  simp [taken, ofColumn, Finset.sum_ite_eq']

end Weights

/-! ### Bound statements -/

section

variable {p : Parsed} {parameters : List Value} {b : Bound}

theorem bind_isSome_numbers (hfresh : p.exprs.isFresh = true)
    (h : (bind env p parameters).result = .ok b) :
    ∀ n ∈ b.derivedNumbers ++ b.entryNumbers, n.isSome = true := by
  obtain ⟨_, _, hbinds, hstore, _⟩ := bind_parts h
  have hall : ∀ {P : NamedPart → Arena → Prop}, PartRule env P → ∀ part ∈ b.parts, P part b.exprs := by
    intro P hP part hpart
    obtain ⟨_, hmade, hbound⟩ := hP.parts hbinds.binds fun _ hp =>
      (not_boundPart_of_isFresh hfresh hp).elim
    rw [hstore]
    rcases mem_append.mp hpart with hpart | hpart
    · rw [← hbinds.made] at hpart
      exact hmade part hpart
    · rw [hstore, mem_boundQueries] at hpart
      exact hbound part hpart
  rw [forall_mem_append]
  constructor
  · intro n hn
    obtain ⟨x, hx, rfl⟩ := mem_map.mp hn
    obtain ⟨part, hpart, hx⟩ := mem_flatMap.mp hx
    exact hall (partRule_numbered env) part hpart x hx
  · intro n hn
    obtain ⟨part, hpart, hn⟩ := mem_flatMap.mp hn
    have hdone := hall (partRule_done env) part hpart
    cases part with
    | entry => exact Option.isSome_iff_exists.mpr (hdone.2.2.1 n hn)
    | _ => exact (not_mem_nil hn).elim

theorem bind_nodup_entryNumbers (hfresh : p.isUnbound = true)
    (h : (bind env p parameters).result = .ok b) :
    b.entryNumbers.Nodup ∧ ∀ n, some n ∈ b.entryNumbers →
      env.catalog.nextTemp ≤ n ∧ n < (bind env p parameters).nextTemp := by
  obtain ⟨hstatement, hexprs⟩ := Bool.and_eq_true_iff.mp hfresh
  have hsome := (forall_mem_append.mp (bind_isSome_numbers hexprs h)).2
  obtain ⟨tasks, v, hbinds, hstore, htemp⟩ := bind_parts h
  have hcount : ∀ n, b.entryNumbers.count (some n) + (if n < env.catalog.nextTemp then 1 else 0) ≤
      if n < v.nextTemp then 1 else 0 := by
    intro n
    have hweight := Weights.parts_le (w := .ofColumn n) (fun _ => rfl) hbinds.binds hexprs (by
      rw [hbinds.given]
      exact Statement.fresh_parts hstatement)
    rw [hbinds.made, ← hstore, Weights.sum_ofColumn, Weights.taken_ofColumn, Weights.taken_ofColumn]
      at hweight
    exact hweight
  rw [htemp]
  constructor
  · apply nodup_iff_count_le_one.mpr
    intro n
    cases n with
    | none =>
      rw [count_eq_zero_of_not_mem]
      · exact Nat.zero_le 1
      · intro hmem
        cases hsome none hmem
    | some n =>
      have hn := hcount n
      split at hn <;> split at hn <;> omega
  · intro n hmem
    have hpos := count_pos_iff.mpr hmem
    have hn := hcount n
    split at hn <;> split at hn <;> omega

theorem bind_nodup_derivedNumbers (hfresh : p.exprs.isFresh = true)
    (hnumbers : p.exprs.isUnnumbered = true) (htree : p.exprs.TreeShaped p.statement.exprs)
    (h : (bind env p parameters).result = .ok b) : b.derivedNumbers.Nodup := by
  have hsome := (forall_mem_append.mp (bind_isSome_numbers hfresh h)).1
  obtain ⟨tasks, _, hbinds, hstore, _⟩ := bind_parts h
  obtain ⟨_, huses, hnodup⟩ := htree
  have hconfined := bind_confined h huses.encloses fun x hx => Or.inl (huses.mem hx)
  rw [hstore] at hconfined
  obtain ⟨copied, hitems, hnames⟩ := hbinds.binds.nodup_items hfresh huses hnodup (fun x => by
    rw [hbinds.outputs]
    exact p.statement.count_outputs_le x) hconfined
  rw [hbinds.made, ← hstore] at hitems
  rw [← hstore] at hnames
  obtain ⟨hitems, _, hdisjoint⟩ := nodup_append.mp hitems
  -- an output column of a derived table is neither copied nor an item of a WITH entry
  have hother : ∀ x ∈ b.parts.flatMap derivedItems,
      ¬(x ∈ copied ∨ ∃ task ∈ tasks, task.EntryItem b.exprs x) := by
    intro x hx
    obtain ⟨part, hpart, hx⟩ := mem_flatMap.mp hx
    rintro (hcopied | ⟨task, htask, name, serials, ids, hids, hentry⟩)
    · exact hdisjoint x (mem_flatMap.mpr ⟨part, hpart, part.derivedItems_subset hx⟩) x hcopied rfl
    · have hentry : .entry name serials ids ∈ b.parts := by
        apply mem_append.mpr
        rcases hentry with hmade | hbound
        · left
          rw [← hbinds.made]
          exact mem_flatMap.mpr ⟨task, htask, hmade⟩
        · exact Or.inr (mem_boundQueries.mpr hbound)
      cases eq_of_mem_items hitems hpart hentry (part.derivedItems_subset hx) hids
      exact (not_mem_nil hx).elim
  have hderived : (b.parts.flatMap derivedItems).Nodup := by
    apply nodup_iff_count_le_one.mpr
    intro x
    have hcount := nodup_iff_count_le_one.mp hitems x
    have hle : (b.parts.flatMap derivedItems).count x ≤ (b.parts.flatMap items).count x := by
      rw [count_flatMap, count_flatMap]
      apply sum_le_sum
      intro part _
      cases part with
      | derived => exact le_rfl
      | _ => exact Nat.zero_le _
    exact hle.trans hcount
  apply hderived.map_on
  intro x hx y hy hxy
  obtain ⟨n, hn⟩ := Option.isSome_iff_exists.mp (hsome _ (mem_map_of_mem hx))
  have hn' := hxy.symm.trans hn
  rw [hstore] at hn hn'
  have hnone : ∀ x, (BindState.initial env p parameters).view.exprs.serial? x ≠ some n := by
    intro x hx
    cases hx.symm.trans (serial?_of_isUnnumbered hnumbers x)
  have honly := ((hnames.fresh x (hother x hx) n hn).resolve_left (hnone x)).2.2
  exact ((honly y (hother y hy) hn').resolve_right (hnone y)).symm

/-! ### Identifiers -/

theorem Oid.temp_mod (n : Nat) : temp n % tempMark = n % tempMark := by
  show (n ||| 2 ^ 31) % 2 ^ 31 = n % 2 ^ 31
  rw [Nat.or_mod_two_pow]
  simp

theorem nodup_map_columnId {numbers : List (Option Nat)} (h : numbers.Nodup) (lo : Nat)
    (hrange : ∀ m, m ∈ numbers → ∃ n, m = some n ∧ lo ≤ n ∧ n < lo + Oid.tempMark) :
    (numbers.map columnId).Nodup := by
  apply h.map_on
  intro m hm m' hm' hid
  obtain ⟨n, rfl, hn⟩ := hrange m hm
  obtain ⟨n', rfl, hn'⟩ := hrange m' hm'
  have hmod : n % Oid.tempMark = n' % Oid.tempMark := by
    rw [← Oid.temp_mod n, ← Oid.temp_mod n']
    exact congrArg (· % Oid.tempMark) hid
  congr 1
  rw [show Oid.tempMark = 2147483648 from rfl] at hmod hn hn'
  omega

/-- **Identifiers of output columns.**  In a bound statement that was fresh and tree-shaped every output
column of a derived table or WITH entry has a number.  The numbers of the columns of derived tables
differ, and so do those of the columns of WITH entries, which the binding has taken from the counter of
the catalog.  As long as there are no more than 2³¹ numbers of either kind, all identifiers differ exactly
if no column of a derived table has the identifier of a column of a WITH entry. -/
theorem bind_columnIds (hfresh : p.isUnbound = true) (hnumbers : p.exprs.isUnnumbered = true)
    (htree : p.exprs.TreeShaped p.statement.exprs) (h : (bind env p parameters).result = .ok b) :
    (∀ n ∈ b.derivedNumbers ++ b.entryNumbers, n.isSome = true) ∧
      b.derivedNumbers.Nodup ∧ b.entryNumbers.Nodup ∧
      (∀ n, some n ∈ b.entryNumbers →
        env.catalog.nextTemp ≤ n ∧ n < (bind env p parameters).nextTemp) ∧
      ((∀ n, some n ∈ b.derivedNumbers → n < Oid.tempMark) →
        (bind env p parameters).nextTemp ≤ env.catalog.nextTemp + Oid.tempMark →
        (b.columnIds.Nodup ↔ ∀ m n, some m ∈ b.derivedNumbers → some n ∈ b.entryNumbers →
          Oid.temp m ≠ Oid.temp n)) := by
  have hexprs := (Bool.and_eq_true_iff.mp hfresh).2
  have hsome := bind_isSome_numbers hexprs h
  have hderived := bind_nodup_derivedNumbers hexprs hnumbers htree h
  obtain ⟨hentries, hrange⟩ := bind_nodup_entryNumbers hfresh h
  refine ⟨hsome, hderived, hentries, hrange, fun hlow htemp => ?_⟩
  obtain ⟨hsome, hsome'⟩ := forall_mem_append.mp hsome
  have hfirst : (b.derivedNumbers.map columnId).Nodup := by
    apply nodup_map_columnId hderived 0
    intro m hm
    obtain ⟨n, rfl⟩ := Option.isSome_iff_exists.mp (hsome m hm)
    have hn := hlow n hm
    exact ⟨n, rfl, Nat.zero_le n, by omega⟩
  have hsecond : (b.entryNumbers.map columnId).Nodup := by
    apply nodup_map_columnId hentries env.catalog.nextTemp
    intro m hm
    obtain ⟨n, rfl⟩ := Option.isSome_iff_exists.mp (hsome' m hm)
    have hn := hrange n hm
    exact ⟨n, rfl, hn.1, by omega⟩
  rw [Bound.columnIds, map_append, nodup_append]
  constructor
  · intro hall m n hm hn
    exact hall.2.2 _ (mem_map_of_mem hm) _ (mem_map_of_mem hn)
  · intro hclash
    refine ⟨hfirst, hsecond, fun x hx y hy hxy => ?_⟩
    obtain ⟨m, hm, rfl⟩ := mem_map.mp hx
    obtain ⟨n, hn, rfl⟩ := mem_map.mp hy
    obtain ⟨m, rfl⟩ := Option.isSome_iff_exists.mp (hsome m hm)
    obtain ⟨n, rfl⟩ := Option.isSome_iff_exists.mp (hsome' n hn)
    exact hclash m n hm hn hxy

end

/-- `WITH c (x, ...) AS (SELECT 1, ...) SELECT c.x, ..., d.w FROM c, (SELECT 1 AS w) d`, with the given
names for the columns of the entry. -/
def entryBesideDerived (names : List String) : Parsed :=
  { statement := .select {
      ctes := [{ name := "c", columns := names.map (⟨·, none⟩),
                 query := { items := range names.length } }]
      items := range' names.length (names.length + 1)
      source := some (.list [
        .table (.named "c" "c"),
        .derived { items := [2 * names.length + 1] } ⟨"d", none⟩]) }
    exprs := ⟨((names.map fun _ => ExprNode.ofExpr (.constant (.ofByte 1))) ++
      (names.map fun name => ExprNode.ofExpr (.column { table := some ⟨"c", none⟩, column := name })) ++
      [ExprNode.ofExpr (.columnOf "d" "w"),
        { ExprNode.ofExpr (.constant (.ofByte 1)) with knownAs := some ⟨"w", none⟩ }]).toArray⟩ }

/-- With two columns of the entry the derived table has the next number. -/
def twoEntryColumnsFacts : Bool :=
  match (bind .initial (entryBesideDerived ["x", "y"]) []).result with
  | .ok b => b.derivedNumbers = [some 3] && b.entryNumbers = [some 1, some 2] &&
      (bind .initial (entryBesideDerived ["x", "y"]) []).nextTemp = 3
  | .error _ => false

theorem twoEntryColumns_columnIds :
    ∃ b, (bind .initial (entryBesideDerived ["x", "y"]) []).result = .ok b ∧
      b.derivedNumbers = [some 3] ∧ b.entryNumbers = [some 1, some 2] ∧ b.columnIds.Nodup := by
  have hfacts : twoEntryColumnsFacts = true := by decide +kernel
  unfold twoEntryColumnsFacts at hfacts
  split at hfacts
  · rename_i b hb
    simp only [Bool.and_eq_true, decide_eq_true_eq] at hfacts
    obtain ⟨⟨hderived, hentries⟩, htemp⟩ := hfacts
    obtain ⟨_, _, _, _, hids⟩ := bind_columnIds (by decide +kernel) (by decide +kernel)
      (treeShaped_of_isTreeShaped
        (show (entryBesideDerived ["x", "y"]).exprs.isTreeShaped 6 _ = true by decide +kernel)) hb
    refine ⟨b, hb, hderived, hentries, (hids ?_ ?_).mpr ?_⟩
    · intro n hn
      simp only [hderived, mem_singleton, Option.some.injEq] at hn
      subst hn
      decide
    · rw [htemp]
      decide
    · intro m n hm hn
      simp only [hderived, hentries, mem_cons, Option.some.injEq, not_mem_nil, or_false]
        at hm hn
      subst hm
      rcases hn with rfl | rfl <;> decide
  · cases hfacts

/-- The last column of the entry and the column of the derived table cannot be told apart. -/
def threeEntryColumnsFacts : Bool :=
  match (bind .initial (entryBesideDerived ["x", "y", "z"]) []).result with
  | .ok b => b.derivedNumbers = [some 3] && b.entryNumbers = [some 1, some 2, some 3] &&
      (b.exprs.expr 5).column?.any fun z => (b.exprs.expr 6).column?.any fun w =>
        z.isResolved && w.isResolved && z.tableId = w.tableId && z.columnId = w.columnId &&
          z.column != w.column
  | .error _ => false

theorem threeEntryColumns_clash :
    (entryBesideDerived ["x", "y", "z"]).isUnbound = true ∧
      (entryBesideDerived ["x", "y", "z"]).exprs.isUnnumbered = true ∧
      (entryBesideDerived ["x", "y", "z"]).exprs.TreeShaped
        (entryBesideDerived ["x", "y", "z"]).statement.exprs ∧
      ∃ b, (bind .initial (entryBesideDerived ["x", "y", "z"]) []).result = .ok b ∧
        ¬b.columnIds.Nodup ∧ ∃ z w, (b.exprs.expr 5).column? = some z ∧ (b.exprs.expr 6).column? = some w ∧
          z.isResolved = true ∧ w.isResolved = true ∧ z.column ≠ w.column ∧ z.tableId = w.tableId ∧
          z.columnId = w.columnId := by
  refine ⟨by decide +kernel, by decide +kernel, treeShaped_of_isTreeShaped
    (show (entryBesideDerived ["x", "y", "z"]).exprs.isTreeShaped 8 _ = true by decide +kernel), ?_⟩
  have hfacts : threeEntryColumnsFacts = true := by decide +kernel
  unfold threeEntryColumnsFacts at hfacts
  split at hfacts
  · rename_i b hb
    simp only [Bool.and_eq_true, decide_eq_true_eq, Option.any_eq_true, bne_iff_ne] at hfacts
    obtain ⟨⟨hderived, hentries⟩, z, hz, w, hw, ⟨⟨⟨hzres, hwres⟩, htable⟩, hcolumn⟩, hname⟩ := hfacts
    refine ⟨b, hb, ?_, z, w, hz, hw, hzres, hwres, hname, htable, hcolumn⟩
    rw [Bound.columnIds, hderived, hentries]
    decide
  · cases hfacts

end SqlAnalysis
