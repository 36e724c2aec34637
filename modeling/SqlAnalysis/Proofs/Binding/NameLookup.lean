import SqlAnalysis.Proofs.Binding.Scopes

/-!
# The scope that decides a name

A name is looked up from the innermost scope outwards.

* **`ScopeStack.search_eq_iff`**: a lookup gives what it finds in the innermost scope that knows the
  name.
* **`innermost_scope_decides`**: what follows for names with and without a qualifier.
-/

namespace SqlAnalysis

open List ScopeStack

variable {S : ScopeStack} {P : Scope → Prop} {s scope : Scope} {t : ScopeTable} {name knownAs : String}
  {c : ResolvedColumn} {depth : Nat} {look : Scope → Except Diagnostic (Option ResolvedColumn)}
  {r : Except Diagnostic (Option ResolvedColumn)}

/-! ### Tables -/

/-- A column of the name, with none of the name before it. -/
def ScopeTable.First (t : ScopeTable) (name : String) (depth : Nat) (c : ResolvedColumn) : Prop :=
  c.column = name ∧ c.depth = depth ∧ ∃ before after, t.columns depth = before ++ c :: after ∧
    ∀ c' ∈ before, c'.column ≠ name

theorem ScopeTable.column?_eq_some_iff : t.column? name depth = some c ↔ t.First name depth c := by
  have hfind : t.column? name depth = some c ↔ c.column = name ∧ ∃ before after,
      t.columns depth = before ++ c :: after ∧ ∀ c' ∈ before, c'.column ≠ name := by
    simp [column?, find?_eq_some_iff_append]
  refine ⟨fun h => ?_, fun h => hfind.mpr ⟨h.1, h.2.2⟩⟩
  exact ⟨(hfind.mp h).1, depth_of_mem_columns (mem_columns_of_column? h), (hfind.mp h).2⟩

theorem ScopeTable.map_column (t : ScopeTable) (depth : Nat) :
    (t.columns depth).map (·.column) = t.columnNames := by
  unfold columnNames columns
  split <;> simp

theorem ScopeTable.column?_eq_none_iff (depth : Nat) :
    t.column? name depth = none ↔ name ∉ t.columnNames := by
  rw [← t.map_column depth, column?, find?_eq_none]
  simp

/-! ### One scope -/

/-- How many tables have a column of the name. -/
def Scope.tablesWith (s : Scope) (name : String) : Nat := s.tables.countP (name ∈ ·.columnNames)

/-- Some table has the name. -/
def Scope.Holds (knownAs : String) (scope : Scope) : Prop := ∃ t ∈ scope.tables, t.knownAs.name = knownAs

theorem Scope.matches_perm (s : Scope) (name : String) :
    s.matches_ name ~ s.tables.filterMap (·.column? name s.depth) :=
  (filter_append_perm _ _).filterMap _

theorem Scope.length_matches_ (s : Scope) (name : String) : (s.matches_ name).length = s.tablesWith name := by
  rw [(s.matches_perm name).length_eq, length_filterMap_eq_countP, tablesWith]
  refine countP_congr fun t _ => ?_
  rw [← Option.ne_none_iff_isSome, ne_eq, ScopeTable.column?_eq_none_iff, not_not, decide_eq_true_eq]

theorem Scope.mem_matches_iff : c ∈ s.matches_ name ↔ ∃ t ∈ s.tables, t.First name s.depth c := by
  simp only [(s.matches_perm name).mem_iff, mem_filterMap, ScopeTable.column?_eq_some_iff]

theorem Scope.unqualified_iff (s : Scope) (name : String) :
    (s.unqualified name = .ok none ↔ s.tablesWith name = 0) ∧
    (∀ c, s.unqualified name = .ok (some c) ↔ s.tablesWith name = 1 ∧ ∃ t ∈ s.tables, t.First name s.depth c) ∧
    ∀ e, s.unqualified name = .error e ↔ 2 ≤ s.tablesWith name ∧
      e = ⟨.ambiguousColumn, s!"column reference \"{name}\" is ambiguous"⟩ := by
  simp only [← s.length_matches_ name, ← mem_matches_iff, unqualified]
  match s.matches_ name with
  | [] => simp
  | [c] => simp [eq_comm]
  | _ :: _ :: _ => simp [eq_comm]

/-- The table of a name, with none of the name before it. -/
def Scope.Shows (s : Scope) (knownAs : String) (t : ScopeTable) : Prop :=
  t.knownAs.name = knownAs ∧ ∃ before after, s.tables = before ++ t :: after ∧
    ∀ u ∈ before, u.knownAs.name ≠ knownAs

theorem Scope.table?_eq_some_iff : s.table? knownAs = some t ↔ s.Shows knownAs t := by
  simp [table?, Shows, find?_eq_some_iff_append]

theorem Scope.qualified_eq_none_iff : s.qualified knownAs name = .ok none ↔ ¬s.Holds knownAs := by
  have hnone : s.table? knownAs = none ↔ ¬s.Holds knownAs := by simp [table?, Holds]
  rw [← hnone, qualified]
  split
  · simp_all
  · split <;> simp_all

theorem Scope.qualified_eq_some_iff : s.qualified knownAs name = .ok (some c) ↔
    ∃ t, s.Shows knownAs t ∧ t.First name s.depth c := by
  simp only [← table?_eq_some_iff, ← ScopeTable.column?_eq_some_iff, qualified]
  cases s.table? knownAs with
  | none => simp
  | some t => cases ht : t.column? name s.depth <;> simp [ht]

theorem Scope.qualified_eq_error_iff {e : Diagnostic} : s.qualified knownAs name = .error e ↔
    ∃ t, s.Shows knownAs t ∧ name ∉ t.columnNames ∧
      e = ⟨.undefinedColumn, s!"column {knownAs}.{name} does not exist"⟩ := by
  simp only [← table?_eq_some_iff, ← ScopeTable.column?_eq_none_iff s.depth, qualified]
  cases s.table? knownAs with
  | none => simp
  | some t => cases ht : t.column? name s.depth <;> simp [ht, eq_comm]

/-! ### All scopes -/

/-- The first scope on the way out that has a property. -/
def ScopeStack.Innermost (S : ScopeStack) (P : Scope → Prop) (scope : Scope) : Prop :=
  P scope ∧ ∃ inner outer, S = inner ++ scope :: outer ∧ ∀ s ∈ inner, ¬P s

theorem ScopeStack.innermost_cons {outer : ScopeStack} :
    Innermost (s :: outer) P scope ↔ P s ∧ scope = s ∨ ¬P s ∧ Innermost outer P scope := by
  constructor
  · rintro ⟨hP, inner, outer', heq, hinner⟩
    cases inner with
    | nil =>
      cases heq
      exact Or.inl ⟨hP, rfl⟩
    | cons s' inner =>
      cases heq
      obtain ⟨hs, hinner⟩ := forall_mem_cons.mp hinner
      exact Or.inr ⟨hs, hP, inner, outer', rfl, hinner⟩
  · rintro (⟨hP, rfl⟩ | ⟨hs, hP, inner, outer', rfl, hinner⟩)
    · exact ⟨hP, [], outer, rfl, nofun⟩
    · exact ⟨hP, s :: inner, outer', rfl, forall_mem_cons.mpr ⟨hs, hinner⟩⟩

theorem ScopeStack.search_eq_iff (hP : ∀ s, look s = .ok none ↔ ¬P s) (hr : r ≠ .ok none) :
    search look S = r ↔ ∃ scope, S.Innermost P scope ∧ look scope = r := by
  induction S with
  | nil =>
    refine ⟨fun h => (hr h.symm).elim, ?_⟩
    rintro ⟨_, ⟨_, inner, _, heq, _⟩, _⟩
    cases inner <;> cases heq
  | cons s outer ih =>
    simp only [innermost_cons, search]
    by_cases hs : P s
    · have hfound : look s ≠ .ok none := fun h => (hP s).mp h hs
      simp only [hs, true_and, not_true_eq_false, false_and, or_false, exists_eq_left]
      split <;> simp_all
    · rw [(hP s).mpr hs]
      simp [hs, ih]

theorem ScopeStack.search_eq_none_iff (hP : ∀ s, look s = .ok none ↔ ¬P s) :
    search look S = .ok none ↔ ∀ s ∈ S, ¬P s := by
  induction S with
  | nil => simp [search]
  | cons s outer ih =>
    rw [forall_mem_cons, ← ih, ← hP s, search]
    split <;> simp_all

/-- **The innermost scope that knows a name decides what it means.**  A name without a qualifier means
the first column of the only table there that has it; it is ambiguous if two tables there have it,
whatever the outer scopes contain, and unknown if no table of any scope has it.  A qualified name is
decided by the innermost scope with a table of that name: it means the first column of the name in that
table, and is refused if there is none, whatever outer tables of the same name have. -/
theorem innermost_scope_decides (S : ScopeStack) (name : String) :
    (∀ c, S.unqualified name = .ok (some c) ↔ ∃ scope, S.Innermost (0 < ·.tablesWith name) scope ∧
      scope.tablesWith name = 1 ∧ ∃ t ∈ scope.tables, t.First name scope.depth c) ∧
    (∀ e, S.unqualified name = .error e ↔ ∃ scope, S.Innermost (0 < ·.tablesWith name) scope ∧
      2 ≤ scope.tablesWith name ∧ e = ⟨.ambiguousColumn, s!"column reference \"{name}\" is ambiguous"⟩) ∧
    (S.unqualified name = .ok none ↔ ∀ scope ∈ S, ∀ t ∈ scope.tables, name ∉ t.columnNames) ∧
    ∀ knownAs,
      (∀ c, S.qualified knownAs name = .ok (some c) ↔ ∃ scope, S.Innermost (Scope.Holds knownAs) scope ∧
        ∃ t, scope.Shows knownAs t ∧ t.First name scope.depth c) ∧
      (∀ e, S.qualified knownAs name = .error e ↔ ∃ scope, S.Innermost (Scope.Holds knownAs) scope ∧
        ∃ t, scope.Shows knownAs t ∧ name ∉ t.columnNames ∧
          e = ⟨.undefinedColumn, s!"column {knownAs}.{name} does not exist"⟩) ∧
      (S.qualified knownAs name = .ok none ↔ ∀ scope ∈ S, ∀ t ∈ scope.tables, t.knownAs.name ≠ knownAs) := by
  have hnone (s : Scope) : s.unqualified name = .ok none ↔ ¬0 < s.tablesWith name :=
    (s.unqualified_iff name).1.trans Nat.pos_iff_ne_zero.not_left.symm
  have hnone' (knownAs : String) (s : Scope) : s.qualified knownAs name = .ok none ↔ ¬s.Holds knownAs :=
    Scope.qualified_eq_none_iff
  refine ⟨fun c => ?_, fun e => ?_, ?_, fun knownAs => ⟨fun c => ?_, fun e => ?_, ?_⟩⟩
  · rw [unqualified, search_eq_iff hnone (by nofun)]
    simp only [Scope.unqualified_iff]
  · rw [unqualified, search_eq_iff hnone (by nofun)]
    simp only [Scope.unqualified_iff]
  · rw [unqualified, search_eq_none_iff hnone]
    simp only [Scope.tablesWith, countP_pos_iff, decide_eq_true_eq, not_exists, not_and]
  · rw [qualified, search_eq_iff (hnone' knownAs) (by nofun)]
    simp only [Scope.qualified_eq_some_iff]
  · rw [qualified, search_eq_iff (hnone' knownAs) (by nofun)]
    simp only [Scope.qualified_eq_error_iff]
  · rw [qualified, search_eq_none_iff (hnone' knownAs)]
    simp only [Scope.Holds, not_exists, not_and]

end SqlAnalysis
