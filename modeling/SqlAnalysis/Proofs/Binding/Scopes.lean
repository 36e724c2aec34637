import Mathlib.Data.List.Infix
import SqlAnalysis.Proofs.Binding.Derivation
import SqlAnalysis.Proofs.Keyed

/-!
# Scopes during a binding

* **`resolves_of_resolveColumn`**: a column that a written name means is one of a table in the scope of
  its depth.
* **`Binds.scopes`**: what a binding leaves of the open scopes.
-/

namespace SqlAnalysis

open List ScopeStack

variable {Γ Γ' : List (List ScopeTable)} {t : ScopeTable} {c : ResolvedColumn} {depth : Nat}
  {name : String} {s scope scope' : Scope} {table : Option String} {S S' S'' : ScopeStack}
  {columns : List DerivedColumn} {cs : List Cte} {given known : Alias} {v v' : BindView}
  {source : TableSource} {ids : List ExprId}

/-! ### Tables -/

def ScopeStack.tables (S : ScopeStack) : List (List ScopeTable) := S.map (·.tables)

/-- Every scope knows how many scopes are around it. -/
def ScopeStack.Leveled : ScopeStack → Prop
  | [] => True
  | scope :: outer => scope.depth = outer.length ∧ Leveled outer

/-- A column of a table in one of the scopes, whose depth it has. -/
def Resolves (Γ : List (List ScopeTable)) (c : ResolvedColumn) : Prop :=
  ∃ tables outer, (tables :: outer) <:+ Γ ∧ ∃ t ∈ tables, c ∈ t.columns outer.length

/-- Each scope has at least the tables that it had. -/
abbrev Widens (Γ Γ' : List (List ScopeTable)) : Prop := Forall₂ (· ⊆ ·) Γ Γ'

theorem Widens.refl (Γ : List (List ScopeTable)) : Widens Γ Γ :=
  forall₂_same.mpr fun _ _ => Subset.refl _

theorem Widens.trans {Γ'' : List (List ScopeTable)} (h : Widens Γ Γ') (h' : Widens Γ' Γ'') :
    Widens Γ Γ'' := by
  induction h generalizing Γ'' with
  | nil => exact h'
  | cons hF _ ih =>
    cases h' with
    | cons hF' h' => exact .cons (Subset.trans hF hF') (ih h')

theorem ScopeTable.depth_of_mem_columns (h : c ∈ t.columns depth) : c.depth = depth := by
  unfold columns at h
  split at h
  · obtain ⟨_, _, rfl⟩ := mem_map.mp h
    rfl
  · obtain ⟨_, _, rfl⟩ := mem_map.mp h
    rfl

theorem ScopeTable.knownAs_of_mem_columns (h : c ∈ t.columns depth) : c.knownAs = t.knownAs := by
  unfold columns at h
  split at h
  · obtain ⟨_, _, rfl⟩ := mem_map.mp h
    rfl
  · obtain ⟨_, _, rfl⟩ := mem_map.mp h
    rfl

theorem Resolves.depth_lt (h : Resolves Γ c) : c.depth < Γ.length := by
  obtain ⟨_, _, hsuffix, _, _, hc⟩ := h
  rw [ScopeTable.depth_of_mem_columns hc]
  exact hsuffix.length_le

theorem Resolves.outer {F : List ScopeTable} {Γ : List (List ScopeTable)} {c : ResolvedColumn}
    (h : Resolves Γ c) : Resolves (F :: Γ) c := by
  obtain ⟨tables, outer, hsuffix, t, ht, hc⟩ := h
  exact ⟨tables, outer, hsuffix.trans (suffix_cons _ _), t, ht, hc⟩

theorem resolves_cons {F : List ScopeTable} :
    Resolves (F :: Γ) c ↔ (∃ t ∈ F, c ∈ t.columns Γ.length) ∨ Resolves Γ c := by
  constructor
  · rintro ⟨tables, outer, hsuffix, t, ht, hc⟩
    rcases suffix_cons_iff.mp hsuffix with heq | hsuffix
    · cases heq
      exact .inl ⟨t, ht, hc⟩
    · exact .inr ⟨tables, outer, hsuffix, t, ht, hc⟩
  · rintro (⟨t, ht, hc⟩ | h)
    · exact ⟨F, Γ, suffix_refl _, t, ht, hc⟩
    · exact h.outer

theorem Resolves.widen (h : Resolves Γ c) (hw : Widens Γ Γ') : Resolves Γ' c := by
  induction hw with
  | nil => exact h
  | cons hF hw ih =>
    rw [resolves_cons] at h ⊢
    rcases h with ⟨t, ht, hc⟩ | h
    · exact .inl ⟨t, hF ht, hw.length_eq ▸ hc⟩
    · exact .inr (ih h)

/-! ### Lookup -/

theorem ScopeTable.mem_columns_of_column? (h : t.column? name depth = some c) : c ∈ t.columns depth :=
  mem_of_find?_eq_some h

theorem Scope.mem_of_unqualified (h : s.unqualified name = .ok (some c)) :
    ∃ t ∈ s.tables, c ∈ t.columns s.depth := by
  have hmem : c ∈ s.matches_ name := by
    unfold Scope.unqualified at h
    split at h
    · cases h
    · rename_i hmatch
      cases h
      rw [hmatch]
      exact mem_singleton_self _
    · cases h
  obtain ⟨t, ht, hc⟩ := mem_filterMap.mp hmem
  refine ⟨t, ?_, ScopeTable.mem_columns_of_column? hc⟩
  rcases mem_append.mp ht with ht | ht
  · exact (mem_filter.mp ht).1
  · exact (mem_filter.mp ht).1

theorem Scope.mem_of_qualified {table : String} (h : s.qualified table name = .ok (some c)) :
    ∃ t ∈ s.tables, c ∈ t.columns s.depth := by
  unfold Scope.qualified at h
  split at h
  · cases h
  · rename_i t ht
    split at h
    · rename_i hc
      cases h
      exact ⟨t, mem_of_find?_eq_some ht, ScopeTable.mem_columns_of_column? hc⟩
    · cases h

theorem ScopeStack.resolves_of_search {look : Scope → Except Diagnostic (Option ResolvedColumn)}
    (hlook : ∀ {s c}, look s = .ok (some c) → ∃ t ∈ s.tables, c ∈ t.columns s.depth)
    (hS : S.Leveled) (h : search look S = .ok (some c)) : Resolves S.tables c := by
  induction S with
  | nil => cases h
  | cons scope outer ih =>
    rw [search] at h
    show Resolves (scope.tables :: tables outer) c
    rw [resolves_cons]
    split at h
    · cases h
    · rename_i c' hc
      cases h
      obtain ⟨t, ht, hc⟩ := hlook hc
      rw [hS.1] at hc
      exact .inl ⟨t, ht, by rwa [tables, length_map]⟩
    · exact .inr (ih hS.2 h)

theorem resolves_of_resolveColumn (hS : S.Leveled) {ref : ColumnRef}
    (h : resolveColumn S ref = .ok c) : Resolves S.tables c := by
  unfold resolveColumn at h
  split at h
  · obtain ⟨found, hfound, h⟩ := except_bind.mp h
    split at h
    · cases h
      exact resolves_of_search Scope.mem_of_unqualified hS hfound
    · cases h
  · obtain ⟨_, hfound, h⟩ := except_bind.mp h
    split at h
    · cases h
      exact resolves_of_search Scope.mem_of_qualified hS hfound
    · cases h

theorem mem_of_starTables {tables : List ScopeTable} (h : starTables scope table = .ok tables) :
    ∀ t ∈ tables, t ∈ scope.tables := by
  unfold starTables at h
  split at h
  · cases h
  · split at h
    · cases h
      exact fun _ ht => ht
    · split at h
      · rename_i found
        cases h
        intro t ht
        rw [mem_singleton.mp ht]
        exact mem_of_find?_eq_some found
      · cases h

theorem resolves_of_starTables {outer : ScopeStack} {tables : List ScopeTable}
    (hlevel : Leveled (scope :: outer)) (h : starTables scope table = .ok tables)
    (ht : t ∈ tables) (hc : c ∈ t.columns scope.depth) :
    Resolves (ScopeStack.tables (scope :: outer)) c := by
  rw [ScopeStack.tables, List.map_cons, resolves_cons, List.length_map, ← hlevel.1]
  exact .inl ⟨t, mem_of_starTables h t ht, hc⟩

/-! ### WITH entries -/

/-- The WITH entries in force by name, each with the serials of its columns. -/
abbrev EntryMap := String → Option (List (Option Nat))

def ScopeStack.entries (S : ScopeStack) : EntryMap := fun name =>
  (S.cte? name).map (·.map (·.knownAs.serial))

def Cte.define (c : Cte) (Δ : EntryMap) : EntryMap := fun name =>
  if name = c.name then some (c.columns.map (·.serial)) else Δ name

def Cte.defineAll (cs : List Cte) (Δ : EntryMap) : EntryMap := cs.foldl (fun Δ c => c.define Δ) Δ

theorem Cte.defineAll_cons (c : Cte) (cs : List Cte) (Δ : EntryMap) :
    Cte.defineAll (c :: cs) Δ = Cte.defineAll cs (c.define Δ) := rfl

def ScopeStack.Distinct (S : ScopeStack) : Prop := ∀ scope ∈ S, scope.ctes.keys.Nodup

/-- The WITH entries that a scope knows, its own and those of the branches to the left. -/
def Scope.entries (s : Scope) : Keyed String (List DerivedColumn) := s.ctes ++ s.inheritedCtes

theorem ScopeStack.mem_of_cte? {S : ScopeStack} {name : String} {columns : List DerivedColumn}
    (h : S.cte? name = some columns) :
    ∃ scope ∈ S, (name, columns) ∈ scope.entries := by
  obtain ⟨scope, hscope, hfound⟩ := exists_of_findSome?_eq_some h
  refine ⟨scope, hscope, mem_append.mpr ?_⟩
  rcases Option.or_eq_some_iff.mp hfound with h | ⟨_, h⟩
  · exact .inl (Keyed.mem_of_find? h)
  · exact .inr (Keyed.mem_of_find? h)

theorem ScopeStack.cte?_cons (scope : Scope) (outer : ScopeStack) (name : String) :
    cte? (scope :: outer) name = (scope.cte? name).or (cte? outer name) := by
  unfold cte?
  rw [findSome?_cons]
  cases scope.cte? name <;> rfl

theorem ScopeStack.entries_open (S : ScopeStack) : S.open_.entries = S.entries := by
  funext name
  rw [entries, entries, open_, cte?_cons]
  rfl

theorem ScopeStack.entries_congr {outer : ScopeStack} (hctes : scope'.ctes = scope.ctes)
    (hinherited : scope'.inheritedCtes = scope.inheritedCtes) :
    entries (scope' :: outer) = entries (scope :: outer) := by
  funext name
  rw [entries, entries, cte?_cons, cte?_cons, Scope.cte?, Scope.cte?, hctes, hinherited]

theorem ScopeStack.entries_sibling (h : scope.ctes.keys.Nodup) (outer : ScopeStack) :
    entries (scope.sibling :: outer) = entries (scope :: outer) := by
  funext name
  rw [entries, entries, cte?_cons, cte?_cons]
  congr 2
  show (Keyed.find? _ name) = _
  exact Keyed.find?_foldl_insert h _ name

theorem ScopeStack.entries_addCte (h : scope.addCte name columns = .ok scope') (outer : ScopeStack) :
    entries (scope' :: outer) = fun n =>
      if n = name then some (columns.map (·.knownAs.serial))
      else entries (scope :: outer) n := by
  unfold Scope.addCte at h
  split at h
  · cases h
  · cases h
    funext n
    rw [entries, entries, cte?_cons, cte?_cons, Scope.cte?, Scope.cte?, Keyed.find?_insert]
    by_cases hn : n = name
    · subst hn
      rw [if_pos rfl, if_pos rfl]
      rfl
    · rw [if_neg (Ne.symm hn), if_neg hn]

/-! ### What a binding leaves of the scopes -/

/-- FROM items make tables visible in the innermost scope. -/
inductive AddsTables (S : ScopeStack) : ScopeStack → Prop where
  | none : AddsTables S S
  | some {scope scope' : Scope} {outer : ScopeStack} :
    S = scope :: outer → scope'.depth = scope.depth → scope'.ctes = scope.ctes →
    scope'.inheritedCtes = scope.inheritedCtes → scope.tables <+: scope'.tables →
    AddsTables S (scope' :: outer)

/-- WITH entries are defined in the innermost scope. -/
inductive AddsEntries (cs : List Cte) (S : ScopeStack) : ScopeStack → Prop where
  | none : cs = [] → AddsEntries cs S S
  | some {scope scope' : Scope} {outer : ScopeStack} :
    S = scope :: outer → scope'.depth = scope.depth → scope'.tables = scope.tables →
    (scope.ctes.keys.Nodup → scope'.ctes.keys.Nodup) →
    entries (scope' :: outer) = Cte.defineAll cs (entries (scope :: outer)) →
    AddsEntries cs S (scope' :: outer)

theorem AddsTables.trans (h : AddsTables S S') (h' : AddsTables S' S'') : AddsTables S S'' := by
  cases h' with
  | none => exact h
  | some heq hdepth hctes hinherited htables =>
    cases h with
    | none => exact .some heq hdepth hctes hinherited htables
    | some heq0 hdepth0 hctes0 hinherited0 htables0 =>
      cases heq
      exact .some heq0 (hdepth.trans hdepth0) (hctes.trans hctes0) (hinherited.trans hinherited0)
        (htables0.trans htables)

theorem AddsTables.entries (h : AddsTables S S') : S'.entries = S.entries := by
  cases h with
  | none => rfl
  | some heq _ hctes hinherited _ =>
    rw [heq]
    exact entries_congr hctes hinherited

theorem AddsTables.widens (h : AddsTables S S') : Widens S.tables S'.tables := by
  cases h with
  | none => exact .refl _
  | some heq _ _ _ htables =>
    rw [heq]
    exact .cons htables.subset (Widens.refl _)

theorem AddsEntries.tables (h : AddsEntries cs S S') : S'.tables = S.tables := by
  cases h with
  | none => rfl
  | some heq _ htables _ _ =>
    rw [heq, tables, tables, map_cons, map_cons, htables]

theorem AddsEntries.entries (h : AddsEntries cs S S') :
    S'.entries = Cte.defineAll cs S.entries := by
  cases h with
  | none hcs =>
    rw [hcs]
    rfl
  | some heq _ _ _ hentries =>
    rw [heq]
    exact hentries

theorem AddsEntries.cons {c : Cte} (h : AddsEntries [c] S S') (h' : AddsEntries cs S' S'') :
    AddsEntries (c :: cs) S S'' := by
  cases h with
  | none hc => cases hc
  | some heq0 hdepth0 htables0 hnodup0 hentries0 =>
    cases h' with
    | none hcs =>
      subst hcs
      exact .some heq0 hdepth0 htables0 hnodup0 hentries0
    | some heq hdepth htables hnodup hentries =>
      cases heq
      refine .some heq0 (hdepth.trans hdepth0) (htables.trans htables0)
        (fun h => hnodup (hnodup0 h)) ?_
      rw [hentries, hentries0]
      rfl

/-- What a binding leaves of the open scopes. -/
def BindTask.Scopes : BindTask → ScopeStack → ScopeStack → Prop
  | .expr _, S, S' | .acts .., S, S' | .roots _, S, S' | .items .., S, S' | .union .., S, S'
  | .query .., S, S' => S' = S
  | .source .., S, S' | .sources .., S, S' | .from_ .., S, S' => AddsTables S S'
  | .entry _ c, S, S' => AddsEntries [c] S S'
  | .entries _ cs, S, S' => AddsEntries cs S S'
  | .branch .., S, S' => S'.tail = S.tail

theorem Aliases.addsTables (h : Aliases given v known v') : AddsTables v.scopes v'.scopes := by
  cases h with
  | intro heq _ => exact .some heq rfl rfl rfl (prefix_refl _)

theorem Scope.addTable_ok (h : scope.addTable known source = .ok scope') :
    scope' = { scope with tables := scope.tables ++ [⟨known, source⟩] } := by
  unfold Scope.addTable at h
  split at h
  · cases h
  · cases h
    rfl

theorem Aliases.tables_eq (h : Aliases given v known v') : v'.scopes.tables = v.scopes.tables := by
  cases h with
  | intro heq =>
    rw [heq]
    rfl

theorem Rescopes.tables_addTable (h : Rescopes (·.addTable known source) v v') :
    ∃ F Γ, v.scopes.tables = F :: Γ ∧ v'.scopes.tables = (F ++ [⟨known, source⟩]) :: Γ := by
  cases h with
  | @intro scope _ outer heq hadd =>
    rw [Scope.addTable_ok hadd, heq]
    exact ⟨scope.tables, tables outer, rfl, rfl⟩

theorem Rescopes.addsTables (h : Rescopes (·.addTable known source) v v') :
    AddsTables v.scopes v'.scopes := by
  cases h with
  | intro heq hadd =>
    rw [Scope.addTable_ok hadd]
    exact .some heq rfl rfl rfl (prefix_append _ _)

theorem Rescopes.addsEntries {c : Cte} (hc : c.columns = columns.map (·.knownAs))
    (h : Rescopes (·.addCte c.name columns) v v') : AddsEntries [c] v.scopes v'.scopes := by
  cases h with
  | @intro scope scope' outer heq hadd =>
    have hentries := entries_addCte hadd outer
    have hfields : scope'.depth = scope.depth ∧ scope'.tables = scope.tables ∧
        scope'.ctes = scope.ctes.insert c.name columns := by
      unfold Scope.addCte at hadd
      split at hadd
      · cases hadd
      · cases hadd
        exact ⟨rfl, rfl, rfl⟩
    refine .some heq hfields.1 hfields.2.1 (fun h => ?_) ?_
    · rw [hfields.2.2]
      exact Keyed.nodup_keys_insert h _ _
    · rw [hentries, Cte.defineAll_cons, Cte.defineAll, foldl_nil]
      funext n
      rw [Cte.define, hc, map_map]
      rfl

theorem NamesDerived.scopes_eq (h : NamesDerived ids v columns v') : v'.scopes = v.scopes := by
  induction h with
  | nil => rfl
  | cons _ _ ih => exact ih

theorem NamesEntry.scopes_eq {given : List Alias} (h : NamesEntry ids given v columns v') :
    v'.scopes = v.scopes := by
  induction h with
  | nil => rfl
  | cons _ _ _ ih => exact ih

theorem Binds.scopes {env : Accessor} {task : BindTask} (h : Binds env task v v') :
    task.Scopes v.scopes v'.scopes := by
  induction h with
  | subqueryFresh _ _ _ _ ih | node _ _ _ _ _ ih | actsLocal _ _ ih | itemsStar _ _ _ _ ih
  | list _ ih | fromSome _ ih => exact ih
  | actsVisit _ _ _ ih ih' | rootsCons _ _ ih ih' | itemsRoot _ _ _ ih ih' => exact Eq.trans ih' ih
  | table halias _ hscope => exact halias.addsTables.trans hscope.addsTables
  | derived halias _ hnames hscope ih =>
    have hquery := hnames.scopes_eq.trans ih
    refine halias.addsTables.trans ?_
    rw [← hquery]
    exact hscope.addsTables
  | join _ _ _ ihl ihr ihc =>
    have htables := AddsTables.trans ihl ihr
    show AddsTables _ _
    rw [show _ = _ from ihc]
    exact htables
  | sourcesNil | fromNone => exact .none
  | sourcesCons _ _ ih ih' => exact AddsTables.trans ih ih'
  | @entryPlain c _ _ _ _ _ _ _ _ _ hnames hscope ih =>
    have hsame := hnames.scopes_eq.trans ih
    rw [← hsame]
    exact Rescopes.addsEntries (c := ⟨_, _, _, _⟩) rfl hscope
  | @entryInductive c _ _ _ _ _ _ v3 v4 _ _ _ hnames hscope _ ih ih' =>
    have hsame := hnames.scopes_eq.trans ih
    show AddsEntries _ _ _
    rw [← hsame, show v4.scopes = v3.scopes from ih']
    exact Rescopes.addsEntries (c := ⟨_, _, _, _⟩) rfl hscope
  | entriesNil => exact .none rfl
  | entriesCons _ _ ih ih' => exact AddsEntries.cons ih ih'
  | unionSome hscope _ ih =>
    show _ :: _ = _
    rw [show _ = _ from ih, hscope]
    rfl
  | branch _ _ _ _ _ _ _ _ ihe ihf ihr ihi ihu iho =>
    show tail _ = tail _
    rw [show _ = _ from iho, show _ = _ from ihu, show _ = _ from ihi, show _ = _ from ihr]
    have htail : ∀ {cs S S'}, AddsEntries cs S S' → S'.tail = S.tail := by
      intro cs S S' h
      cases h with
      | none => rfl
      | some heq => rw [heq]; rfl
    have htail' : ∀ {S S'}, AddsTables S S' → S'.tail = S.tail := by
      intro S S' h
      cases h with
      | none => rfl
      | some heq => rw [heq]; rfl
    exact (htail' ihf).trans (htail ihe)
  | query _ ih =>
    show tail _ = _
    rw [show _ = _ from ih]
    rfl
  | _ => rfl

end SqlAnalysis
