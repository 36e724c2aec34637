import SqlAnalysis.Proofs.Binding.Rebinding

/-!
# Serials and scopes of a first binding

Every table reference of a fresh statement gets a serial that no other one has, so that a column
names its table by the serial alone.

* **`Binds.counters_le`**: the counters only grow.
-/

namespace SqlAnalysis

open Text List

variable {next next' : Nat} {given : List Alias} {v v' : BindView} {ids : List ExprId}
  {columns : List DerivedColumn} {env : Accessor} {r : Reference} {S S' : ScopeStack}
  {cs : List Cte}

/-! ### Counters -/

theorem Takes.le {serial : Nat} {given : Option Nat} (h : Takes next given serial next') :
    next ≤ next' := by
  cases h with
  | given => exact le_rfl
  | fresh => exact Nat.le_succ _

def CountersLe (v v' : BindView) : Prop := v.nextSerial ≤ v'.nextSerial ∧ v.nextTemp ≤ v'.nextTemp

theorem CountersLe.refl (v : BindView) : CountersLe v v := ⟨le_rfl, le_rfl⟩

theorem CountersLe.trans {v'' : BindView} (h : CountersLe v v') (h' : CountersLe v' v'') :
    CountersLe v v'' :=
  ⟨h.1.trans h'.1, h.2.trans h'.2⟩

theorem Rescopes.countersLe {f : Scope → Except Diagnostic Scope} (h : Rescopes f v v') :
    CountersLe v v' := by
  cases h
  exact .refl v

theorem Aliases.countersLe {given known : Alias} (h : Aliases given v known v') :
    CountersLe v v' := by
  cases h with
  | intro _ htakes => exact ⟨htakes.le, le_rfl⟩

theorem NamesDerived.countersLe (h : NamesDerived ids v columns v') : CountersLe v v' := by
  induction h with
  | nil => exact .refl _
  | cons htakes _ ih => exact ⟨htakes.le.trans ih.1, ih.2⟩

theorem NamesEntry.countersLe (h : NamesEntry ids given v columns v') : CountersLe v v' := by
  induction h with
  | nil => exact .refl _
  | cons htakes _ _ ih => exact ⟨ih.1, htakes.le.trans ih.2⟩

theorem Binds.countersLe {task : BindTask} (h : Binds env task v v') : CountersLe v v' := by
  induction h with
  | subqueryFresh _ _ _ _ ih | node _ _ _ _ _ ih | actsLocal _ _ ih | itemsStar _ _ _ _ ih
  | list _ ih | fromSome _ ih | unionSome _ _ ih | query _ ih => exact ih
  | actsVisit _ _ _ ih ih' | rootsCons _ _ ih ih' | itemsRoot _ _ _ ih ih'
  | sourcesCons _ _ ih ih' | entriesCons _ _ ih ih' => exact ⟨ih.1.trans ih'.1, ih.2.trans ih'.2⟩
  | table halias _ hscope => exact halias.countersLe.trans hscope.countersLe
  | derived halias _ hnames hscope ih =>
    exact ((halias.countersLe.trans ih).trans hnames.countersLe).trans hscope.countersLe
  | join _ _ _ ihl ihr ihc => exact (ihl.trans ihr).trans ihc
  | entryPlain _ _ _ hnames hscope ih => exact (ih.trans hnames.countersLe).trans hscope.countersLe
  | entryInductive _ _ _ hnames hscope _ ih ih' =>
    exact ((ih.trans hnames.countersLe).trans hscope.countersLe).trans ih'
  | branch _ _ _ _ _ _ _ _ ihe ihf ihr ihi ihu iho =>
    exact ((((ihe.trans ihf).trans ihr).trans ihi).trans ihu).trans iho
  | _ => exact ⟨le_rfl, le_rfl⟩

/-! ### Table references -/

/-- The catalog has numbered its tables and their columns. -/
structure Accessor.Numbered (env : Accessor) : Prop where
  tables : ∀ {name id}, env.tableId? name = some id → id.isValid = true
  columns : ∀ {id schema}, env.schema? id = some schema → ∀ c ∈ schema, c.id.isValid = true

/-- All columns of the reference count as resolved, and they have a table number if the reference is to a
table of the catalog. -/
def ScopeTable.Numbered (t : ScopeTable) : Prop :=
  ∀ depth, ∀ c ∈ t.columns depth, c.ref.isResolved = true ∧ c.tableId.isValid = t.isRegular

theorem Oid.isValid_temp (n : Nat) : (Oid.temp n).isValid = true := by
  have h : n ||| tempMark ≠ 0 := by
    intro h
    have hbit := congrArg (Nat.testBit · 31) h
    rw [Nat.testBit_or] at hbit
    revert hbit
    rw [show tempMark.testBit 31 = true from by decide, Bool.or_true, Nat.zero_testBit]
    exact fun h => Bool.noConfusion h
  exact bne_iff_ne.mpr h

theorem ScopeTable.numbered_of_derived {knownAs : Alias}
    (h : ∀ c ∈ columns, ∃ n, c.knownAs.serial = some n) :
    ScopeTable.Numbered ⟨knownAs, .derived columns⟩ := by
  intro depth c hc
  obtain ⟨d, hd, rfl⟩ := mem_map.mp hc
  obtain ⟨n, hn⟩ := h d hd
  refine ⟨?_, rfl⟩
  show Oid.isValid (DerivedColumn.id d) = true
  rw [DerivedColumn.id, hn]
  exact Oid.isValid_temp n

theorem Accessor.Numbered.of_requireTable (henv : env.Numbered) {name : ObjectName}
    {table : Oid × Schema} (h : env.requireTable name = .ok table) (knownAs : Alias) :
    ScopeTable.Numbered ⟨knownAs, .regular env.databaseId table.1 table.2⟩ := by
  obtain ⟨id, hid, h⟩ := except_bind.mp h
  obtain ⟨schema, hschema, h⟩ := except_bind.mp h
  cases h
  have hid : env.tableId? name = some id := by
    unfold requireTableId at hid
    split at hid
    · cases hid
      assumption
    · cases hid
  have hschema : env.schema? id = some schema := by
    unfold requireSchema at hschema
    split at hschema
    · cases hschema
      assumption
    · cases hschema
  intro depth c hc
  obtain ⟨column, hcolumn, rfl⟩ := mem_map.mp hc
  exact ⟨henv.columns hschema column hcolumn, henv.tables hid⟩

def Reference.serial (r : Reference) : Option Nat := r.table.knownAs.serial

/-- Table references with serials of their own, all of them below the next one. -/
structure Registered (L : List Reference) (next : Nat) : Prop where
  serials : (L.map (·.serial)).Nodup
  given : ∀ r ∈ L, ∃ n, r.serial = some n ∧ n < next
  numbered : ∀ r ∈ L, r.table.Numbered

/-- Only references with serials from `next` on are new. -/
structure Registers (next : Nat) (L L' : List Reference) : Prop where
  subset : L ⊆ L'
  new : ∀ r ∈ L', r ∈ L ∨ ∃ n, r.serial = some n ∧ next ≤ n

theorem Registers.refl (next : Nat) (L : List Reference) : Registers next L L :=
  ⟨Subset.refl _, fun _ => Or.inl⟩

theorem Registers.trans {L L' L'' : List Reference} (h : Registers next L L')
    (h' : Registers next' L' L'') (hle : next ≤ next') : Registers next L L'' := by
  refine ⟨Subset.trans h.subset h'.subset, fun r hr => ?_⟩
  rcases h'.new r hr with hr | ⟨n, hn, hlt⟩
  · exact h.new r hr
  · exact Or.inr ⟨n, hn, hle.trans hlt⟩

namespace Registered

variable {L : List Reference}

theorem mono (h : Registered L next) (hle : next ≤ next') : Registered L next' :=
  ⟨h.serials, fun t ht => (h.given t ht).imp fun _ hn => ⟨hn.1, hn.2.trans_le hle⟩, h.numbered⟩

theorem eq_of_serial (h : Registered L next) {r' : Reference} (hr : r ∈ L) (hr' : r' ∈ L)
    (heq : r.serial = r'.serial) : r = r' :=
  inj_on_of_nodup_map h.serials hr hr' heq

theorem push (h : Registered L next) {n : Nat} (hr : r.serial = some n) (hn : n < next)
    (hnew : ∀ r' ∈ L, r'.serial ≠ some n) (hnumbered : r.table.Numbered) :
    Registered (L ++ [r]) next := by
  refine ⟨?_, forall_mem_append.mpr ⟨h.given, ?_⟩, forall_mem_append.mpr ⟨h.numbered, ?_⟩⟩
  · rw [map_append, nodup_append']
    refine ⟨h.serials, nodup_singleton _, fun serial hs hs' => ?_⟩
    obtain ⟨r', hr', rfl⟩ := mem_map.mp hs
    exact hnew r' hr' ((mem_singleton.mp hs').trans hr)
  · exact forall_mem_singleton.mpr ⟨n, hr, hn⟩
  · exact forall_mem_singleton.mpr hnumbered

end Registered

/-! ### Columns of derived tables and WITH entries -/

theorem NamesDerived.numbered (h : NamesDerived ids v columns v') :
    ∀ c ∈ columns, ∃ n, c.knownAs.serial = some n := by
  induction h with
  | nil => exact forall_mem_nil _
  | cons _ _ ih => exact forall_mem_cons.mpr ⟨⟨_, rfl⟩, ih⟩

theorem NamesEntry.serials_some (h : NamesEntry ids given v columns v') :
    ∀ serial ∈ columns.map (·.knownAs.serial), ∃ n, serial = some n := by
  induction h with
  | nil => exact forall_mem_nil _
  | cons _ hknown _ ih => exact forall_mem_cons.mpr ⟨⟨_, by rw [hknown]⟩, ih⟩

theorem NamesEntry.numbered (h : NamesEntry ids given v columns v')
    (hgiven : Alias.allFresh given = true) :
    ∀ c ∈ columns, ∃ n, c.knownAs.serial = some n ∧ v.nextTemp ≤ n ∧ n < v'.nextTemp := by
  induction h with
  | nil => exact forall_mem_nil _
  | @cons _ _ given _ _ _ _ _ _ htakes hknown hrest ih =>
    have hfresh : given.head?.bind (·.serial) = none ∧ Alias.allFresh given.tail = true := by
      cases given with
      | nil => exact ⟨rfl, rfl⟩
      | cons =>
        rw [Alias.allFresh, all_cons, Bool.and_eq_true] at hgiven
        exact ⟨Option.isNone_iff_eq_none.mp hgiven.1, hgiven.2⟩
    rw [hfresh.1] at htakes
    cases htakes with
    | fresh =>
      refine forall_mem_cons.mpr ⟨⟨_, by rw [hknown], le_rfl, hrest.countersLe.2⟩,
        fun c hc => ?_⟩
      obtain ⟨n, hn, hle, hlt⟩ := ih hfresh.2 c hc
      exact ⟨n, hn, Nat.le_of_succ_le hle, hlt⟩

/-! ### Scopes -/

theorem AddsTables.leveled (h : AddsTables S S') (hS : S.Leveled) : S'.Leveled := by
  cases h with
  | none => exact hS
  | some heq hdepth =>
    rw [heq] at hS
    exact ⟨hdepth.trans hS.1, hS.2⟩

theorem AddsTables.distinct (h : AddsTables S S') (hS : S.Distinct) : S'.Distinct := by
  cases h with
  | none => exact hS
  | some heq _ hctes =>
    rw [heq] at hS
    obtain ⟨hscope, houter⟩ := forall_mem_cons.mp hS
    exact forall_mem_cons.mpr ⟨by rw [hctes]; exact hscope, houter⟩

theorem AddsEntries.leveled (h : AddsEntries cs S S') (hS : S.Leveled) : S'.Leveled := by
  cases h with
  | none => exact hS
  | some heq hdepth =>
    rw [heq] at hS
    exact ⟨hdepth.trans hS.1, hS.2⟩

theorem AddsEntries.distinct (h : AddsEntries cs S S') (hS : S.Distinct) : S'.Distinct := by
  cases h with
  | none => exact hS
  | some heq _ _ hnodup =>
    rw [heq] at hS
    obtain ⟨hscope, houter⟩ := forall_mem_cons.mp hS
    exact forall_mem_cons.mpr ⟨hnodup hscope, houter⟩

def EntryMap.Below (Δ : EntryMap) (next : Nat) : Prop :=
  ∀ name serials, Δ name = some serials → ∀ s ∈ serials, ∃ n, s = some n ∧ n < next

theorem EntryMap.Below.mono {Δ : EntryMap} (h : Δ.Below next) (hle : next ≤ next') :
    Δ.Below next' := fun name serials hs s hmem =>
  (h name serials hs s hmem).imp fun _ hn => ⟨hn.1, hn.2.trans_le hle⟩

/-- The scopes of a first binding show registered tables and numbered entries only. -/
structure BindView.Sound (v : BindView) (L : List Reference) : Prop where
  leveled : v.scopes.Leveled
  distinct : v.scopes.Distinct
  visible : ∀ tables ∈ v.scopes.tables, tables ⊆ L.map (·.table)
  entries : v.scopes.entries.Below v.nextTemp
  registered : Registered L v.nextSerial

namespace BindView.Sound

variable {L L' : List Reference}

theorem same (h : v.Sound L) (hscopes : v'.scopes = v.scopes) (hsub : L ⊆ L')
    (hreg : Registered L' v'.nextSerial) (hle : CountersLe v v') : v'.Sound L' := by
  refine ⟨?_, ?_, ?_, ?_, hreg⟩
  · rw [hscopes]
    exact h.leveled
  · rw [hscopes]
    exact h.distinct
  · rw [hscopes]
    exact fun tables ht => Subset.trans (h.visible tables ht) (map_subset _ hsub)
  · rw [hscopes]
    exact h.entries.mono hle.2

theorem open_ (h : v.Sound L) : { v with scopes := v.scopes.open_ }.Sound L := by
  refine ⟨⟨rfl, h.leveled⟩, ?_, ?_, ?_, h.registered⟩
  · exact forall_mem_cons.mpr ⟨.nil, h.distinct⟩
  · exact forall_mem_cons.mpr ⟨nil_subset _, h.visible⟩
  · rw [ScopeStack.entries_open]
    exact h.entries

theorem sibling {scope : Scope} {outer : ScopeStack} (hscopes : v.scopes = scope :: outer)
    (hleveled : v.scopes.Leveled) (hdistinct : v.scopes.Distinct)
    (hvisible : ∀ tables ∈ ScopeStack.tables outer, tables ⊆ L.map (·.table))
    (hentries : v.scopes.entries.Below v.nextTemp) (hreg : Registered L v.nextSerial) :
    { v with scopes := scope.sibling :: outer }.Sound L := by
  rw [hscopes] at hleveled hdistinct hentries
  obtain ⟨hscope, houter⟩ := forall_mem_cons.mp hdistinct
  refine ⟨⟨hleveled.1, hleveled.2⟩, ?_, ?_, ?_, hreg⟩
  · exact forall_mem_cons.mpr ⟨.nil, houter⟩
  · exact forall_mem_cons.mpr ⟨nil_subset _, hvisible⟩
  · rwa [ScopeStack.entries_sibling hscope]

theorem addsTables (h : v.Sound L) (hadds : AddsTables v.scopes v'.scopes)
    (hvisible : ∀ tables ∈ v'.scopes.tables, tables ⊆ L'.map (·.table)) (hreg : Registered L' v'.nextSerial)
    (hle : CountersLe v v') : v'.Sound L' := by
  refine ⟨hadds.leveled h.leveled, hadds.distinct h.distinct, hvisible, ?_, hreg⟩
  rw [hadds.entries]
  exact h.entries.mono hle.2

theorem addsEntries (h : v.Sound L) (hadds : AddsEntries cs v.scopes v'.scopes)
    (hentries : v'.scopes.entries.Below v'.nextTemp) (hsub : L ⊆ L')
    (hreg : Registered L' v'.nextSerial) : v'.Sound L' := by
  refine ⟨hadds.leveled h.leveled, hadds.distinct h.distinct, ?_, hentries, hreg⟩
  rw [hadds.tables]
  exact fun tables ht => Subset.trans (h.visible tables ht) (map_subset _ hsub)

end BindView.Sound

end SqlAnalysis
