import Mathlib.Data.List.Flatten
import SqlAnalysis.Proofs.Binding.Resolution
import SqlAnalysis.Proofs.Binding.Soundness

/-!
# What a first binding of FROM, WITH and whole blocks finds out

The clauses of a block are bound one after the other in one scope, so what a clause means has to outlast
the clauses after it: `Later` is what two points of a binding have in common, and `Means.later` takes
meanings from one to the other.  A recursive WITH entry is the one case in which a block is bound in two
goes, first the base case and then, with the entry in sight, all branches (`entryInductive`,
`branchAgain`).

* **`Binds.resolved`**: a fresh part of a statement means something once it is bound, and every table
  reference in it has a serial of its own.
* **`bind_means`**: a bound SELECT means something.
-/

namespace SqlAnalysis

open Text List BindTask ScopeStack Cte Select

variable {task : BindTask} {Δ Δ' : EntryMap} {K ids : List ExprId} {next n depth : Nat}
  {known : Alias} {q q' : Select} {columns : List DerivedColumn} {item item' : TableRef} {c : Cte}
  {cs : List Cte} {scope : Scope} {outer S : ScopeStack} {a : Arena}

variable {env : Accessor} {v v' v1 v2 v3 v4 : BindView} {L L' : List Reference}

/-! ### Later points -/

/-- A later point of a binding with at least the tables that are visible now. -/
structure Later (v v' : BindView) : Prop where
  counters : CountersLe v v'
  widens : Widens v.scopes.tables v'.scopes.tables
  evolves : Evolves v.exprs v'.exprs

theorem Later.trans {v v' v'' : BindView} (h : Later v v') (h' : Later v' v'') : Later v v'' :=
  ⟨h.counters.trans h'.counters, h.widens.trans h'.widens, h.evolves.trans h'.evolves⟩

theorem Binds.later (h : Binds env task v v') (hready : task.Ready v.exprs)
    (hscopes : v'.scopes.tables = v.scopes.tables) : Later v v' :=
  ⟨h.countersLe, hscopes ▸ .refl _, h.evolves hready⟩

theorem Binds.laterTables (h : Binds env task v v') (hready : task.Ready v.exprs)
    (hadds : AddsTables v.scopes v'.scopes) : Later v v' :=
  ⟨h.countersLe, hadds.widens, h.evolves hready⟩

theorem Means.later {p : Phrase} (h : Means env v.exprs (v.registry L) v.scopes.tables Δ p K)
    (hlater : Later v v') (hL : L ⊆ L') :
    ∃ K', K'.Sublist K ∧ Means env v'.exprs (v'.registry L') v'.scopes.tables Δ p K' :=
  h.mono (BindView.registry_extends hlater.counters hL) hlater.widens hlater.evolves

theorem Registered.ne_of_le (h : Registered L next) (hle : next ≤ n) :
    ∀ r ∈ L, r.serial ≠ some n := by
  intro r hr heq
  obtain ⟨_, hm, hlt⟩ := h.given r hr
  cases hm.symm.trans heq
  exact Nat.not_lt.mpr hle hlt

theorem Registers.weaken {next' : Nat} (h : Registers next' L L') (hle : next ≤ next') :
    Registers next L L' :=
  (Registers.refl next L).trans h hle

/-! ### FROM -/

theorem Shows.addTable {source : TableSource} (htables : v1.scopes.tables = v.scopes.tables)
    (hscope : Rescopes (·.addTable known source) v1 v2) : Shows [known] v v2 := by
  obtain ⟨_, Γ, hv1, hv2⟩ := hscope.tables_addTable
  intro t ht
  rw [top, hv2, headD_cons] at ht
  rw [top, ← htables, hv1, headD_cons]
  rcases mem_append.mp ht with ht | ht
  · exact .inl ht
  · rw [mem_singleton.mp ht]
    exact .inr (mem_singleton_self _)

namespace BindTask.Resolved

theorem table (henv : env.Numbered) {base : BaseTable} {source : TableSource}
    (halias : Aliases base.knownAs v known v1)
    (hsource : NamedSource env v1.scopes base.name.normalize source)
    (hscope : Rescopes (·.addTable known source) v1 v2) :
    (BindTask.source (.table base)
      (.table { name := base.name.normalize, knownAs := known })).Resolved env v v2 := by
  intro L K hS hfresh _
  obtain ⟨hsettled, hserial, hnext⟩ := halias.of_fresh hfresh
  have hS1 := hS.aliases halias
  have hdenotes := hsource.denotes
  have hreg : Registered (L ++ [⟨⟨known, source⟩, true⟩]) v1.nextSerial :=
    hS1.registered.push hserial (hnext ▸ Nat.lt_succ_self _)
      (hS.registered.ne_of_le le_rfl) (hdenotes.numbered henv hS1.entries known)
  rw [halias.addsTables.entries] at hdenotes
  refine ⟨L ++ [⟨⟨known, source⟩, true⟩], .push ⟨⟨known, source⟩, true⟩ hserial le_rfl,
    hS1.addTable hscope hreg,
    .addTable halias.tables_eq hscope, [], nil_sublist _, ?_⟩
  obtain ⟨_, Γ, _, hΓ⟩ := hscope.tables_addTable
  rw [hΓ]
  exact .table (mem_append_right _ (mem_singleton_self _))
    (mem_append_right _ (mem_singleton_self _)) rfl hdenotes
    (ObjectName.normalize_normalize _) hsettled

theorem derived {given : Alias} (halias : Aliases given v known v1)
    (hquery : Binds env (.query q q') v1 v2) (hnames : NamesDerived q'.items v2 columns v3)
    (hscope : Rescopes (·.addTable known (.derived columns)) v3 v4)
    (ih : (query q q').Resolved env v1 v2) :
    (source (.derived q given) (.derived q' known)).Resolved env v v4 := by
  intro L K hS hfresh huses
  rw [TableRef.isFresh, Bool.and_eq_true] at hfresh
  obtain ⟨hsettled, hserial, hnext⟩ := halias.of_fresh hfresh.2
  rw [TableRef.exprs, ← halias.exprs_eq] at huses
  obtain ⟨L2, hL2, hS2, _, hsub, hmeans⟩ := (ih (hS.aliases halias)).1 hfresh.1 huses
  have hS3 : v3.Sound L2 := hS2.same hnames.scopes_eq (Subset.refl _)
    (hS2.registered.mono hnames.countersLe.1) hnames.countersLe
  have hlt : v.nextSerial < v3.nextSerial := by
    refine Nat.lt_of_lt_of_le ?_ (hquery.countersLe.trans hnames.countersLe).1
    rw [hnext]
    exact Nat.lt_succ_self _
  -- the alias took its serial before the tables inside the query took theirs
  have hnew : ∀ r ∈ L2, r.serial ≠ some v.nextSerial := by
    intro r hr
    rcases hL2.new r hr with hr | ⟨n, hn, hle⟩
    · exact hS.registered.ne_of_le le_rfl r hr
    · rw [hn]
      rintro ⟨⟩
      rw [hnext] at hle
      exact Nat.not_succ_le_self _ hle
  have hreg : Registered (L2 ++ [⟨⟨known, .derived columns⟩, false⟩]) v3.nextSerial :=
    hS3.registered.push hserial hlt hnew (ScopeTable.numbered_of_derived hnames.numbered)
  have hscopes : v2.scopes = v1.scopes := hquery.scopes
  have hlater : Later v2 v4 := by
    refine ⟨hnames.countersLe.trans hscope.countersLe, ?_, ?_⟩
    · rw [← hnames.scopes_eq]
      exact hscope.addsTables.widens
    · rw [hscope.exprs_eq]
      exact hnames.adjusts.toEvolves
  rw [← hscopes] at hmeans
  obtain ⟨K'', hsub', hmeans⟩ :=
    hmeans.later hlater (subset_append_left L2 [⟨⟨known, .derived columns⟩, false⟩])
  rw [hscopes, halias.addsTables.entries] at hmeans
  obtain ⟨_, Γ, _, hΓ⟩ := hscope.tables_addTable
  rw [hΓ] at hmeans
  refine ⟨L2 ++ [⟨⟨known, .derived columns⟩, false⟩],
    (hL2.weaken halias.countersLe.1).trans
      (.push ⟨⟨known, .derived columns⟩, false⟩ hserial le_rfl) le_rfl,
    hS3.addTable hscope hreg, .addTable ?_ hscope, K'', hsub'.trans hsub, ?_⟩
  · rw [hnames.scopes_eq, hscopes, halias.tables_eq]
  · rw [hΓ]
    exact .derived (mem_append_right _ (mem_singleton_self _))
      (mem_append_right _ (mem_singleton_self _)) hsettled hmeans

theorem roots_of_fresh (ih : (roots ids).Resolved env v v') (hS : v.Sound L)
    (hfresh : v.exprs.Fresh ids K) :
    ∃ L', Registers v.nextSerial L L' ∧ v'.Sound L' ∧ ∃ K', K'.Sublist K ∧
      Means env v'.exprs (v'.registry L') v.scopes.tables v.scopes.entries (.exprs ids) K' := by
  obtain ⟨_, rfl, hslots⟩ := hfresh.slots env (v.registry L) v.scopes.tables v.scopes.entries
  obtain ⟨L', hL', hS', hslots⟩ := ih hS hslots fun id hid => hid
  exact ⟨L', hL', hS', hslots.exprs fun id hid => ⟨hid, fun h => h.2 hid⟩⟩

theorem top_not_mem (hS : v.Sound L) {aliases : List Alias} (hnew : Alias.AllFrom v.nextSerial aliases) :
    ∀ t ∈ v.scopes.top, t.knownAs ∉ aliases := by
  intro t ht hmem
  obtain ⟨_, hn, hle⟩ := hnew _ hmem
  rw [top] at ht
  cases htables : v.scopes.tables with
  | nil =>
    rw [htables] at ht
    cases ht
  | cons F =>
    rw [htables] at ht
    obtain ⟨r, hr, rfl⟩ := mem_map.mp (hS.visible F (by rw [htables]; exact mem_cons_self) ht)
    exact hS.registered.ne_of_le hle r hr hn

theorem join {kind : JoinKind} {left left' right right' : TableRef} {condition : Option ExprId}
    (hl : Binds env (.source left left') v v1) (hr : Binds env (.source right right') v1 v2)
    (hc : Binds env (.roots condition.toList) v2 v3) (ihl : (source left left').Resolved env v v1)
    (ihr : (source right right').Resolved env v1 v2)
    (ihc : (roots condition.toList).Resolved env v2 v3) :
    (source (.join kind left right condition)
      (.join kind left' right' condition)).Resolved env v v3 := by
  intro L K hS hfresh huses
  rw [TableRef.isFresh, Bool.and_eq_true] at hfresh
  obtain ⟨_, _, rfl, hitems, hcond, hdisjoint⟩ := Arena.Fresh.split huses
  obtain ⟨_, _, rfl, hleft, hright, hdisjoint'⟩ := hitems.split
  obtain ⟨hapart, hapart'⟩ := disjoint_append_left.mp hdisjoint
  -- each part stays fresh until its turn
  have hright1 := hl.keepsFresh hleft.uses hdisjoint' hright
  have hcond1 := hl.keepsFresh hleft.uses hapart hcond
  have hcond2 := hr.keepsFresh hright1.uses hapart' hcond1
  obtain ⟨_, hL1, hS1, hshows, _, hsub1, hm1⟩ := ihl hS hfresh.1 hleft
  obtain ⟨_, hL2, hS2, hshows', _, hsub2, hm2⟩ := ihr hS1 hfresh.2 hright1
  obtain ⟨L3, hL3, hS3, _, hsub3, hm3⟩ := roots_of_fresh ihc hS2 hcond2
  have hadds : AddsTables v.scopes v1.scopes := hl.scopes
  have hadds' : AddsTables v1.scopes v2.scopes := hr.scopes
  have hscopes : v3.scopes = v2.scopes := hc.scopes
  have hlater := hc.later trivial (congrArg tables hscopes)
  have hafter := (hr.laterTables trivial hadds').trans hlater
  obtain ⟨_, hsub1', hm1⟩ := hm1.mono
    (BindView.registry_extends hafter.counters (Subset.trans hL2.subset hL3.subset)) (.refl _)
    hafter.evolves
  obtain ⟨_, hsub2', hm2⟩ := hm2.later hlater hL3.subset
  rw [hadds.entries] at hm2
  rw [hadds'.entries, hadds.entries, ← hscopes] at hm3
  refine ⟨L3, (hL1.trans hL2 hl.countersLe.1).trans hL3 (hl.countersLe.trans hr.countersLe).1, hS3, ?_, _,
    ((hsub1'.trans hsub1).append (hsub2'.trans hsub2)).append hsub3,
    .join hafter.widens (top_not_mem hS1 (hr.aliasesFrom hfresh.2)) hm1 hm2 hm3⟩
  intro t ht
  rw [hscopes] at ht
  exact hshows.trans hshows' t ht

theorem list {items items' : List TableRef} (ih : (sources items items').Resolved env v v') :
    (source (.list items) (.list items')).Resolved env v v' := by
  intro L K hS hfresh huses
  obtain ⟨L', hL, hS', hshows, K', hsub, hmeans⟩ := ih hS hfresh huses
  exact ⟨L', hL, hS', hshows, K', hsub, .list hmeans⟩

theorem sourcesNil : (sources [] []).Resolved env v v := by
  intro L K hS _ _
  exact ⟨L, .refl _ _, hS, fun t ht => .inl ht, [], nil_sublist _, .sourcesNil⟩

theorem sourcesCons {rest rest' : List TableRef} (hitem : Binds env (.source item item') v v1)
    (hrest : Binds env (.sources rest rest') v1 v')
    (ih : (source item item').Resolved env v v1)
    (ih' : (sources rest rest').Resolved env v1 v') :
    (sources (item :: rest) (item' :: rest')).Resolved env v v' := by
  intro L K hS hfresh huses
  rw [TableRef.allFresh, Bool.and_eq_true] at hfresh
  obtain ⟨_, _, rfl, hfirst, hmore, hdisjoint⟩ := Arena.Fresh.split huses
  obtain ⟨_, hL1, hS1, hshows, _, hsub1, hm1⟩ := ih hS hfresh.1 hfirst
  obtain ⟨L2, hL2, hS2, hshows', _, hsub2, hm2⟩ :=
    ih' hS1 hfresh.2 (hitem.keepsFresh hfirst.uses hdisjoint hmore)
  have hadds : AddsTables v.scopes v1.scopes := hitem.scopes
  have hlater := hrest.laterTables trivial hrest.scopes
  obtain ⟨_, hsub1', hm1⟩ :=
    hm1.mono (BindView.registry_extends hlater.counters hL2.subset) (.refl _) hlater.evolves
  rw [hadds.entries] at hm2
  exact ⟨L2, hL1.trans hL2 hitem.countersLe.1, hS2, hshows.trans hshows', _,
    (hsub1'.trans hsub1).append hsub2,
    .sourcesCons hlater.widens (top_not_mem hS1 (hrest.aliasesFrom hfresh.2)) hm1 hm2⟩

theorem fromNone : (from_ none none).Resolved env v v := by
  intro L K hS _ _
  exact ⟨L, .refl _ _, hS, fun t ht => .inl ht, [], nil_sublist _, .fromNone⟩

theorem fromSome (ih : (source item item').Resolved env v v') :
    (from_ (some item) (some item')).Resolved env v v' := by
  intro L K hS hfresh huses
  obtain ⟨L', hL, hS', hshows, K', hsub, hmeans⟩ := ih hS hfresh huses
  exact ⟨L', hL, hS', hshows, K', hsub, .fromSome hmeans⟩

end BindTask.Resolved

/-! ### WITH -/

theorem EntryMap.Below.define (h : Δ.Below n) (hc : c.Numbered Δ' n) : (c.define Δ).Below n := by
  intro name serials hs s hmem
  rw [Cte.define] at hs
  split at hs
  · cases hs
    obtain ⟨m, hm, hlt, _⟩ := hc s hmem
    exact ⟨m, hm, hlt⟩
  · exact h name serials hs s hmem

theorem NamesEntry.numbered_rebuild (h : NamesEntry ids c.columns v columns v')
    (hfresh : Alias.allFresh c.columns = true) (hΔ : Δ.Below v.nextTemp) (q : Select) :
    (c.rebuild q columns).Numbered Δ v'.nextTemp := by
  intro serial hserial
  rw [rebuild, map_map] at hserial
  obtain ⟨column, hcolumn, rfl⟩ := mem_map.mp hserial
  obtain ⟨n, hn, hle, hlt⟩ := h.numbered hfresh column hcolumn
  refine ⟨n, hn, hlt, fun name serials hs hmem => ?_⟩
  obtain ⟨_, hm, hlt'⟩ := hΔ name serials hs _ hmem
  cases hm
  exact Nat.not_lt.mpr hle hlt'

theorem BindView.Sound.addCte (h : v.Sound L)
    (hscope : Rescopes (·.addCte (lowercase c.name) columns) v v')
    (hc : (c.rebuild q columns).Numbered Δ v.nextTemp) :
    v'.Sound L ∧ v'.scopes.tables = v.scopes.tables ∧
      v'.scopes.entries = (c.rebuild q columns).define v.scopes.entries := by
  have hadds : AddsEntries [c.rebuild q columns] v.scopes v'.scopes :=
    Rescopes.addsEntries (c := c.rebuild q columns) rfl hscope
  have hentries := hadds.entries
  rw [defineAll_cons] at hentries
  refine ⟨h.addsEntries hadds ?_ (Subset.refl _) (h.registered.mono hscope.countersLe.1),
    hadds.tables, hentries⟩
  rw [hentries]
  exact EntryMap.Below.mono (h.entries.define hc) hscope.countersLe.2

theorem Later.of_named {given : List Alias} {name : String}
    (hnames : NamesEntry ids given v1 columns v2) (hscope : Rescopes (·.addCte name columns) v2 v3)
    (htables : v3.scopes.tables = v2.scopes.tables) : Later v1 v3 := by
  refine ⟨hnames.countersLe.trans hscope.countersLe, ?_, ?_⟩
  · rw [htables, hnames.scopes_eq]
    exact .refl _
  · rw [hscope.exprs_eq]
    exact hnames.adjusts.toEvolves

theorem Select.exprs_split_union (q : Select) :
    q.exprs = exprs { q with union := none } ++ exprsOpt q.union := by
  rw [exprs_eq, exprs_eq { q with union := none }, exprsOpt, append_nil]

namespace BindTask.Resolved

theorem entryPlain (hind : c.isInductive = false) (hquery : Binds env (.query c.query q') v v1)
    (hnames : NamesEntry q'.items c.columns v1 columns v2)
    (hscope : Rescopes (·.addCte (lowercase c.name) columns) v2 v3)
    (ih : (query c.query q').Resolved env v v1) :
    (entry c (c.rebuild q' columns)).Resolved env v v3 := by
  intro L K hS hcolumns hfresh huses
  obtain ⟨L', hL, hS1, _, hsub, hmeans⟩ := (ih hS).1 hfresh huses
  have hscopes : v1.scopes = v.scopes := hquery.scopes
  have hnumbered := hnames.numbered_rebuild hcolumns (Δ := v.scopes.entries)
    (hS.entries.mono hquery.countersLe.2) q'
  have hS2 : v2.Sound L' := hS1.same hnames.scopes_eq (Subset.refl _)
    (hS1.registered.mono hnames.countersLe.1) hnames.countersLe
  obtain ⟨hS3, htables, _⟩ := hS2.addCte hscope hnumbered
  rw [← hscopes] at hmeans
  obtain ⟨K'', hsub', hmeans⟩ := hmeans.later (.of_named hnames hscope htables) (Subset.refl _)
  rw [htables, hnames.scopes_eq, hscopes] at hmeans
  refine ⟨L', hL, hS3, K'', hsub'.trans hsub, .entry (hnumbered.mono hscope.countersLe.2) ?_
    (lowercase_lowercase _) ?_⟩
  · rw [rebuild, length_map, hnames.length_eq]
  · rw [isInductive_rebuild columns hquery.isSome_union, hind]
    exact hmeans

theorem entryInductive {base : Select} (hind : c.isInductive = true)
    (hbase : Binds env (.query { c.query with union := none } base) v v1)
    (hnames : NamesEntry base.items c.columns v1 columns v2)
    (hscope : Rescopes (·.addCte (lowercase c.name) columns) v2 v3)
    (hquery : Binds env (.query { base with union := c.query.union } q') v3 v4)
    (ih : (query { c.query with union := none } base).Resolved env v v1)
    (ih' : (query { base with union := c.query.union } q').Resolved env v3 v4) :
    (entry c (c.rebuild q' columns)).Resolved env v v4 := by
  intro L K hS hcolumns hfresh huses
  obtain ⟨hctes, hsource, hunion, hdepth⟩ := isFresh_iff.mp hfresh
  rw [exprs_split_union] at huses
  obtain ⟨K1, K2, rfl, hhead, hbranches, hdisjoint⟩ := huses.split
  obtain ⟨L1, hL1, hS1, _, hsub, hmeans⟩ :=
    (ih hS).1 (isFresh_iff.mpr ⟨hctes, hsource, rfl, hdepth⟩) hhead
  have hscopes : v1.scopes = v.scopes := hbase.scopes
  have hnumbered := hnames.numbered_rebuild hcolumns (Δ := v.scopes.entries)
    (hS.entries.mono hbase.countersLe.2) q'
  have hS2 : v2.Sound L1 := hS1.same hnames.scopes_eq (Subset.refl _)
    (hS1.registered.mono hnames.countersLe.1) hnames.countersLe
  obtain ⟨hS3, htables, hentries⟩ := hS2.addCte hscope hnumbered
  have hlater : Later v1 v3 := .of_named hnames hscope htables
  rw [hnames.scopes_eq, hscopes] at htables hentries
  -- all changes so far are inside the base case or new
  obtain ⟨hconfined, hyielded⟩ :=
    hbase.confined hhead.uses.encloses fun x hx => .inl (hhead.uses.mem hx)
  have hencloses := hconfined.encloses hhead.uses.encloses
  have hnamed := hnames.confined hencloses
  rw [← hscope.exprs_eq] at hnamed
  have hbranches3 : v3.exprs.Fresh (exprsOpt c.query.union) K2 :=
    (hbase.keepsFresh hhead.uses hdisjoint hbranches).congr hnamed.size_le fun x _ => by
      rw [hscope.exprs_eq, hnames.expr_eq]
  obtain ⟨_, _, rfl, hblock, _⟩ := hmeans.of_query
  rw [← hscopes] at hblock
  obtain ⟨Kb', hsub', hblock⟩ := hblock.later hlater (Subset.refl _)
  rw [hscopes] at hblock
  have hresumable : Resumable env v3 L1 v3.scopes.tables v.scopes.entries
      { base with union := c.query.union } Kb' K2 fun x => x ∈ K1 ∨ v.exprs.size ≤ x :=
    { block := hblock.withUnion _
      encloses := hnamed.encloses hencloses
      head := fun x hx => hyielded x (by
        rw [yielded, exprs_split_union]
        exact mem_append_left _ hx)
      fresh := hbranches3
      isFresh := hunion
      apart := fun x hx h => h.elim (fun h => hdisjoint h hx) fun hle =>
        Nat.not_lt.mpr hle (hbranches.uses.lt_size hx) }
  obtain ⟨L', hL', hS4, hitems, K', hsub'', hmeans⟩ := (ih' hS3).2 hresumable
  have hle := (hbase.countersLe.trans hlater.counters)
  refine ⟨L', hL1.trans hL' hle.1, hS4, K', hsub''.trans (Sublist.append ?_ (.refl _)),
    .entry (hnumbered.mono ((hscope.countersLe.trans hquery.countersLe).2)) ?_ (lowercase_lowercase _) ?_⟩
  · exact hsub'.trans ((sublist_append_left _ _).trans hsub)
  · rw [rebuild, length_map, hnames.length_eq, hitems]
  · rw [isInductive_rebuild columns hquery.isSome_union, hind]
    rw [htables, hentries] at hmeans
    exact hmeans

theorem entriesNil : (entries [] []).Resolved env v v := by
  intro L K hS _ _
  exact ⟨L, .refl _ _, hS, [], nil_sublist _, .entriesNil⟩

theorem entriesCons {c' : Cte} {cs' : List Cte} (hc : Binds env (.entry c c') v v1)
    (hcs : Binds env (.entries cs cs') v1 v') (ih : (entry c c').Resolved env v v1)
    (ih' : (entries cs cs').Resolved env v1 v') :
    (entries (c :: cs) (c' :: cs')).Resolved env v v' := by
  intro L K hS hfresh huses
  obtain ⟨hcolumns, hquery, hfresh⟩ := allFresh_cons.mp hfresh
  rw [exprsAll_cons] at huses
  obtain ⟨_, _, rfl, hfirst, hmore, hdisjoint⟩ := huses.split
  obtain ⟨_, hL1, hS1, _, hsub1, hm1⟩ := ih hS hcolumns hquery hfirst
  obtain ⟨L2, hL2, hS2, _, hsub2, hm2⟩ :=
    ih' hS1 hfresh (hc.keepsFresh hfirst.uses hdisjoint hmore)
  have hadds : AddsEntries [c'] v.scopes v1.scopes := hc.scopes
  have hadds' : AddsEntries cs' v1.scopes v'.scopes := hcs.scopes
  rw [← hadds.tables] at hm1
  obtain ⟨_, hsub1', hm1⟩ := hm1.later (hcs.later trivial hadds'.tables) hL2.subset
  rw [hadds'.tables, hadds.tables] at hm1
  rw [hadds.tables, hadds.entries] at hm2
  exact ⟨L2, hL1.trans hL2 hc.countersLe.1, hS2, _, (hsub1'.trans hsub1).append hsub2,
    .entriesCons hm1 hm2⟩

/-! ### Blocks -/

theorem unionNone : (union none none depth).Resolved env v v := by
  intro scope outer L K _ _ hS _ _
  exact ⟨L, .refl _ _, hS.registered, [], nil_sublist _, .unionNone⟩

theorem unionSome {right right' : Select} (hscope : v.scopes = scope :: outer)
    (ih : (branch right depth right').Resolved env { v with scopes := scope.sibling :: outer } v1) :
    (union (some right) (some right') depth).Resolved env v
      { v1 with scopes := scope :: v1.scopes.tail } := by
  intro scope' outer' L K hscope' hdepth hS hfresh huses
  cases hscope.symm.trans hscope'
  obtain ⟨L', hL, hreg, K', hsub, hmeans⟩ := (ih rfl hdepth rfl hS).1 hfresh huses
  exact ⟨L', hL, hreg, K', hsub, .unionSome hmeans⟩

theorem query (hb : Binds env (.branch q v.scopes.length q') { v with scopes := v.scopes.open_ } v1)
    (ih : (branch q v.scopes.length q').Resolved env { v with scopes := v.scopes.open_ } v1) :
    (query q q').Resolved env v { v1 with scopes := v1.scopes.tail } := by
  intro L hS
  have hscopes : v1.scopes.tail = v.scopes := hb.scopes
  obtain ⟨hfirst, hagain⟩ := ih rfl rfl rfl hS.open_
  rw [entries_open] at hfirst hagain
  have hsound : ∀ {L'}, Registers v.nextSerial L L' → Registered L' v1.nextSerial →
      BindView.Sound { v1 with scopes := v1.scopes.tail } L' := fun hL hreg =>
    hS.same hscopes hL.subset hreg hb.countersLe
  refine ⟨fun hfresh huses => ?_, fun hresumable => ?_⟩
  · obtain ⟨L', hL, hreg, hmeans⟩ := hfirst hfresh huses
    exact ⟨L', hL, hsound hL hreg, hmeans⟩
  · obtain ⟨L', hL, hreg, hmeans⟩ := hagain ⟨hresumable.block, hresumable.encloses, hresumable.head,
      hresumable.fresh, hresumable.isFresh, hresumable.apart⟩
    exact ⟨L', hL, hsound hL hreg, hmeans⟩

end BindTask.Resolved

theorem Arena.Fresh.clauses (h : a.Fresh q.exprs K) :
    ∃ Ke Ki Ks Kr Ko Ku, K = Ke ++ Ki ++ Ks ++ Kr ++ Ko ++ Ku ∧
      a.Fresh (exprsAll q.ctes) Ke ∧ a.Fresh q.items Ki ∧ a.Fresh (TableRef.exprsOpt q.source) Ks ∧
      a.Fresh (q.filter.toList ++ (q.grouping.map (·.exprs)).getD []) Kr ∧
      a.Fresh ((q.ordering.getD []).map (·.expr)) Ko ∧ a.Fresh (exprsOpt q.union) Ku := by
  rw [exprs_eq, append_assoc (exprsAll q.ctes ++ q.items ++ _)] at h
  obtain ⟨_, Ku, rfl, h, hunion, _⟩ := h.split
  obtain ⟨_, Ko, rfl, h, hordering, _⟩ := h.split
  obtain ⟨_, Kr, rfl, h, hroots, _⟩ := h.split
  obtain ⟨_, Ks, rfl, h, hsource, _⟩ := h.split
  obtain ⟨Ke, Ki, rfl, hentries, hitems, _⟩ := h.split
  exact ⟨Ke, Ki, Ks, Kr, Ko, Ku, rfl, hentries, hitems, hsource, hroots, hordering, hunion⟩

theorem AddsTables.exists_cons (h : AddsTables (scope :: outer) S) :
    ∃ scope', S = scope' :: outer := by
  cases h with
  | none => exact ⟨scope, rfl⟩
  | some heq =>
    cases heq
    exact ⟨_, rfl⟩

theorem AddsEntries.exists_cons (h : AddsEntries cs (scope :: outer) S) :
    ∃ scope', S = scope' :: outer := by
  cases h with
  | none => exact ⟨scope, rfl⟩
  | some heq =>
    cases heq
    exact ⟨_, rfl⟩

theorem Means.below_defineAll {R : Registry} {Γ : List (List ScopeTable)}
    (h : Means env a R Γ Δ (.entries cs) K) (hn : R.nextTemp ≤ n) (hΔ' : Δ'.Below n) :
    (defineAll cs Δ').Below n := by
  induction cs generalizing Δ Δ' K with
  | nil => exact hΔ'
  | cons _ _ ih =>
    cases h with
    | entriesCons hc hcs =>
      cases hc with
      | entry hnumbered => exact ih hcs (hΔ'.define (hnumbered.mono hn))

namespace BindTask.Resolved

section Branch

variable {ctes : List Cte} {source : Option TableRef} {items : List ExprId} {union : Option Select}
  {ordering : Option (List SortKey)} {v5 v6 : BindView}

variable (he : Binds env (.entries q.ctes ctes) v v1) (hf : Binds env (.from_ q.source source) v1 v2)
  (hr : Binds env (.roots (q.filter.toList ++ (q.grouping.map (·.exprs)).getD [])) v2 v3)
  (hi : Binds env (.items q.items items) v3 v4) (hu : Binds env (.union q.union union depth) v4 v5)
  (hsort : Sorts v5.exprs items q.ordering ordering)
  (ho : Binds env (.roots ((ordering.getD []).map (·.expr))) v5 v6)

include hi hu hsort

theorem sortKeys (iho : (roots ((ordering.getD []).map (·.expr))).Resolved env v5 v6)
    {Ki Ko Ku : List ExprId} (fi : v3.exprs.Fresh q.items Ki)
    (fo3 : v3.exprs.Fresh ((q.ordering.getD []).map (·.expr)) Ko)
    (fu : v4.exprs.Fresh (exprsOpt q.union) Ku)
    (fo5 : v5.exprs.Fresh ((q.ordering.getD []).map (·.expr)) Ko) (dio : Ki.Disjoint Ko)
    (diu : Ki.Disjoint Ku) (hS : v5.Sound L) (hsub : K.Sublist Ki)
    (hitems : Means env v5.exprs (v5.registry L) v5.scopes.tables v5.scopes.entries (.exprs items) K) :
    ∃ L', Registers v5.nextSerial L L' ∧ v6.Sound L' ∧ ∃ sorted K',
      (∀ x ∈ (ordering.getD []).map (·.expr), x ∈ sorted ∨ x ∈ items) ∧ K'.Sublist Ko ∧
      Means env v6.exprs (v6.registry L') v5.scopes.tables v5.scopes.entries (.exprs sorted) K' := by
  obtain ⟨ci, hyielded⟩ := hi.confined fi.uses.encloses fun x hx => .inl (fi.uses.mem hx)
  obtain ⟨cu, _⟩ := hu.confined fu.uses.encloses fun x hx => .inl (fu.uses.mem hx)
  -- the branches of the UNION do not touch the select list
  have hkept : ∀ x ∈ Ki, v5.exprs.expr x = v4.exprs.expr x := by
    intro x hx
    refine cu.kept x fun hxu => hxu.elim (diu hx) fun hle => ?_
    exact Nat.not_lt.mpr (ci.size_le.trans hle) (fi.uses.lt_size hx)
  have hcolumns := (hi.addsColumns trivial trivial).trans (hu.addsColumns trivial trivial) hu.reshapes
  obtain ⟨_, hKo, hslots⟩ := fo5.slotsBeside (n := v3.exprs.size) (ci.size_le.trans cu.size_le) hcolumns
    (fun _ => fo3.uses.lt_size) (fun _ => fi.uses.lt_size)
    (fun x hx y hy => ci.closed x (.inl hx) y (hkept x hx ▸ hy)) hyielded dio fun c hc => by
      obtain ⟨K', hsub', hmeans⟩ := hitems.of_mem hc
      exact ⟨K', hsub'.trans hsub, hmeans⟩
  have hkeys : ∀ x ∈ (ordering.getD []).map (·.expr), x ∈ (q.ordering.getD []).map (·.expr) ++ items :=
    fun x hx => mem_append.mpr (hsort.mem hx)
  obtain ⟨L', hL, hS', hslots⟩ := iho hS hslots hkeys
  -- the sort keys that are no items, each once
  have hown : ∀ x ∈ ((q.ordering.getD []).map (·.expr)).filter (· ∈ (ordering.getD []).map (·.expr)),
      x ∈ (ordering.getD []).map (·.expr) := fun x hx => of_decide_eq_true (mem_filter.mp hx).2
  obtain ⟨K', hsub', hmeans⟩ := hslots.exprs fun x hx => ⟨hkeys x (hown x hx), fun h => h.2 (hown x hx)⟩
  refine ⟨L', hL, hS', _, K', fun x hx => ?_, hsub'.trans ?_, hmeans⟩
  · exact (hsort.mem hx).imp_left fun hwritten => mem_filter.mpr ⟨hwritten, decide_eq_true hx⟩
  · rw [hKo]
    exact filter_sublist.flatMap _

include he hf hr ho

theorem branchFresh (ihe : (entries q.ctes ctes).Resolved env v v1)
    (ihf : (from_ q.source source).Resolved env v1 v2)
    (ihr : (roots (q.filter.toList ++ (q.grouping.map (·.exprs)).getD [])).Resolved env v2 v3)
    (ihi : (BindTask.items q.items items).Resolved env v3 v4)
    (ihu : (BindTask.union q.union union depth).Resolved env v4 v5)
    (iho : (roots ((ordering.getD []).map (·.expr))).Resolved env v5 v6)
    (hscopes : v.scopes = scope :: outer) (hdepth : depth = outer.length)
    (htables : scope.tables = []) (hS : v.Sound L) (hfresh : q.isFresh = true)
    (huses : v.exprs.Fresh q.exprs K) :
    ∃ L', Registers v.nextSerial L L' ∧ Registered L' v6.nextSerial ∧ ∃ K', K'.Sublist K ∧
      Means env v6.exprs (v6.registry L') (tables outer) v.scopes.entries
        (.query v.scopes.entries
          { q with
            ctes := ctes, source := source, items := items, union := union, ordering := ordering,
            depth := some depth }) K' := by
  obtain ⟨hctes, hsource, hunion, _⟩ := isFresh_iff.mp hfresh
  obtain ⟨_, _, _, _, _, _, rfl, fe, fi, fs, fr, fo, fu⟩ := huses.clauses
  have hnodup := huses.nodup
  simp only [nodup_append', disjoint_append_left] at hnodup
  obtain ⟨⟨⟨⟨⟨_, _, dei⟩, _, des, dis⟩, _, ⟨der, dir⟩, dsr⟩, _, ⟨⟨deo, dio⟩, dso⟩, dro⟩, _,
    ⟨⟨⟨deu, diu⟩, dsu⟩, dru⟩, dou⟩ := hnodup
  -- each clause stays fresh until its turn
  have fs1 := he.keepsFresh fe.uses des fs
  have fr1 := he.keepsFresh fe.uses der fr
  have fi1 := he.keepsFresh fe.uses dei fi
  have fu1 := he.keepsFresh fe.uses deu fu
  have fo1 := he.keepsFresh fe.uses deo fo
  have fr2 := hf.keepsFresh fs1.uses dsr fr1
  have fi2 := hf.keepsFresh fs1.uses dis.symm fi1
  have fu2 := hf.keepsFresh fs1.uses dsu fu1
  have fo2 := hf.keepsFresh fs1.uses dso fo1
  have fi3 := hr.keepsFresh fr2.uses dir.symm fi2
  have fu3 := hr.keepsFresh fr2.uses dru fu2
  have fo3 := hr.keepsFresh fr2.uses dro fo2
  have fu4 := hi.keepsFresh fi3.uses diu fu3
  have fo5 := hu.keepsFresh fu4.uses dou.symm (hi.keepsFresh fi3.uses dio fo3)
  obtain ⟨_, hL1, hS1, _, sube, me⟩ := ihe hS hctes fe
  obtain ⟨_, hL2, hS2, hshows, _, subs, ms⟩ := ihf hS1 hsource fs1
  obtain ⟨_, hL3, hS3, _, subr, mr⟩ := roots_of_fresh ihr hS2 fr2
  obtain ⟨L4, hL4, hS4, hstars, _, subi, mi⟩ := ihi hS3 fi3
  have adds : AddsEntries ctes v.scopes v1.scopes := he.scopes
  have adds' : AddsTables v1.scopes v2.scopes := hf.scopes
  have s3 : v3.scopes = v2.scopes := hr.scopes
  have s4 : v4.scopes = v3.scopes := hi.scopes
  have s5 : v5.scopes = v4.scopes := hu.scopes
  have s6 : v6.scopes = v5.scopes := ho.scopes
  have hentries : v1.scopes.entries = defineAll ctes v.scopes.entries := adds.entries
  obtain ⟨_, hscope1⟩ := AddsEntries.exists_cons (hscopes ▸ adds)
  obtain ⟨scope2, hscope2⟩ := AddsTables.exists_cons (hscope1 ▸ adds')
  have hscope4 : v4.scopes = scope2 :: outer := by rw [s4, s3, hscope2]
  -- the branches of the UNION see the tables around the block only
  have hsibling : BindView.Sound { v4 with scopes := scope2.sibling :: outer } L4 :=
    .sibling hscope4 hS4.leveled hS4.distinct (fun tables ht => hS4.visible tables (by
      rw [hscope4]
      exact mem_cons_of_mem _ ht)) hS4.entries hS4.registered
  obtain ⟨L5, hL5, hreg, _, subu, mu⟩ := ihu hscope4 hdepth hsibling hunion fu4
  rw [entries_sibling (hS4.distinct scope2 (by rw [hscope4]; exact mem_cons_self)),
    ← hscope4, s4, s3, adds'.entries, hentries] at mu
  -- the sort keys see the tables of the block again
  have after_union : Later v5 v6 := ho.later trivial (congrArg _ s6)
  have during_union : Later v4 v5 := hu.later trivial (congrArg _ s5)
  have hS5 : v5.Sound L5 := hS4.same s5 hL5.subset hreg hu.countersLe
  obtain ⟨_, subi5, mi5⟩ := (show Means env v4.exprs (v4.registry L4) v4.scopes.tables v4.scopes.entries
    (.exprs items) _ by rw [s4]; exact mi).later during_union hL5.subset
  rw [← s5] at mi5
  obtain ⟨L6, hL6, hS6, _, _, hkeys, subo, mo⟩ :=
    sortKeys hi hu hsort iho fi3 fo3 fu4 fo5 dio diu hS5 (subi5.trans subi) mi5
  -- from here on everything is carried to the end of the block
  have after_items : Later v4 v6 := during_union.trans after_union
  have after_roots : Later v3 v6 := (hi.later trivial (congrArg _ s4)).trans after_items
  have after_source : Later v2 v6 := (hr.later trivial (congrArg _ s3)).trans after_roots
  have after_entries : Later v1 v6 := (hf.laterTables trivial adds').trans after_source
  have sub4 := Subset.trans hL5.subset hL6.subset
  have sub3 := Subset.trans hL4.subset sub4
  have sub2 := Subset.trans hL3.subset sub3
  have hΓ : v6.scopes.tables = scope2.tables :: tables outer := by
    rw [s6, s5, hscope4]
    rfl
  rw [← adds.tables] at me
  rw [adds'.entries, hentries, ← s3] at mr
  rw [s3, adds'.entries, hentries, ← s3, ← s4] at mi
  rw [hentries] at ms
  obtain ⟨_, sube', me⟩ := me.later after_entries (Subset.trans hL2.subset sub2)
  obtain ⟨_, subs', ms⟩ := ms.later after_source sub2
  obtain ⟨_, subr', mr⟩ := mr.later after_roots sub3
  obtain ⟨_, subi', mi'⟩ := mi.later after_items sub4
  obtain ⟨_, subu', mu⟩ := mu.mono (BindView.registry_extends ho.countersLe hL6.subset) (.refl _)
    ho.evolves
  rw [s5, s4, s3, adds'.entries, hentries, ← s3, ← s4, ← s5, ← s6] at mo
  rw [hΓ] at me ms mr mi' mo
  obtain ⟨Kf, Kg, rfl, mf, mg⟩ := mr.split
  have le2 := he.countersLe.trans hf.countersLe
  have le3 := le2.trans hr.countersLe
  have le4 := le3.trans hi.countersLe
  refine ⟨L6, ?_, hS6.registered, _, ?_, .query (.block ?_ ?_ ?_ ?_ hkeys me mi' ms mf mg mo) mu⟩
  · exact ((((hL1.trans hL2 he.countersLe.1).trans hL3 le2.1).trans hL4 le3.1).trans hL5 le4.1).trans hL6
      (le4.trans hu.countersLe).1
  · rw [append_assoc (_ ++ _ ++ _) Kf Kg]
    exact (((((sube'.trans sube).append (subi'.trans subi)).append (subs'.trans subs)).append
      (subr'.trans subr)).append subo).append (subu'.trans subu)
  · rw [hdepth, tables, length_map]
  · exact Subset.trans (hS2.visible _ (by rw [hscope2]; exact mem_cons_self))
      (map_subset _ sub2)
  · intro t ht
    refine (hshows t (by rw [hscope2]; exact ht)).resolve_left fun hold => ?_
    rw [top, adds.tables, hscopes, tables, map_cons, headD_cons,
      htables] at hold
    cases hold
  · exact fun id hid table hstar => hstars id hid table
      (hstar.of_evolves (after_items.evolves.kind id (mi.lt_size hid)))

theorem branchAgain (ihu : (BindTask.union q.union union depth).Resolved env v4 v5)
    (hscopes : v.scopes = scope :: outer) (hdepth : depth = outer.length) (hS : v.Sound L)
    {K' : List ExprId} {S : ExprId → Prop}
    (h : Resumable env v L (tables outer) Δ q K K' S) :
    ∃ L', Registers v.nextSerial L L' ∧ Registered L' v6.nextSerial ∧ items = q.items ∧
      ∃ K'', K''.Sublist (K ++ K') ∧
      Means env v6.exprs (v6.registry L') (tables outer) Δ
        (.query v.scopes.entries
          { q with
            ctes := ctes, source := source, items := items, union := union, ordering := ordering,
            depth := some depth }) K'' := by
  -- the branches after the base case stay fresh until their turn
  obtain ⟨hctes, hitems, hsource, hroots, _, _⟩ := forall_mem_exprs.mp h.head
  obtain ⟨ce, _⟩ := he.confined h.encloses hctes
  obtain ⟨cf, _⟩ := hf.confined (ce.encloses h.encloses) hsource
  have cf := ce.trans cf
  have cr := cf.trans (hr.confined (cf.encloses h.encloses) hroots).1
  have ci := cr.trans (hi.confined (cr.encloses h.encloses) hitems).1
  have fu : v4.exprs.Fresh (exprsOpt q.union) K' :=
    h.fresh.congr ci.size_le fun x hx => ci.kept x (h.apart x hx)
  have adds : AddsEntries ctes v.scopes v1.scopes := he.scopes
  have adds' : AddsTables v1.scopes v2.scopes := hf.scopes
  have s3 : v3.scopes = v2.scopes := hr.scopes
  have s4 : v4.scopes = v3.scopes := hi.scopes
  obtain ⟨_, hscope1⟩ := AddsEntries.exists_cons (hscopes ▸ adds)
  obtain ⟨scope2, hscope2⟩ := AddsTables.exists_cons (hscope1 ▸ adds')
  have hscope4 : v4.scopes = scope2 :: outer := by rw [s4, s3, hscope2]
  have evolves_o := ho.evolves
  have evolves_u := hu.evolves.trans evolves_o
  have hlen : v.scopes.length = (tables outer).length + 1 := by
    rw [hscopes, length_cons, tables, length_map]
  obtain ⟨rfl, hdefine, _, hsub, hblock⟩ :=
    h.block.rebindBlock he hf hr hi evolves_u he.rebound hf.rebound hi.rebound hlen union
      fun _ => hsort.mem
  have le4 := he.countersLe.trans (hf.countersLe.trans (hr.countersLe.trans hi.countersLe))
  have hentries : v4.scopes.entries = defineAll ctes v.scopes.entries := by
    rw [s4, s3, adds'.entries, adds.entries]
  -- the scopes of a second binding are sound up to the tables of the block itself
  have hsibling : BindView.Sound { v4 with scopes := scope2.sibling :: outer } L := by
    refine .sibling hscope4 ?_ ?_ (fun tables ht => hS.visible tables (by
      rw [hscopes]
      exact mem_cons_of_mem _ ht)) ?_ (hS.registered.mono le4.1)
    · rw [s4, s3]
      exact adds'.leveled (adds.leveled hS.leveled)
    · rw [s4, s3]
      exact adds'.distinct (adds.distinct hS.distinct)
    · obtain ⟨_, _, hctes⟩ := h.block.entries_of_block
      rw [hentries, hdefine]
      exact hctes.below_defineAll le4.2 (hS.entries.mono le4.2)
  obtain ⟨L', hL, hreg, _, hsub1, hunion⟩ := ihu hscope4 hdepth hsibling h.isFresh fu
  have hctes : scope2.ctes.keys.Nodup := by
    have hdistinct := adds'.distinct (adds.distinct hS.distinct)
    rw [hscope2] at hdistinct
    exact hdistinct scope2 mem_cons_self
  rw [entries_sibling hctes, ← hscope4, hentries] at hunion
  obtain ⟨_, hsub2, hunion⟩ := hunion.mono
    (BindView.registry_extends ho.countersLe (Subset.refl L')) (.refl _) evolves_o
  have le6 := le4.trans (hu.countersLe.trans ho.countersLe)
  obtain ⟨_, hsub', hblock⟩ :=
    hblock.mono (BindView.registry_extends le6 hL.subset) (.refl _) (.refl _)
  rw [tables, length_map, ← hdepth] at hblock
  exact ⟨L', hL.weaken le4.1, hreg.mono ho.countersLe.1, rfl, _,
    (hsub'.trans hsub).append (hsub2.trans hsub1), .query hblock hunion⟩

end Branch

end BindTask.Resolved

theorem Binds.resolved (henv : env.Numbered) (h : Binds env task v v') :
    task.Resolved env v v' := by
  induction h with
  | columnDone _ he hres => exact Resolved.columnDone he hres
  | columnFresh hlt _ _ hc => exact Resolved.columnFresh hlt hc
  | subqueryDone _ he hq => exact Resolved.subqueryDone he hq
  | subqueryFresh _ he _ hquery ih => exact Resolved.subqueryFresh he hquery ih
  | node _ hcolumn hsub hacts hall ih => exact Resolved.node hcolumn hsub hacts hall ih
  | actsNil => exact Resolved.actsNil
  | actsLocal hl _ ih => exact Resolved.actsLocal hl ih
  | actsVisit hc hb _ ihc ih => exact Resolved.actsVisit hc hb ihc ih
  | rootsNil => exact Resolved.rootsNil
  | rootsCons hb _ ih ih' => exact Resolved.rootsCons hb ih ih'
  | itemsNil => exact Resolved.itemsNil
  | itemsStar _ hscope htables hrest ih => exact Resolved.itemsStar hscope htables hrest ih
  | itemsRoot hstars hb hrest ih ih' => exact Resolved.itemsRoot hstars hb hrest ih ih'
  | table halias hsource hscope => exact Resolved.table henv halias hsource hscope
  | derived halias hquery hnames hscope ih => exact Resolved.derived halias hquery hnames hscope ih
  | join hl hr hc ihl ihr ihc => exact Resolved.join hl hr hc ihl ihr ihc
  | list _ ih => exact Resolved.list ih
  | sourcesNil => exact Resolved.sourcesNil
  | sourcesCons hitem hrest ih ih' => exact Resolved.sourcesCons hitem hrest ih ih'
  | fromNone => exact Resolved.fromNone
  | fromSome _ ih => exact Resolved.fromSome ih
  | entryPlain hind hquery _ hnames hscope ih =>
    exact Resolved.entryPlain hind hquery hnames hscope ih
  | entryInductive hind hbase _ hnames hscope hquery ih ih' =>
    exact Resolved.entryInductive hind hbase hnames hscope hquery ih ih'
  | entriesNil => exact Resolved.entriesNil
  | entriesCons hc hcs ih ih' => exact Resolved.entriesCons hc hcs ih ih'
  | unionNone => exact Resolved.unionNone
  | unionSome hscope _ ih => exact Resolved.unionSome hscope ih
  | branch he hf hr hi hu hsort ho _ ihe ihf ihr ihi ihu iho =>
    intro scope outer L hscopes hdepth htables hS
    exact ⟨fun hfresh huses => Resolved.branchFresh he hf hr hi hu hsort ho ihe ihf ihr ihi ihu
      iho hscopes hdepth htables hS hfresh huses,
      fun h => Resolved.branchAgain he hf hr hi hu hsort ho ihu hscopes hdepth hS h⟩
  | query hb ih => exact Resolved.query hb ih

/-- Nothing of a query is bound yet, and no expression is used twice. -/
def Arena.FreshQuery (a : Arena) (q : Select) : Prop := q.isFresh = true ∧ ∃ K, a.Fresh q.exprs K

/-- Whether nothing of a query is bound and no expression is used twice, for at most the given number of
uses. -/
def Arena.isFreshQuery (a : Arena) (fuel : Nat) (q : Select) : Bool :=
  q.isFresh && a.isFresh && a.isTreeShaped fuel q.exprs

theorem Arena.freshQuery_of_isFreshQuery {fuel : Nat} (h : a.isFreshQuery fuel q = true) :
    a.FreshQuery q := by
  simp only [isFreshQuery, Bool.and_eq_true] at h
  obtain ⟨⟨hq, ha⟩, htree⟩ := h
  obtain ⟨K, huses, hnodup⟩ := treeShaped_of_isTreeShaped htree
  exact ⟨hq, K, huses, fun x _ => isFresh_expr ha x, hnodup⟩

theorem BindView.sound_initial (a : Arena) (nextSerial nextTemp : Nat) :
    BindView.Sound ⟨a, [], nextSerial, nextTemp⟩ [] := by
  refine ⟨trivial, forall_mem_nil _, forall_mem_nil _,
    fun _ _ h => ?_, ⟨.nil, forall_mem_nil _, forall_mem_nil _⟩⟩
  cases h

theorem bind_means (henv : env.Numbered) {p : Parsed} {parameters : List Value} {b : Bound} {q0 : Select}
    (hp : p.statement = .select q0) (hfresh : p.exprs.FreshQuery q0)
    (h : (bind env p parameters).result = .ok b) :
    ∃ q R K next, b.statement = .select q ∧ R.nextTemp = (bind env p parameters).nextTemp ∧
      Registered R.references next ∧ K.Nodup ∧
      Means env b.exprs R [] (fun _ => none) (.query (fun _ => none) q) K := by
  obtain ⟨_, hrun, hexprs, htemp⟩ := bind_run h
  rw [hp] at hrun
  simp only [bindStatementWith, run_bind, run_pure] at hrun
  obtain ⟨q, s1, hquery, hq, rfl⟩ := hrun
  obtain ⟨hisFresh, _, huses⟩ := hfresh
  have hbinds := (recurTo_derived _).query hquery
  obtain ⟨L, _, hS, K', hsub, hmeans⟩ :=
    (hbinds.resolved henv (BindView.sound_initial p.exprs _ _)).1 hisFresh huses
  rw [hexprs]
  exact ⟨q, s1.view.registry L, K', _, hq.symm, htemp.symm, hS.registered, huses.nodup.sublist hsub, hmeans⟩

end SqlAnalysis
