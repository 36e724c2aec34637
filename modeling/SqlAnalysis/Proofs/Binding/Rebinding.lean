import SqlAnalysis.Proofs.Binding.Frame
import SqlAnalysis.Proofs.Binding.Meaning
import SqlAnalysis.Proofs.Text.Lowercase

/-!
# Binding again

The base case of a recursive WITH entry is bound a second time, together with the branches that
refer to the entry.  By then another table may have the name that a FROM item of the base case has.

* **`Binds.rebound`**: what is already bound means the same afterwards, whatever the scopes are.
-/

namespace SqlAnalysis

open Text List TableRef

variable {given known : Alias} {v v' : BindView} {ids K : List ExprId}
  {columns : List DerivedColumn} {c : Cte} {S S' : ScopeStack} {q : Select} {a : Arena}
  {Γ : List (List ScopeTable)} {Δ : EntryMap}

variable {env : Accessor} {R : Registry}

/-! ### Names -/

theorem Takes.eq_of_some {next n serial next' : Nat} (h : Takes next (some n) serial next') :
    serial = n := by
  cases h
  rfl

theorem Aliases.eq_of_settled (h : Aliases given v known v') (hgiven : given.Settled) :
    known = given := by
  cases h with
  | intro _ htakes =>
    obtain ⟨name, _⟩ := given
    obtain ⟨_, hn⟩ := Option.isSome_iff_exists.mp hgiven.2
    have hname : lowercase name = name := hgiven.1
    dsimp only at hn htakes
    rw [hn] at htakes ⊢
    rw [hname, htakes.eq_of_some]

theorem NamesEntry.length_eq {given : List Alias} (h : NamesEntry ids given v columns v') :
    columns.length = ids.length := by
  induction h with
  | nil => rfl
  | cons _ _ _ ih => rw [length_cons, length_cons, ih]

theorem NamesEntry.serials_eq {given : List Alias} (h : NamesEntry ids given v columns v')
    (hlen : given.length = ids.length)
    (hgiven : ∀ serial ∈ given.map (·.serial), ∃ n, serial = some n) :
    columns.map (·.knownAs.serial) = given.map (·.serial) := by
  induction h with
  | nil =>
    rw [length_eq_zero_iff.mp hlen]
    rfl
  | @cons _ _ given _ _ _ _ _ _ htakes hknown _ ih =>
    cases given with
    | nil => cases hlen
    | cons k =>
      obtain ⟨⟨n, hn⟩, hrest⟩ := forall_mem_cons.mp hgiven
      have hn : k.serial = some n := hn
      rw [head?_cons, Option.bind_some, hn] at htakes
      rw [map_cons, map_cons, ih (Nat.succ.inj hlen) hrest, hknown, htakes.eq_of_some, hn]
      rfl

theorem Cte.define_congr {c' : Cte} (hname : c'.name = c.name)
    (hserials : c'.columns.map (·.serial) = c.columns.map (·.serial)) (Δ : EntryMap) :
    c'.define Δ = c.define Δ := by
  funext name
  rw [define, define, hname, hserials]

/-! ### Scopes -/

theorem AddsTables.length_eq (h : AddsTables S S') : S'.length = S.length := by
  cases h with
  | none => rfl
  | some heq => rw [heq]; rfl

theorem AddsEntries.length_eq {cs : List Cte} (h : AddsEntries cs S S') : S'.length = S.length := by
  cases h with
  | none => rfl
  | some heq => rw [heq]; rfl

theorem Aliases.length_eq (h : Aliases given v known v') : v'.scopes.length = v.scopes.length :=
  h.addsTables.length_eq

theorem Rescopes.length_eq {f : Scope → Except Diagnostic Scope} (h : Rescopes f v v') :
    v'.scopes.length = v.scopes.length := by
  cases h with
  | intro heq => rw [heq]; rfl

theorem Binds.isSome_union {q' : Select} (h : Binds env (.query q q') v v') :
    q'.union.isSome = q.union.isSome := by
  cases h with
  | query hbranch =>
    cases hbranch with
    | @branch _ _ _ _ _ union _ _ _ _ _ _ _ _ _ _ _ _ hunion _ _ =>
      show union.isSome = q.union.isSome
      generalize q.union = right at hunion
      cases hunion with
      | unionNone => rfl
      | unionSome => rfl

/-! ### Whole bindings -/

/-- What other parts see of a query: its select list and the entries of its WITH list. -/
structure Select.SameHead (q q' : Select) : Prop where
  items : q'.items = q.items
  entries : ∀ Δ, Cte.defineAll q'.ctes Δ = Cte.defineAll q.ctes Δ

/-- What meant something before a binding means the same afterwards.  Of the scopes only their number
matters. -/
def BindTask.Rebound (env : Accessor) (R : Registry) : BindTask → BindView → BindView → Prop
  | .expr _, _, _ | .acts .., _, _ | .roots _, _, _ => True
  | .items ids ids', v, _ =>
    (∀ id ∈ ids, id < v.exprs.size ∧ ∀ table, ¬IsStar (v.exprs.expr id) table) → ids' = ids
  | .source item item', v, v' => ∀ {Γ Δ K}, Means env v.exprs R Γ Δ (.source item) K →
    v.scopes.length = Γ.length →
    (∃ K', K'.Sublist K ∧ Means env v'.exprs R Γ Δ (.source item') K') ∧ item'.aliases = item.aliases
  | .sources refs refs', v, v' => ∀ {Γ Δ K}, Means env v.exprs R Γ Δ (.sources refs) K →
    v.scopes.length = Γ.length →
    (∃ K', K'.Sublist K ∧ Means env v'.exprs R Γ Δ (.sources refs') K') ∧
      aliasesAll refs' = aliasesAll refs
  | .from_ ref ref', v, v' => ∀ {Γ Δ K}, Means env v.exprs R Γ Δ (.from_ ref) K →
    v.scopes.length = Γ.length →
    (∃ K', K'.Sublist K ∧ Means env v'.exprs R Γ Δ (.from_ ref') K') ∧
      aliasesOpt ref' = aliasesOpt ref
  | .entry c c', v, v' => ∀ {Γ Δ K}, Means env v.exprs R Γ Δ (.entry c) K →
    v.scopes.length = Γ.length →
    (∃ K', K'.Sublist K ∧ Means env v'.exprs R Γ Δ (.entry c') K') ∧ ∀ Δ, c'.define Δ = c.define Δ
  | .entries cs cs', v, v' => ∀ {Γ Δ K}, Means env v.exprs R Γ Δ (.entries cs) K →
    v.scopes.length = Γ.length →
    (∃ K', K'.Sublist K ∧ Means env v'.exprs R Γ Δ (.entries cs') K') ∧
      ∀ Δ, Cte.defineAll cs' Δ = Cte.defineAll cs Δ
  | .union right right' depth, v, v' => ∀ {Γ Δ K}, Means env v.exprs R Γ Δ (.union right) K →
    depth = Γ.length → v.scopes.length = Γ.length + 1 →
    ∃ K', K'.Sublist K ∧ Means env v'.exprs R Γ Δ (.union right') K'
  | .branch q depth q', v, v' => ∀ {Γ Δ Δ' K}, Means env v.exprs R Γ Δ (.query Δ' q) K →
    depth = Γ.length → v.scopes.length = Γ.length + 1 →
    (∃ K', K'.Sublist K ∧ Means env v'.exprs R Γ Δ (.query Δ' q') K') ∧ q.SameHead q'
  | .query q q', v, v' => ∀ {Γ Δ Δ' K}, Means env v.exprs R Γ Δ (.query Δ' q) K →
    v.scopes.length = Γ.length →
    (∃ K', K'.Sublist K ∧ Means env v'.exprs R Γ Δ (.query Δ' q') K') ∧ q.SameHead q'

/-- A WITH entry as it is once its query is bound and its columns are named. -/
def Cte.rebuild (c : Cte) (q : Select) (columns : List DerivedColumn) : Cte :=
  { name := lowercase c.name, columns := columns.map (·.knownAs), query := q, recursive := c.recursive }

theorem Cte.isInductive_rebuild (columns : List DerivedColumn)
    (h : q.union.isSome = c.query.union.isSome) :
    (c.rebuild q columns).isInductive = c.isInductive := by
  rw [isInductive, isInductive, rebuild, h]

theorem Means.rebuild (hserials : columns.map (·.knownAs.serial) = c.columns.map (·.serial))
    (hlen : columns.length = q.items.length) (hunion : q.union.isSome = c.query.union.isSome)
    (hname : lowercase c.name = c.name) (hnumbered : c.Numbered Δ R.nextTemp)
    (h : Means env a R Γ Δ (.query (if c.isInductive then c.define Δ else Δ) q) K) :
    Means env a R Γ Δ (.entry (c.rebuild q columns)) K ∧
      ∀ Δ, (c.rebuild q columns).define Δ = c.define Δ := by
  have hcolumns : (c.rebuild q columns).columns.map (·.serial) = c.columns.map (·.serial) := by
    rw [← hserials, Cte.rebuild, map_map]
    rfl
  have hdefine : ∀ Δ, (c.rebuild q columns).define Δ = c.define Δ := Cte.define_congr hname hcolumns
  refine ⟨.entry ?_ ((length_map _).trans hlen) (lowercase_lowercase _) ?_, hdefine⟩
  · rwa [Cte.Numbered, hcolumns]
  · rwa [Cte.isInductive_rebuild columns hunion, hdefine]

theorem Means.rebindBlock {ctes : List Cte} {source : Option TableRef} {items : List ExprId}
    {v1 v2 v3 v4 : BindView} (he : Binds env (.entries q.ctes ctes) v v1)
    (hf : Binds env (.from_ q.source source) v1 v2)
    (hr : Binds env (.roots (q.filter.toList ++ (q.grouping.map (·.exprs)).getD [])) v2 v3)
    (hi : Binds env (.items q.items items) v3 v4) (hafter : Evolves v4.exprs a)
    (ihe : (BindTask.entries q.ctes ctes).Rebound env R v v1)
    (ihf : (BindTask.from_ q.source source).Rebound env R v1 v2)
    (ihi : (BindTask.items q.items items).Rebound env R v3 v4)
    (h : Means env v.exprs R Γ Δ (.block q) K) (hlen : v.scopes.length = Γ.length + 1)
    (union : Option Select) {ordering : Option (List SortKey)}
    (hkeys : ∀ x ∈ (ordering.getD []).map (·.expr), x ∈ (q.ordering.getD []).map (·.expr) ∨ x ∈ items) :
    items = q.items ∧ (∀ Δ, Cte.defineAll ctes Δ = Cte.defineAll q.ctes Δ) ∧ ∃ K', K'.Sublist K ∧
      Means env a R Γ Δ (.block
        { q with
          ctes := ctes, source := source, items := items, union := union, ordering := ordering,
          depth := some Γ.length }) K' := by
  -- from each clause on, how the store evolves until the end
  have evolves_r := hr.evolves
  have evolves_f := hf.evolves
  have evolves_e := he.evolves
  have until_items := (evolves_e.trans evolves_f).trans evolves_r
  have after_roots := hi.evolves.trans hafter
  have after_source := evolves_r.trans after_roots
  have whole := until_items.trans after_roots
  cases h with
  | @block F _ _ _ sorted _ _ _ _ _ _ _ hF haliases hstars hsorted hentries hitems hsource hfilter
      hgrouping hordering =>
    have hlen' : v.scopes.length = (F :: Γ).length := hlen
    obtain ⟨⟨_, hsub1, hentries⟩, hdefine⟩ := ihe hentries hlen'
    obtain ⟨_, hsub1', hentries⟩ := hentries.evolve (evolves_f.trans after_source)
    have hlen1 := (AddsEntries.length_eq he.scopes).trans hlen'
    obtain ⟨_, hsub3, hsource⟩ := hsource.evolve evolves_e
    obtain ⟨⟨_, hsub3', hsource⟩, halias⟩ := ihf hsource hlen1
    obtain ⟨_, hsub3'', hsource⟩ := hsource.evolve after_source
    have hsame : items = q.items := by
      refine ihi fun id hid => ⟨(hitems.lt_size hid).trans_le until_items.size_le,
        fun table hstar => hstars id hid table ?_⟩
      exact hstar.of_evolves (until_items.kind id (hitems.lt_size hid))
    subst hsame
    obtain ⟨_, hsub2, hitems'⟩ := hitems.evolve whole
    obtain ⟨_, hsub4, hfilter⟩ := hfilter.evolve whole
    obtain ⟨_, hsub5, hgrouping⟩ := hgrouping.evolve whole
    obtain ⟨_, hsub6, hordering⟩ := hordering.evolve whole
    rw [← hdefine] at hitems' hsource hfilter hgrouping hordering
    refine ⟨rfl, hdefine, _, ?_,
      .block rfl hF ?_ ?_ (fun x hx => ?_) hentries hitems' hsource hfilter hgrouping hordering⟩
    · exact (((((hsub1'.trans hsub1).append hsub2).append
        ((hsub3''.trans hsub3').trans hsub3)).append hsub4).append hsub5).append hsub6
    · intro t ht
      rw [halias]
      exact haliases t ht
    · exact fun id hid table hstar => hstars id hid table
        (hstar.of_evolves (whole.kind id (hitems.lt_size hid)))
    · exact (hkeys x hx).elim (hsorted x) Or.inr

theorem Binds.rebound {task : BindTask} (h : Binds env task v v') : task.Rebound env R v v' := by
  induction h with
  | itemsNil => exact fun _ => rfl
  | itemsStar hstar => exact fun h => absurd hstar ((h _ mem_cons_self).2 _)
  | itemsRoot _ hroot _ _ ih =>
    intro h
    dsimp only [BindTask.Rebound] at ih
    have hstep := hroot.progress.finish.toEvolves
    rw [ih fun x hx => ?_]
    obtain ⟨hlt, hstars⟩ := h x (mem_cons_of_mem _ hx)
    exact ⟨hlt.trans_le hstep.size_le,
      fun table hstar => hstars table (hstar.of_evolves (hstep.kind x hlt))⟩
  | @table _ _ _ _ _ _ halias _ hscope =>
    intro Γ Δ K h _
    rw [hscope.exprs_eq, halias.exprs_eq]
    cases h with
    | table ht hr hknown hdenotes hname hsettled =>
      rw [halias.eq_of_settled hsettled, hname]
      exact ⟨⟨[], .refl _, .table ht hr hknown hdenotes hname hsettled⟩, rfl⟩
  | derived halias _ hnames hscope ih =>
    intro Γ Δ K h hlen
    rw [hscope.exprs_eq]
    cases h with
    | derived ht hr hsettled hquery =>
      have hlen := halias.length_eq.trans hlen
      rw [← halias.exprs_eq] at hquery
      obtain ⟨⟨K1, hsub1, hquery⟩, _⟩ := ih hquery hlen
      obtain ⟨K2, hsub2, hquery⟩ := hquery.evolve hnames.adjusts.toEvolves
      rw [halias.eq_of_settled hsettled]
      exact ⟨⟨K2, hsub2.trans hsub1, .derived ht hr hsettled hquery⟩, rfl⟩
  | @join _ _ _ _ _ _ _ _ _ _ hl hr hc ihl ihr _ =>
    intro Γ Δ K h hlen
    have hleft := hl.evolves
    have hright := hr.evolves
    have hcond := hc.evolves
    cases h with
    | join hwiden hnot h h' h'' =>
      obtain ⟨⟨K1, hsub1, h⟩, halias⟩ := ihl h (hlen.trans hwiden.length_eq.symm)
      obtain ⟨K1', hsub1', h⟩ := h.evolve (hright.trans hcond)
      obtain ⟨K2, hsub2, h'⟩ := h'.evolve hleft
      obtain ⟨⟨K2', hsub2', h'⟩, halias'⟩ := ihr h' ((AddsTables.length_eq hl.scopes).trans hlen)
      obtain ⟨_, hsub2'', h'⟩ := h'.evolve hcond
      obtain ⟨K3, hsub3, h''⟩ := h''.evolve ((hleft.trans hright).trans hcond)
      refine ⟨⟨_, ?_, .join hwiden (halias'.symm ▸ hnot) h h' h''⟩, ?_⟩
      · exact ((hsub1'.trans hsub1).append ((hsub2''.trans hsub2').trans hsub2)).append hsub3
      · rw [aliases, aliases, halias, halias']
  | list _ ih =>
    intro Γ Δ K h hlen
    cases h with
    | list h =>
      obtain ⟨⟨K', hsub, h⟩, halias⟩ := ih h hlen
      exact ⟨⟨K', hsub, .list h⟩, halias⟩
  | sourcesNil | fromNone => exact fun h _ => ⟨⟨_, .refl _, h⟩, rfl⟩
  | sourcesCons hitem hrest ih ih' =>
    intro Γ Δ K h hlen
    cases h with
    | sourcesCons hwiden hnot h h' =>
      obtain ⟨⟨K1, hsub1, h⟩, halias⟩ := ih h (hlen.trans hwiden.length_eq.symm)
      obtain ⟨K1', hsub1', h⟩ := h.evolve hrest.evolves
      obtain ⟨K2, hsub2, h'⟩ := h'.evolve hitem.evolves
      obtain ⟨⟨K2', hsub2', h'⟩, halias'⟩ := ih' h' ((AddsTables.length_eq hitem.scopes).trans hlen)
      refine ⟨⟨_, (hsub1'.trans hsub1).append (hsub2'.trans hsub2),
        .sourcesCons hwiden (halias'.symm ▸ hnot) h h'⟩, ?_⟩
      rw [aliasesAll, aliasesAll, halias, halias']
  | fromSome _ ih =>
    intro Γ Δ K h hlen
    cases h with
    | fromSome h =>
      obtain ⟨⟨K', hsub, h⟩, halias⟩ := ih h hlen
      exact ⟨⟨K', hsub, .fromSome h⟩, halias⟩
  | entryPlain _ hquery _ hnames hscope ih =>
    intro Γ Δ K h hlen
    rw [hscope.exprs_eq]
    cases h with
    | entry hnumbered hcolumns hname h =>
      obtain ⟨⟨K1, hsub1, h⟩, hhead⟩ := ih h hlen
      obtain ⟨K2, hsub2, h⟩ := h.evolve hnames.adjusts.toEvolves
      have hserials := hnames.serials_eq (hcolumns.trans (by rw [hhead.items])) fun serial hs =>
        (hnumbered serial hs).imp fun n h => h.1
      obtain ⟨hentry, hdefine⟩ := h.rebuild hserials hnames.length_eq hquery.isSome_union hname hnumbered
      exact ⟨⟨K2, hsub2.trans hsub1, hentry⟩, hdefine⟩
  | @entryInductive c _ _ _ v _ _ v3 _ _ hbase _ hnames hscope hquery ih ih' =>
    intro Γ Δ K h hlen
    have hnamed := hnames.adjusts.toEvolves
    cases h with
    | entry hnumbered hcolumns hname h =>
      cases h with
      | @query _ _ _ _ K _ hblock hunion =>
        have halone : Means env v.exprs R Γ Δ (.query Δ { c.query with union := none }) (K ++ []) :=
          .query (hblock.withUnion none) .unionNone
        obtain ⟨⟨K1, hsub1, hbased⟩, hhead⟩ := ih halone hlen
        cases hbased with
        | query hblock _ =>
          obtain ⟨K2, hsub2, hblock⟩ := hblock.evolve hnamed
          obtain ⟨_, hsub3, hunion⟩ := hunion.evolve (hbase.evolves.trans hnamed)
          rw [← hscope.exprs_eq] at hblock hunion
          rw [← hhead.entries] at hunion
          have hlen3 : v3.scopes.length = Γ.length := by
            rw [hscope.length_eq, hnames.scopes_eq, hbase.scopes, hlen]
          obtain ⟨⟨K4, hsub4, h⟩, hhead'⟩ :=
            ih' (.query (hblock.withUnion c.query.union) hunion) hlen3
          have hserials := hnames.serials_eq (hcolumns.trans (by rw [hhead.items])) fun serial hs =>
            (hnumbered serial hs).imp fun n h => h.1
          obtain ⟨hentry, hdefine⟩ := h.rebuild hserials (hnames.length_eq.trans (by rw [hhead'.items]))
            hquery.isSome_union hname hnumbered
          refine ⟨⟨K4, hsub4.trans (Sublist.append ?_ hsub3), hentry⟩, hdefine⟩
          rw [append_nil] at hsub1
          exact hsub2.trans ((sublist_append_left _ _).trans hsub1)
  | entriesNil => exact fun h _ => ⟨⟨_, .refl _, h⟩, fun _ => rfl⟩
  | entriesCons hentry hrest ih ih' =>
    intro Γ Δ K h hlen
    cases h with
    | entriesCons h h' =>
      obtain ⟨⟨K1, hsub1, h⟩, hdefine⟩ := ih h hlen
      obtain ⟨_, hsub1', h⟩ := h.evolve hrest.evolves
      obtain ⟨K2, hsub2, h'⟩ := h'.evolve hentry.evolves
      obtain ⟨⟨_, hsub2', h'⟩, hdefineAll⟩ :=
        ih' h' ((AddsEntries.length_eq hentry.scopes).trans hlen)
      rw [← hdefine] at h'
      refine ⟨⟨_, (hsub1'.trans hsub1).append (hsub2'.trans hsub2), .entriesCons h h'⟩, fun Δ => ?_⟩
      rw [Cte.defineAll_cons, Cte.defineAll_cons, hdefine, hdefineAll]
  | unionNone => exact fun h _ _ => ⟨_, .refl _, h⟩
  | unionSome hscope _ ih =>
    intro Γ Δ K h hdepth hlen
    cases h with
    | unionSome h =>
      obtain ⟨⟨K', hsub, h⟩, _⟩ := ih h hdepth (by rw [hscope] at hlen; exact hlen)
      exact ⟨K', hsub, .unionSome h⟩
  | @branch _ _ _ _ _ union _ _ _ _ _ v4 _ _ he hf hr hi hu hsort ho _ ihe ihf _ ihi ihu _ =>
    intro Γ Δ Δ' K h hdepth hlen
    have evolves_o := ho.evolves
    have evolves_u := hu.evolves.trans evolves_o
    have until_union := ((he.evolves.trans hf.evolves).trans
      hr.evolves).trans hi.evolves
    obtain ⟨_, _, rfl, hblock, hunion⟩ := h.of_query
    obtain ⟨rfl, hdefine, _, hsub1, hblock⟩ :=
      hblock.rebindBlock he hf hr hi evolves_u ihe ihf ihi hlen union fun _ => hsort.mem
    have hlen4 : v4.scopes.length = Γ.length + 1 := by
      rw [hi.scopes, hr.scopes, AddsTables.length_eq hf.scopes, AddsEntries.length_eq he.scopes, hlen]
    obtain ⟨_, hsub2, hunion⟩ := hunion.evolve until_union
    obtain ⟨_, hsub2', hunion⟩ := ihu hunion hdepth hlen4
    obtain ⟨_, hsub2'', hunion⟩ := hunion.evolve evolves_o
    rw [← hdefine] at hunion
    rw [hdepth]
    exact ⟨⟨_, hsub1.append ((hsub2''.trans hsub2').trans hsub2), .query hblock hunion⟩, ⟨rfl, hdefine⟩⟩
  | query _ ih =>
    intro Γ Δ Δ' K h hlen
    exact ih h hlen (congrArg (· + 1) hlen)
  | _ => trivial

end SqlAnalysis
