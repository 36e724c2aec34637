import SqlAnalysis.Proofs.Binding.Freshness

/-!
# What a first binding finds out

Once a part of a statement is bound that was fresh before, it means something in the scopes that are
open.  What that says depends on the kind of part, so it is defined by cases and proved rule by rule:
here for expressions and select lists, then for FROM, WITH and whole blocks.

Three things are carried along.  The table references that were registered so far only grow, each with a
serial of its own.  The nodes that a part is made of are listed, none of them twice.  And since operands
may be visited more than once, a list of operands is bound a slot at a time (`Slots`).

* **`BindTask.Resolved`**: a fresh part of a statement means something once it is bound, and every
  table reference in it has a serial of its own.
-/

namespace SqlAnalysis

open Text List Arena BindTask TableRef ScopeStack

variable {v v' : BindView} {L : List Reference} {a : Arena} {id : ExprId} {c : ResolvedColumn}
  {q q' : Select} {e : Expr} {given known : Alias} {next n : Nat} {source : TableSource}
  {name : ObjectName} {ref : ColumnRef} {visited ids ids' : List ExprId}

variable {env : Accessor}

/-! ### Steps on single nodes -/

/-- What has been given out when a view is reached. -/
def BindView.registry (v : BindView) (L : List Reference) : Registry := ⟨L, v.nextTemp⟩

theorem BindView.registry_extends {L' : List Reference} (hle : CountersLe v v') (hsub : L ⊆ L') :
    (v.registry L).Extends (v'.registry L') :=
  ⟨hsub, hle.2⟩

theorem Arena.Fresh.single {K : List ExprId} (h : a.Fresh [id] K) :
    ∃ K', K = id :: K' ∧ a.Fresh (a.expr id).parts K' ∧ id ∉ K' ∧ id < a.size ∧
      (a.expr id).isFresh = true := by
  obtain ⟨huses, hfresh, hnodup⟩ := h
  cases huses with
  | @cons _ _ K' _ hlt hparts hnil =>
    cases hnil
    rw [append_nil] at hfresh hnodup ⊢
    obtain ⟨hid, hnodup⟩ := nodup_cons.mp hnodup
    obtain ⟨hexpr, hfresh⟩ := forall_mem_cons.mp hfresh
    exact ⟨K', rfl, ⟨hparts, hfresh, hnodup⟩, hid, hlt, hexpr⟩

theorem BindView.Sound.isResolved (h : v.Sound L) (hc : Resolves v.scopes.tables c) :
    c.ref.isResolved = true := by
  obtain ⟨tables, _, hsuffix, _, ht, hc⟩ := hc
  obtain ⟨r, hr, rfl⟩ := mem_map.mp (h.visible tables (hsuffix.subset mem_cons_self) ht)
  exact (h.registered.numbered r hr _ c hc).1

theorem Evolves.of_setQuery (he : a.expr id = .subquery q) (hq : q.depth = none) (q' : Select) :
    Evolves a (a.setQuery id q') := by
  refine ⟨.of_setQuery a id q', fun {y q0} hy hd => ?_⟩
  have hne : y ≠ id := by
    rintro rfl
    rw [he] at hy
    cases hy
    rw [hq] at hd
    cases hd
  rwa [expr_setQuery_of_ne _ hne]

theorem LocalChange.expr_of_ne {a' : Arena} (h : LocalChange id e a a') {x : ExprId} (hx : x ≠ id) :
    a'.expr x = a.expr x := by
  cases h with
  | constant => exact (expr_update_of_ne _ hx).trans (expr_update_of_ne _ hx)
  | _ => exact expr_update_of_ne _ hx

theorem Binds.isSome_depth (h : Binds env (.query q q') v v') : q'.depth.isSome = true := by
  cases h with
  | query hbranch =>
    cases hbranch
    rfl

/-! ### Scopes of FROM items -/

/-- The tables of the innermost scope. -/
def ScopeStack.top (S : ScopeStack) : List ScopeTable := S.tables.headD []

def Shows (aliases : List Alias) (v v' : BindView) : Prop :=
  ∀ t ∈ v'.scopes.top, t ∈ v.scopes.top ∨ t.knownAs ∈ aliases

theorem Shows.trans {aliases aliases' : List Alias} {v'' : BindView} (h : Shows aliases v v')
    (h' : Shows aliases' v' v'') : Shows (aliases ++ aliases') v v'' := by
  intro t ht
  rcases h' t ht with ht | ht
  · exact (h t ht).imp_right (mem_append_left _)
  · exact .inr (mem_append_right _ ht)

theorem Aliases.of_fresh (h : Aliases given v known v') (hfresh : given.serial.isNone = true) :
    known.Settled ∧ known.serial = some v.nextSerial ∧ v'.nextSerial = v.nextSerial + 1 := by
  cases h with
  | intro _ htakes =>
    rw [Option.isNone_iff_eq_none.mp hfresh] at htakes
    cases htakes
    exact ⟨⟨lowercase_lowercase _, rfl⟩, rfl, rfl⟩

def Alias.AllFrom (next : Nat) (ks : List Alias) : Prop := ∀ k ∈ ks, ∃ n, k.serial = some n ∧ next ≤ n

theorem Alias.AllFrom.append {next' : Nat} {ks ks' : List Alias} (h : Alias.AllFrom next ks)
    (h' : Alias.AllFrom next' ks') (hle : next ≤ next') : Alias.AllFrom next (ks ++ ks') :=
  forall_mem_append.mpr ⟨h, fun k hk => (h' k hk).imp fun _ hn => ⟨hn.1, hle.trans hn.2⟩⟩

def BindTask.AliasesFrom (next : Nat) : BindTask → Prop
  | .source item item' => item.isFresh = true → Alias.AllFrom next item'.aliases
  | .sources refs refs' =>
    allFresh refs = true → Alias.AllFrom next (aliasesAll refs')
  | _ => True

theorem Binds.aliasesFrom {task : BindTask} (h : Binds env task v v') :
    task.AliasesFrom v.nextSerial := by
  induction h with
  | table halias =>
    intro hfresh
    exact forall_mem_singleton.mpr ⟨_, (halias.of_fresh hfresh).2.1, le_rfl⟩
  | derived halias =>
    intro hfresh
    rw [TableRef.isFresh, Bool.and_eq_true] at hfresh
    exact forall_mem_singleton.mpr ⟨_, (halias.of_fresh hfresh.2).2.1, le_rfl⟩
  | join hl _ _ ihl ihr =>
    intro hfresh
    rw [TableRef.isFresh, Bool.and_eq_true] at hfresh
    exact (ihl hfresh.1).append (ihr hfresh.2) hl.countersLe.1
  | list _ ih => exact ih
  | sourcesNil => exact fun _ _ hk => (not_mem_nil hk).elim
  | sourcesCons hfirst _ ih ih' =>
    intro hfresh
    rw [allFresh, Bool.and_eq_true] at hfresh
    exact (ih hfresh.1).append (ih' hfresh.2) hfirst.countersLe.1
  | _ => trivial

theorem BindView.Sound.aliases (h : v.Sound L) (halias : Aliases given v known v') : v'.Sound L := by
  refine h.addsTables halias.addsTables ?_ (h.registered.mono halias.countersLe.1) halias.countersLe
  rw [halias.tables_eq]
  exact h.visible

theorem BindView.Sound.addTable {named : Bool} (h : v.Sound L)
    (hscope : Rescopes (·.addTable known source) v v')
    (hreg : Registered (L ++ [⟨⟨known, source⟩, named⟩]) v.nextSerial) :
    v'.Sound (L ++ [⟨⟨known, source⟩, named⟩]) := by
  refine h.addsTables hscope.addsTables ?_ (hreg.mono hscope.countersLe.1) hscope.countersLe
  obtain ⟨_, Γ, hv, hv'⟩ := hscope.tables_addTable
  have hvisible := h.visible
  rw [hv] at hvisible
  rw [hv', map_append]
  obtain ⟨hF, hΓ⟩ := forall_mem_cons.mp hvisible
  refine forall_mem_cons.mpr ⟨fun t ht => ?_, fun tables ht t htt => ?_⟩
  · exact (mem_append.mp ht).elim (fun ht => mem_append_left _ (hF ht))
      fun ht => mem_append_right _ ht
  · exact mem_append_left _ (hΓ tables ht htt)

theorem Registers.push (r : Reference) (hr : r.serial = some n) (hn : next ≤ n) :
    Registers next L (L ++ [r]) := by
  refine ⟨fun r hr => mem_append_left _ hr, fun r' hr' => ?_⟩
  rcases mem_append.mp hr' with hr' | hr'
  · exact .inl hr'
  · rw [mem_singleton.mp hr']
    exact .inr ⟨n, hr, hn⟩

theorem NamedSource.denotes {scopes : ScopeStack} (h : NamedSource env scopes name source) :
    Denotes env scopes.entries name source := by
  cases h with
  | entry hschema hcte => exact .entry hschema (by rw [ScopeStack.entries, hcte]; rfl)
  | table hnone htable =>
    exact .table (fun hschema => by rw [ScopeStack.entries, hnone hschema]; rfl) htable

theorem Denotes.numbered {Δ : EntryMap} (h : Denotes env Δ name source) (henv : env.Numbered)
    (hΔ : Δ.Below n) (knownAs : Alias) : ScopeTable.Numbered ⟨knownAs, source⟩ := by
  cases h with
  | @entry _ _ hentry =>
    refine ScopeTable.numbered_of_derived fun c hc => ?_
    obtain ⟨n, hn, _⟩ := hΔ _ _ hentry c.knownAs.serial (mem_map.mpr ⟨c, hc, rfl⟩)
    exact ⟨n, hn⟩
  | table _ htable => exact henv.of_requireTable htable knownAs

/-! ### Whole bindings -/

/-- A query whose first block is bound and whose further branches are fresh: `S` has all nodes of the
block, and `K'` the uses in the branches. -/
structure Resumable (env : Accessor) (v : BindView) (L : List Reference) (Γ : List (List ScopeTable))
    (Δ : EntryMap) (q : Select) (K K' : List ExprId) (S : ExprId → Prop) : Prop where
  block : Means env v.exprs (v.registry L) Γ Δ (.block q) K
  encloses : v.exprs.Encloses S
  head : ∀ x ∈ Select.exprs { q with union := none }, S x
  fresh : v.exprs.Fresh (Select.exprsOpt q.union) K'
  isFresh : Select.isFreshOpt q.union = true
  apart : ∀ x ∈ K', ¬S x

/-- What is fresh before a binding means something afterwards, in the scopes that are open, and only
table references with new serials have been registered. -/
def BindTask.Resolved (env : Accessor) : BindTask → BindView → BindView → Prop
  | .expr id, v, v' => ∀ {L K}, v.Sound L → v.exprs.Fresh [id] K →
    ∃ L', Registers v.nextSerial L L' ∧ v'.Sound L' ∧ ∃ K', K'.Sublist K ∧
      Means env v'.exprs (v'.registry L') v.scopes.tables v.scopes.entries (.expr id) K'
  | .acts id e visited, v, v' => ∀ {L n f P}, v.Sound L →
    Slots env v.exprs (v.registry L) v.scopes.tables v.scopes.entries n f P e.children →
    (acts id e visited).Ready v.exprs → (∀ c ∈ e.children, id ∉ f c) →
    ∃ L', Registers v.nextSerial L L' ∧ v'.Sound L' ∧
      Slots env v'.exprs (v'.registry L') v.scopes.tables v.scopes.entries n f
        (fun c => P c ∧ c ∉ visited) e.children
  | .roots ids, v, v' => ∀ {L n f P cs}, v.Sound L →
    Slots env v.exprs (v.registry L) v.scopes.tables v.scopes.entries n f P cs →
    (∀ id ∈ ids, id ∈ cs) →
    ∃ L', Registers v.nextSerial L L' ∧ v'.Sound L' ∧
      Slots env v'.exprs (v'.registry L') v.scopes.tables v.scopes.entries n f
        (fun c => P c ∧ c ∉ ids) cs
  | .items ids ids', v, v' => ∀ {L K}, v.Sound L → v.exprs.Fresh ids K →
    ∃ L', Registers v.nextSerial L L' ∧ v'.Sound L' ∧
      (∀ id ∈ ids', ∀ table, ¬IsStar (v'.exprs.expr id) table) ∧ ∃ K', K'.Sublist K ∧
      Means env v'.exprs (v'.registry L') v.scopes.tables v.scopes.entries (.exprs ids') K'
  | .source item item', v, v' => ∀ {L K}, v.Sound L → item.isFresh = true →
    v.exprs.Fresh item.exprs K →
    ∃ L', Registers v.nextSerial L L' ∧ v'.Sound L' ∧ Shows item'.aliases v v' ∧ ∃ K', K'.Sublist K ∧
      Means env v'.exprs (v'.registry L') v'.scopes.tables v.scopes.entries (.source item') K'
  | .sources refs refs', v, v' => ∀ {L K}, v.Sound L → allFresh refs = true →
    v.exprs.Fresh (exprsAll refs) K →
    ∃ L', Registers v.nextSerial L L' ∧ v'.Sound L' ∧ Shows (aliasesAll refs') v v' ∧
      ∃ K', K'.Sublist K ∧
      Means env v'.exprs (v'.registry L') v'.scopes.tables v.scopes.entries (.sources refs') K'
  | .from_ ref ref', v, v' => ∀ {L K}, v.Sound L → isFreshOpt ref = true →
    v.exprs.Fresh (exprsOpt ref) K →
    ∃ L', Registers v.nextSerial L L' ∧ v'.Sound L' ∧ Shows (aliasesOpt ref') v v' ∧
      ∃ K', K'.Sublist K ∧
      Means env v'.exprs (v'.registry L') v'.scopes.tables v.scopes.entries (.from_ ref') K'
  | .entry c c', v, v' => ∀ {L K}, v.Sound L → Alias.allFresh c.columns = true →
    c.query.isFresh = true → v.exprs.Fresh c.query.exprs K →
    ∃ L', Registers v.nextSerial L L' ∧ v'.Sound L' ∧ ∃ K', K'.Sublist K ∧
      Means env v'.exprs (v'.registry L') v.scopes.tables v.scopes.entries (.entry c') K'
  | .entries cs cs', v, v' => ∀ {L K}, v.Sound L → Cte.allFresh cs = true →
    v.exprs.Fresh (Cte.exprsAll cs) K →
    ∃ L', Registers v.nextSerial L L' ∧ v'.Sound L' ∧ ∃ K', K'.Sublist K ∧
      Means env v'.exprs (v'.registry L') v.scopes.tables v.scopes.entries (.entries cs') K'
  | .union right right' depth, v, v' => ∀ {scope outer L K}, v.scopes = scope :: outer →
    depth = outer.length → { v with scopes := scope.sibling :: outer }.Sound L →
    Select.isFreshOpt right = true → v.exprs.Fresh (Select.exprsOpt right) K →
    ∃ L', Registers v.nextSerial L L' ∧ Registered L' v'.nextSerial ∧ ∃ K', K'.Sublist K ∧
      Means env v'.exprs (v'.registry L') (tables outer)
        (ScopeStack.entries (scope.sibling :: outer)) (.union right') K'
  | .branch q depth q', v, v' => ∀ {scope outer L}, v.scopes = scope :: outer → depth = outer.length →
    scope.tables = [] → v.Sound L →
    (∀ {K}, q.isFresh = true → v.exprs.Fresh q.exprs K →
      ∃ L', Registers v.nextSerial L L' ∧ Registered L' v'.nextSerial ∧ ∃ K', K'.Sublist K ∧
        Means env v'.exprs (v'.registry L') (tables outer) v.scopes.entries
          (.query v.scopes.entries q') K') ∧
    ∀ {Δ K K' S}, Resumable env v L (tables outer) Δ q K K' S →
      ∃ L', Registers v.nextSerial L L' ∧ Registered L' v'.nextSerial ∧ q'.items = q.items ∧
        ∃ K'', K''.Sublist (K ++ K') ∧
        Means env v'.exprs (v'.registry L') (tables outer) Δ (.query v.scopes.entries q') K''
  | .query q q', v, v' => ∀ {L}, v.Sound L →
    (∀ {K}, q.isFresh = true → v.exprs.Fresh q.exprs K →
      ∃ L', Registers v.nextSerial L L' ∧ v'.Sound L' ∧ ∃ K', K'.Sublist K ∧
        Means env v'.exprs (v'.registry L') v.scopes.tables v.scopes.entries
          (.query v.scopes.entries q') K') ∧
    ∀ {Δ K K' S}, Resumable env v L v.scopes.tables Δ q K K' S →
      ∃ L', Registers v.nextSerial L L' ∧ v'.Sound L' ∧ q'.items = q.items ∧
        ∃ K'', K''.Sublist (K ++ K') ∧
        Means env v'.exprs (v'.registry L') v.scopes.tables Δ (.query v.scopes.entries q') K''

namespace BindTask.Resolved

variable {v1 : BindView}

/-! #### Expressions -/

theorem columnFresh (hlt : id < v.exprs.size) (hc : resolveColumn v.scopes ref = .ok c) :
    (expr id).Resolved env v
      { v with exprs := v.exprs.update id fun n =>
          { n with kind := .column c.ref, type := c.type, depth := some c.depth } } := by
  intro L K hS _
  have hresolves := resolves_of_resolveColumn hS.leveled hc
  refine ⟨L, .refl _ _, hS.same rfl (Subset.refl _) hS.registered (.refl v), [],
    nil_sublist _, .column (c := c) ?_ (hS.isResolved hresolves) ?_ hresolves⟩
  · rw [Arena.expr, Arena.node_update_self _ hlt]
  · rw [node_update_self _ hlt]

theorem subqueryFresh {t : SqlType} (he : v.exprs.expr id = .subquery q)
    (hquery : Binds env (.query q q') { v with exprs := v.exprs.setQuery id {} } v1)
    (ih : (query q q').Resolved env { v with exprs := v.exprs.setQuery id {} } v1) :
    (expr id).Resolved env v
      { v1 with exprs := (v1.exprs.setQuery id q').update id fun n =>
          { n with type := t, hasSubquery := true } } := by
  intro L K hS hfresh
  obtain ⟨P, rfl, hparts, hid, hlt, hisFresh⟩ := hfresh.single
  rw [he] at hparts hisFresh
  have htaken : (v.exprs.setQuery id {}).Fresh q.exprs P :=
    hparts.congr ((size_setQuery _ _).symm.le) fun x hx =>
      expr_setQuery_of_ne _ (ne_of_mem_of_not_mem hx hid)
  have hS0 : { v with exprs := v.exprs.setQuery id {} }.Sound L :=
    hS.same rfl (Subset.refl _) hS.registered (.refl v)
  obtain ⟨L', hL, hS1, _, hsub, hmeans⟩ := (ih hS0).1 hisFresh htaken
  -- the node itself is not touched while its query is bound
  have hempty : v1.exprs.expr id = .subquery {} := by
    obtain ⟨hconfined, _⟩ := hquery.confined htaken.uses.encloses fun x hx => .inl (htaken.uses.mem hx)
    rw [hconfined.kept id (fun h => h.elim hid fun hle => ?_)]
    · exact expr_setQuery_self {} (by rw [he]; rfl)
    · rw [size_setQuery] at hle
      exact Nat.not_lt.mpr hle hlt
  have hmark := adjusts_markSubquery (v1.exprs.setQuery id q') id t
  obtain ⟨_, hsub', hmeans⟩ :=
    hmeans.evolve ((Evolves.of_setQuery hempty rfl q').trans hmark.toEvolves)
  refine ⟨L', hL, hS1.same rfl (Subset.refl _) hS1.registered (.refl v1), _,
    (hsub'.trans hsub).cons_cons _, .subquery ?_ hquery.isSome_depth hmeans⟩
  simp [expr_setQuery_self q' (show (v1.exprs.expr id).isSubquery = true by rw [hempty]; rfl)]

theorem visit {c : ExprId} (hb : Binds env (.expr c) v v1)
    (ih : (expr c).Resolved env v v1) (hS : v.Sound L) {f : ExprId → List ExprId}
    {P : ExprId → Prop} {cs : List ExprId}
    (hslots : Slots env v.exprs (v.registry L) v.scopes.tables v.scopes.entries n f P cs)
    (hc : c ∈ cs) :
    ∃ L', Registers v.nextSerial L L' ∧ v1.Sound L' ∧
      Slots env v1.exprs (v1.registry L') v.scopes.tables v.scopes.entries n f (fun x => P x ∧ x ≠ c) cs := by
  have hevolves := hb.evolves
  have hbound : ∃ L', Registers v.nextSerial L L' ∧ v1.Sound L' ∧ ∃ K', K'.Sublist (f c) ∧
      Means env v1.exprs (v1.registry L') v.scopes.tables v.scopes.entries (.expr c) K' := by
    by_cases hP : P c
    · exact ih hS (hslots.fresh c hc hP)
    · obtain ⟨_, hsub, hmeans⟩ := hslots.bound c hc hP
      obtain ⟨K', hsub', hmeans⟩ :=
        hmeans.mono (BindView.registry_extends hb.countersLe (Subset.refl L)) (.refl _) hevolves
      exact ⟨L, .refl _ _, hS.same hb.scopes (Subset.refl _) (hS.registered.mono hb.countersLe.1)
        hb.countersLe, K', hsub'.trans hsub, hmeans⟩
  obtain ⟨L', hL, hS1, hbound⟩ := hbound
  refine ⟨L', hL, hS1, hslots.visit (BindView.registry_extends hb.countersLe hL.subset) hevolves
    (hb.addsColumns trivial trivial) hc ?_ hbound⟩
  exact (hb.confined (hslots.encloses hc) fun x hx => mem_singleton.mp hx ▸ hslots.mem c hc).1

theorem node (hcolumn : (v.exprs.expr id).column? = none)
    (hsub : (v.exprs.expr id).isSubquery = false)
    (hacts : Binds env (.acts id (v.exprs.expr id) visited) v v')
    (hall : ∀ c ∈ (v.exprs.expr id).children, c ∈ visited)
    (ih : (acts id (v.exprs.expr id) visited).Resolved env v v') :
    (expr id).Resolved env v v' := by
  intro L K hS hfresh
  obtain ⟨_, rfl, hparts, hid, hlt, _⟩ := hfresh.single
  rw [Expr.parts_of_not_isSubquery hsub] at hparts
  obtain ⟨f, rfl, hslots⟩ := hparts.slots env (v.registry L) v.scopes.tables v.scopes.entries
  have hnot : ∀ c ∈ (v.exprs.expr id).children, id ∉ f c := fun c hc hmem =>
    hid (mem_flatMap.mpr ⟨c, hc, hmem⟩)
  obtain ⟨L', hL, hS', hslots⟩ := ih hS hslots ⟨hlt, .refl _⟩ hnot
  have hprogress := hacts.progress ⟨hlt, .refl _⟩
  have hkind := hprogress.kind id hlt
  obtain ⟨_, hsub', hmeans⟩ := hslots.exprs fun c hc => ⟨hc, fun h => h.2 (hall c hc)⟩
  obtain ⟨_, hsub'', hmeans⟩ := hmeans.exprs_of_forall₂ hkind.forall₂_children
  refine ⟨L', hL, hS', _, (hsub''.trans hsub').cons_cons _,
    .node (hlt.trans_le hprogress.size_le) (hkind.column?_eq_none hcolumn) ?_ hmeans⟩
  rw [hkind.isSubquery, hsub]

theorem actsLocal (hl : LocalChange id e v.exprs a)
    (ih : (acts id e visited).Resolved env { v with exprs := a } v') :
    (acts id e visited).Resolved env v v' := by
  intro L n f P hS hslots hready hid
  have hstep := (hl.adjusts hready.1 hready.2).toEvolves
  have hslots : Slots env a (v.registry L) v.scopes.tables v.scopes.entries n f P e.children :=
    hslots.keep (.refl _) hstep (.of_size (hl.size_eq.le)) fun c hc x hx =>
      hl.expr_of_ne (ne_of_mem_of_not_mem hx (hid c hc))
  have hS1 : { v with exprs := a }.Sound L :=
    hS.same rfl (Subset.refl _) hS.registered (.refl v)
  exact ih hS1 hslots (hready.reshape hstep.toReshapes _) hid

theorem actsVisit {c : ExprId} (hc : c ∈ e.children) (hb : Binds env (.expr c) v v1)
    (ihc : (expr c).Resolved env v v1)
    (ih : (acts id e visited).Resolved env v1 v') :
    (acts id e (c :: visited)).Resolved env v v' := by
  intro L n f P hS hslots hready hid
  obtain ⟨_, hL1, hS1, hslots⟩ := visit hb ihc hS hslots hc
  rw [← hb.scopes] at hslots
  obtain ⟨L', hL', hS', hslots⟩ :=
    ih hS1 hslots (hready.reshape hb.reshapes _) hid
  rw [hb.scopes] at hslots
  refine ⟨L', hL1.trans hL' hb.countersLe.1, hS', hslots.congr fun x _ => ?_⟩
  rw [mem_cons, not_or, and_assoc]

theorem rootsCons (hb : Binds env (.expr id) v v1) (ih : (expr id).Resolved env v v1)
    (ih' : (roots ids).Resolved env { v1 with exprs := v1.exprs.finish id } v') :
    (roots (id :: ids)).Resolved env v v' := by
  intro L n f P cs hS hslots hids
  obtain ⟨hid, hids⟩ := forall_mem_cons.mp hids
  obtain ⟨L1, hL1, hS1, hslots⟩ := visit hb ih hS hslots hid
  have hground := hb.progress.finished
  have hevolves := (adjusts_finish hground).toEvolves
  have hsize := v1.exprs.size_finish id
  have hexpr := v1.exprs.expr_finish id
  generalize v1.exprs.finish id = a at ih' hevolves hsize hexpr
  have hslots := hslots.keep (.refl _) hevolves (.of_size (hsize.le)) fun c _ x _ => hexpr x
  have hS2 : { v1 with exprs := a }.Sound L1 :=
    hS1.same rfl (Subset.refl _) hS1.registered (.refl v1)
  rw [← hb.scopes] at hslots
  obtain ⟨L', hL', hS', hslots⟩ := ih' hS2 hslots hids
  rw [show v1.scopes = v.scopes from hb.scopes] at hslots
  refine ⟨L', hL1.trans hL' hb.countersLe.1, hS', hslots.congr fun x _ => ?_⟩
  rw [mem_cons, not_or, and_assoc]

theorem columnDone (he : v.exprs.expr id = .column ref) (hres : ref.isResolved = true) :
    (expr id).Resolved env v v' := by
  intro L K _ hfresh
  obtain ⟨_, _, _, _, _, hisFresh⟩ := hfresh.single
  rw [he, Expr.isFresh, hres] at hisFresh
  cases hisFresh

theorem subqueryDone (he : v.exprs.expr id = .subquery q) (hq : q.depth.isSome = true) :
    (expr id).Resolved env v v' := by
  intro L K _ hfresh
  obtain ⟨_, _, _, _, _, hisFresh⟩ := hfresh.single
  rw [he] at hisFresh
  rw [(Select.isFresh_iff.mp hisFresh).2.2.2] at hq
  cases hq

theorem actsNil : (acts id e []).Resolved env v v := by
  intro L n f P hS hslots _ _
  exact ⟨L, .refl _ _, hS, hslots.congr fun c _ => ⟨fun h => h.1, fun h => ⟨h, not_mem_nil⟩⟩⟩

theorem rootsNil : (roots []).Resolved env v v := by
  intro L n f P cs hS hslots _
  exact ⟨L, .refl _ _, hS, hslots.congr fun c _ => ⟨fun h => h.1, fun h => ⟨h, not_mem_nil⟩⟩⟩

/-! #### Select lists -/

theorem itemsNil : (items [] []).Resolved env v v := by
  intro L K hS _
  exact ⟨L, .refl _ _, hS, forall_mem_nil _, [], nil_sublist _, .exprsNil⟩

theorem itemsRoot (hstars : ∀ table, ¬IsStar (v.exprs.expr id) table)
    (hb : Binds env (.expr id) v v1)
    (hrest : Binds env (.items ids ids') { v1 with exprs := v1.exprs.finish id } v')
    (ih : (expr id).Resolved env v v1)
    (ih' : (items ids ids').Resolved env { v1 with exprs := v1.exprs.finish id } v') :
    (items (id :: ids) (id :: ids')).Resolved env v v' := by
  intro L K hS hfresh
  obtain ⟨_, _, rfl, hid, hids, hdisjoint⟩ :=
    Fresh.split (show v.exprs.Fresh ([id] ++ ids) K from hfresh)
  have hlt : id < v.exprs.size := hid.uses.lt_size (hid.uses.mem (mem_singleton_self id))
  obtain ⟨L1, hL1, hS1, _, hsub1, hmeans⟩ := ih hS hid
  have hids := hb.keepsFresh hid.uses hdisjoint hids
  have hprogress := hb.progress trivial
  have hevolves := (adjusts_finish hprogress.finished).toEvolves
  have hsize := v1.exprs.size_finish id
  have hexpr := v1.exprs.expr_finish id
  generalize v1.exprs.finish id = a at hrest ih' hevolves hsize hexpr
  have hS2 : { v1 with exprs := a }.Sound L1 :=
    hS1.same rfl (Subset.refl _) hS1.registered (.refl v1)
  obtain ⟨L', hL', hS', hstars', K2', hsub2, hmeans'⟩ :=
    ih' hS2 (hids.congr (hsize.symm.le) fun x _ => hexpr x)
  have hscopes : v1.scopes = v.scopes := hb.scopes
  have hstep := hevolves.trans hrest.evolves
  obtain ⟨K1'', hsub1', hmeans⟩ :=
    hmeans.mono (BindView.registry_extends hrest.countersLe hL'.subset) (.refl _) hstep
  dsimp only at hmeans'
  rw [hscopes] at hmeans'
  refine ⟨L', hL1.trans hL' hb.countersLe.1, hS', forall_mem_cons.mpr ⟨?_, hstars'⟩, K1'' ++ K2',
    (hsub1'.trans hsub1).append hsub2, .exprsCons hmeans hmeans'⟩
  exact fun table hstar => hstars table
    (hstar.of_evolves ((hprogress.toEvolves.trans hstep).kind id hlt))

theorem itemsStar {table : Option String} {scope : Scope} {outer : ScopeStack}
    {tables : List ScopeTable} (hscope : v.scopes = scope :: outer)
    (htables : starTables scope table = .ok tables) (hrest : Binds env (.items ids ids')
      { v with exprs := v.exprs.pushAll (starNodes scope.depth tables) } v')
    (ih : (items ids ids').Resolved env
      { v with exprs := v.exprs.pushAll (starNodes scope.depth tables) } v') :
    (items (id :: ids)
      (range' v.exprs.size (starNodes scope.depth tables).length ++ ids')).Resolved env v v' := by
  intro L K hS hfresh
  obtain ⟨_, _, rfl, _, hids, _⟩ :=
    Fresh.split (show v.exprs.Fresh ([id] ++ ids) K from hfresh)
  have happends := v.exprs.appends_starNodes scope.depth tables
  have hnode : ∀ x ∈ range' v.exprs.size (starNodes scope.depth tables).length,
      ∃ c, Resolves v.scopes.tables c ∧
        (v.exprs.pushAll (starNodes scope.depth tables)).node x = c.node := by
    intro x hx
    rw [mem_range'_1, ← size_pushAll] at hx
    obtain ⟨_, ht, c, hc, hnode⟩ := node_pushAll_starNodes hx.1 hx.2
    have hlevel := hS.leveled
    rw [hscope] at hlevel ⊢
    exact ⟨c, resolves_of_starTables hlevel htables ht hc, hnode⟩
  generalize v.exprs.pushAll (starNodes scope.depth tables) = a at hrest ih happends hnode
  have hS1 : { v with exprs := a }.Sound L :=
    hS.same rfl (Subset.refl _) hS.registered (.refl v)
  obtain ⟨L', hL, hS', hstars, K', hsub, hmeans⟩ :=
    ih hS1 (hids.congr happends.size_le fun x hx => happends.expr (hids.uses.lt_size hx))
  have hevolves := hrest.evolves
  have hcolumn : ∀ x ∈ range' v.exprs.size (starNodes scope.depth tables).length,
      ∃ c : ResolvedColumn, v'.exprs.expr x = .column c.ref ∧
        Means env v'.exprs (v'.registry L') v.scopes.tables v.scopes.entries (.expr x) [] := by
    intro x hx
    obtain ⟨c, hc, hnode⟩ := hnode x hx
    have he : a.expr x = .column c.ref := by
      rw [Arena.expr, hnode]
      rfl
    have hres := hS.isResolved hc
    refine ⟨c, hevolves.column he hres, .column (hevolves.column he hres) hres ?_ hc⟩
    rw [hevolves.depth he hres, hnode]
    rfl
  refine ⟨L', hL, hS', forall_mem_append.mpr ⟨fun x hx star hstar => ?_, hstars⟩, K',
    hsub.trans (sublist_append_right _ _), ?_⟩
  · obtain ⟨_, he, _⟩ := hcolumn x hx
    rw [he] at hstar
    cases hstar
  · exact .append (.exprs_of_forall fun x hx => (hcolumn x hx).choose_spec.2) hmeans

end BindTask.Resolved

end SqlAnalysis
