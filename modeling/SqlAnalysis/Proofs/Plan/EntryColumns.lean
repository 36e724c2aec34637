import SqlAnalysis.Proofs.Plan.DerivedTables

/-!
# Columns of WITH entries

A WITH entry may be written with fewer names than its query has columns, and with stars in its select
list.  Binding completes the names, and a plan pairs them with the select lists.

* **`Binds.completes`**: all entries that a binding makes are completed.
* **`entries_shaped`**: no name and no column of a WITH entry is lost from statement to plan.
-/

namespace SqlAnalysis

open Text List Arena BindTask Cte Select

variable {cs cs' : List Cte} {q q' : Select} {v v' : BindView}

def entryProbe : Probe Cte := { entry := fun c => [c] }

/-- The WITH entries of a query and of the queries nested in it. -/
def Select.entries (q : Select) : List Cte := q.gather entryProbe

/-- An entry has a name with a number for each item of its select list, and the branches of its query
have equally many items. -/
structure Cte.Shaped (c : Cte) : Prop where
  columns : c.columns.length = c.query.items.length
  numbered : ∀ k ∈ c.columns, k.serial.isSome = true
  branches : ∀ r ∈ c.query.union, r.items.length = c.query.items.length

/-- What binding makes of an entry. -/
structure Cte.Completed (c c' : Cte) : Prop where
  name : c'.name = lowercase c.name
  recursive : c'.recursive = c.recursive
  /-- No name that is written is dropped. -/
  written : c.columns.length ≤ c'.columns.length
  shaped : c'.Shaped

theorem Cte.Completed.trans {c c' c'' : Cte} (h : c.Completed c') (h' : c'.Completed c'') :
    c.Completed c'' :=
  ⟨by rw [h'.name, h.name, lowercase_lowercase], h'.recursive.trans h.recursive,
    h.written.trans h'.written, h'.shaped⟩

def CompletedAll : List Cte → List Cte → Prop := Forall₂ Completed

theorem CompletedAll.trans_append {rest cs'' : List Cte} (h : CompletedAll cs cs')
    (h' : CompletedAll (cs' ++ rest) cs'') : CompletedAll (cs ++ rest) cs'' := by
  induction h generalizing cs'' with
  | nil => exact h'
  | cons hc _ ih =>
    cases h' with
    | cons hc' h' => exact .cons (hc.trans hc') (ih h')

theorem Select.entries_eq (q : Select) :
    q.entries = gatherAll entryProbe q.ctes ++ TableRef.gatherOpt entryProbe q.source ++
      gatherOpt entryProbe q.union := by
  rw [entries, gather_eq]
  rfl

theorem Cte.entries_cons (c : Cte) (cs : List Cte) : gatherAll entryProbe (c :: cs) =
    c :: (c.query.entries ++ gatherAll entryProbe cs) := by
  rw [gatherAll_cons]
  rfl

variable {env : Accessor}

theorem Binds.branches (h : Binds env (.query q q') v v') :
    ∀ r ∈ q'.union, r.items.length = q'.items.length := by
  intro r hr
  refine h.even r ?_
  rw [further_eq, hr]
  exact mem_cons_self

theorem NamesEntry.shaped {ids : List ExprId} {given : List Alias} {columns : List DerivedColumn}
    (h : NamesEntry ids given v columns v') (hitems : q.items = ids)
    (hbranches : ∀ r ∈ q.union, r.items.length = q.items.length) (name : String) (recursive : Bool) :
    Shaped ⟨name, columns.map (·.knownAs), q, recursive⟩ := by
  refine ⟨by rw [length_map, h.length_eq, hitems], fun k hk => ?_, hbranches⟩
  obtain ⟨_, hcolumn, rfl⟩ := mem_map.mp hk
  obtain ⟨_, hn⟩ := h.serials_some _ (mem_map_of_mem hcolumn)
  rw [hn]
  rfl

theorem Select.completed_twice {base : Select} (hunion : base.union.isSome = false)
    (h : CompletedAll (entries { q with union := none }) base.entries)
    (h' : CompletedAll (entries { base with union := q.union }) q'.entries) :
    CompletedAll q.entries q'.entries := by
  rw [Option.isSome_eq_false_iff, Option.isNone_iff_eq_none] at hunion
  rw [entries_eq, entries_eq base, hunion] at h
  simp only [gatherOpt, append_nil] at h
  rw [entries_eq] at h'
  rw [entries_eq]
  exact h.trans_append h'

theorem Binds.completes {task : BindTask} (h : Binds env task v v') :
    CompletedAll (task.gatherIn entryProbe) (task.gatherOut entryProbe) := by
  induction h with
  | derived _ _ _ _ ih | list _ ih | fromSome _ ih | unionSome _ _ ih | query _ ih => exact ih
  | join _ _ _ ih ih' | sourcesCons _ _ ih ih' => exact rel_append ih ih'
  | @entryPlain c _ _ _ _ _ _ _ hquery hlen hnames _ ih =>
    have hshaped := hnames.shaped rfl hquery.branches (lowercase c.name) c.recursive
    rw [gatherIn, gatherOut, entries_cons, entries_cons]
    refine .cons ⟨rfl, rfl, ?_, hshaped⟩ (rel_append ih .nil)
    exact hshaped.columns ▸ hlen
  | @entryInductive c base q' _ _ _ _ _ _ _ hbase hlen hnames hscope hquery ih ih' =>
    -- the second binding keeps the select list of the base case, which has no stars any more
    have hitems : q'.items = base.items := by
      refine hquery.queryItems_eq (q := { base with union := c.query.union }) ?_
      rw [hscope.exprs_eq]
      exact hbase.starless_query.reshape hnames.adjusts.toReshapes
    have hshaped := hnames.shaped hitems hquery.branches (lowercase c.name) c.recursive
    rw [gatherIn, gatherOut, entries_cons, entries_cons]
    refine .cons ⟨rfl, rfl, ?_, hshaped⟩ (rel_append ?_ .nil)
    · exact hshaped.columns ▸ hitems ▸ hlen
    · exact completed_twice hbase.isSome_union ih ih'
  | @entriesCons _ _ _ _ _ _ _ _ _ ih ih' =>
    rw [gatherIn, gatherOut, entries_cons, gatherAll, append_nil,
      entries_cons, gatherAll, append_nil] at ih
    rw [gatherIn, gatherOut, entries_cons, entries_cons]
    exact rel_append ih ih'
  | branch _ _ _ _ _ _ _ _ ihe ihf _ _ ihu =>
    rw [BindTask.gatherIn, BindTask.gatherOut, ← Select.entries, ← Select.entries, Select.entries_eq,
      entries_eq]
    exact rel_append (rel_append ihe ihf) ihu
  | _ => exact .nil

/-! ### Subqueries -/

/-- All entries of subqueries that are bound are shaped. -/
def Arena.EntriesShaped (a : Arena) : Prop :=
  ∀ x q, a.expr x = .subquery q → q.depth.isSome = true → ∀ c ∈ q.entries, c.Shaped

/-- The subqueries of a store are as they were, or their entries are completed. -/
def Arena.CompletesEntries (a a' : Arena) : Prop :=
  ∀ x q, a.expr x = .subquery q →
    ∃ q', a'.expr x = .subquery q' ∧ (q' = q ∨ CompletedAll q.entries q'.entries)

theorem CompletedAll.shaped (h : CompletedAll cs cs') : ∀ c ∈ cs', c.Shaped := by
  intro c hc
  obtain ⟨_, _, hcompleted⟩ := Plan.exists_of_forall₂_right h hc
  exact hcompleted.shaped

theorem storeSteps_completes (env : Accessor) : StoreSteps env CompletesEntries := by
  refine .of_adjusts (fun {a a' a''} h h' x q hx => ?_) (fun {a a'} _ hquery x q hx => ?_) ?_
  · obtain ⟨q', hx', hq'⟩ := h x q hx
    obtain ⟨q'', hx'', hq''⟩ := h' x q' hx'
    refine ⟨q'', hx'', ?_⟩
    rcases hq' with rfl | hq'
    · exact hq''
    · rcases hq'' with rfl | hq''
      · exact .inr hq'
      · rw [← append_nil q'.entries] at hq''
        exact .inr (append_nil q.entries ▸ hq'.trans_append hq'')
  · refine ⟨q, query?_eq_some.mp ?_, .inl rfl⟩
    rw [query?, hquery, hx]
    rfl
  · intro id q q' v v1 t he _ hquery ih x q0 hx
    rw [expr_markSubquery]
    by_cases hne : x = id
    · subst hne
      obtain ⟨_, hempty, _⟩ := ih x {} (expr_setQuery_self {} (by rw [he]; rfl))
      cases he.symm.trans hx
      exact ⟨q', expr_setQuery_self q' (by rw [hempty]; rfl), .inr hquery.completes⟩
    · rw [expr_setQuery_of_ne _ hne]
      exact ih x q0 (by rwa [expr_setQuery_of_ne _ hne])

theorem storeSteps_entriesShaped (env : Accessor) :
    StoreSteps env fun a a' => a.EntriesShaped → a'.EntriesShaped := by
  refine .of_adjusts (fun h h' ha => h' (h ha)) (fun {a a'} _ hquery ha x q hx => ?_) ?_
  · refine ha x q (query?_eq_some.mp ?_)
    rw [query?, ← hquery, hx]
    rfl
  · intro id q q' v v1 t he _ hquery ih hshaped x q0 hx hd
    rw [expr_markSubquery] at hx
    by_cases hne : x = id
    · subst hne
      by_cases hs : (v1.exprs.expr x).isSubquery = true
      · cases (expr_setQuery_self q' hs).symm.trans hx
        exact hquery.completes.shaped
      · rw [setQuery_of_not_isSubquery q' (Bool.not_eq_true _ ▸ hs)] at hx
        exact (hs (by rw [hx]; rfl)).elim
    · rw [expr_setQuery_of_ne _ hne] at hx
      refine ih (fun y r hy hr => ?_) x q0 hx hd
      by_cases hy' : y = id
      · subst hy'
        cases (expr_setQuery_self {} (by rw [he]; rfl)).symm.trans hy
        cases hr
      · exact hshaped y r (by rwa [expr_setQuery_of_ne _ hy'] at hy) hr

/-! ### Plans -/

/-- A reference to an entry has as many columns as each of its select lists has items. -/
def CteScan.Even (scan : CteScan) : Prop := ∀ list ∈ scan.expressions, scan.columns.length = list.length

theorem Plan.mem_scans_of_mem_cteScans {p : Plan} {scan : CteScan} (h : scan ∈ p.cteScans) :
    .cte scan ∈ p.scans := by
  obtain ⟨sub, hsub, hscan⟩ := mem_filterMap.mp h
  refine mem_filterMap.mpr ⟨sub, hsub, ?_⟩
  cases sub <;> cases hscan <;> rfl

theorem scanRule_even (bound : Arena) :
    ScanRule bound entryProbe Shaped fun scan => ∀ cte, scan = .cte cte → cte.Even where
  table := nofun
  derived := nofun
  entry := by
    rintro c v s s' hc hv k _ ⟨⟩
    have hshaped : c.Shaped := hc c (mem_singleton_self c)
    obtain ⟨rfl, _⟩ := visibleCte_run hv
    intro list hlist
    have hlength : ((c.columns.zip c.query.items).map fun x : Alias × ExprId =>
        (⟨x.1, s.exprs.typeOf x.2⟩ : DerivedColumn)).length = c.query.items.length := by
      rw [length_map, length_zip, hshaped.columns, Nat.min_self]
    rcases mem_cons.mp hlist with rfl | hlist
    · exact hlength
    · cases hr : c.recursive <;> cases hu : c.query.union <;> simp [hr, hu] at hlist
      rw [hlist]
      exact hlength.trans (hshaped.branches _ hu).symm

/-- **Names, select lists and plans of WITH entries fit together.**  In a SELECT that binds, the entries
of the query become, one by one, entries with a numbered name for each item of the select list, among
them all names that were written; likewise in every subquery that the statement leads to.  In its plan
every reference to an entry has as many columns as each of its select lists has items. -/
theorem entries_shaped {p : Parsed} {parameters : List Value} {b : Bound} {q : Select}
    (hfilled : p.exprs.Filled) (hbefore : p.exprs.EntriesShaped) (hp : p.statement = .select q)
    (hb : (bind env p parameters).result = .ok b) :
    ∃ q', b.statement = .select q' ∧ List.Forall₂ Cte.Completed q.entries q'.entries ∧
      (∀ id ∈ q'.exprs, ∀ x r, b.exprs.Reaches id x → b.exprs.expr x = .subquery r →
        r.depth.isSome = true ∧ ∀ c ∈ r.entries, c.Shaped) ∧
      (∀ x r, p.exprs.expr x = .subquery r → ∃ r', b.exprs.expr x = .subquery r' ∧
        (r' = r ∨ List.Forall₂ Cte.Completed r.entries r'.entries)) ∧
      ∀ env' plan, (lower env' b).result = .ok plan → ∀ scan ∈ plan.cteScans, ∀ list ∈ scan.expressions,
        scan.columns.length = list.length := by
  obtain ⟨q', _, hq', hexprs, hbinds⟩ := bind_select_binds hp hb
  have hshaped : b.exprs.EntriesShaped := by
    rw [hexprs]
    exact hbinds.follows (storeSteps_entriesShaped env) trivial trivial hbefore
  refine ⟨q', hq', hbinds.completes, fun id hid x r hx hr => ?_, ?_, fun _ plan hplan scan hscan => ?_⟩
  · have hdepth : r.depth.isSome = true := by
      have hcomplete := (hbinds.complete trivial hfilled).2
      rw [← hexprs] at hcomplete
      exact hcomplete.of_reaches hid hx hr
    exact ⟨hdepth, hshaped x r hr hdepth⟩
  · rw [hexprs]
    exact hbinds.follows (storeSteps_completes env) trivial trivial
  · obtain ⟨_, hresult, hlowers⟩ := exists_derives hq' hplan
    cases hresult.symm.trans hplan
    have hquery : ∀ {x r}, b.exprs.query? x = some r → r.depth.isSome = true → ∀ c ∈ r.entries, c.Shaped :=
      fun hx hd => hshaped _ _ (query?_eq_some.mp hx) hd
    refine hlowers.readsOnly (scanRule_even b.exprs) hquery (.refl _) hbinds.completes.shaped nofun
      (.cte scan) ?_ scan rfl
    exact Plan.mem_scans_of_mem_cteScans hscan

theorem Arena.entriesShaped_of_isFresh {a : Arena} (h : a.isFresh = true) : a.EntriesShaped := by
  intro x q hx hd
  have hfresh := isFresh_expr h x
  rw [hx] at hfresh
  rw [(isFresh_iff.mp hfresh).2.2.2] at hd
  cases hd

/-- `WITH RECURSIVE c(x) AS (SELECT * FROM t UNION ALL SELECT b, a FROM t) SELECT x FROM c` -/
def starredEntry : Parsed :=
  let table (name : String) : Option TableRef := some (.table { name := { name := name }, knownAs := ⟨name, none⟩ })
  { statement := .select {
      ctes := [{ name := "c", columns := [⟨"x", none⟩], recursive := true, query := {
        items := [0], source := table "t", union := some { items := [1, 2], source := table "t" } } }]
      items := [3]
      source := table "c" }
    exprs := .ofExprs [.star, .column { column := "b" }, .column { column := "a" },
      .column { column := "x" }] }

theorem starredEntry_facts : (starredEntry.exprs.isFresh && isPlannedSelect twoColumns starredEntry) = true := by
  decide +kernel

theorem starredEntry_shaped : ∃ env b q' tree, (bind twoColumns starredEntry []).result = .ok b ∧
    b.statement = .select q' ∧ (∃ c ∈ q'.entries, c.recursive = true ∧ c.Shaped) ∧
    (lower env b).result = .ok tree ∧ ∀ scan ∈ tree.cteScans, ∀ list ∈ scan.expressions,
      scan.columns.length = list.length := by
  obtain ⟨hfresh, hplanned⟩ := Bool.and_eq_true_iff.mp starredEntry_facts
  obtain ⟨b, _, tree, hb, -, htree⟩ := exists_of_isPlannedSelect hplanned
  obtain ⟨q', hq', hentries, -, -, heven⟩ := entries_shaped (filled_of_isFresh hfresh)
    (entriesShaped_of_isFresh hfresh) rfl hb
  refine ⟨_, b, q', tree, hb, hq', ?_, htree, heven _ tree htree⟩
  -- The query has one entry, so it has one when it is bound.
  generalize q'.entries = entries at hentries
  obtain ⟨⟩ | ⟨hcompleted, -⟩ := hentries
  exact ⟨_, mem_cons_self, hcompleted.recursive, hcompleted.shaped⟩

end SqlAnalysis
