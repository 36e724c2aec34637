import SqlAnalysis.Proofs.Binding.Serials

/-!
# Named parts of bound statements

A binding settles the table references and WITH entries of what it binds: a second binding, whatever
the scopes are by then, leaves them as they are.

* **`Binds.done`**: this holds of all that a binding makes, and all in the subqueries that it binds.
* **`Binds.keepsParts`**: what is done before a binding is found in what it makes.
-/

namespace SqlAnalysis

open Text List Arena BindTask NamedPart Select

variable {a a' : Arena} {id : ExprId} {v v' : BindView} {ids ids' : List ExprId} {q q' : Select}
  {p : NamedPart} {task : BindTask}

variable {env : Accessor}

/-! ### Select lists -/

def Arena.Starless (a : Arena) (ids : List ExprId) : Prop :=
  ∀ id ∈ ids, id < a.size ∧ ∀ table, ¬IsStar (a.expr id) table

theorem KindEvolves.not_isStar {e e' : Expr} (h : KindEvolves a e e') {table : Option String}
    (hstar : IsStar e' table) : IsStar e table := by
  cases hstar <;> cases h <;> constructor

namespace Arena.Starless

theorem reshape (h : a.Starless ids) (ha : Reshapes a a') : a'.Starless ids := fun id hid =>
  ⟨(h id hid).1.trans_le ha.size_le, fun table hstar =>
    (h id hid).2 table ((ha.kind id (h id hid).1).not_isStar hstar)⟩

end Arena.Starless

theorem Binds.lt_size (h : Binds env (.expr id) v v') : id < v.exprs.size := by
  cases h <;> assumption

theorem Binds.items_of_starless (h : Binds env (.items ids ids') v v') (hids : v.exprs.Starless ids) :
    ids' = ids := by
  induction ids generalizing v ids' with
  | nil =>
    cases h
    rfl
  | cons id ids ih =>
    obtain ⟨⟨_, hid⟩, hids⟩ := forall_mem_cons.mp hids
    cases h with
    | itemsStar hstar => exact absurd hstar (hid _)
    | @itemsRoot _ _ _ _ v1 _ _ hroot hrest =>
      have hids : v.exprs.Starless ids := hids
      have hfinish : (v1.exprs.finish id).Starless ids :=
        hids.reshape hroot.progress.finish.toReshapes
      have ih := ih hrest
      rw [ih hfinish]

theorem Binds.starless_items (h : Binds env (.items ids ids') v v') : v'.exprs.Starless ids' := by
  induction ids generalizing v ids' with
  | nil =>
    cases h
    exact forall_mem_nil _
  | cons id _ ih =>
    cases h with
    | @itemsStar _ _ _ _ scope _ tables _ _ _ _ _ hrest =>
      refine forall_mem_append.mpr ⟨?_, ih hrest⟩
      have hnew : (v.exprs.pushAll (starNodes scope.depth tables)).Starless
          (range' v.exprs.size (starNodes scope.depth tables).length) := by
        intro x hx
        rw [mem_range'_1, ← size_pushAll] at hx
        obtain ⟨_, _, c, _, hnode⟩ := node_pushAll_starNodes hx.1 hx.2
        refine ⟨hx.2, fun table hstar => ?_⟩
        rw [Arena.expr, hnode] at hstar
        cases hstar
      exact hnew.reshape hrest.reshapes
    | @itemsRoot _ _ _ _ v1 _ hstar hroot hrest =>
      have hbound := hroot.progress.finish
      have hid : (v1.exprs.finish id).Starless [id] := by
        refine forall_mem_singleton.mpr ⟨(hbound.finished id mem_cons_self id (.here _)).1.lt_size,
          fun table h => ?_⟩
        exact hstar table ((hbound.kind id hroot.lt_size).not_isStar h)
      have hlater := hrest.reshapes
      exact forall_mem_cons.mpr ⟨hid.reshape hlater id (mem_singleton_self _), ih hrest⟩

theorem Binds.queryItems_eq (h : Binds env (.query q q') v v') (hq : v.exprs.Starless q.items) :
    q'.items = q.items := by
  cases h with
  | query hbranch =>
    cases hbranch with
    | branch he hf hr hi _ _ _ =>
      have hq := ((hq.reshape he.reshapes).reshape
        hf.reshapes).reshape hr.reshapes
      exact hi.items_of_starless hq

theorem Binds.starless_query (h : Binds env (.query q q') v v') : v'.exprs.Starless q'.items := by
  cases h with
  | query hbranch =>
    cases hbranch with
    | branch _ _ _ hi hu _ ho =>
      exact (hi.starless_items.reshape hu.reshapes).reshape
        ho.reshapes

/-! ### Parts that are done -/

def NamedPart.Done (a : Arena) : NamedPart → Prop
  | .table base => base.name.normalize = base.name ∧ base.knownAs.Settled
  | .derived ids knownAs => knownAs.Settled ∧ a.Starless ids
  | .entry name serials ids =>
    lowercase name = name ∧ serials.length = ids.length ∧ (∀ serial ∈ serials, ∃ n, serial = some n) ∧
      a.Starless ids

theorem NamedPart.Done.reshape (h : p.Done a) (ha : Reshapes a a') : p.Done a' := by
  cases p with
  | table => exact h
  | derived => exact ⟨h.1, h.2.reshape ha⟩
  | entry => exact ⟨h.1, h.2.1, h.2.2.1, h.2.2.2.reshape ha⟩

theorem Aliases.settled {given known : Alias} (h : Aliases given v known v') : known.Settled := by
  cases h
  exact ⟨lowercase_lowercase _, rfl⟩

def Arena.BoundPart (a : Arena) (p : NamedPart) : Prop :=
  ∃ id q, a.expr id = .subquery q ∧ q.depth.isSome = true ∧ p ∈ q.named

theorem Evolves.boundPart (h : Evolves a a') (hp : a.BoundPart p) : a'.BoundPart p := by
  obtain ⟨id, q, he, hq, hp⟩ := hp
  exact ⟨id, q, h.bound he hq, hq, hp⟩

theorem Adjusts.boundPart_iff (h : Adjusts a a') : a'.BoundPart p ↔ a.BoundPart p := by
  refine ⟨?_, h.toEvolves.boundPart⟩
  rintro ⟨id, q, he, hq, hp⟩
  exact ⟨id, q, h.bound_of he hq, hq, hp⟩

theorem Arena.BoundPart.of_setQuery (h : (a.setQuery id q).BoundPart p) :
    a.BoundPart p ∨ q.depth.isSome = true ∧ p ∈ q.named := by
  obtain ⟨x, q0, hx, hd, hp⟩ := h
  by_cases hne : x = id
  · subst hne
    by_cases hs : (a.expr x).isSubquery = true
    · rw [expr_setQuery_self q hs] at hx
      cases hx
      exact .inr ⟨hd, hp⟩
    · rw [setQuery_of_not_isSubquery q (Bool.not_eq_true _ ▸ hs)] at hx
      exact .inl ⟨x, q0, hx, hd, hp⟩
  · rw [expr_setQuery_of_ne _ hne] at hx
    exact .inl ⟨x, q0, hx, hd, hp⟩

/-! ### What a binding makes -/

/-- The named parts of what is bound. -/
def BindTask.given (task : BindTask) : List NamedPart := task.gatherIn probe

/-- The named parts of what it becomes. -/
def BindTask.made (task : BindTask) : List NamedPart := task.gatherOut probe

theorem Select.named_eq (q : Select) :
    q.named = Cte.gatherAll probe q.ctes ++ TableRef.gatherOpt probe q.source ++
      gatherOpt probe q.union := by
  rw [named, gather_eq]
  rfl

theorem NamedPart.gather_cons (c : Cte) (cs : List Cte) :
    Cte.gatherAll probe (c :: cs) =
      .ofEntry c :: (c.query.named ++ Cte.gatherAll probe cs) := by
  rw [Cte.gatherAll_cons]
  rfl

@[simp] theorem BindTask.made_entry (c c' : Cte) :
    (entry c c').made = .ofEntry c' :: c'.query.named := by
  rw [made, gatherOut, gather_cons, Cte.gatherAll, append_nil]

@[simp] theorem BindTask.given_entry (c c' : Cte) :
    (entry c c').given = .ofEntry c :: c.query.named := by
  rw [given, gatherIn, gather_cons, Cte.gatherAll, append_nil]

@[simp] theorem BindTask.made_entries (c c' : Cte) (cs cs' : List Cte) :
    (entries (c :: cs) (c' :: cs')).made =
      (entry c c').made ++ (entries cs cs').made := by
  rw [made_entry, made, gatherOut, gather_cons]
  rfl

@[simp] theorem BindTask.given_entries (c c' : Cte) (cs cs' : List Cte) :
    (entries (c :: cs) (c' :: cs')).given =
      (entry c c').given ++ (entries cs cs').given := by
  rw [given_entry, given, gatherIn, gather_cons]
  rfl

@[simp] theorem BindTask.made_branch (q q' : Select) (depth : Nat) :
    (branch q depth q').made = (entries q.ctes q'.ctes).made ++
      (from_ q.source q'.source).made ++ (union q.union q'.union depth).made :=
  q'.named_eq

@[simp] theorem BindTask.given_branch (q q' : Select) (depth : Nat) :
    (branch q depth q').given = (entries q.ctes q'.ctes).given ++
      (from_ q.source q'.source).given ++ (union q.union q'.union depth).given :=
  q.named_eq

/-- What holds of named parts when they are made and lasts while a statement is bound. -/
structure PartRule (env : Accessor) (P : NamedPart → Arena → Prop) : Prop where
  steps : StoreSteps env fun a a' => ∀ p, P p a → P p a'
  setQuery : ∀ {p a} (id : ExprId) (q : Select), P p a → P p (a.setQuery id q)
  mark : ∀ {p a} (id : ExprId) (t : SqlType), P p a → P p (a.markSubquery id t)
  copy : ∀ {p a a'}, a.Appends a' → P p a → P p a'
  table : ∀ {given known : Alias} {v v' : BindView} (name : ObjectName), Aliases given v known v' →
    P (.table { name := name.normalize, knownAs := known }) v'.exprs
  derived : ∀ {given known q q' columns v v1 v2 v3}, Aliases given v known v1 →
    Binds env (.query q q') v1 v2 → NamesDerived q'.items v2 columns v3 →
    P (.derived q'.items known) v3.exprs
  entry : ∀ {q q' given columns v v1 v2} (name : String), Binds env (.query q q') v v1 →
    NamesEntry q'.items given v1 columns v2 →
    P (.entry (lowercase name) (columns.map (·.knownAs.serial)) q'.items) v2.exprs

namespace PartRule

variable {P : NamedPart → Arena → Prop}

theorem keep (hP : PartRule env P) (h : Binds env task v v') (hready : task.Ready v.exprs)
    (hplain : task.Plain) (hp : P p v.exprs) : P p v'.exprs :=
  h.follows hP.steps hready hplain p hp

/-- **What the rule says holds of all named parts that a binding makes.** -/
theorem made (hP : PartRule env P) (h : Binds env task v v') : ∀ p ∈ task.made, P p v'.exprs := by
  induction h with
  | @table base _ _ _ _ _ halias _ hscope =>
    rw [hscope.exprs_eq]
    exact forall_mem_singleton.mpr (hP.table base.name halias)
  | @derived _ _ _ _ _ _ _ _ _ _ halias hquery hnames hscope ih =>
    rw [hscope.exprs_eq]
    exact forall_mem_cons.mpr ⟨hP.derived halias hquery hnames,
      fun p hp => hP.steps.namesDerived hnames p (ih p hp)⟩
  | join _ hr hc ihl ihr =>
    exact forall_mem_append.mpr
      ⟨fun p hp => hP.keep hc trivial trivial (hP.keep hr trivial trivial (ihl p hp)),
        fun p hp => hP.keep hc trivial trivial (ihr p hp)⟩
  | list _ ih | fromSome _ ih | unionSome _ _ ih | query _ ih => exact ih
  | sourcesCons _ hrest ih ih' =>
    exact forall_mem_append.mpr ⟨fun p hp => hP.keep hrest trivial trivial (ih p hp), ih'⟩
  | @entryPlain c _ _ _ _ _ _ _ hquery _ hnames hscope ih =>
    rw [made_entry, hscope.exprs_eq]
    refine forall_mem_cons.mpr ⟨?_, fun p hp => hP.steps.namesEntry hnames p (ih p hp)⟩
    rw [ofEntry, map_map]
    exact hP.entry c.name hquery hnames
  | @entryInductive c base _ columns _ _ _ v3 _ _ hbase _ hnames hscope hquery _ ih' =>
    have hstarless : v3.exprs.Starless base.items := by
      rw [hscope.exprs_eq]
      exact hbase.starless_query.reshape hnames.adjusts.toReshapes
    have hentry : P (.entry (lowercase c.name) (columns.map (·.knownAs.serial)) base.items) v3.exprs := by
      rw [hscope.exprs_eq]
      exact hP.entry c.name hbase hnames
    rw [made_entry]
    refine forall_mem_cons.mpr ⟨?_, ih'⟩
    rw [ofEntry, map_map, hquery.queryItems_eq hstarless]
    exact hP.keep hquery trivial trivial hentry
  | @entriesCons _ _ _ _ _ _ _ _ hrest ih ih' =>
    rw [made_entries]
    exact forall_mem_append.mpr ⟨fun p hp => hP.keep hrest trivial trivial (ih p hp), ih'⟩
  | branch _ hf hr hi hu _ ho _ ihe ihf _ _ ihu =>
    have hlast : ∀ p, P p _ → P p _ := fun p hp => hP.keep ho trivial trivial hp
    have hclauses : ∀ p, P p _ → P p _ := fun p hp => hlast p (hP.keep hu trivial trivial
      (hP.keep hi trivial trivial (hP.keep hr trivial trivial hp)))
    rw [made_branch]
    exact forall_mem_append.mpr ⟨forall_mem_append.mpr
      ⟨fun p hp => hclauses p (hP.keep hf trivial trivial (ihe p hp)), fun p hp => hclauses p (ihf p hp)⟩,
      fun p hp => hlast p (ihu p hp)⟩
  | _ => exact forall_mem_nil _

end PartRule

theorem Binds.length_made (h : Binds env task v v') : task.made.length = task.given.length := by
  induction h with
  | derived _ _ _ _ ih => exact congrArg (· + 1) ih
  | join _ _ _ ihl ihr =>
    simp only [made, given, gatherOut, gatherIn, TableRef.gather,
      length_append] at ihl ihr ⊢
    omega
  | list _ ih | fromSome _ ih | unionSome _ _ ih | query _ ih => exact ih
  | sourcesCons _ _ ih ih' =>
    simp only [made, given, gatherOut, gatherIn, TableRef.gatherAll,
      length_append] at ih ih' ⊢
    omega
  | entryPlain _ _ _ _ _ ih =>
    rw [made_entry, given_entry]
    exact congrArg (· + 1) ih
  | @entryInductive c base q' columns v v1 v2 v3 v4 hind hbase hlen hnames hscope hquery ih ih' =>
    have hunion : base.union = none := by
      have h := hbase.isSome_union
      cases hb : base.union with
      | none => rfl
      | some => rw [hb] at h; cases h
    have hout : q'.named.length = (named { base with union := c.query.union }).length := ih'
    have hin : base.named.length = (named { c.query with union := none }).length := ih
    simp only [named_eq { base with union := c.query.union }, named_eq base,
      named_eq { c.query with union := none }, hunion, gatherOpt, length_append,
      length_nil] at hout hin
    rw [made_entry, given_entry, length_cons, length_cons, hout,
      named_eq c.query, length_append, length_append]
    omega
  | entriesCons _ _ ih ih' =>
    rw [made_entries, given_entries, length_append, length_append, ih, ih']
  | branch _ _ _ _ _ _ _ _ ihe ihf _ _ ihu =>
    rw [made_branch, given_branch]
    simp only [length_append]
    omega
  | _ => rfl

/-! ### Subqueries -/

/-- **What the rule says holds of the named parts of bound subqueries, if it did before.** -/
theorem PartRule.bound {P : NamedPart → Arena → Prop} (hP : PartRule env P) {task : BindTask}
    {v v' : BindView} (h : Binds env task v v') (hready : task.Ready v.exprs) (hplain : task.Plain)
    (hbefore : ∀ p, v.exprs.BoundPart p → P p v.exprs) : ∀ p, v'.exprs.BoundPart p → P p v'.exprs := by
  -- a step that keeps all queries keeps all bound parts
  have hkeep : ∀ {a a'}, (∀ p, P p a → P p a') → (∀ x, (a'.expr x).subquery? = (a.expr x).subquery?) →
      (∀ p, a.BoundPart p → P p a) → ∀ p, a'.BoundPart p → P p a' := by
    rintro a a' hstep hqueries ha p ⟨x, q, hx, hd, hp⟩
    refine hstep p (ha p ⟨x, q, ?_, hd, hp⟩)
    have hq := hqueries x
    rw [hx] at hq
    exact query?_eq_some.mp hq.symm
  have hsteps : StoreSteps env fun a a' =>
      (∀ p, a.BoundPart p → P p a) → ∀ p, a'.BoundPart p → P p a' := {
    refl := fun _ ha => ha
    trans := fun h h' ha => h' (h ha)
    resolve := fun c he hres => hkeep (hP.steps.resolve c he hres) (subquery?_resolve c he)
    mark := fun t he hq => hkeep (hP.steps.mark t he hq) fun x => by simp
    query := fun {id q q' v v1} t he hq hquery ih hbefore p hp => by
      have hmark := adjusts_markSubquery (v1.exprs.setQuery id q') id t
      refine hP.mark id t (hP.setQuery id q' ?_)
      rcases (hmark.boundPart_iff.mp hp).of_setQuery with hp | ⟨_, hp⟩
      · refine ih (fun p hp => ?_) p hp
        rcases hp.of_setQuery with hp | ⟨hd, _⟩
        · exact hP.setQuery id {} (hbefore p hp)
        · cases hd
      · exact hP.made hquery p hp
    work := fun hlt he hcolumn hsub hl => hkeep (hP.steps.work hlt he hcolumn hsub hl) (hl.subquery?_eq he)
    finish := fun h => hkeep (hP.steps.finish h) fun x => by simp
    star := fun a depth tables => hkeep (hP.steps.star a depth tables) (a.subquery?_pushAll depth tables)
    nameOutput := fun h => hkeep (hP.steps.nameOutput h) fun x => by simp
    nameColumn := fun a id name n => hkeep (hP.steps.nameColumn a id name n) fun x => by simp }
  exact h.follows hsteps hready hplain hbefore

theorem partRule_done (env : Accessor) : PartRule env fun p a => p.Done a where
  steps := by
    refine .of_adjusts (fun h h' p hp => h' p (h p hp)) (fun h _ p hp => hp.reshape h.toReshapes) ?_
    intro id q q' v v1 t _ _ _ ih p hp
    have hinner := ih p (hp.reshape (Reshapes.of_setQuery v.exprs id {}))
    exact (hinner.reshape (Reshapes.of_setQuery v1.exprs id q')).reshape
      (adjusts_markSubquery _ id t).toReshapes
  setQuery id q hp := hp.reshape (Reshapes.of_setQuery _ id q)
  mark id t hp := hp.reshape (adjusts_markSubquery _ id t).toReshapes
  copy happends hp := hp.reshape (Adjusts.of_appends happends).toReshapes
  table name halias := ⟨ObjectName.normalize_normalize _, halias.settled⟩
  derived halias hquery hnames :=
    ⟨halias.settled, hquery.starless_query.reshape hnames.adjusts.toReshapes⟩
  entry name hquery hnames :=
    ⟨lowercase_lowercase _, by simp [hnames.length_eq], hnames.serials_some,
      hquery.starless_query.reshape hnames.adjusts.toReshapes⟩

/-- **All named parts that a binding makes are done.** -/
theorem Binds.done_made (h : Binds env task v v') : ∀ p ∈ task.made, p.Done v'.exprs :=
  (partRule_done env).made h

/-- The query at a node has no named parts. -/
def Arena.Hollow (a : Arena) (id : ExprId) : Prop := ∀ q, a.expr id = .subquery q → q.named = []

theorem Binds.hollow (h : Binds env task v v') (hready : task.Ready v.exprs) (hplain : task.Plain)
    (hid : v.exprs.Hollow id) : v'.exprs.Hollow id := by
  have hsteps : StoreSteps env fun a a' => a.Hollow id → a'.Hollow id := by
    refine .of_adjusts (fun h h' ha => h' (h ha)) (fun {a a'} _ hquery ha q hq => ?_) ?_
    · refine ha q (query?_eq_some.mp ?_)
      rw [query?, ← hquery, hq]
      rfl
    · intro j q q' v v1 t he hq hquery ih hhollow q0 hq0
      rw [expr_markSubquery] at hq0
      by_cases hne : id = j
      · subst hne
        by_cases hs : (v1.exprs.expr id).isSubquery = true
        · rw [expr_setQuery_self q' hs] at hq0
          cases hq0
          have hlength : q'.named.length = q.named.length := hquery.length_made
          rw [hhollow q he, length_nil] at hlength
          exact length_eq_zero_iff.mp hlength
        · rw [setQuery_of_not_isSubquery q' (Bool.not_eq_true _ ▸ hs)] at hq0
          rw [hq0] at hs
          exact absurd rfl hs
      · rw [expr_setQuery_of_ne _ hne] at hq0
        refine ih (fun q hq => ?_) q0 hq0
        rw [expr_setQuery_of_ne _ hne] at hq
        exact hhollow q hq
  exact h.follows hsteps hready hplain hid

theorem Arena.hollow_setQuery (a : Arena) (id : ExprId) : (a.setQuery id {}).Hollow id := by
  intro q hq
  by_cases hs : (a.expr id).isSubquery = true
  · rw [expr_setQuery_self {} hs] at hq
    cases hq
    rfl
  · rw [setQuery_of_not_isSubquery {} (Bool.not_eq_true _ ▸ hs)] at hq
    rw [hq] at hs
    exact absurd rfl hs

theorem Arena.BoundPart.setQuery (hid : a.Hollow id) (hp : a.BoundPart p) (q : Select) :
    (a.setQuery id q).BoundPart p := by
  obtain ⟨x, q0, hx, hd, hp⟩ := hp
  have hne : x ≠ id := by
    rintro rfl
    rw [hid q0 hx] at hp
    cases hp
  exact ⟨x, q0, by rwa [expr_setQuery_of_ne _ hne], hd, hp⟩

/-! ### Binding again -/

theorem Binds.keepsParts (h : Binds env task v v') (hp : p ∈ task.given) (hdone : p.Done v.exprs) :
    p ∈ task.made := by
  induction h with
  | @table base _ _ _ _ _ halias =>
    obtain rfl := mem_singleton.mp hp
    have hname : base.name.normalize = base.name := hdone.1
    rw [hname, halias.eq_of_settled hdone.2]
    exact hp
  | @derived _ _ _ _ _ _ v1 _ _ _ halias hquery _ _ ih =>
    have hdone1 : p.Done v1.exprs := by rwa [halias.exprs_eq]
    rcases mem_cons.mp hp with rfl | hp
    · rw [← hquery.queryItems_eq hdone1.2, ← halias.eq_of_settled hdone.1]
      exact mem_cons_self
    · exact mem_cons_of_mem _ (ih hp hdone1)
  | join hfirst _ _ ih ih' | sourcesCons hfirst _ ih ih' =>
    rcases mem_append.mp hp with hp | hp
    · exact mem_append_left _ (ih hp hdone)
    · exact mem_append_right _ (ih' hp (hdone.reshape hfirst.reshapes))
  | list _ ih | fromSome _ ih | unionSome _ _ ih | query _ ih => exact ih hp hdone
  | @entryPlain c q' _ _ _ _ _ _ hquery _ hnames _ ih =>
    rw [given_entry] at hp
    rw [made_entry]
    rcases mem_cons.mp hp with rfl | hp
    · obtain ⟨hname, hlength, hserials, hitems⟩ := hdone
      have hitems : q'.items = c.query.items := hquery.queryItems_eq hitems
      rw [length_map, ← hitems] at hlength
      refine mem_cons.mpr (.inl ?_)
      simp only [ofEntry, hname, hitems, map_map]
      exact congrArg (entry _ · _) (hnames.serials_eq hlength hserials).symm
    · exact mem_cons_of_mem _ (ih hp hdone)
  | @entryInductive c base q' _ v v1 _ v3 _ _ hbase _ hnames hscope hquery ih ih' =>
    rw [given_entry] at hp
    rw [made_entry]
    have hstore : Reshapes v1.exprs v3.exprs := by
      rw [hscope.exprs_eq]
      exact hnames.adjusts.toReshapes
    have hlater : Reshapes v.exprs v3.exprs := hbase.reshapes.trans hstore
    rcases mem_cons.mp hp with rfl | hp
    · obtain ⟨hname, hlength, hserials, hitems⟩ := hdone
      have hbaseItems : base.items = c.query.items := hbase.queryItems_eq hitems
      have hstarless : v3.exprs.Starless base.items := hbase.starless_query.reshape hstore
      have hitems : q'.items = c.query.items := (hquery.queryItems_eq hstarless).trans hbaseItems
      rw [length_map, ← hbaseItems] at hlength
      refine mem_cons.mpr (.inl ?_)
      simp only [ofEntry, hname, hitems, map_map]
      exact congrArg (entry _ · _) (hnames.serials_eq hlength hserials).symm
    · refine mem_cons_of_mem _ (ih' ?_ (hdone.reshape hlater))
      rw [named_eq] at hp
      show p ∈ named { base with union := c.query.union }
      rw [named_eq]
      rcases mem_append.mp hp with hp | hp
      · -- a part of the base case is in what the first binding has made of it
        have hgiven : p ∈ named { c.query with union := none } := by
          rw [named_eq]
          exact mem_append_left _ hp
        have hmade : p ∈ base.named := ih hgiven hdone
        have hunion : base.union = none := by
          have h := hbase.isSome_union
          cases hb : base.union with
          | none => rfl
          | some => rw [hb] at h; cases h
        rw [named_eq, hunion, gatherOpt, append_nil] at hmade
        exact mem_append_left _ hmade
      · exact mem_append_right _ hp
  | entriesCons hfirst _ ih ih' =>
    rw [given_entries] at hp
    rw [made_entries]
    rcases mem_append.mp hp with hp | hp
    · exact mem_append_left _ (ih hp hdone)
    · exact mem_append_right _ (ih' hp (hdone.reshape hfirst.reshapes))
  | branch he hf hr hi _ _ _ _ ihe ihf _ _ ihu =>
    rw [given_branch] at hp
    rw [made_branch]
    have hdone1 := hdone.reshape he.reshapes
    have hdone4 := ((hdone1.reshape hf.reshapes).reshape
      hr.reshapes).reshape hi.reshapes
    rcases mem_append.mp hp with hp | hp
    · rcases mem_append.mp hp with hp | hp
      · exact mem_append_left _ (mem_append_left _ (ihe hp hdone))
      · exact mem_append_left _ (mem_append_right _ (ihf hp hdone1))
    · exact mem_append_right _ (ihu hp hdone4)
  | _ => cases hp

theorem Binds.keepsBase {c : Cte} {base : Select} {v1 v2 : BindView}
    (hbase : Binds env (.query { c.query with union := none } base) v v1)
    (hstore : Reshapes v1.exprs v2.exprs)
    (hquery : Binds env (.query { base with union := c.query.union } q') v2 v') :
    base.named ⊆ q'.named := by
  intro p hp
  have hunion : base.union = none := by
    have h := hbase.isSome_union
    cases hb : base.union with
    | none => rfl
    | some => rw [hb] at h; cases h
  refine hquery.keepsParts ?_ ((hbase.done_made p hp).reshape hstore)
  rw [named_eq, hunion, gatherOpt, append_nil] at hp
  show p ∈ named { base with union := c.query.union }
  rw [named_eq]
  exact mem_append_left _ hp

end SqlAnalysis
