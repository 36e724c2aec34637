import SqlAnalysis.Proofs.Binding.Frame

/-!
# Steps of a store while a statement is bound

A binding changes the store in few ways.  What holds of each of them, and of one after the other,
holds of every binding.

* **`Binds.follows`**: every binding is in a relation that all single steps are in.
-/

namespace SqlAnalysis

open Arena

variable {e : Expr} {ids : List ExprId} {columns : List DerivedColumn} {v v' : BindView}

def Arena.markSubquery (a : Arena) (id : ExprId) (t : SqlType) : Arena :=
  a.update id fun n => { n with type := t, hasSubquery := true }

def Arena.resolve (a : Arena) (id : ExprId) (c : ResolvedColumn) : Arena :=
  a.update id fun n => { n with kind := .column c.ref, type := c.type, depth := some c.depth }

def Arena.nameOutput (a : Arena) (id : ExprId) (serial : Nat) : Arena :=
  a.update id fun n => { n with knownAs := some ⟨a.outputName id, some serial⟩ }

@[simp] theorem Arena.expr_markSubquery (a : Arena) (id : ExprId) (t : SqlType) (x : ExprId) :
    (a.markSubquery id t).expr x = a.expr x := by
  simp [markSubquery]

@[simp] theorem Arena.expr_nameOutput (a : Arena) (id : ExprId) (serial : Nat) (x : ExprId) :
    (a.nameOutput id serial).expr x = a.expr x := by
  simp [nameOutput]

theorem Arena.subquery?_resolve {a : Arena} {id : ExprId} {ref : ColumnRef} (c : ResolvedColumn)
    (he : a.expr id = .column ref) (x : ExprId) :
    ((a.resolve id c).expr x).subquery? = (a.expr x).subquery? :=
  field_update (·.kind.subquery?) (congrArg Expr.subquery? he).symm x

/-- The node that is worked on is neither a column nor a subquery. -/
def BindTask.Plain : BindTask → Prop
  | .acts _ e _ => e.column? = none ∧ e.isSubquery = false
  | _ => True

theorem Expr.subquery?_eq_none (h : e.isSubquery = false) : e.subquery? = none := by
  cases e <;> first | rfl | cases h

theorem LocalChange.subquery?_eq {id : ExprId} {a a' : Arena} (h : LocalChange id e a a')
    (he : KindEvolves a e (a.expr id)) (x : ExprId) :
    (a'.expr x).subquery? = (a.expr x).subquery? := by
  cases h with
  | type => simp
  | constant hv =>
    have hnone := Expr.subquery?_eq_none (e := a.expr id) (by rw [he.isSubquery, hv]; rfl)
    rw [expr_setType]
    refine field_update (·.kind.subquery?) ?_ x
    exact hnone.symm
  | call procId' t hcall =>
    have hnone := Expr.subquery?_eq_none (e := a.expr id) (by rw [he.isSubquery, hcall]; rfl)
    refine field_update (·.kind.subquery?) ?_ x
    exact hnone.symm
  | cast =>
    refine field_update (·.kind.subquery?) ?_ x
    dsimp only
    cases (a.node id).kind <;> rfl

theorem Arena.subquery?_pushAll (a : Arena) (depth : Nat) (tables : List ScopeTable) (x : ExprId) :
    ((a.pushAll (starNodes depth tables)).expr x).subquery? = (a.expr x).subquery? := by
  by_cases hlt : x < a.size
  · rw [expr, node_pushAll_of_lt _ hlt, expr]
  · rw [expr_of_size_le (Nat.le_of_not_lt hlt)]
    by_cases hlt' : x < (a.pushAll (starNodes depth tables)).size
    · obtain ⟨_, _, c, _, hnode⟩ := node_pushAll_starNodes (Nat.le_of_not_lt hlt) hlt'
      rw [expr, hnode]
      rfl
    · rw [expr_of_size_le (Nat.le_of_not_lt hlt')]

/-- A relation that leads from the store before a step to the store after it. -/
structure StoreSteps (env : Accessor) (T : Arena → Arena → Prop) : Prop where
  refl : ∀ a, T a a
  trans : ∀ {a a' a''}, T a a' → T a' a'' → T a a''
  resolve : ∀ {a id ref} (c : ResolvedColumn), a.expr id = .column ref → ref.isResolved = false →
    T a (a.resolve id c)
  mark : ∀ {a id q} (t : SqlType), a.expr id = .subquery q → q.depth.isSome = true →
    T a (a.markSubquery id t)
  query : ∀ {id q q'} {v v1 : BindView} (t : SqlType), v.exprs.expr id = .subquery q → q.depth = none →
    Binds env (.query q q') { v with exprs := v.exprs.setQuery id {} } v1 →
    T (v.exprs.setQuery id {}) v1.exprs → T v.exprs ((v1.exprs.setQuery id q').markSubquery id t)
  work : ∀ {id e a a'}, id < a.size → KindEvolves a e (a.expr id) → e.column? = none →
    e.isSubquery = false → LocalChange id e a a' → T a a'
  finish : ∀ {a id}, a.Grounded id → T a (a.finish id)
  star : ∀ (a : Arena) (depth : Nat) (tables : List ScopeTable), T a (a.pushAll (starNodes depth tables))
  nameOutput : ∀ {a id serial}, (∀ n, (a.node id).knownAs.bind (·.serial) = some n → serial = n) →
    T a (a.nameOutput id serial)
  nameColumn : ∀ (a : Arena) (id : ExprId) (name : String) (n : Nat), T a (a.nameColumn id ⟨name, some n⟩)

namespace StoreSteps

variable {env : Accessor} {T : Arena → Arena → Prop}

theorem of_adjusts (trans : ∀ {a a' a''}, T a a' → T a' a'' → T a a'')
    (adjusts : ∀ {a a'}, Adjusts a a' → (∀ x, (a'.expr x).subquery? = (a.expr x).subquery?) → T a a')
    (query : ∀ {id q q'} {v v1 : BindView} (t : SqlType), v.exprs.expr id = .subquery q →
      q.depth = none → Binds env (.query q q') { v with exprs := v.exprs.setQuery id {} } v1 →
      T (v.exprs.setQuery id {}) v1.exprs →
      T v.exprs ((v1.exprs.setQuery id q').markSubquery id t)) : StoreSteps env T where
  refl a := adjusts (.refl a) fun _ => rfl
  trans := trans
  resolve c he hres := adjusts (adjusts_resolve he hres _ _ _) (subquery?_resolve c he)
  mark t _ _ := adjusts (adjusts_markSubquery _ _ t) fun x => by simp
  query := query
  work hlt he _ _ hl := adjusts (hl.adjusts hlt he) (hl.subquery?_eq he)
  finish h := adjusts (adjusts_finish h) fun x => by simp
  star a depth tables := adjusts (.of_appends (a.appends_starNodes depth tables))
    (a.subquery?_pushAll depth tables)
  nameOutput _ := adjusts (adjusts_rename _ _ _) fun x => by simp
  nameColumn a id _ _ := adjusts (a.adjusts_nameColumn id _) fun x => by simp

theorem namesDerived (hT : StoreSteps env T) (h : NamesDerived ids v columns v') :
    T v.exprs v'.exprs := by
  induction h with
  | nil => exact hT.refl _
  | cons htakes _ ih =>
    refine hT.trans (hT.nameOutput fun n hn => ?_) ih
    rw [hn] at htakes
    cases htakes
    rfl

theorem namesEntry (hT : StoreSteps env T) {given : List Alias}
    (h : NamesEntry ids given v columns v') : T v.exprs v'.exprs := by
  induction h with
  | nil => exact hT.refl _
  | cons _ hknown _ ih =>
    subst hknown
    exact hT.trans (hT.nameColumn _ _ _ _) ih

end StoreSteps

theorem Binds.follows {env : Accessor} {T : Arena → Arena → Prop} (hT : StoreSteps env T)
    {task : BindTask} (h : Binds env task v v') (hready : task.Ready v.exprs) (hplain : task.Plain) :
    T v.exprs v'.exprs := by
  induction h with
  | columnFresh _ he hres => exact hT.resolve _ he hres
  | subqueryDone _ he hq => exact hT.mark _ he hq
  | subqueryFresh _ he hq hquery ih => exact hT.query _ he hq hquery (ih trivial trivial)
  | node hlt hcolumn hsub _ _ ih => exact ih ⟨hlt, .refl _⟩ ⟨hcolumn, hsub⟩
  | actsLocal hl _ ih =>
    have hstep := hl.adjusts hready.1 hready.2
    exact hT.trans (hT.work hready.1 hready.2 hplain.1 hplain.2 hl)
      (ih (hready.reshape hstep.toReshapes _) hplain)
  | actsVisit _ hc _ ihc ih =>
    exact hT.trans (ihc trivial trivial)
      (ih (hready.reshape hc.reshapes _) hplain)
  | rootsCons hroot _ ih ih' | itemsRoot _ hroot _ ih ih' =>
    have hfinish := hT.finish hroot.progress.finished
    have ih' := ih' trivial trivial
    dsimp only at ih'
    exact hT.trans (hT.trans (ih trivial trivial) hfinish) ih'
  | itemsStar _ _ _ _ ih =>
    have ih := ih trivial trivial
    exact hT.trans (hT.star _ _ _) ih
  | table halias _ hscope =>
    rw [hscope.exprs_eq, halias.exprs_eq]
    exact hT.refl _
  | derived halias _ hnames hscope ih =>
    rw [halias.exprs_eq] at ih
    rw [hscope.exprs_eq]
    exact hT.trans (ih trivial trivial) (hT.namesDerived hnames)
  | join _ _ _ ihl ihr ihc =>
    exact hT.trans (hT.trans (ihl trivial trivial) (ihr trivial trivial)) (ihc trivial trivial)
  | list _ ih | fromSome _ ih | unionSome _ _ ih | query _ ih => exact ih trivial trivial
  | sourcesCons _ _ ih ih' | entriesCons _ _ ih ih' =>
    exact hT.trans (ih trivial trivial) (ih' trivial trivial)
  | entryPlain _ _ _ hnames hscope ih =>
    rw [hscope.exprs_eq]
    exact hT.trans (ih trivial trivial) (hT.namesEntry hnames)
  | entryInductive _ _ _ hnames hscope _ ih ih' =>
    rw [hscope.exprs_eq] at ih'
    exact hT.trans (hT.trans (ih trivial trivial) (hT.namesEntry hnames)) (ih' trivial trivial)
  | branch _ _ _ _ _ _ _ _ ihe ihf ihr ihi ihu iho =>
    exact hT.trans (hT.trans (hT.trans (hT.trans (hT.trans (ihe trivial trivial) (ihf trivial trivial))
      (ihr trivial trivial)) (ihi trivial trivial)) (ihu trivial trivial)) (iho trivial trivial)
  | _ => exact hT.refl _

/-! ### New nodes -/

/-- All new nodes are columns. -/
def AddsColumns (a a' : Arena) : Prop :=
  ∀ x, a.size ≤ x → x < a'.size → (a'.expr x).column?.isSome = true

namespace AddsColumns

variable {a'' : Arena}

theorem of_size (h : a'.size ≤ a.size) : AddsColumns a a' := fun _ hx hlt =>
  absurd hlt (Nat.not_lt.mpr (h.trans hx))

theorem refl (a : Arena) : AddsColumns a a := of_size le_rfl

theorem trans (h : AddsColumns a a') (h' : AddsColumns a' a'') (hr : Reshapes a' a'') :
    AddsColumns a a'' := by
  intro x hx hlt
  by_cases hx' : x < a'.size
  · rw [(hr.kind x hx').isSome_column?]
    exact h x hx hx'
  · exact h' x (Nat.le_of_not_lt hx') hlt

end AddsColumns

theorem storeSteps_addsColumns (env : Accessor) :
    StoreSteps env fun a a' => Reshapes a a' ∧ AddsColumns a a' where
  refl a := ⟨.refl a, .refl a⟩
  trans h h' := ⟨h.1.trans h'.1, h.2.trans h'.2 h'.1⟩
  resolve _ he hres := ⟨(adjusts_resolve he hres _ _ _).toReshapes, .of_size ((size_update _ _).le)⟩
  mark t _ _ := ⟨(adjusts_markSubquery _ _ t).toReshapes, .of_size ((size_update _ _).le)⟩
  query {id _ q' v v1} t _ _ _ h := by
    have htaken := Reshapes.of_setQuery v.exprs id {}
    have hput := Reshapes.of_setQuery v1.exprs id q'
    have hmark := (adjusts_markSubquery (v1.exprs.setQuery id q') id t).toReshapes
    refine ⟨(htaken.trans h.1).trans (hput.trans hmark), .trans (.trans (.of_size ?_) h.2 h.1)
      (.trans (.of_size ?_) (.of_size ?_) hmark) (hput.trans hmark)⟩
    · rw [size_setQuery]
    · rw [size_setQuery]
    · rw [markSubquery, size_update]
  work hlt he _ _ hl := ⟨(hl.adjusts hlt he).toReshapes, .of_size (hl.size_eq.le)⟩
  finish h := ⟨(adjusts_finish h).toReshapes, .of_size ((size_finish _ _).le)⟩
  star a depth tables := by
    refine ⟨(Adjusts.of_appends (a.appends_starNodes depth tables)).toReshapes, fun x hx hlt => ?_⟩
    obtain ⟨_, _, c, _, hnode⟩ := node_pushAll_starNodes hx hlt
    rw [expr, hnode]
    rfl
  nameOutput _ := ⟨(adjusts_rename _ _ _).toReshapes, .of_size ((size_update _ _).le)⟩
  nameColumn a id _ _ := ⟨(a.adjusts_nameColumn id _).toReshapes,
    .of_size (((differ_deriveName _ _).size.trans (size_update _ _)).le)⟩

/-- **The nodes that a binding adds are columns**, those that stars stand for. -/
theorem Binds.addsColumns {env : Accessor} {task : BindTask} (h : Binds env task v v')
    (hready : task.Ready v.exprs) (hplain : task.Plain) : AddsColumns v.exprs v'.exprs :=
  (h.follows (storeSteps_addsColumns env) hready hplain).2

end SqlAnalysis
