import SqlAnalysis.Proofs.Binding.NamedParts
import SqlAnalysis.Proofs.Binding.Resolution

/-!
# The tables that references stand for

Every table that a scope shows is shown for a table reference, and every resolved column is a column
of such a table.  The references are those of the statement as the whole binding leaves it, so that
an argument about one part of the binding need not say what the later parts do.

* **`Binds.ledgered`**: a binding that ends in the ledger shows and resolves only what is in it.
-/

namespace SqlAnalysis

open Text List Arena

variable {S outer : ScopeStack} {c : ResolvedColumn} {name : String} {columns : List DerivedColumn}
  {a a' : Arena} {id : ExprId} {ids : List ExprId} {v v' : BindView} {given : List Alias}
  {depth : Nat} {scope : Scope} {known : Alias} {parts : List NamedPart} {task : BindTask}

variable {env : Accessor}

/-! ### Lookup -/

theorem ScopeStack.mem_of_search {look : Scope → Except Diagnostic (Option ResolvedColumn)}
    (hlook : ∀ {s c}, look s = .ok (some c) → ∃ t ∈ s.tables, c ∈ t.columns s.depth)
    (h : search look S = .ok (some c)) :
    ∃ scope ∈ S, ∃ t ∈ scope.tables, c ∈ t.columns scope.depth := by
  induction S with
  | nil => cases h
  | cons scope outer ih =>
    rw [search] at h
    split at h
    · cases h
    · rename_i hc
      cases h
      exact ⟨scope, mem_cons_self, hlook hc⟩
    · obtain ⟨s, hs, hc⟩ := ih h
      exact ⟨s, mem_cons_of_mem _ hs, hc⟩

theorem mem_of_resolveColumn {ref : ColumnRef} (h : resolveColumn S ref = .ok c) :
    ∃ scope ∈ S, ∃ t ∈ scope.tables, c ∈ t.columns scope.depth := by
  unfold resolveColumn at h
  split at h
  · obtain ⟨found, hfound, h⟩ := except_bind.mp h
    split at h
    · cases h
      exact ScopeStack.mem_of_search Scope.mem_of_unqualified hfound
    · cases h
  · obtain ⟨_, hfound, h⟩ := except_bind.mp h
    split at h
    · cases h
      exact ScopeStack.mem_of_search Scope.mem_of_qualified hfound
    · cases h

theorem Scope.mem_entries_sibling {s : Scope} {e : String × List DerivedColumn}
    (h : e ∈ s.sibling.entries) : e ∈ s.entries :=
  mem_append.mpr (Keyed.mem_foldl_insert h)

/-! ### Names and types of output columns -/

def Arena.columnsOf (a : Arena) (ids : List ExprId) : List DerivedColumn :=
  ids.map fun id => ⟨(a.node id).knownAs.getD { name := "" }, a.typeOf id⟩

def Arena.Aliased (a : Arena) (ids : List ExprId) : Prop :=
  ∀ id ∈ ids, ∃ name serial, (a.node id).knownAs = some ⟨name, some serial⟩

theorem Arena.outputName_of_knownAs {k : Alias} (h : (a.node id).knownAs = some k) :
    a.outputName id = k.name := by
  rw [outputName, h]

theorem Arena.typeOf_nameOutput (a : Arena) (id : ExprId) (serial : Nat) (x : ExprId) :
    (a.nameOutput id serial).typeOf x = a.typeOf x := by
  simp [nameOutput]

theorem NamesDerived.knownAs_eq (h : NamesDerived ids v columns v') {x : ExprId} {serial : Nat}
    (hx : (v.exprs.node x).knownAs = some ⟨name, some serial⟩) :
    (v'.exprs.node x).knownAs = some ⟨name, some serial⟩ := by
  induction h with
  | nil => exact hx
  | @cons id ids columns s next v v' htakes _ ih =>
    refine ih ?_
    rw [node_update]
    split
    · rename_i hid
      obtain ⟨rfl, _⟩ := hid
      rw [hx] at htakes
      rw [outputName_of_knownAs hx, Takes.eq_of_some htakes]
    · exact hx

theorem NamesDerived.typeOf_eq (h : NamesDerived ids v columns v') (x : ExprId) :
    v'.exprs.typeOf x = v.exprs.typeOf x := by
  induction h with
  | nil => rfl
  | cons _ _ ih => exact ih.trans (typeOf_nameOutput _ _ _ x)

theorem NamesDerived.columns_eq (h : NamesDerived ids v columns v')
    (hids : ∀ id ∈ ids, id < v.exprs.size) :
    columns = v'.exprs.columnsOf ids ∧ v'.exprs.Aliased ids := by
  induction h with
  | nil => exact ⟨rfl, forall_mem_nil _⟩
  | @cons id _ _ serial _ v v' _ hrest ih =>
    obtain ⟨hid, hids⟩ := forall_mem_cons.mp hids
    obtain ⟨ih, halias⟩ := ih fun x hx => by
      rw [size_update]
      exact hids x hx
    have hknown : (v'.exprs.node id).knownAs = some ⟨v.exprs.outputName id, some serial⟩ := by
      refine hrest.knownAs_eq ?_
      rw [node_update_self _ hid]
    have htype : v'.exprs.typeOf id = v.exprs.typeOf id :=
      (hrest.typeOf_eq id).trans (typeOf_nameOutput _ _ _ id)
    refine ⟨?_, forall_mem_cons.mpr ⟨⟨_, _, hknown⟩, halias⟩⟩
    rw [ih, columnsOf, columnsOf, map_cons, hknown, htype]
    rfl

theorem Arena.typeOf_nameColumn (a : Arena) (id : ExprId) (k : Alias) (x : ExprId) :
    (a.nameColumn id k).typeOf x = a.typeOf x := by
  simp [nameColumn]

theorem NamesEntry.typeOf_eq (h : NamesEntry ids given v columns v') (x : ExprId) :
    v'.exprs.typeOf x = v.exprs.typeOf x := by
  induction h with
  | nil => rfl
  | cons _ _ _ ih => exact ih.trans (typeOf_nameColumn _ _ _ x)

theorem NamesEntry.types_eq (h : NamesEntry ids given v columns v') :
    columns.map (·.type) = ids.map v'.exprs.typeOf := by
  induction h with
  | nil => rfl
  | cons _ _ hrest ih => rw [map_cons, map_cons, ih, hrest.typeOf_eq]

/-! ### Ledgers -/

/-- What a statement consists of in the end. -/
structure Ledger where
  /-- The table references and WITH entries of the statement and of its subqueries. -/
  part : NamedPart → Prop
  /-- The stores on the way to the last one. -/
  moment : Arena → Prop

namespace Ledger

/-- The columns are those of a WITH entry of the statement: they have its serials, and the types that
its select list had at some moment. -/
def Entry (L : Ledger) (name : String) (columns : List DerivedColumn) : Prop :=
  ∃ ids a, L.part (.entry name (columns.map (·.knownAs.serial)) ids) ∧ L.moment a ∧
    columns.map (·.type) = ids.map a.typeOf

/-- What a table reference stands for: a table of the catalog, a WITH entry of the statement, or a
select list with the aliases and types that it had at some moment. -/
inductive Shows (env : Accessor) (L : Ledger) : NamedPart → TableSource → Prop where
  | table {base : BaseTable} {table : Oid × Schema} :
    env.requireTable base.name = .ok table →
    Shows env L (.table base) (.regular env.databaseId table.1 table.2)
  | entry {base : BaseTable} {columns : List DerivedColumn} :
    base.name.schema = none → L.Entry base.name.name columns →
    Shows env L (.table base) (.derived columns)
  | derived {ids : List ExprId} {knownAs : Alias} {a : Arena} :
    L.moment a → a.Aliased ids → Shows env L (.derived ids knownAs) (.derived (a.columnsOf ids))

def Table (env : Accessor) (L : Ledger) (t : ScopeTable) : Prop :=
  ∃ p, L.part p ∧ p.alias? = some t.knownAs ∧ L.Shows env p t.source

/-- The node is a column of a table that is shown for a table reference of the statement. -/
def Column (env : Accessor) (L : Ledger) (n : ExprNode) : Prop :=
  ∃ t depth, L.Table env t ∧ ∃ c ∈ t.columns depth, n.kind = .column c.ref ∧ n.type = c.type

def Columns (env : Accessor) (L : Ledger) (a : Arena) : Prop :=
  ∀ x ref, a.expr x = .column ref → ref.isResolved = true → L.Column env (a.node x)

/-- The scopes show only what is in the ledger. -/
structure Scopes (env : Accessor) (L : Ledger) (S : ScopeStack) : Prop where
  tables : ∀ scope ∈ S, ∀ t ∈ scope.tables, L.Table env t
  entries : ∀ scope ∈ S, ∀ e ∈ scope.entries, L.Entry e.1 e.2

/-- What a part of the binding makes is there in the end. -/
structure Anchors (L : Ledger) (parts : List NamedPart) (a : Arena) : Prop where
  made : ∀ p ∈ parts, L.part p
  bound : ∀ p, a.BoundPart p → L.part p
  moment : L.moment a

/-- The stores before a step are stores on the way if the store after it is. -/
structure Closed (env : Accessor) (L : Ledger) : Prop where
  binds : ∀ {task v v'}, Binds env task v v' → task.Ready v.exprs → task.Plain →
    L.Anchors task.made v'.exprs → L.moment v.exprs
  finish : ∀ {a id}, a.Grounded id → L.moment (a.finish id) → L.moment a
  query : ∀ {a id q t}, L.moment ((a.setQuery id q).markSubquery id t) → L.moment a
  derived : ∀ {ids columns v v'}, NamesDerived ids v columns v' → L.moment v'.exprs → L.moment v.exprs
  entry : ∀ {ids given columns v v'}, NamesEntry ids given v columns v' →
    (∃ name serials, L.part (.entry name serials ids)) → L.moment v'.exprs → L.moment v.exprs
  copy : ∀ {a a'}, a.Appends a' → L.moment a' → L.moment a

variable {L : Ledger}

/-! ### Columns -/

section

variable (h : L.Columns env a)

include h

theorem Columns.congr (heq : ∀ x ref, a'.expr x = .column ref → ref.isResolved = true →
      (a'.node x).kind = (a.node x).kind ∧ (a'.node x).type = (a.node x).type) :
    L.Columns env a' := by
  intro x ref hx hres
  obtain ⟨hkind, htype⟩ := heq x ref hx hres
  obtain ⟨t, depth, ht, c, hc, hk, hty⟩ := h x ref (hkind.symm.trans hx) hres
  exact ⟨t, depth, ht, c, hc, hkind.trans hk, htype.trans hty⟩

theorem Columns.update {f : ExprNode → ExprNode}
    (hf : (f (a.node id)).kind.column? = none) : L.Columns env (a.update id f) := by
  refine h.congr fun x ref hx _ => ?_
  rw [expr, node_update] at hx
  rw [node_update]
  split at hx
  · rename_i hid
    rw [hid.1] at hx
    rw [hx] at hf
    cases hf
  · rename_i hid
    rw [if_neg hid]
    exact ⟨rfl, rfl⟩

theorem Columns.of_eq (hexpr : ∀ x, a'.expr x = a.expr x)
    (htype : ∀ x, a'.typeOf x = a.typeOf x) : L.Columns env a' :=
  h.congr fun x _ _ _ => ⟨hexpr x, htype x⟩

theorem Columns.setQuery (id : ExprId) (q : Select) :
    L.Columns env (a.setQuery id q) := by
  by_cases hs : (a.expr id).isSubquery = true
  · refine h.update ?_
    rw [if_pos (show (a.node id).kind.isSubquery = true from hs)]
    rfl
  · rwa [setQuery_of_not_isSubquery q (Bool.not_eq_true _ ▸ hs)]

theorem Columns.resolve {t : ScopeTable} (ht : L.Table env t)
    (hc : c ∈ t.columns depth) : L.Columns env (a.resolve id c) := by
  intro x ref hx hres
  rw [Arena.resolve, Arena.expr, Arena.node_update] at hx
  rw [Arena.resolve, Arena.node_update]
  split at hx
  · rename_i hid
    rw [if_pos hid]
    exact ⟨t, depth, ht, c, hc, rfl, rfl⟩
  · rename_i hid
    rw [if_neg hid]
    exact h x ref hx hres

theorem Columns.pushAll {tables : List ScopeTable}
    (htables : ∀ t ∈ tables, L.Table env t) : L.Columns env (a.pushAll (starNodes depth tables)) := by
  intro x ref hx hres
  by_cases hlt : x < a.size
  · rw [expr, node_pushAll_of_lt _ hlt] at hx
    rw [node_pushAll_of_lt _ hlt]
    exact h x ref hx hres
  · by_cases hlt' : x < (a.pushAll (starNodes depth tables)).size
    · obtain ⟨t, ht, c, hc, hnode⟩ := node_pushAll_starNodes (Nat.le_of_not_lt hlt) hlt'
      rw [hnode]
      exact ⟨t, depth, htables t ht, c, hc, rfl, rfl⟩
    · rw [expr_of_size_le (Nat.le_of_not_lt hlt')] at hx
      cases hx

theorem Columns.work {e : Expr} (hl : LocalChange id e a a')
    (hlt : id < a.size) (he : KindEvolves a e (a.expr id)) (hcolumn : e.column? = none) :
    L.Columns env a' := by
  have hstep := (hl.adjusts hlt he).kind id hlt
  have hnone : (a'.expr id).column? = none := by
    have h1 := hstep.isSome_column?
    rw [he.isSome_column?, hcolumn] at h1
    exact Option.isNone_iff_eq_none.mp (by simpa using h1)
  refine h.congr fun x ref hx _ => ?_
  have hne : x ≠ id := by
    rintro rfl
    rw [hx] at hnone
    cases hnone
  have hnode : a'.node x = a.node x := by
    cases hl with
    | type | call | cast => exact node_update_of_ne _ hne
    | constant => exact (node_update_of_ne _ hne).trans (node_update_of_ne _ hne)
  rw [hnode]
  exact ⟨rfl, rfl⟩

end

/-! ### Scopes -/

theorem Scopes.open_ (h : L.Scopes env S) : L.Scopes env S.open_ :=
  ⟨forall_mem_cons.mpr ⟨forall_mem_nil _, h.tables⟩,
    forall_mem_cons.mpr ⟨forall_mem_nil _, h.entries⟩⟩

theorem Scopes.tail (h : L.Scopes env S) : L.Scopes env S.tail :=
  ⟨fun scope hs => h.tables scope (mem_of_mem_tail hs),
    fun scope hs => h.entries scope (mem_of_mem_tail hs)⟩

theorem Scopes.sibling (h : L.Scopes env (scope :: outer)) :
    L.Scopes env (scope.sibling :: outer) :=
  ⟨forall_mem_cons.mpr ⟨forall_mem_nil _,
      fun s hs => h.tables s (mem_cons_of_mem _ hs)⟩,
    forall_mem_cons.mpr
      ⟨fun e he => h.entries scope mem_cons_self e (Scope.mem_entries_sibling he),
        fun s hs => h.entries s (mem_cons_of_mem _ hs)⟩⟩

theorem Scopes.return_ (h : L.Scopes env (scope :: outer)) (hS : L.Scopes env S) :
    L.Scopes env (scope :: S.tail) :=
  ⟨forall_mem_cons.mpr ⟨h.tables scope mem_cons_self, hS.tail.tables⟩,
    forall_mem_cons.mpr ⟨h.entries scope mem_cons_self, hS.tail.entries⟩⟩

theorem Scopes.aliases {given : Alias} (h : L.Scopes env v.scopes) (hv : Aliases given v known v') :
    L.Scopes env v'.scopes := by
  cases hv with
  | intro heq _ =>
    rw [heq] at h
    exact ⟨forall_mem_cons.mpr (forall_mem_cons.mp h.tables),
      forall_mem_cons.mpr (forall_mem_cons.mp h.entries)⟩

theorem Scopes.addTable {source : TableSource} (h : L.Scopes env v.scopes)
    (hv : Rescopes (·.addTable known source) v v') (ht : L.Table env ⟨known, source⟩) :
    L.Scopes env v'.scopes := by
  cases hv with
  | intro heq hadd =>
    rw [heq] at h
    obtain ⟨htables, houter⟩ := forall_mem_cons.mp h.tables
    rw [Scope.addTable_ok hadd]
    exact ⟨forall_mem_cons.mpr
      ⟨forall_mem_append.mpr ⟨htables, forall_mem_singleton.mpr ht⟩, houter⟩,
      forall_mem_cons.mpr (forall_mem_cons.mp h.entries)⟩

theorem Scopes.addCte (h : L.Scopes env v.scopes) (hv : Rescopes (·.addCte name columns) v v')
    (he : L.Entry name columns) : L.Scopes env v'.scopes := by
  cases hv with
  | @intro scope scope' _ heq hadd =>
    rw [heq] at h
    obtain ⟨hentries, houter⟩ := forall_mem_cons.mp h.entries
    have hscope : scope' = { scope with ctes := scope.ctes.insert name columns } := by
      dsimp only [Scope.addCte] at hadd
      split at hadd
      · cases hadd
      · exact (Except.ok.inj hadd).symm
    rw [hscope]
    refine ⟨forall_mem_cons.mpr (forall_mem_cons.mp h.tables),
      forall_mem_cons.mpr ⟨fun e hmem => ?_, houter⟩⟩
    rcases mem_append.mp hmem with hmem | hmem
    · rcases Keyed.mem_insert hmem with hmem | rfl
      · exact hentries e (mem_append_left _ hmem)
      · exact he
    · exact hentries e (mem_append_right _ hmem)

/-! ### Anchors -/

theorem Anchors.congr {parts' : List NamedPart} (h : L.Anchors parts a)
    (hparts : ∀ p ∈ parts', L.part p) : L.Anchors parts' a :=
  ⟨hparts, h.bound, h.moment⟩

theorem Anchors.before (hL : L.Closed env) (hbinds : Binds env task v v')
    (hready : task.Ready v.exprs) (hplain : task.Plain) (h : L.Anchors task.made v'.exprs)
    (hparts : ∀ p ∈ parts, L.part p) : L.Anchors parts v.exprs :=
  ⟨hparts, fun p hp => h.bound p ((hbinds.evolves hready).boundPart hp),
    hL.binds hbinds hready hplain h⟩

end Ledger

/-! ### Whole bindings -/

/-- What a binding shows and resolves is in the ledger. -/
structure BindView.Ledgered (env : Accessor) (L : Ledger) (v : BindView) : Prop where
  columns : L.Columns env v.exprs
  scopes : L.Scopes env v.scopes

section

variable {L : Ledger}

theorem Ledger.Anchors.of_finish (hL : L.Closed env) (hground : a.Grounded id)
    (h : L.Anchors [] (a.finish id)) : L.Anchors [] a :=
  ⟨h.made, fun p hp => h.bound p ((adjusts_finish hground).boundPart_iff.mpr hp),
    hL.finish hground h.moment⟩

theorem BindView.Ledgered.finish (h : v.Ledgered env L) (id : ExprId) :
    BindView.Ledgered env L { v with exprs := v.exprs.finish id } := by
  constructor
  · dsimp only
    exact h.columns.of_eq (v.exprs.expr_finish id) (v.exprs.typeOf_finish id)
  · exact h.scopes

theorem Binds.ledgered (hL : L.Closed env) (h : Binds env task v v') (hready : task.Ready v.exprs)
    (hplain : task.Plain) (hv : v.Ledgered env L) (hanchors : L.Anchors task.made v'.exprs) :
    v'.Ledgered env L := by
  induction h with
  | columnFresh _ _ _ hc =>
    obtain ⟨scope, hscope, t, ht, hc⟩ := mem_of_resolveColumn hc
    exact ⟨hv.columns.resolve (hv.scopes.tables scope hscope t ht) hc, hv.scopes⟩
  | @subqueryDone id q t v _ he _ =>
    refine ⟨hv.columns.update ?_, hv.scopes⟩
    rw [show (v.exprs.node id).kind = _ from he]
    rfl
  | @subqueryFresh id _ q' t v v1 _ he _ hquery ih =>
    have hmark := adjusts_markSubquery (v1.exprs.setQuery id q') id t
    have hhollow := hquery.hollow trivial trivial (v.exprs.hollow_setQuery id)
    have hv1 := ih trivial trivial ⟨hv.columns.setQuery id {}, hv.scopes⟩
      ⟨fun p hp => hanchors.bound p (hmark.boundPart_iff.mpr
          ⟨id, q', hquery.expr_setQuery he, hquery.isSome_depth, hp⟩),
        fun p hp => hanchors.bound p (hmark.boundPart_iff.mpr (hp.setQuery hhollow q')),
        hL.query hanchors.moment⟩
    refine ⟨(hv1.columns.setQuery id q').update ?_, hv1.scopes⟩
    rw [show ((v1.exprs.setQuery id q').node id).kind = _ from hquery.expr_setQuery he]
    rfl
  | node hlt hcolumn hsub _ _ ih => exact ih ⟨hlt, .refl _⟩ ⟨hcolumn, hsub⟩ hv hanchors
  | actsLocal hl _ ih =>
    have hstep := hl.adjusts hready.1 hready.2
    exact ih (hready.reshape hstep.toReshapes _) hplain
      ⟨hv.columns.work hl hready.1 hready.2 hplain.1, hv.scopes⟩ hanchors
  | @actsVisit _ _ _ visited _ v1 _ _ hvisit hrest ihc ih =>
    have hready := hready.reshape hvisit.reshapes visited
    have hfirst : L.Anchors [] v1.exprs :=
      .before hL hrest hready hplain hanchors (forall_mem_nil _)
    exact ih hready hplain (ihc trivial trivial hv hfirst) hanchors
  | @rootsCons id _ v v1 v' hroot hrest ih ih' | @itemsRoot id _ _ v v1 v' _ hroot hrest ih ih' =>
    have hfinish : L.Anchors [] (BindView.exprs { v1 with exprs := v1.exprs.finish id }) :=
      .before hL hrest trivial trivial hanchors (forall_mem_nil _)
    have hfirst := hfinish.of_finish hL hroot.progress.finished
    exact ih' trivial trivial ((ih trivial trivial hv hfirst).finish _) hanchors
  | @itemsStar _ _ _ _ scope _ tables _ _ _ hscope htables _ ih =>
    have hvisible : ∀ t ∈ tables, L.Table env t := fun t ht =>
      hv.scopes.tables scope (by rw [hscope]; exact mem_cons_self) t
        (mem_of_starTables htables t ht)
    exact ih trivial trivial ⟨hv.columns.pushAll hvisible, hv.scopes⟩ hanchors
  | @table _ _ _ _ _ _ halias hnamed hscope =>
    have hscopes := hv.scopes.aliases halias
    refine ⟨?_, hscopes.addTable hscope ⟨_, hanchors.made _ mem_cons_self, rfl, ?_⟩⟩
    · rw [hscope.exprs_eq, halias.exprs_eq]
      exact hv.columns
    · cases hnamed with
      | entry hschema hfound =>
        obtain ⟨scope, hmem, hentry⟩ := ScopeStack.mem_of_cte? hfound
        exact .entry hschema (hscopes.entries scope hmem _ hentry)
      | table _ hrequire => exact .table hrequire
  | @derived _ q' _ _ _ _ _ _ v3 _ halias hquery hnames hscope ih =>
    have hstore := hscope.exprs_eq
    have hmade : ∀ p ∈ q'.named, L.part p := fun p hp => hanchors.made p (mem_cons_of_mem _ hp)
    have hmoment : L.moment v3.exprs := by
      rw [← hstore]
      exact hanchors.moment
    have hv2 := ih trivial trivial ⟨by rw [halias.exprs_eq]; exact hv.columns, hv.scopes.aliases halias⟩
      ⟨hmade, fun p hp => hanchors.bound p (by rw [hstore]; exact hnames.adjusts.boundPart_iff.mpr hp),
        hL.derived hnames hmoment⟩
    have hitems := hquery.starless_query
    obtain ⟨hcolumns, haliased⟩ := hnames.columns_eq fun id hid => (hitems id hid).1
    refine ⟨?_, Ledger.Scopes.addTable (by rw [hnames.scopes_eq]; exact hv2.scopes) hscope
      ⟨_, hanchors.made _ mem_cons_self, rfl, ?_⟩⟩
    · rw [hstore]
      exact hv2.columns.of_eq hnames.expr_eq hnames.typeOf_eq
    · rw [hcolumns]
      exact .derived hmoment haliased
  | @join _ left left' right right' condition _ v1 v2 v3 _ hr hc ihl ihr ihc =>
    obtain ⟨hleft, hright⟩ := forall_mem_append.mp hanchors.made
    have hc3 : L.Anchors (BindTask.roots condition.toList).made v3.exprs :=
      hanchors.congr (forall_mem_nil _)
    have hr2 : L.Anchors (BindTask.source right right').made v2.exprs :=
      .before hL hc trivial trivial hc3 hright
    have hl1 : L.Anchors (BindTask.source left left').made v1.exprs :=
      .before hL hr trivial trivial hr2 hleft
    exact ihc trivial trivial (ihr trivial trivial (ihl trivial trivial hv hl1) hr2) hc3
  | list _ ih | fromSome _ ih => exact ih trivial trivial hv hanchors
  | @sourcesCons _ _ rest rest' _ _ v' _ hrest ih ih' =>
    obtain ⟨hitem, hitems⟩ := forall_mem_append.mp hanchors.made
    have hrest' : L.Anchors (BindTask.sources rest rest').made v'.exprs := hanchors.congr hitems
    exact ih' trivial trivial
      (ih trivial trivial hv (.before hL hrest trivial trivial hrest' hitem)) hrest'
  | @entryPlain c q' _ _ _ v2 _ _ _ _ hnames hscope ih =>
    have hstore := hscope.exprs_eq
    obtain ⟨hentry, hmade⟩ := forall_mem_cons.mp (BindTask.made_entry c _ ▸ hanchors.made)
    have hmoment : L.moment v2.exprs := by
      rw [← hstore]
      exact hanchors.moment
    have hv1 := ih trivial trivial hv
      ⟨hmade, fun p hp => hanchors.bound p (by rw [hstore]; exact hnames.adjusts.boundPart_iff.mpr hp),
        hL.entry hnames ⟨_, _, hentry⟩ hmoment⟩
    refine ⟨?_, Ledger.Scopes.addCte (by rw [hnames.scopes_eq]; exact hv1.scopes) hscope ?_⟩
    · rw [hstore]
      exact hv1.columns.of_eq hnames.expr_eq hnames.typeOf_eq
    · refine ⟨q'.items, v2.exprs, ?_, hmoment, hnames.types_eq⟩
      rw [NamedPart.ofEntry, map_map] at hentry
      exact hentry
  | @entryInductive c base q' columns _ v1 v2 v3 v4 _ hbase _ hnames hscope hquery ih ih' =>
    have hstore := hscope.exprs_eq
    obtain ⟨hentry, hmade⟩ := forall_mem_cons.mp (BindTask.made_entry c _ ▸ hanchors.made)
    have hreshape : Reshapes v1.exprs v3.exprs := by
      rw [hstore]
      exact hnames.adjusts.toReshapes
    have hitems : q'.items = base.items := hquery.queryItems_eq (hbase.starless_query.reshape hreshape)
    have hsecond : L.Anchors (BindTask.query { base with union := c.query.union } q').made v4.exprs :=
      hanchors.congr hmade
    -- what the first binding makes of the base case is left as it is by the second one
    have hkept : ∀ p ∈ base.named, L.part p := fun p hp => hmade p (hbase.keepsBase hreshape hquery hp)
    have hthird : L.Anchors base.named v3.exprs := .before hL hquery trivial trivial hsecond hkept
    rw [hstore] at hthird
    rw [NamedPart.ofEntry, map_map] at hentry
    have hentry : L.part (.entry (lowercase c.name) (columns.map (·.knownAs.serial)) base.items) := by
      rw [← hitems]
      exact hentry
    have hv1 := ih trivial trivial hv
      ⟨hkept, fun p hp => hthird.bound p (hnames.adjusts.boundPart_iff.mpr hp),
        hL.entry hnames ⟨_, _, hentry⟩ hthird.moment⟩
    refine ih' trivial trivial ⟨?_, ?_⟩ hsecond
    · rw [hstore]
      exact hv1.columns.of_eq hnames.expr_eq hnames.typeOf_eq
    · refine Ledger.Scopes.addCte (by rw [hnames.scopes_eq]; exact hv1.scopes) hscope ?_
      exact ⟨base.items, v2.exprs, hentry, hthird.moment, hnames.types_eq⟩
  | @entriesCons c c' cs cs' _ _ v' _ hrest ih ih' =>
    obtain ⟨hentry, hentries⟩ := forall_mem_append.mp (BindTask.made_entries c c' cs cs' ▸ hanchors.made)
    have hrest' : L.Anchors (BindTask.entries cs cs').made v'.exprs := hanchors.congr hentries
    exact ih' trivial trivial
      (ih trivial trivial hv (.before hL hrest trivial trivial hrest' hentry)) hrest'
  | @unionSome _ _ _ scope outer _ _ hscope _ ih =>
    have hscopes : L.Scopes env (scope :: outer) := by
      rw [← hscope]
      exact hv.scopes
    have hv1 := ih trivial trivial ⟨hv.columns, hscopes.sibling⟩ hanchors
    exact ⟨hv1.columns, hscopes.return_ hv1.scopes⟩
  | @branch q depth ctes source items union ordering v v1 v2 v3 v4 v5 v6 he hf hr hi hu _ ho _ ihe ihf
      ihr ihi ihu iho =>
    obtain ⟨hhead, hunion⟩ := forall_mem_append.mp (BindTask.made_branch q _ depth ▸ hanchors.made)
    obtain ⟨hentries, hfrom⟩ := forall_mem_append.mp hhead
    have hnone : ∀ p ∈ ([] : List NamedPart), L.part p := forall_mem_nil _
    -- from the last clause back to the first
    have ho6 : L.Anchors (BindTask.roots ((ordering.getD []).map (·.expr))).made v6.exprs :=
      hanchors.congr hnone
    have hu5 : L.Anchors (BindTask.union q.union union depth).made v5.exprs :=
      .before hL ho trivial trivial ho6 hunion
    have hi4 : L.Anchors (BindTask.items q.items items).made v4.exprs :=
      .before hL hu trivial trivial hu5 hnone
    have hr3 : L.Anchors (BindTask.roots (q.filter.toList ++ (q.grouping.map (·.exprs)).getD [])).made
        v3.exprs := .before hL hi trivial trivial hi4 hnone
    have hf2 : L.Anchors (BindTask.from_ q.source source).made v2.exprs :=
      .before hL hr trivial trivial hr3 hfrom
    have he1 : L.Anchors (BindTask.entries q.ctes ctes).made v1.exprs :=
      .before hL hf trivial trivial hf2 hentries
    have hv3 := ihr trivial trivial (ihf trivial trivial (ihe trivial trivial hv he1) hf2) hr3
    exact iho trivial trivial (ihu trivial trivial (ihi trivial trivial hv3 hi4) hu5) ho6
  | query _ ih =>
    have hv1 := ih trivial trivial ⟨hv.columns, hv.scopes.open_⟩ hanchors
    exact ⟨hv1.columns, hv1.scopes.tail⟩
  | _ => exact hv

end

end SqlAnalysis
