import SqlAnalysis.Proofs.Binding.Clauses
import SqlAnalysis.Proofs.Binding.Registration

/-!
# The scope of a block

A block finds the tables of its FROM clause in a scope that it fills itself: WITH puts definitions into
the scope, and FROM the tables that its references stand for.  A table of the catalog is the same at all
times, but what a WITH entry or a derived table shows is what the select list of its query was when that
query had just been bound.  So the tables are given here along the run, with the states in between.

* **`bindCtes_defines`**: WITH defines its entries, one after the other, in the scope of the block.
* **`bindSource_brings`**: FROM adds the tables of its tree from left to right.
* **`Exposes.numbered`**: their columns have numbers, if those of the catalog have.
* **`bindBranchWith_fills`**: what a block puts into its scope, and what its stars stand for then.
-/

namespace SqlAnalysis

open Text List BindM

variable {env : Accessor} {rec : Recur} {v v' v1 v2 : BindView} {s s' s1 s2 : BindState}
  {scope : Scope} {outer S : ScopeStack} {given known : Alias} {source : TableSource}
  {item item' left left' right right' : TableRef} {columns : List DerivedColumn} {name : String}

/-! ### WITH -/

/-- The definitions of a WITH list, each with the columns that it shows. -/
abbrev Definitions := Keyed String (List DerivedColumn)

/-- What the columns of a WITH entry are read from: its query, or the base case of a recursive one. -/
def Cte.head (c : Cte) : Select := if c.isInductive then { c.query with union := none } else c.query

/-- A WITH list is bound entry by entry.  An entry shows the select list of its query, with the names
and types that the list has in the state in which the query has been bound. -/
inductive Defines (rec : Recur) :
    List Cte → BindState → List Cte → BindState → Definitions → Prop where
  | nil {s : BindState} : Defines rec [] s [] s []
  | cons {c c' : Cte} {cs cs' : List Cte} {s t s1 s' : BindState} {q : Select} {v : BindView}
      {columns : List DerivedColumn} {own : Definitions} :
    bindCte rec c s = .ok c' s1 → rec.query c.head s = .ok q t →
    NamesEntry q.items c.columns t.view columns v → c'.columns = columns.map (·.knownAs) →
    Defines rec cs s1 cs' s' own →
    Defines rec (c :: cs) s (c' :: cs') s' ((c'.name, columns) :: own)

theorem Rescopes.scopes_addCte (h : Rescopes (·.addCte name columns) v v') (hv : v.scopes = scope :: outer) :
    v'.scopes = { scope with ctes := scope.ctes ++ [(name, columns)] } :: outer := by
  cases h with
  | intro heq hadd =>
    cases hv.symm.trans heq
    unfold Scope.addCte at hadd
    split at hadd
    · cases hadd
    · rename_i hnew
      cases hadd
      rw [Keyed.insert_of_not_mem (Keyed.not_mem_keys_of_not_has hnew)]

theorem bindCte_defines (hrec : rec.Derived env) {c c' : Cte} (h : bindCte rec c s = .ok c' s')
    (hs : s.scopes = scope :: outer) :
    ∃ q t v columns, rec.query c.head s = .ok q t ∧ NamesEntry q.items c.columns t.view columns v ∧
      c'.columns = columns.map (·.knownAs) ∧
      s'.scopes = { scope with ctes := scope.ctes ++ [(c'.name, columns)] } :: outer := by
  have hnamed {q t columns} (hquery : rec.query c.head s = .ok q t) {v : BindView}
      (hnames : NamesEntry q.items c.columns t.view columns v) : v.scopes = scope :: outer :=
    hnames.scopes_eq.trans ((hrec.query hquery).scopes.trans hs)
  unfold bindCte at h
  cases hind : c.isInductive with
  | true =>
    have hind' : ({ c with name := lowercase c.name } : Cte).isInductive = true := hind
    simp only [hind', if_true, run_bind, run_pure] at h
    obtain ⟨q, t, hbase, _, _, hdefine, _, _, hquery, rfl, rfl⟩ := h
    obtain ⟨columns, _, _, hnames, hadd, rfl⟩ := defineCte_run hdefine
    have hhead : rec.query c.head s = .ok q t := by
      rw [Cte.head, hind]
      exact hbase
    exact ⟨_, _, _, columns, hhead, hnames, rfl,
      (hrec.query hquery).scopes.trans (hadd.scopes_addCte (hnamed hhead hnames))⟩
  | false =>
    have hind' : ({ c with name := lowercase c.name } : Cte).isInductive = false := hind
    simp only [hind', Bool.false_eq_true, if_false, run_bind] at h
    obtain ⟨q, t, hquery, hdefine⟩ := h
    obtain ⟨columns, _, _, hnames, hadd, rfl⟩ := defineCte_run hdefine
    have hhead : rec.query c.head s = .ok q t := by
      rw [Cte.head, hind]
      exact hquery
    exact ⟨_, _, _, columns, hhead, hnames, rfl, hadd.scopes_addCte (hnamed hhead hnames)⟩

/-- **A WITH list defines its entries in the scope of the block.** -/
theorem bindCtes_defines (hrec : rec.Derived env) {cs cs' : List Cte}
    (h : cs.mapM (bindCte rec) s = .ok cs' s') (hs : s.scopes = scope :: outer) :
    ∃ own, Defines rec cs s cs' s' own ∧
      s'.scopes = { scope with ctes := scope.ctes ++ own } :: outer := by
  replace h := run_mapM h
  induction h generalizing scope with
  | nil => exact ⟨[], .nil, by rw [append_nil, hs]⟩
  | cons hfirst _ ih =>
    obtain ⟨_, _, _, _, hquery, hnames, hcolumns, hs1⟩ := bindCte_defines hrec hfirst hs
    obtain ⟨own, hdefines, hs'⟩ := ih hs1
    rw [append_assoc] at hs'
    exact ⟨_, .cons hfirst hquery hnames hcolumns hdefines, hs'⟩

/-! ### FROM -/

/-- A FROM tree is bound from left to right, with the tables that it puts into the scope.  A name stands
for a WITH entry that is visible then or a table of the catalog, and a derived table for the select list
of its query, with the names and types that the list has in the state in which the query has been
bound. -/
inductive Exposes (env : Accessor) (rec : Recur) :
    TableRef → BindState → TableRef → BindState → List ScopeTable → Prop where
  | table {base base' : BaseTable} {source : TableSource} {s s' : BindState} :
    bindSource env rec (.table base) s = .ok (.table base') s' →
    NamedSource env s.scopes base'.name source →
    Exposes env rec (.table base) s (.table base') s' [⟨base'.knownAs, source⟩]
  | derived {q q' : Select} {given known : Alias} {columns : List DerivedColumn}
      {s s1 s2 s' : BindState} {v : BindView} :
    bindSource env rec (.derived q given) s = .ok (.derived q' known) s' →
    registerAlias given s = .ok known s1 → rec.query q s1 = .ok q' s2 →
    NamesDerived q'.items s2.view columns v →
    Exposes env rec (.derived q given) s (.derived q' known) s' [⟨known, .derived columns⟩]
  | join {kind : JoinKind} {left left' right right' : TableRef} {condition : Option ExprId}
      {s s1 s2 s' : BindState} {F F' : List ScopeTable} :
    Exposes env rec left s left' s1 F → Exposes env rec right s1 right' s2 F' →
    condition.toList.forM (bindPredicate rec "JOIN/ON") s2 = .ok () s' →
    Exposes env rec (.join kind left right condition) s (.join kind left' right' condition) s' (F ++ F')
  | nil {s : BindState} : Exposes env rec (.list []) s (.list []) s []
  | cons {item item' : TableRef} {rest rest' : List TableRef} {s s1 s' : BindState}
      {F F' : List ScopeTable} :
    Exposes env rec item s item' s1 F → Exposes env rec (.list rest) s1 (.list rest') s' F' →
    Exposes env rec (.list (item :: rest)) s (.list (item' :: rest')) s' (F ++ F')

/-- The tables have different names in lower case, and each name is registered. -/
structure Scope.Orderly (scope : Scope) : Prop where
  nodup : (scope.tables.map (·.knownAs.name)).Nodup
  registered : ∀ t ∈ scope.tables, lowercase t.knownAs.name = t.knownAs.name ∧
    ∃ k, scope.aliases.find? t.knownAs.name = some k ∧ k.name = t.knownAs.name

def registerTables (known : Keyed String Alias) (F : List ScopeTable) : Keyed String Alias :=
  F.foldl (fun known t => known.insert t.knownAs.name t.knownAs) known

/-- What becomes of the innermost scope when tables are added: it gets their aliases as well. -/
structure Scope.Gains (scope scope' : Scope) (F : List ScopeTable) : Prop where
  depth : scope'.depth = scope.depth
  tables : scope'.tables = scope.tables ++ F
  aliases : scope'.aliases = registerTables scope.aliases F
  orderly : scope.Orderly → scope'.Orderly

theorem Scope.Gains.refl (scope : Scope) : scope.Gains scope [] :=
  ⟨rfl, (append_nil _).symm, rfl, fun h => h⟩

theorem Scope.Gains.trans {scope' scope'' : Scope} {F F' : List ScopeTable} (h : scope.Gains scope' F)
    (h' : scope'.Gains scope'' F') : scope.Gains scope'' (F ++ F') where
  depth := h'.depth.trans h.depth
  tables := by rw [h'.tables, h.tables, append_assoc]
  aliases := by rw [h'.aliases, h.aliases, registerTables, registerTables, registerTables, foldl_append]
  orderly ho := h'.orderly (h.orderly ho)

theorem Scope.gains_addTable {scope' : Scope} {given : Alias} {serial : Nat}
    (hknown : known = { name := lowercase given.name, serial := some serial })
    (h : (scope.registerAlias known).addTable known source = .ok scope') :
    scope.Gains scope' [⟨known, source⟩] := by
  have hnew : scope.tables.find? (·.knownAs.name == known.name) = none := by
    unfold Scope.addTable at h
    split at h
    · cases h
    · rename_i hnone
      exact Option.not_isSome_iff_eq_none.mp hnone
  cases Scope.addTable_ok h
  refine ⟨rfl, rfl, rfl, fun ho => ⟨?_, fun t ht => ?_⟩⟩
  · simp only [Scope.registerAlias, map_append, map_cons, map_nil]
    refine nodup_append.mpr ⟨ho.nodup, nodup_singleton _, fun x hx y hy hxy => ?_⟩
    obtain ⟨t, ht, rfl⟩ := mem_map.mp hx
    rw [mem_singleton.mp hy] at hxy
    have hne := find?_eq_none.mp hnew t ht
    simp [hxy] at hne
  · simp only [Scope.registerAlias, Keyed.find?_insert]
    rcases mem_append.mp ht with ht | ht
    · obtain ⟨hlower, k, hk, hname⟩ := ho.registered t ht
      refine ⟨hlower, ?_⟩
      split
      · rename_i he
        exact ⟨_, rfl, he⟩
      · exact ⟨k, hk, hname⟩
    · rw [mem_singleton.mp ht, hknown]
      exact ⟨lowercase_lowercase _, _, if_pos rfl, rfl⟩

/-- The innermost scope gets the tables of a FROM tree. -/
def Brings (env : Accessor) (rec : Recur) (item : TableRef) (s : BindState) (item' : TableRef)
    (s' : BindState) : Prop :=
  ∀ scope outer, s.scopes = scope :: outer → ∃ scope' F, s'.scopes = scope' :: outer ∧
    scope.Gains scope' F ∧ Exposes env rec item s item' s' F

theorem Brings.of_table (halias : Aliases given s.view known v1) (hsame : v2.scopes = v1.scopes)
    (hadd : Rescopes (·.addTable known source) v2 s'.view)
    (h : Exposes env rec item s item' s' [⟨known, source⟩]) : Brings env rec item s item' s' := by
  intro scope outer hs
  cases halias with
  | intro heq =>
    cases hs.symm.trans heq
    generalize hv : s'.view = v' at hadd
    cases hadd with
    | intro heq2 hadd =>
      cases heq2.symm.trans hsame
      exact ⟨_, _, congrArg BindView.scopes hv, Scope.gains_addTable rfl hadd, h⟩

theorem AddsTables.cte?_eq {S S' : ScopeStack} (h : AddsTables S S') (name : String) :
    S'.cte? name = S.cte? name := by
  cases h with
  | none => rfl
  | some heq _ hctes hinherited =>
    rw [heq, ScopeStack.cte?_cons, ScopeStack.cte?_cons, Scope.cte?, Scope.cte?, hctes, hinherited]

theorem Brings.table {base base' : BaseTable} (h : bindBaseTable env true base s = .ok base' s') :
    Brings env rec (.table base) s (.table base') s' := by
  have hrun : bindSource env rec (.table base) s = .ok (.table base') s' := by
    simp only [bindSource, run_bind, run_pure]
    exact ⟨_, _, h, rfl, rfl⟩
  have hbinds := bindBaseTable_binds h
  generalize hv : s'.view = v' at hbinds
  cases hbinds with
  | table halias hsource hadd =>
    refine Brings.of_table halias rfl (hv ▸ hadd) (.table hrun ?_)
    have hS := halias.addsTables.cte?_eq
    cases hsource with
    | entry hschema hname => exact .entry hschema ((hS _).symm.trans hname)
    | table hnone htable => exact .table (fun hschema => (hS _).symm.trans (hnone hschema)) htable

theorem Brings.append {s3 : BindState} (hl : Brings env rec left s left' s1)
    (hr : Brings env rec right s1 right' s2) (hsame : s3.scopes = s2.scopes)
    (h : ∀ {F F'}, Exposes env rec left s left' s1 F → Exposes env rec right s1 right' s2 F' →
      Exposes env rec item s item' s3 (F ++ F')) : Brings env rec item s item' s3 := by
  intro scope outer hs
  obtain ⟨_, F, hs1, hgains, hexposes⟩ := hl scope outer hs
  obtain ⟨scope2, F', hs2, hgains', hexposes'⟩ := hr _ outer hs1
  exact ⟨scope2, F ++ F', hsame.trans hs2, hgains.trans hgains', h hexposes hexposes'⟩

theorem brings_nil (s : BindState) : Brings env rec (.list []) s (.list []) s := fun _ _ hs =>
  ⟨_, [], hs, .refl _, .nil⟩

mutual

/-- **FROM adds the tables of its tree to the scope of the block.** -/
theorem bindSource_brings (hrec : rec.Derived env) : (item : TableRef) → ∀ {item' : TableRef}
    {s s' : BindState}, bindSource env rec item s = .ok item' s' → Brings env rec item s item' s'
  | .table base, item', s, s', h => by
    simp only [bindSource, run_bind, run_pure] at h
    obtain ⟨_, _, hbase, rfl, rfl⟩ := h
    exact .table hbase
  | .derived q given, item', s, s', h => by
    have hrun := h
    rw [bindSource] at h
    split at h
    · simp at h
    · simp only [run_bind, run_pure] at h
      obtain ⟨_, _, halias, _, _, hquery, _, _, hcolumns, _, _, hadd, rfl, rfl⟩ := h
      have hnames := derivedColumns_run hcolumns
      exact .of_table (registerAlias_run halias) (hnames.scopes_eq.trans (hrec.query hquery).scopes)
        (rescopes_of_run hadd) (.derived hrun halias hquery hnames)
  | .join kind left right condition, item', s, s', h => by
    simp only [bindSource, run_bind, run_pure] at h
    obtain ⟨_, _, hleft, _, _, hright, _, _, hcondition, rfl, rfl⟩ := h
    have hroots := binds_roots (fun _ _ _ _ _ => bindPredicate_root hrec) hcondition
    exact (bindSource_brings hrec left hleft).append (bindSource_brings hrec right hright) hroots.scopes
      fun hl hr => .join hl hr hcondition
  | .list items, item', s, s', h => by
    simp only [bindSource, run_bind, run_pure] at h
    obtain ⟨_, _, hitems, rfl, rfl⟩ := h
    exact bindSources_brings hrec items hitems

theorem bindSources_brings (hrec : rec.Derived env) : (items : List TableRef) →
    ∀ {items' : List TableRef} {s s' : BindState}, bindSources env rec items s = .ok items' s' →
      Brings env rec (.list items) s (.list items') s'
  | [], items', s, s', h => by
    rw [bindSources, run_pure] at h
    obtain ⟨rfl, rfl⟩ := h
    exact brings_nil _
  | item :: rest, items', s, s', h => by
    simp only [bindSources, run_bind, run_pure] at h
    obtain ⟨_, _, hitem, _, _, hrest, rfl, rfl⟩ := h
    exact (bindSource_brings hrec item hitem).append (bindSources_brings hrec rest hrest) rfl .cons

end

theorem bindFrom_brings (hrec : rec.Derived env) {item item' : Option TableRef}
    (h : bindOptional (bindSource env rec) item s = .ok item' s') :
    Brings env rec (.list item.toList) s (.list item'.toList) s' := by
  cases item with
  | none =>
    obtain ⟨rfl, rfl⟩ := run_pure.mp h
    exact brings_nil _
  | some item =>
    simp only [bindOptional, run_bind, run_pure] at h
    obtain ⟨_, _, hitem, rfl, rfl⟩ := h
    exact (bindSource_brings hrec item hitem).append (brings_nil _) rfl .cons

/-! ### Numbers -/

/-- The columns of all WITH entries that the scopes know have numbers. -/
def ScopeStack.Numbers (S : ScopeStack) : Prop :=
  ∀ scope ∈ S, ∀ e ∈ scope.entries, ∀ c ∈ e.2, ∃ n, c.knownAs.serial = some n

theorem Defines.numbers {cs cs' : List Cte} {own : Definitions} (h : Defines rec cs s cs' s' own)
    (hs : ScopeStack.Numbers (scope :: outer)) :
    ScopeStack.Numbers ({ scope with ctes := scope.ctes ++ own } :: outer) := by
  have hown : ∀ e ∈ own, ∀ c ∈ e.2, ∃ n, c.knownAs.serial = some n := by
    induction h with
    | nil => exact forall_mem_nil _
    | cons _ _ hnames _ _ ih =>
      exact forall_mem_cons.mpr ⟨fun c hc => hnames.serials_some _ (mem_map_of_mem hc), ih⟩
  obtain ⟨hscope, houter⟩ := forall_mem_cons.mp hs
  obtain ⟨hctes, hinherited⟩ := forall_mem_append.mp hscope
  exact forall_mem_cons.mpr
    ⟨forall_mem_append.mpr ⟨forall_mem_append.mpr ⟨hctes, hown⟩, hinherited⟩, houter⟩

theorem AddsTables.numbers {S' : ScopeStack} (h : AddsTables S S') (hS : S.Numbers) : S'.Numbers := by
  cases h with
  | none => exact hS
  | some heq _ hctes hinherited =>
    rw [heq] at hS
    obtain ⟨hscope, houter⟩ := forall_mem_cons.mp hS
    refine forall_mem_cons.mpr ⟨?_, houter⟩
    rw [Scope.entries, hctes, hinherited]
    exact hscope

/-- **The columns of a FROM tree have numbers**, and the WITH entries that are visible still have. -/
theorem Exposes.numbered (henv : env.Numbered) (hrec : rec.Derived env) {F : List ScopeTable}
    (h : Exposes env rec item s item' s' F) (hs : s.scopes.Numbers) :
    s'.scopes.Numbers ∧ ∀ t ∈ F, t.Numbered := by
  induction h with
  | table hrun hsource =>
    refine ⟨AddsTables.numbers (bindSource_binds hrec _ hrun).scopes hs, forall_mem_singleton.mpr ?_⟩
    cases hsource with
    | entry _ hname =>
      obtain ⟨scope, hscope, hentry⟩ := ScopeStack.mem_of_cte? hname
      exact ScopeTable.numbered_of_derived (hs scope hscope _ hentry)
    | table _ htable => exact henv.of_requireTable htable _
  | derived hrun _ _ hnames =>
    exact ⟨AddsTables.numbers (bindSource_binds hrec _ hrun).scopes hs,
      forall_mem_singleton.mpr (ScopeTable.numbered_of_derived hnames.numbered)⟩
  | @join _ _ _ _ _ _ _ _ s2 s' _ _ _ _ hcondition ih ih' =>
    obtain ⟨hs1, hleft⟩ := ih hs
    obtain ⟨hs2, hright⟩ := ih' hs1
    have hsame : s'.scopes = s2.scopes :=
      (binds_roots (fun _ _ _ _ _ => bindPredicate_root hrec) hcondition).scopes
    exact ⟨hsame ▸ hs2, forall_mem_append.mpr ⟨hleft, hright⟩⟩
  | nil => exact ⟨hs, forall_mem_nil _⟩
  | cons _ _ ih ih' =>
    obtain ⟨hs1, hfirst⟩ := ih hs
    obtain ⟨hs2, hrest⟩ := ih' hs1
    exact ⟨hs2, forall_mem_append.mpr ⟨hfirst, hrest⟩⟩

/-! ### Blocks -/

/-- A select list is bound item by item.  A star becomes new nodes for the columns of the tables of
the scope that it names, and anything else stays in its place. -/
inductive ListRun (rec : Recur) (hasSource : Bool) (scope : Scope) :
    List ExprId → BindState → List ExprId → BindState → Prop where
  | nil {s : BindState} : ListRun rec hasSource scope [] s [] s
  | star {id : ExprId} {ids ids' : List ExprId} {table : Option String} {tables : List ScopeTable}
      {s s' : BindState} :
    IsStar (s.exprs.expr id) table → starTables scope table = .ok tables →
    ListRun rec hasSource scope ids
      { s with exprs := s.exprs.pushAll (starNodes scope.depth tables) } ids' s' →
    ListRun rec hasSource scope (id :: ids) s
      (range' s.exprs.size (starNodes scope.depth tables).length ++ ids') s'
  | item {id : ExprId} {ids ids' : List ExprId} {s s1 s' : BindState} :
    (∀ table, ¬IsStar (s.exprs.expr id) table) → bindSelectItem rec hasSource id s = .ok [id] s1 →
    ListRun rec hasSource scope ids s1 ids' s' →
    ListRun rec hasSource scope (id :: ids) s (id :: ids') s'

theorem bindSelectItems_run (hrec : rec.Derived env) {hasSource : Bool} {ids : List ExprId}
    {lists : List (List ExprId)} (h : ids.mapM (bindSelectItem rec hasSource) s = .ok lists s')
    (hs : s.scopes = scope :: outer) : ListRun rec hasSource scope ids s lists.flatten s' := by
  replace h := run_mapM h
  induction h with
  | nil => exact .nil
  | @cons _ _ _ _ s s1 _ hfirst _ ih =>
    rw [flatten_cons]
    rcases bindSelectItem_run hfirst with ⟨_, hstar, hexpand⟩ | ⟨hstar, rfl, _, hview, hitem⟩
    · obtain ⟨_, _, _, hs', htables, rfl, rfl⟩ := expandStar_run hexpand
      cases hs.symm.trans hs'
      exact .star hstar htables (ih hs)
    · obtain ⟨_, hroot, hv⟩ := bindItem_root hrec hitem
      have hsame : s1.scopes = s.scopes :=
        (congrArg BindView.scopes hv).trans (hroot.scopes.trans (congrArg BindView.scopes hview))
      exact .item hstar hfirst (ih (hsame.trans hs))

/-- A block fills the scope in which it is bound.  WITH adds definitions to it and FROM tables, and the
stars of the select list stand for columns of the tables that it has then. -/
structure Fills (env : Accessor) (rec : Recur) (before after : Scope) (outer : ScopeStack) (q : Select)
    (depth : Nat) (s : BindState) (q' : Select) (s' s1 s2 s3 s4 : BindState) (own : Definitions)
    (F : List ScopeTable) : Prop
    extends BlockRun env rec q depth s q' s' s1 s2 s3 s4 where
  defines : Defines rec q.ctes s q'.ctes s1 own
  defined : s1.scopes = { before with ctes := before.ctes ++ own } :: outer
  exposes : Exposes env rec (.list q.source.toList) s1 (.list q'.source.toList) s2 F
  gains : before.Gains after F
  filled : s2.scopes = after :: outer
  stars : ∃ t, bindClauses rec q s2 = .ok () t ∧
    ListRun rec q.source.isSome after q.items t q'.items s3

/-- **A block fills its scope.** -/
theorem bindBranchWith_fills (hrec : rec.Derived env) {before : Scope} {q q' : Select} {depth : Nat}
    (h : bindBranchWith env rec q depth s = .ok q' s') (hs : s.scopes = before :: outer) :
    ∃ after s1 s2 s3 s4 own F, Fills env rec before after outer q depth s q' s' s1 s2 s3 s4 own F := by
  obtain ⟨s1, s2, s3, s4, run⟩ := bindBranchWith_run h
  obtain ⟨own, hdefines, hs1⟩ := bindCtes_defines hrec run.entries hs
  obtain ⟨after, F, hs2, hgains, hexposes⟩ := bindFrom_brings hrec run.source _ outer hs1
  obtain ⟨t, _, hclauses, hitems, hlists⟩ := run.list
  have ht : t.scopes = s2.scopes := (bindClauses_binds hrec hclauses).scopes
  refine ⟨after, s1, s2, s3, s4, own, F, run, hdefines, hs1, hexposes,
    ⟨hgains.depth, hgains.tables, hgains.aliases, fun ho => hgains.orderly ⟨ho.nodup, ho.registered⟩⟩,
    hs2, t, hclauses, ?_⟩
  rw [hlists]
  exact bindSelectItems_run hrec hitems (ht.trans hs2)

end SqlAnalysis
