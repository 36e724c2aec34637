import SqlAnalysis.Proofs.Binding.BlockScopes
import SqlAnalysis.Proofs.Binding.NameLookup
import SqlAnalysis.Proofs.Binding.StoreSteps
import SqlAnalysis.Proofs.Catalog.Numbering

/-!
# Stars in select lists

The tables of a block are collected while FROM is bound, and a star takes them from there.  Its columns
are new nodes; that they are still the same when the block is bound holds because they are resolved, and
a resolved column is not touched again.

* **`Binds.expands`**: a select list has columns of the tables in the place of its stars.
* **`stars_expand`**: these are the tables that FROM has put into the scope of the block, and the
  written names mean the same.
-/

namespace SqlAnalysis

open Text List Arena

variable {env : Accessor} {v v' v1 : BindView} {scope : Scope} {outer : ScopeStack}
  {a a' final : Arena} {n n' : ExprNode} {depth : Nat} {t : ScopeTable} {c : ResolvedColumn}
  {ids ids' : List ExprId}

/-! ### Nodes -/

/-- What is a star stays one and nothing else becomes one; a resolved column keeps its type. -/
structure NodeKept (n n' : ExprNode) : Prop where
  star : ∀ table, IsStar n'.kind table ↔ IsStar n.kind table
  column : ∀ ref, n.kind = .column ref → ref.isResolved = true → n'.kind = n.kind ∧ n'.type = n.type

theorem NodeKept.of_relabels (h : n.Relabels n') : NodeKept n n' :=
  ⟨fun table => by rw [h.kind], fun _ _ _ => ⟨h.kind, h.type⟩⟩

theorem NodeKept.refl (n : ExprNode) : NodeKept n n := .of_relabels ⟨rfl, rfl⟩

theorem NodeKept.trans {n'' : ExprNode} (h : NodeKept n n') (h' : NodeKept n' n'') : NodeKept n n'' := by
  refine ⟨fun table => (h'.star table).trans (h.star table), fun ref hn hres => ?_⟩
  obtain ⟨hkind, htype⟩ := h.column ref hn hres
  obtain ⟨hkind', htype'⟩ := h'.column ref (hkind.trans hn) hres
  exact ⟨hkind'.trans hkind, htype'.trans htype⟩

theorem NodeKept.of_subquery (h : n.kind.isSubquery = true) (h' : n'.kind.isSubquery = true) :
    NodeKept n n' := by
  obtain ⟨kind⟩ := n
  obtain ⟨kind'⟩ := n'
  cases kind <;> cases h
  cases kind' <;> cases h'
  exact ⟨fun _ => iff_of_false nofun nofun, nofun⟩

theorem NodeKept.update {id : ExprId} {f : ExprNode → ExprNode} (h : NodeKept (a.node id) (f (a.node id)))
    (x : ExprId) : NodeKept (a.node x) ((a.update id f).node x) :=
  (Differ.of_update NodeKept.refl h).node x

theorem NodeKept.setQuery (a : Arena) (id : ExprId) (q : Select) (x : ExprId) :
    NodeKept (a.node x) ((a.setQuery id q).node x) := by
  apply NodeKept.update
  split
  · rename_i hsub
    exact .of_subquery hsub rfl
  · exact .refl _

theorem NodeKept.mark {id : ExprId} (t : SqlType) (h : (a.expr id).isSubquery = true) (x : ExprId) :
    NodeKept (a.node x) ((a.markSubquery id t).node x) :=
  .update (.of_subquery h h) x

theorem KindEvolves.isStar_iff {e e' : Expr} (h : KindEvolves a e e') (table : Option String) :
    IsStar e' table ↔ IsStar e table := by
  cases h with
  | refl => rfl
  | _ => exact iff_of_false nofun nofun

theorem LocalChange.node_of_ne {id x : ExprId} {e : Expr} (h : LocalChange id e a a') (hx : x ≠ id) :
    a'.node x = a.node x := by
  cases h with
  | constant => rw [setType, node_update_of_ne _ hx, setExpr, node_update_of_ne _ hx]
  | _ => exact node_update_of_ne _ hx

theorem storeSteps_nodeKept (env : Accessor) :
    StoreSteps env fun a a' => ∀ x, NodeKept (a.node x) (a'.node x) where
  refl _ _ := .refl _
  trans h h' x := (h x).trans (h' x)
  resolve c he hres := by
    rename_i a id ref
    refine NodeKept.update ⟨fun table => iff_of_false nofun fun hstar => ?_, fun ref' hn hres' => ?_⟩
    · rw [show (a.node id).kind = _ from he] at hstar
      cases hstar
    · cases he.symm.trans hn
      rw [hres] at hres'
      cases hres'
  mark t he _ := .mark t (by rw [he]; rfl)
  query t he hq hquery ih x := by
    rename_i id q q' v v1
    have hsub : (v.exprs.expr id).isSubquery = true := by rw [he]; rfl
    have hopened := expr_setQuery_self {} hsub
    have hkept := (hquery.progress.kind id (by
      rw [size_setQuery]
      exact lt_size_of_isSubquery hsub)).isSubquery
    have hstill : (v1.exprs.expr id).isSubquery = true := by rw [hkept, hopened]; rfl
    have hback : NodeKept (v1.exprs.node x) (((v1.exprs.setQuery id q').markSubquery id t).node x) :=
      (NodeKept.setQuery v1.exprs id q' x).trans (.mark t (by rw [expr_setQuery_self q' hstill]; rfl) x)
    exact ((NodeKept.setQuery v.exprs id {} x).trans (ih x)).trans hback
  work hlt he hcolumn hsub hl x := by
    rename_i id e a a'
    by_cases hx : x = id
    · subst hx
      refine ⟨((hl.adjusts hlt he).kind x hlt).isStar_iff, fun ref hn => ?_⟩
      have hsome := he.isSome_column?
      rw [hcolumn, show a.expr x = _ from hn] at hsome
      cases hsome
    · rw [hl.node_of_ne hx]
      exact .refl _
  finish _ x := .of_relabels ((relabels_finish _ _).node x)
  star a depth tables x := by
    by_cases hlt : x < a.size
    · rw [node_pushAll_of_lt _ hlt]
      exact .refl _
    · have hge := Nat.le_of_not_lt hlt
      rw [node_of_size_le hge]
      by_cases hlt' : x < (a.pushAll (starNodes depth tables)).size
      · obtain ⟨_, _, c, _, hnode⟩ := node_pushAll_starNodes hge hlt'
        rw [hnode]
        exact ⟨fun _ => iff_of_false nofun nofun, nofun⟩
      · rw [node_of_size_le (Nat.le_of_not_lt hlt')]
        exact .refl _
  nameOutput _ x := .of_relabels ((relabels_rename _ _ _).node x)
  nameColumn a id _ _ x := .of_relabels ((relabels_nameColumn a id _).node x)

/-! ### Select lists -/

def Carries (a : Arena) (x : ExprId) (c : ResolvedColumn) : Prop :=
  a.expr x = .column c.ref ∧ a.typeOf x = c.type ∧ (a.node x).depth = some c.depth

/-- A select list with columns in the place of its stars: those of all tables, or those of one. -/
inductive Expands (a final : Arena) (depth : Nat) (F : List ScopeTable) :
    List ExprId → List ExprId → Prop where
  | nil : Expands a final depth F [] []
  | all {id : ExprId} {ids columns ids' : List ExprId} :
    a.expr id = .star → Forall₂ (Carries final) columns (F.flatMap (·.columns depth)) →
    Expands a final depth F ids ids' → Expands a final depth F (id :: ids) (columns ++ ids')
  | table {id : ExprId} {name : String} {t : ScopeTable} {ids columns ids' : List ExprId} :
    a.expr id = .tableStar name → t ∈ F → t.knownAs.name = lowercase name →
    Forall₂ (Carries final) columns (t.columns depth) →
    Expands a final depth F ids ids' → Expands a final depth F (id :: ids) (columns ++ ids')
  | other {id : ExprId} {ids ids' : List ExprId} : (∀ table, ¬IsStar (a.expr id) table) →
    Expands a final depth F ids ids' → Expands a final depth F (id :: ids) (id :: ids')

theorem carries_pushAll {cs : List ResolvedColumn} (hcs : ∀ c ∈ cs, c.ref.isResolved = true)
    (hkept : ∀ x, NodeKept ((a.pushAll (cs.map (·.node))).node x) (final.node x))
    (hreshapes : Reshapes (a.pushAll (cs.map (·.node))) final) :
    Forall₂ (Carries final) (range' a.size cs.length) cs := by
  refine forall₂_iff_get.mpr ⟨length_range', fun i hi hi' => ?_⟩
  have hres := hcs _ (get_mem cs ⟨i, hi'⟩)
  have hnode : (a.pushAll (cs.map (·.node))).node (a.size + i) = (cs.get ⟨i, hi'⟩).node := by
    rw [node_pushAll_of_size_le _ (Nat.le_add_right _ _), Nat.add_sub_cancel_left]
    simp [hi']
  have hexpr : (a.pushAll (cs.map (·.node))).expr (a.size + i) = .column (cs.get ⟨i, hi'⟩).ref := by
    rw [expr, hnode]
    rfl
  obtain ⟨hkind, htype⟩ := (hkept (a.size + i)).column _ hexpr hres
  have hdepth := hreshapes.depth hexpr hres
  rw [hnode] at hkind htype hdepth
  rw [get_eq_getElem, getElem_range', Nat.one_mul]
  exact ⟨hkind, htype, hdepth⟩

theorem Binds.expands (h : Binds env (.items ids ids') v v') (hscope : v.scopes = scope :: outer)
    (hnumbered : ∀ t ∈ scope.tables, t.Numbered) (ha : ∀ x, NodeKept (a.node x) (v.exprs.node x))
    (hkept : ∀ x, NodeKept (v'.exprs.node x) (final.node x)) (hreshapes : Reshapes v'.exprs final) :
    Expands a final scope.depth scope.tables ids ids' := by
  induction ids generalizing v ids' with
  | nil =>
    cases h
    exact .nil
  | cons id ids ih =>
    cases h with
    | @itemsStar _ _ ids' table _ _ tables _ _ hstar hscope' htables hrest =>
      cases hscope.symm.trans hscope'
      have hnew := (storeSteps_nodeKept env).star v.exprs scope.depth tables
      have hresolved : ∀ c ∈ tables.flatMap fun t : ScopeTable => t.columns scope.depth,
          c.ref.isResolved = true := fun c hc => by
        obtain ⟨t, ht, hc⟩ := mem_flatMap.mp hc
        exact (hnumbered t (mem_of_starTables htables t ht) _ c hc).1
      have hcolumns := carries_pushAll hresolved (fun x => (hrest.follows (storeSteps_nodeKept env) trivial trivial x).trans
        (hkept x)) (hrest.reshapes.trans hreshapes)
      have hmore := ih hrest hscope fun x => (ha x).trans (hnew x)
      rw [starNodes, length_map]
      have hstar := ((ha id).star table).mp hstar
      generalize he : (a.node id).kind = e at hstar
      unfold starTables at htables
      split at htables
      · cases htables
      · cases hstar with
        | all =>
          cases htables
          exact .all he hcolumns hmore
        | table =>
          dsimp only at htables
          split at htables
          · rename_i t ht
            cases htables
            rw [flatMap_singleton] at hcolumns ⊢
            exact .table he (mem_of_find?_eq_some ht) (by simpa using find?_some ht) hcolumns hmore
          · cases htables
    | @itemsRoot _ _ _ _ v1 _ hstar hroot hrest =>
      have hstep := hroot.follows (storeSteps_nodeKept env) trivial trivial
      have hfinish := (storeSteps_nodeKept env).finish hroot.progress.finished
      have hnew (x : ExprId) : NodeKept (a.node x) ((v1.exprs.finish id).node x) :=
        ((ha x).trans (hstep x)).trans (hfinish x)
      have hscope1 : v1.scopes = v.scopes := hroot.scopes
      have hrest := ih hrest
      exact .other (fun table h => hstar table (((ha id).star table).mpr h))
        (hrest (hscope1.trans hscope) hnew)

/-! ### Written names -/

theorem Scope.Orderly.resolveColumn_eq (h : scope.Orderly) (ht : t ∈ scope.tables)
    (hnodup : t.columnNames.Nodup) (hlower : ∀ name ∈ t.columnNames, lowercase name = name)
    (hc : c ∈ t.columns scope.depth) (outer : ScopeStack) :
    resolveColumn (scope :: outer) { table := some { name := t.knownAs.name }, column := c.column } =
      .ok c := by
  obtain ⟨hname, k, hk, hkname⟩ := h.registered t ht
  have halias : ScopeStack.aliasOf (scope :: outer) (lowercase t.knownAs.name) = k := by
    rw [hname, ScopeStack.aliasOf, findSome?_cons, hk]
    rfl
  have hnames := t.map_column scope.depth
  have hcolumn : t.column? c.column scope.depth = some c := find?_of_nodup (hnames ▸ hnodup) hc
  have htable : scope.table? t.knownAs.name = some t := find?_of_nodup h.nodup ht
  have hlower := hlower c.column (hnames ▸ mem_map_of_mem hc)
  have hfound : ScopeStack.qualified (scope :: outer) k.name (lowercase c.column) = .ok (some c) := by
    rw [ScopeStack.qualified, ScopeStack.search, Scope.qualified, hkname, htable, hlower]
    dsimp only
    rw [hcolumn]
  unfold resolveColumn
  dsimp only
  rw [halias, hfound]
  rfl

/-- **Stars stand for the columns of the tables in FROM order.**  In a block that is bound in a new
scope, each star of the select list is replaced in place by a column for each column of each table that
FROM has put into the scope, and a star of a table by those of the table; the columns have the depth of
the block.  Where the column names of a table are different and in lower case, a written name in the
place of such a column would mean the same column. -/
theorem stars_expand (henv : env.Numbered) {levels : Nat} {q q' : Select} {s s' : BindState}
    {inherited : Keyed String (List DerivedColumn)}
    (h : bindBranchWith env (recurTo env levels) q depth s = .ok q' s')
    (hs : s.scopes = { depth := depth, inheritedCtes := inherited } :: outer)
    (hentries : s.scopes.Numbers) :
    ∃ scope s1 s2 s3 s4 own, Fills env (recurTo env levels)
        { depth := depth, inheritedCtes := inherited } scope outer q depth s q' s' s1 s2 s3 s4 own
        scope.tables ∧
      (scope.tables.map (·.knownAs.name)).Nodup ∧
      Expands s.exprs s'.exprs depth scope.tables q.items q'.items ∧
      ∀ t ∈ scope.tables, t.columnNames.Nodup → (∀ name ∈ t.columnNames, lowercase name = name) →
        ∀ c ∈ t.columns depth, resolveColumn s2.scopes
          { table := some { name := t.knownAs.name }, column := c.column } = .ok c := by
  have hrec : (recurTo env levels).Derived env := recurTo_derived levels
  obtain ⟨scope, s1, s2, s3, s4, own, F, hfills⟩ := bindBranchWith_fills hrec h hs
  obtain rfl : scope.tables = F := hfills.gains.tables
  have hdepth : scope.depth = depth := hfills.gains.depth
  have horderly := hfills.gains.orderly ⟨nodup_nil, nofun⟩
  rw [hs] at hentries
  have hs1 := hfills.defines.numbers hentries
  rw [← hfills.defined] at hs1
  have hnumbered := (hfills.exposes.numbered henv hrec hs1).2
  obtain ⟨t, _, hclauses, hitems, hlists⟩ := hfills.list
  have hentries := bindCtes_binds hrec hfills.entries
  have hfrom := bindFrom_binds hrec hfills.source
  have hroots := bindClauses_binds hrec hclauses
  have hitems := hlists ▸ bindSelectItems_binds hrec hitems
  have hunion := (bindUnion_binds hrec hfills.union).1
  have hordering := (bindOrdering_binds hrec hfills.ordering).2
  have hsteps := storeSteps_nodeKept env
  have hbefore (x : ExprId) : NodeKept (s.exprs.node x) (t.exprs.node x) :=
    ((hentries.follows hsteps trivial trivial x).trans (hfrom.follows hsteps trivial trivial x)).trans
      (hroots.follows hsteps trivial trivial x)
  have hafter (x : ExprId) : NodeKept (s3.exprs.node x) (s'.exprs.node x) :=
    (hunion.follows hsteps trivial trivial x).trans (hordering.follows hsteps trivial trivial x)
  have hlast := hunion.progress.toAdvances.trans hordering.progress.toAdvances
  have ht : t.scopes = scope :: outer := (show t.scopes = s2.scopes from hroots.scopes).trans hfills.filled
  refine ⟨scope, s1, s2, s3, s4, own, hfills, horderly.nodup, ?_, fun t ht hnodup hlower c hc => ?_⟩
  · rw [← hdepth]
    exact hitems.expands ht hnumbered hbefore hafter hlast.toReshapes
  · rw [← hdepth] at hc
    rw [hfills.filled]
    exact horderly.resolveColumn_eq ht hnodup hlower hc outer

/-- `SELECT *, s.* FROM (SELECT 1) s` -/
def starTwice : Select × Arena :=
  ({ items := [0, 1], source := some (.derived { items := [2] } { name := "s" }) },
    .ofExprs [.star, .tableStar "s", .constant (.ofByte 1)])

def starTwiceState : BindState :=
  { exprs := starTwice.2, expectations := {}, scopes := [{ depth := 0 }], parameters := [], nextTemp := 0 }

theorem starTwice_expand :
    ∃ q' s', bindBranchWith .initial (recurTo .initial 3) starTwice.1 0 starTwiceState = .ok q' s' ∧
      ∃ scope s1 s2 s3 s4 own, Fills .initial (recurTo .initial 3) { depth := 0 } scope [] starTwice.1 0
          starTwiceState q' s' s1 s2 s3 s4 own scope.tables ∧
        Expands starTwice.2 s'.exprs 0 scope.tables [0, 1] q'.items := by
  have hrun : succeeds (bindBranchWith .initial (recurTo .initial 3) starTwice.1 0 starTwiceState) = true := by
    decide +kernel
  obtain ⟨q', s', h⟩ := exists_of_succeeds hrun
  have hentries : starTwiceState.scopes.Numbers := forall_mem_singleton.mpr (forall_mem_nil _)
  obtain ⟨scope, s1, s2, s3, s4, own, hfills, _, hexpands, _⟩ :=
    stars_expand (Catalog.Reachable.accessor .initial) h rfl hentries
  exact ⟨q', s', h, scope, s1, s2, s3, s4, own, hfills, hexpands⟩

end SqlAnalysis
