import SqlAnalysis.Proofs.Binding.BlockScopes

/-!
# Branches of a UNION

The branches of a UNION are bound one after the other, each in a scope of its own in the same place
of the stack.

* **`union_branches_see`**: a branch inherits the definitions of the branches before it and nothing else.
-/

namespace SqlAnalysis

open List ScopeStack BindM

variable {env : Accessor} {scope : Scope} {outer : ScopeStack} {levels depth : Nat} {q q' : Select}
  {s s' : BindState}

/-! ### The scope of a branch -/

/-- The definition of a name in the nearest of some lists that has one. -/
def nearest? (lists : List Definitions) (name : String) : Option (List DerivedColumn) :=
  lists.findSome? (·.find? name)

variable {earlier : List Definitions} {own : Definitions}

theorem nearest?_cons (own : Definitions) (earlier : List Definitions) (name : String) :
    nearest? (own :: earlier) name = (own.find? name).or (nearest? earlier name) := by
  rw [nearest?, findSome?_cons]
  cases own.find? name <;> rfl

/-- The scope in which a branch starts: it inherits the definitions of the branches before it, and
has no tables, aliases and definitions of its own. -/
structure Scope.Starts (scope : Scope) (earlier : List Definitions) : Prop where
  tables : scope.tables = []
  aliases : scope.aliases = []
  ctes : scope.ctes = []
  inherited : ∀ name, scope.inheritedCtes.find? name = nearest? earlier name

theorem Scope.starts_new (depth : Nat) : Scope.Starts { depth := depth } [] :=
  ⟨rfl, rfl, rfl, fun _ => rfl⟩

theorem Scope.starts_sibling (hctes : scope.ctes = own) (hnodup : own.keys.Nodup)
    (hinherited : ∀ name, scope.inheritedCtes.find? name = nearest? earlier name) :
    scope.sibling.Starts (own :: earlier) := by
  refine ⟨rfl, rfl, rfl, fun name => ?_⟩
  rw [nearest?_cons, ← hinherited name, ← hctes]
  exact Keyed.find?_foldl_insert (hctes ▸ hnodup) _ name

/-- What a branch sees while it is bound.  Before FROM its scope has no table and no alias, and WITH
entries are looked up in its own list, in the lists of the branches before it and in the blocks around
the UNION, in this order.  FROM adds the tables that it names, and its own aliases.  The keys of ORDER BY are
bound in the scope that FROM has left, although further branches are bound before them. -/
structure BranchRun (env : Accessor) (outer : ScopeStack) (earlier : List Definitions)
    (own : Definitions) (levels depth : Nat) (q : Select) (s : BindState) (q' : Select)
    (s' s1 s2 s3 s4 : BindState) : Prop
    extends BlockRun env (recurTo env levels) q depth s q' s' s1 s2 s3 s4 where
  defines : Defines (recurTo env levels) q.ctes s q'.ctes s1 own
  distinct : own.keys.Nodup
  before : ∃ scope, s1.scopes = scope :: outer ∧ scope.tables = [] ∧ scope.aliases = []
  lookup : ∀ name, s1.scopes.cte? name = (nearest? (own :: earlier) name).or (cte? outer name)
  after : ∃ scope, s2.scopes = scope :: outer ∧
    Exposes env (recurTo env levels) (.list q.source.toList) s1 (.list q'.source.toList) s2 scope.tables ∧
    scope.aliases = registerTables [] scope.tables ∧
    ∀ name, s2.scopes.cte? name = s1.scopes.cte? name
  restored : s4.scopes = s2.scopes

/-- A branch and the branches after it.  Each of them starts in a sibling of the scope of the one before
it. -/
inductive UnionChain (env : Accessor) (outer : ScopeStack) (depth : Nat) :
    List Definitions → Nat → Select → BindState → Select → BindState → Prop where
  | last {earlier own levels q q' s s' s1 s2 s3 s4} :
    BranchRun env outer earlier own levels depth q s q' s' s1 s2 s3 s4 → q.union = none →
    UnionChain env outer depth earlier (levels + 1) q s q' s'
  | next {earlier own levels q q' s s' s1 s2 s3 s4 scope right right' t} :
    BranchRun env outer earlier own levels depth q s q' s' s1 s2 s3 s4 → q.union = some right →
    s3.scopes = scope :: outer →
    UnionChain env outer depth (own :: earlier) levels right
      { s3 with scopes := scope.sibling :: outer } right' t →
    q'.union = some right' → s4 = { t with scopes := scope :: t.scopes.tail } →
    UnionChain env outer depth earlier (levels + 1) q s q' s'

theorem bindBranch_run (h : bindBranch env (levels + 1) q depth s = .ok q' s')
    (hs : s.scopes = scope :: outer) (hstarts : scope.Starts earlier) :
    ∃ own s1 s2 s3 s4 scope', BranchRun env outer earlier own levels depth q s q' s' s1 s2 s3 s4 ∧
      s3.scopes = scope' :: outer ∧ scope'.sibling.Starts (own :: earlier) := by
  have hrec : (recurTo env levels).Derived env := recurTo_derived levels
  obtain ⟨after, s1, s2, s3, s4, own, F, hfills⟩ := bindBranchWith_fills hrec h hs
  -- WITH defines its entries in a scope that had none.
  have hs1 := hfills.defined
  rw [hstarts.ctes, nil_append] at hs1
  have hnodup : own.keys.Nodup := by
    have hadds : AddsEntries q'.ctes s.scopes s1.scopes := (bindCtes_binds hrec hfills.entries).scopes
    rw [hs, hs1] at hadds
    generalize hscope : { scope with ctes := own } = scope1 at hadds
    have hown : own = scope1.ctes := congrArg Scope.ctes hscope
    rw [hown]
    cases hadds with
    | none =>
      rw [hstarts.ctes]
      exact nodup_nil
    | some heq _ _ hkeys =>
      cases heq
      exact hkeys (hstarts.ctes ▸ nodup_nil)
  -- FROM finds no table and leaves those it names.
  have hadds : AddsTables s1.scopes s2.scopes := (bindFrom_binds hrec hfills.source).scopes
  have hcte : ∀ name, s2.scopes.cte? name = s1.scopes.cte? name := hadds.cte?_eq
  have hkept : after.ctes = own ∧ after.inheritedCtes = scope.inheritedCtes := by
    rw [hs1, hfills.filled] at hadds
    cases hadds with
    | none => exact ⟨rfl, rfl⟩
    | some heq _ hctes hinherited =>
      cases heq
      exact ⟨hctes, hinherited⟩
  obtain ⟨_, htables, haliases, _⟩ := hfills.gains
  rw [hstarts.tables, nil_append] at htables
  rw [hstarts.aliases] at haliases
  subst htables
  obtain ⟨t, _, hclauses, hitems, _⟩ := hfills.list
  have hs3 : s3.scopes = s2.scopes :=
    (bindSelectItems_binds hrec hitems).scopes.trans (bindClauses_binds hrec hclauses).scopes
  have hs4 : s4.scopes = s3.scopes := (bindUnion_binds hrec hfills.union).1.scopes
  refine ⟨own, s1, s2, s3, s4, after, ⟨hfills.toBlockRun, hfills.defines, hnodup,
    ⟨_, hs1, hstarts.tables, hstarts.aliases⟩, ?_, ⟨after, hfills.filled, hfills.exposes, haliases, hcte⟩,
    hs4.trans hs3⟩, hs3.trans hfills.filled, Scope.starts_sibling hkept.1 hnodup fun name => ?_⟩
  · intro name
    rw [hs1, cte?_cons, Scope.cte?, hstarts.inherited, nearest?_cons]
  · rw [hkept.2, hstarts.inherited]

theorem bindBranch_chain (h : bindBranch env levels q depth s = .ok q' s')
    (hs : s.scopes = scope :: outer) (hstarts : scope.Starts earlier) :
    UnionChain env outer depth earlier levels q s q' s' := by
  induction levels generalizing earlier q s q' s' scope with
  | zero => cases h
  | succ levels ih =>
    obtain ⟨own, s1, s2, s3, s4, scope', run, hs3, hnext⟩ := bindBranch_run h hs hstarts
    have hunion := run.union
    cases hright : q.union with
    | none => exact .last run hright
    | some right =>
      rw [hright] at hunion
      simp only [bindOptional, bindUnion, run_bind, run_inSibling, run_get, run_ofExcept, run_pure] at hunion
      obtain ⟨right', _, ⟨_, _, ⟨_, _, t, hscope, hbranch, rfl⟩, _, _, ⟨rfl, rfl⟩, _, _, ⟨_, rfl⟩, rfl, rfl⟩,
        hright', rfl⟩ := hunion
      cases hs3.symm.trans hscope
      exact .next run hright hs3 (ih hbranch rfl hnext) hright'.symm rfl

/-- For every query that is bound, and every branch of its UNION: while FROM of the branch is bound, a WITH
entry is looked up in the list of the branch, then in the lists of the earlier branches from the
nearest on, and then in the blocks around the query.  No table and no alias of another branch is
visible, and the keys of ORDER BY are bound in the scope that FROM of the same branch has left. -/
theorem union_branches_see (h : bindQuery env (levels + 1) q s = .ok q' s') :
    ∃ t, s' = { t with scopes := t.scopes.tail } ∧
      UnionChain env s.scopes s.scopes.length [] levels q { s with scopes := s.scopes.open_ } q' t := by
  simp only [bindQuery, bindQueryWith, run_bind, run_get, run_inScope] at h
  obtain ⟨_, _, ⟨rfl, rfl⟩, t, hbranch, rfl⟩ := h
  exact ⟨t, rfl, bindBranch_chain hbranch rfl (Scope.starts_new _)⟩

/-- `WITH a AS (SELECT 1) SELECT * FROM a UNION SELECT * FROM a` -/
def sharedEntry : Select × Arena :=
  let a : TableRef := .table (.named "a" "a")
  ({ ctes := [{ name := "a", query := { items := [0] } }], items := [1], source := some a,
     union := some { items := [2], source := some a } },
    .ofExprs [.constant (.ofByte 1), .star, .star])

def sharedEntryState : BindState :=
  { exprs := sharedEntry.2, expectations := {}, parameters := [], nextTemp := 0 }

theorem sharedEntry_seen :
    ∃ q' s' t, bindQuery .initial 5 sharedEntry.1 sharedEntryState = .ok q' s' ∧
      UnionChain .initial [] 0 [] 4 sharedEntry.1 { sharedEntryState with scopes := [{ depth := 0 }] } q' t := by
  have hrun : succeeds (bindQuery .initial 5 sharedEntry.1 sharedEntryState) = true := by decide +kernel
  obtain ⟨q', s', h⟩ := exists_of_succeeds hrun
  obtain ⟨t, _, hchain⟩ := union_branches_see h
  exact ⟨q', s', t, h, hchain⟩

end SqlAnalysis
