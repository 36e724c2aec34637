import SqlAnalysis.Proofs.Binding.Meaning
import SqlAnalysis.Proofs.Expr.Refinement
import SqlAnalysis.Proofs.Query.Gathering

/-!
# What a FROM item can see

The tables of a FROM clause become visible one after the other.  A join condition or the query of a
derived table sees those of its own FROM item and those of the items before it, however the lists and
joins of the clause are nested.

* **`Means.settles`**: what the expressions of a bound statement lead to.
* **`Select.Meant.sees`**: the columns of a block that occur in one of its FROM items belong to the item
  or to items before it.
-/

namespace SqlAnalysis

open List TableRef

variable {p : Phrase} {id : ExprId} {block : Select}

variable {env : Accessor} {a : Arena} {R : Registry}

/-! ### Positions in a FROM clause -/

/-- An item of a list of FROM items or of the lists and joins in it, with the aliases that the items
before it and after it make visible. -/
inductive TableRef.Stands : List TableRef → List Alias → TableRef → List Alias → Prop where
  | head {item rest} : Stands (item :: rest) [] item (aliasesAll rest)
  | tail {first rest before item after} :
    Stands rest before item after → Stands (first :: rest) (first.aliases ++ before) item after
  | join {kind left right condition rest before item after} :
    Stands [left, right] before item after →
    Stands (.join kind left right condition :: rest) before item (after ++ aliasesAll rest)
  | list {items rest before item after} :
    Stands items before item after →
    Stands (.list items :: rest) before item (after ++ aliasesAll rest)

variable {items : List TableRef} {item : TableRef} {before after : List Alias}

theorem TableRef.aliasesAll_toList (source : Option TableRef) :
    aliasesAll source.toList = aliasesOpt source := by
  cases source with
  | none => rfl
  | some => exact append_nil _

namespace TableRef.Stands

theorem aliasesAll_eq (h : Stands items before item after) :
    aliasesAll items = before ++ item.aliases ++ after := by
  induction h with
  | head => rfl
  | tail _ ih => rw [aliasesAll, ih, append_assoc, append_assoc, append_assoc]
  | @join _ left right _ _ _ _ _ _ ih =>
    have hpair : left.aliases ++ right.aliases = aliasesAll [left, right] := by simp [aliasesAll]
    rw [aliasesAll, aliases, hpair, ih, append_assoc]
  | list _ ih => rw [aliasesAll, aliases, ih, append_assoc]

theorem aliases_subset (h : Stands items before item after) : item.aliases ⊆ aliasesAll items := by
  intro k hk
  rw [h.aliasesAll_eq]
  exact mem_append_left _ (mem_append_right _ hk)

end TableRef.Stands

theorem Widens.headD_subset {Γ Γ' : List (List ScopeTable)} (h : Widens Γ Γ') :
    Γ.headD [] ⊆ Γ'.headD [] := by
  cases h with
  | nil => exact Subset.refl _
  | cons hF _ => exact hF

variable {Γ : List (List ScopeTable)} {Δ : EntryMap} {K : List ExprId}

namespace Means

theorem operands {kind : JoinKind} {left right : TableRef} {condition : Option ExprId}
    (h : Means env a R Γ Δ (.source (.join kind left right condition)) K) :
    ∃ K', Means env a R Γ Δ (.sources [left, right]) K' := by
  cases h with
  | join hw _ hl hr =>
    have hright : aliasesAll [right] = right.aliases := append_nil _
    exact ⟨_, .sourcesCons hw (by rwa [hright]) hl
      (.sourcesCons (.refl _) (fun _ _ => not_mem_nil) hr .sourcesNil)⟩

theorem sources_of_from {source : Option TableRef} (h : Means env a R Γ Δ (.from_ source) K) :
    ∃ K', Means env a R Γ Δ (.sources source.toList) K' := by
  cases h with
  | fromNone => exact ⟨_, .sourcesNil⟩
  | fromSome h => exact ⟨_, .sourcesCons (.refl _) (fun _ _ => not_mem_nil) h .sourcesNil⟩

/-- **An item is bound before the tables of the items after it are visible.** -/
theorem item_of_stands (hs : Stands items before item after)
    (h : Means env a R Γ Δ (.sources items) K) :
    ∃ Γ' K', Widens Γ' Γ ∧ (∀ t ∈ Γ'.headD [], t.knownAs ∉ after) ∧
      Means env a R Γ' Δ (.source item) K' := by
  -- What a list or a join is bound under has no tables of the items after it either.
  have hwithin {Γ Γ1 : List (List ScopeTable)} {item : TableRef} {after : List Alias} {rest : List TableRef}
      (hw : Widens Γ1 Γ) (hnot : ∀ t ∈ Γ1.headD [], t.knownAs ∉ aliasesAll rest)
      (h : ∃ Γ' K', Widens Γ' Γ1 ∧ (∀ t ∈ Γ'.headD [], t.knownAs ∉ after) ∧
        Means env a R Γ' Δ (.source item) K') :
      ∃ Γ' K', Widens Γ' Γ ∧ (∀ t ∈ Γ'.headD [], t.knownAs ∉ after ++ aliasesAll rest) ∧
        Means env a R Γ' Δ (.source item) K' := by
    obtain ⟨Γ', K', hw', hnot', hitem⟩ := h
    refine ⟨Γ', K', hw'.trans hw, fun t ht hmem => ?_, hitem⟩
    rcases mem_append.mp hmem with hmem | hmem
    · exact hnot' t ht hmem
    · exact hnot t (hw'.headD_subset ht) hmem
  induction hs generalizing Γ K with
  | head =>
    cases h with
    | sourcesCons hw hnot hitem _ => exact ⟨_, _, hw, hnot, hitem⟩
  | tail _ ih =>
    cases h with
    | sourcesCons _ _ _ hrest => exact ih hrest
  | join _ ih =>
    cases h with
    | sourcesCons hw hnot hjoin _ =>
      obtain ⟨_, hpair⟩ := hjoin.operands
      exact hwithin hw hnot (ih hpair)
  | list _ ih =>
    cases h with
    | sourcesCons hw hnot hlist _ =>
      cases hlist with
      | list hitems => exact hwithin hw hnot (ih hitems)

theorem exists_table (h : Means env a R Γ Δ p K) :
    (∀ item, p = .source item → ∀ k ∈ item.aliases, ∃ t ∈ Γ.headD [], t.knownAs = k) ∧
      ∀ items, p = .sources items → ∀ k ∈ aliasesAll items, ∃ t ∈ Γ.headD [], t.knownAs = k := by
  induction h with
  | table ht _ hknown =>
    refine ⟨fun item hitem k hk => ?_, fun _ h => (Phrase.noConfusion h)⟩
    cases hitem
    exact ⟨_, ht, hknown.trans (mem_singleton.mp hk).symm⟩
  | derived ht =>
    refine ⟨fun item hitem k hk => ?_, fun _ h => (Phrase.noConfusion h)⟩
    cases hitem
    exact ⟨_, ht, (mem_singleton.mp hk).symm⟩
  | join hw _ _ _ _ ihl ihr =>
    refine ⟨fun item hitem k hk => ?_, fun _ h => (Phrase.noConfusion h)⟩
    cases hitem
    rcases mem_append.mp hk with hk | hk
    · exact (ihl.1 _ rfl k hk).imp fun t ht => ⟨hw.headD_subset ht.1, ht.2⟩
    · exact ihr.1 _ rfl k hk
  | list _ ih =>
    refine ⟨fun item hitem => ?_, fun _ h => (Phrase.noConfusion h)⟩
    cases hitem
    exact ih.2 _ rfl
  | sourcesNil =>
    refine ⟨fun _ h => (Phrase.noConfusion h), fun items hitems k hk => ?_⟩
    cases hitems
    cases hk
  | sourcesCons hw _ _ _ ih ih' =>
    refine ⟨fun _ h => (Phrase.noConfusion h), fun items hitems k hk => ?_⟩
    cases hitems
    rcases mem_append.mp hk with hk | hk
    · exact (ih.1 _ rfl k hk).imp fun t ht => ⟨hw.headD_subset ht.1, ht.2⟩
    · exact ih'.2 _ rfl k hk
  | _ => exact ⟨fun _ h => Phrase.noConfusion h, fun _ h => Phrase.noConfusion h⟩

theorem disjoint_of_stands (hs : Stands items before item after)
    (h : Means env a R Γ Δ (.sources items) K) : before.Disjoint item.aliases := by
  induction hs generalizing Γ K with
  | head => exact disjoint_nil_left _
  | tail hs ih =>
    cases h with
    | sourcesCons _ hnot hfirst hrest =>
      refine disjoint_append_left.mpr ⟨fun k hk hitem => ?_, ih hrest⟩
      obtain ⟨t, ht, rfl⟩ := hfirst.exists_table.1 _ rfl k hk
      exact hnot t ht (hs.aliases_subset hitem)
  | join _ ih =>
    cases h with
    | sourcesCons _ _ hjoin _ =>
      obtain ⟨_, hpair⟩ := hjoin.operands
      exact ih hpair
  | list _ ih =>
    cases h with
    | sourcesCons _ _ hlist _ =>
      cases hlist with
      | list hitems => exact ih hitems

end Means

/-! ### Query blocks -/

def Select.Meant (q : Select) (a : Arena) (R : Registry) : Prop :=
  ∃ env Γ Δ K, Means env a R Γ Δ (.block q) K

/-- A query block of a query: one that is nested in it, or one of a subquery that its expressions lead
to. -/
def Arena.IsBlock (a : Arena) (q block : Select) : Prop :=
  block ∈ q.blocks ∨
    ∃ id ∈ q.exprs, ∃ x query, a.Reaches id x ∧ a.expr x = .subquery query ∧ block ∈ query.blocks

/-- What an expression in blocks with the tables `Γ` leads to: a column of these blocks is in their
tables, and the blocks of a subquery mean something. -/
structure Arena.Settles (a : Arena) (R : Registry) (Γ : List (List ScopeTable)) (x : ExprId) : Prop where
  column : ∀ ref, a.expr x = .column ref → ∃ c : ResolvedColumn, c.ref = ref ∧
    (a.node x).depth = some c.depth ∧ (c.depth < Γ.length → Resolves Γ c)
  blocks : ∀ q, a.expr x = .subquery q → ∀ block ∈ q.blocks, block.Meant a R

namespace Arena.Settles

variable {Γ' : List (List ScopeTable)} {F : List ScopeTable} {x : ExprId}

theorem widen (h : a.Settles R Γ x) (hw : Widens Γ Γ') : a.Settles R Γ' x where
  column ref he := by
    obtain ⟨c, hc, hdepth, hres⟩ := h.column ref he
    exact ⟨c, hc, hdepth, fun hlt => (hres (by rwa [hw.length_eq])).widen hw⟩
  blocks := h.blocks

theorem leave (h : a.Settles R (F :: Γ) x) : a.Settles R Γ x where
  column ref he := by
    obtain ⟨c, hc, hdepth, hres⟩ := h.column ref he
    refine ⟨c, hc, hdepth, fun hlt => ?_⟩
    rcases resolves_cons.mp (hres (Nat.lt_succ_of_lt hlt)) with ⟨t, _, hmem⟩ | hres
    · rw [ScopeTable.depth_of_mem_columns hmem] at hlt
      exact (Nat.lt_irrefl _ hlt).elim
    · exact hres
  blocks := h.blocks

theorem of_parts (h : a.Settles R Γ id)
    (hparts : ∀ y ∈ (a.expr id).parts, ∀ x, a.Reaches y x → a.Settles R Γ x) :
    ∀ x, a.Reaches id x → a.Settles R Γ x := by
  intro x hx
  rcases Relation.ReflTransGen.cases_head hx with rfl | ⟨y, hy, hx⟩
  · exact h
  · exact hparts y hy x hx

theorem of_plain (hcolumn : (a.expr x).column? = none) (hsub : (a.expr x).isSubquery = false) :
    a.Settles R Γ x where
  column ref he := by
    rw [he] at hcolumn
    cases hcolumn
  blocks q he := by
    rw [he] at hsub
    cases hsub

end Arena.Settles

def Phrase.mentioned : Phrase → List ExprId
  | .expr id => [id]
  | .exprs ids => ids
  | .entry c => c.query.exprs
  | .entries cs => Cte.exprsAll cs
  | .source item => item.exprs
  | .sources items => exprsAll items
  | .from_ clause => exprsOpt clause
  | .union right => Select.exprsOpt right
  | .block q => Cte.exprsAll q.ctes ++ q.items ++ exprsOpt q.source ++ q.filter.toList ++
    (q.grouping.map (·.exprs)).getD [] ++ (q.ordering.getD []).map (·.expr)
  | .query _ q => q.exprs

def Phrase.blocks : Phrase → List Select
  | .expr _ | .exprs _ => []
  | .entry c => c.query.blocks
  | .entries cs => Cte.gatherAll blockProbe cs
  | .source item => item.gather blockProbe
  | .sources items => gatherAll blockProbe items
  | .from_ clause => gatherOpt blockProbe clause
  | .union right => Select.gatherOpt blockProbe right
  | .block q => q :: (Cte.gatherAll blockProbe q.ctes ++ gatherOpt blockProbe q.source)
  | .query _ q => q.blocks

/-- The blocks of a part mean something, and all that its expressions lead to is settled. -/
structure Phrase.Settled (p : Phrase) (a : Arena) (R : Registry) (Γ : List (List ScopeTable)) : Prop where
  blocks : ∀ block ∈ p.blocks, block.Meant a R
  exprs : ∀ id ∈ p.mentioned, ∀ x, a.Reaches id x → a.Settles R Γ x

namespace Phrase.Settled

variable {p1 p2 : Phrase} {Γ' : List (List ScopeTable)} {F : List ScopeTable}

theorem widen (h : p.Settled a R Γ) (hw : Widens Γ Γ') : p.Settled a R Γ' :=
  ⟨h.blocks, fun id hid x hx => (h.exprs id hid x hx).widen hw⟩

theorem leave (h : p.Settled a R (F :: Γ)) : p.Settled a R Γ :=
  ⟨h.blocks, fun id hid x hx => (h.exprs id hid x hx).leave⟩

theorem empty (hblocks : p.blocks = [] := by rfl) (hexprs : p.mentioned = [] := by rfl) : p.Settled a R Γ :=
  ⟨fun _ h => (not_mem_nil (hblocks ▸ h)).elim, fun _ h => (not_mem_nil (hexprs ▸ h)).elim⟩

theorem both (h1 : p1.Settled a R Γ) (h2 : p2.Settled a R Γ) (hblocks : p.blocks = p1.blocks ++ p2.blocks)
    (hexprs : p.mentioned = p1.mentioned ++ p2.mentioned) : p.Settled a R Γ := by
  constructor
  · rw [hblocks]
    exact forall_mem_append.mpr ⟨h1.blocks, h2.blocks⟩
  · rw [hexprs]
    exact forall_mem_append.mpr ⟨h1.exprs, h2.exprs⟩

theorem expr (h : a.Settles R Γ id)
    (hparts : ∀ y ∈ (a.expr id).parts, ∀ x, a.Reaches y x → a.Settles R Γ x) :
    (Phrase.expr id).Settled a R Γ := by
  refine ⟨forall_mem_nil _, fun y hy => ?_⟩
  rw [mem_singleton.mp hy]
  exact h.of_parts hparts

end Phrase.Settled

theorem Means.settles (h : Means env a R Γ Δ p K) : p.Settled a R Γ := by
  induction h with
  | @literal _ _ id hl =>
    have hsub := Expr.isSubquery_of_isLiteral hl
    have hcolumn : (a.expr id).column? = none := by
      revert hl
      cases a.expr id with
      | column => exact fun hl => by cases hl
      | _ => exact fun _ => rfl
    refine .expr (.of_plain hcolumn hsub) fun y hy => ?_
    rw [Expr.parts_of_not_isSubquery hsub, Expr.children_of_isLiteral hl] at hy
    cases hy
  | @column Γ _ id c he _ hdepth hres =>
    have hsettles : a.Settles R Γ id := by
      refine ⟨fun ref href => ⟨c, Expr.column.inj (he.symm.trans href), hdepth, fun _ => hres⟩, fun q hq => ?_⟩
      rw [he] at hq
      cases hq
    refine .expr hsettles fun y hy => ?_
    rw [he] at hy
    cases hy
  | @subquery Γ _ id q _ he _ _ ih =>
    have hsettles : a.Settles R Γ id := by
      refine ⟨fun ref href => ?_, fun q' hq' => ?_⟩
      · rw [he] at href
        cases href
      · cases Expr.subquery.inj (he.symm.trans hq')
        exact ih.blocks
    refine .expr hsettles fun y hy => ?_
    rw [he] at hy
    exact ih.exprs y hy
  | node _ hcolumn hsub _ ih =>
    refine .expr (.of_plain hcolumn hsub) fun y hy => ?_
    rw [Expr.parts_of_not_isSubquery hsub] at hy
    exact ih.exprs y hy
  | exprsCons _ _ ih ih' => exact ih.both ih' rfl rfl
  | derived _ _ _ _ ih | list _ ih | fromSome _ ih | entry _ _ _ _ ih | unionSome _ ih =>
    exact ⟨ih.blocks, ih.exprs⟩
  | join hw _ _ _ _ ihl ihr ihc =>
    refine ⟨forall_mem_append.mpr ⟨ihl.blocks, ihr.blocks⟩, ?_⟩
    exact forall_mem_append.mpr ⟨forall_mem_append.mpr ⟨(ihl.widen hw).exprs, ihr.exprs⟩, ihc.exprs⟩
  | sourcesCons hw _ _ _ ih ih' => exact (ih.widen hw).both ih' rfl rfl
  | @entriesCons _ _ c _ _ _ _ _ ih ih' =>
    refine ih.both ih' ?_ ?_
    · show Cte.gatherAll blockProbe (c :: _) = _
      rw [Cte.gatherAll_cons]
      rfl
    · exact Cte.exprsAll_cons c _
  | block hdepth hF haliases hstars hkeys he hi hs hf hg ho ihe ihi ihs ihf ihg iho =>
    constructor
    · refine forall_mem_cons.mpr
        ⟨⟨env, _, _, _, .block hdepth hF haliases hstars hkeys he hi hs hf hg ho⟩, ?_⟩
      exact forall_mem_append.mpr ⟨ihe.blocks, ihs.blocks⟩
    · simp only [Phrase.mentioned, forall_mem_append]
      refine ⟨⟨⟨⟨⟨ihe.leave.exprs, ihi.leave.exprs⟩, ihs.leave.exprs⟩, ihf.leave.exprs⟩, ihg.leave.exprs⟩,
        fun x hx => ?_⟩
      exact (hkeys x hx).elim (iho.leave.exprs x) (ihi.leave.exprs x)
  | @query _ _ _ q _ _ _ _ ihb ihu => exact ihb.both ihu (q.gather_eq blockProbe) q.exprs_eq
  | _ => exact .empty

theorem Means.meant_of_isBlock {q : Select} {Δ' : EntryMap} (h : Means env a R Γ Δ (.query Δ' q) K)
    (hblock : a.IsBlock q block) : block.Meant a R := by
  rcases hblock with hblock | ⟨id, hid, x, query, hx, he, hblock⟩
  · exact h.settles.blocks block hblock
  · exact (h.settles.exprs id hid x hx).blocks query he block hblock

/-! ### Columns of a block in its own FROM clause -/

/-- **What a FROM item of a block is bound under**: tables of the item and of the items before it, and no
table is both. -/
theorem Select.Meant.means_item (h : block.Meant a R)
    (hs : Stands block.source.toList before item after) :
    before.Disjoint item.aliases ∧ ∃ env F Γ Δ K, block.depth = some Γ.length ∧
      (∀ t ∈ F, t.knownAs ∈ before ++ item.aliases) ∧ Means env a R (F :: Γ) Δ (.source item) K := by
  obtain ⟨env, Γ, Δ, _, h⟩ := h
  cases h with
  | block hdepth _ haliases _ _ _ _ hsource _ _ _ =>
    obtain ⟨_, hsources⟩ := hsource.sources_of_from
    obtain ⟨Γ', K', hw, hnot, hitem⟩ := hsources.item_of_stands hs
    refine ⟨hsources.disjoint_of_stands hs, ?_⟩
    cases hw with
    | @cons F _ Γ' _ hF hΓ =>
      refine ⟨env, F, Γ', _, K', by rw [hdepth, hΓ.length_eq], fun t ht => ?_, hitem⟩
      have hk := haliases t (hF ht)
      rw [← aliasesAll_toList, hs.aliasesAll_eq] at hk
      exact (mem_append.mp hk).resolve_right (hnot t ht)

/-- The column belongs to the tables of a block at the depth, and it occurs in a join condition or in the
query of a derived table of the FROM item. -/
def TableRef.HasColumn (item : TableRef) (a : Arena) (depth : Option Nat) (ref : ColumnRef) : Prop :=
  ∃ id ∈ item.exprs, ∃ x, a.Reaches id x ∧ a.expr x = .column ref ∧ (a.node x).depth = depth

theorem Select.Meant.sees (h : block.Meant a R)
    (hs : Stands block.source.toList before item after) {ref : ColumnRef}
    (href : item.HasColumn a block.depth ref) : ∃ k ∈ before ++ item.aliases, ref.table = some k := by
  obtain ⟨_, _, _, Γ, Δ, _, hblock, hF, hitem⟩ := h.means_item hs
  obtain ⟨id, hid, x, hx, he, hdepth⟩ := href
  obtain ⟨c, rfl, hrecorded, hres⟩ := (hitem.settles.exprs id hid x hx).column ref he
  have hc : c.depth = Γ.length := Option.some.inj (hrecorded.symm.trans (hdepth.trans hblock))
  rcases resolves_cons.mp (hres (by rw [hc]; exact Nat.lt_succ_self _)) with ⟨t, ht, hmem⟩ | hres
  · exact ⟨t.knownAs, hF t ht, congrArg some (ScopeTable.knownAs_of_mem_columns hmem)⟩
  · exact (Nat.lt_irrefl _ (hc ▸ hres.depth_lt)).elim

end SqlAnalysis
