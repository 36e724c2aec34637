import SqlAnalysis.Proofs.Binding.Evolution
import SqlAnalysis.Proofs.Binding.Scopes

/-!
# What bound statements mean

Which table each column of a bound statement belongs to and what each FROM item stands for, said of
the statement alone: neither a scope nor the order of the binding is left.

* **`Means.mono`**: what a part means does not change while other parts are bound.
-/

namespace SqlAnalysis

open Text List

variable {a : Arena} {e e' : Expr} {ids' : List ExprId}

/-! ### FROM items -/

mutual

def TableRef.aliases : TableRef → List Alias
  | .table base => [base.knownAs]
  | .derived _ knownAs => [knownAs]
  | .join _ left right _ => left.aliases ++ right.aliases
  | .list items => TableRef.aliasesAll items

def TableRef.aliasesAll : List TableRef → List Alias
  | [] => []
  | item :: rest => item.aliases ++ TableRef.aliasesAll rest

end

def TableRef.aliasesOpt : Option TableRef → List Alias
  | none => []
  | some item => item.aliases

/-- The alias is in lower case and has a serial, as binding leaves it. -/
def Alias.Settled (k : Alias) : Prop := lowercase k.name = k.name ∧ k.serial.isSome = true

/-- What a name in FROM stands for, given the WITH entries in force: the entry of that name if the
name is not qualified, and otherwise a table of the catalog. -/
inductive Denotes (env : Accessor) (Δ : EntryMap) (name : ObjectName) : TableSource → Prop where
  | entry {columns : List DerivedColumn} :
    name.schema = none → Δ name.name = some (columns.map (·.knownAs.serial)) →
    Denotes env Δ name (.derived columns)
  | table {table : Oid × Schema} :
    (name.schema = none → Δ name.name = none) → env.requireTable name = .ok table →
    Denotes env Δ name (.regular env.databaseId table.1 table.2)

/-- A table reference that was made visible. -/
structure Reference where
  table : ScopeTable
  /-- Whether FROM has it by a name; otherwise it is a derived table. -/
  named : Bool

/-- What has been given out so far. -/
structure Registry where
  /-- Every table reference that was made visible. -/
  references : List Reference
  /-- The columns of WITH entries have smaller numbers. -/
  nextTemp : Nat

/-- More has been given out. -/
structure Registry.Extends (R R' : Registry) : Prop where
  references : R.references ⊆ R'.references
  nextTemp : R.nextTemp ≤ R'.nextTemp

theorem Registry.Extends.refl (R : Registry) : R.Extends R := ⟨Subset.refl _, le_rfl⟩

/-- The columns of an entry have numbers of their own: no entry in force before it has them. -/
def Cte.Numbered (c : Cte) (Δ : EntryMap) (nextTemp : Nat) : Prop :=
  ∀ serial ∈ c.columns.map (·.serial), ∃ n, serial = some n ∧ n < nextTemp ∧
    ∀ name serials, Δ name = some serials → some n ∉ serials

/-! ### Parts of statements -/

/-- A part of a bound statement. -/
inductive Phrase where
  | expr (id : ExprId)
  | exprs (ids : List ExprId)
  | entry (c : Cte)
  | entries (cs : List Cte)
  | source (item : TableRef)
  | sources (items : List TableRef)
  | from_ (source : Option TableRef)
  /-- The further branches of a UNION. -/
  | union (right : Option Select)
  /-- A query block without its UNION. -/
  | block (q : Select)
  /-- A query.  Its further branches see the WITH entries `Δ` instead of those of the first one. -/
  | query (Δ : EntryMap) (q : Select)

/-- A part of a bound statement inside blocks with the tables `Γ`, innermost first, under the WITH
entries `Δ`.  The list at the end has the nodes of the part other than literals and columns, through
operands and through the queries of subqueries. -/
inductive Means (env : Accessor) (a : Arena) (R : Registry) :
    List (List ScopeTable) → EntryMap → Phrase → List ExprId → Prop where
  | literal {Γ Δ id} : (a.expr id).isLiteral = true → Means env a R Γ Δ (.expr id) []
  | column {Γ Δ id c} :
    a.expr id = .column c.ref → c.ref.isResolved = true → (a.node id).depth = some c.depth →
    Resolves Γ c → Means env a R Γ Δ (.expr id) []
  | subquery {Γ Δ id q K} :
    a.expr id = .subquery q → q.depth.isSome = true → Means env a R Γ Δ (.query Δ q) K →
    Means env a R Γ Δ (.expr id) (id :: K)
  | node {Γ Δ id K} :
    id < a.size → (a.expr id).column? = none → (a.expr id).isSubquery = false →
    Means env a R Γ Δ (.exprs (a.expr id).children) K → Means env a R Γ Δ (.expr id) (id :: K)
  | exprsNil {Γ Δ} : Means env a R Γ Δ (.exprs []) []
  | exprsCons {Γ Δ id ids K K'} :
    Means env a R Γ Δ (.expr id) K → Means env a R Γ Δ (.exprs ids) K' →
    Means env a R Γ Δ (.exprs (id :: ids)) (K ++ K')
  | table {F Γ Δ base t} :
    t ∈ F → ⟨t, true⟩ ∈ R.references → t.knownAs = base.knownAs → Denotes env Δ base.name t.source →
    base.name.normalize = base.name → base.knownAs.Settled →
    Means env a R (F :: Γ) Δ (.source (.table base)) []
  | derived {F Γ Δ q knownAs columns K} :
    ⟨knownAs, .derived columns⟩ ∈ F → ⟨⟨knownAs, .derived columns⟩, false⟩ ∈ R.references →
    knownAs.Settled → Means env a R (F :: Γ) Δ (.query Δ q) K →
    Means env a R (F :: Γ) Δ (.source (.derived q knownAs)) K
  /-- The left operand is bound before the tables of the right one are visible. -/
  | join {Γ Γ1 Δ kind left right condition K K' K''} :
    Widens Γ1 Γ → (∀ t ∈ Γ1.headD [], t.knownAs ∉ right.aliases) → Means env a R Γ1 Δ (.source left) K →
    Means env a R Γ Δ (.source right) K' → Means env a R Γ Δ (.exprs condition.toList) K'' →
    Means env a R Γ Δ (.source (.join kind left right condition)) (K ++ K' ++ K'')
  | list {Γ Δ items K} :
    Means env a R Γ Δ (.sources items) K → Means env a R Γ Δ (.source (.list items)) K
  | sourcesNil {Γ Δ} : Means env a R Γ Δ (.sources []) []
  | sourcesCons {Γ Γ1 Δ item rest K K'} :
    Widens Γ1 Γ → (∀ t ∈ Γ1.headD [], t.knownAs ∉ TableRef.aliasesAll rest) →
    Means env a R Γ1 Δ (.source item) K → Means env a R Γ Δ (.sources rest) K' →
    Means env a R Γ Δ (.sources (item :: rest)) (K ++ K')
  | fromNone {Γ Δ} : Means env a R Γ Δ (.from_ none) []
  | fromSome {Γ Δ item K} :
    Means env a R Γ Δ (.source item) K → Means env a R Γ Δ (.from_ (some item)) K
  | entry {Γ Δ c K} :
    c.Numbered Δ R.nextTemp → c.columns.length = c.query.items.length → lowercase c.name = c.name →
    Means env a R Γ Δ (.query (if c.isInductive then c.define Δ else Δ) c.query) K →
    Means env a R Γ Δ (.entry c) K
  | entriesNil {Γ Δ} : Means env a R Γ Δ (.entries []) []
  | entriesCons {Γ Δ c cs K K'} :
    Means env a R Γ Δ (.entry c) K → Means env a R Γ (c.define Δ) (.entries cs) K' →
    Means env a R Γ Δ (.entries (c :: cs)) (K ++ K')
  | unionNone {Γ Δ} : Means env a R Γ Δ (.union none) []
  | unionSome {Γ Δ right K} :
    Means env a R Γ Δ (.query Δ right) K → Means env a R Γ Δ (.union (some right)) K
  /-- A sort key is an expression of its own, one of `sorted`, or an item of the select list. -/
  | block {F Γ Δ q sorted K1 K2 K3 K4 K5 K6} :
    q.depth = some Γ.length → F ⊆ R.references.map (·.table) →
    (∀ t ∈ F, t.knownAs ∈ TableRef.aliasesOpt q.source) →
    (∀ id ∈ q.items, ∀ table, ¬IsStar (a.expr id) table) →
    (∀ x ∈ (q.ordering.getD []).map (·.expr), x ∈ sorted ∨ x ∈ q.items) →
    Means env a R (F :: Γ) Δ (.entries q.ctes) K1 →
    Means env a R (F :: Γ) (Cte.defineAll q.ctes Δ) (.exprs q.items) K2 →
    Means env a R (F :: Γ) (Cte.defineAll q.ctes Δ) (.from_ q.source) K3 →
    Means env a R (F :: Γ) (Cte.defineAll q.ctes Δ) (.exprs q.filter.toList) K4 →
    Means env a R (F :: Γ) (Cte.defineAll q.ctes Δ)
      (.exprs ((q.grouping.map (·.exprs)).getD [])) K5 →
    Means env a R (F :: Γ) (Cte.defineAll q.ctes Δ) (.exprs sorted) K6 →
    Means env a R Γ Δ (.block q) (K1 ++ K2 ++ K3 ++ K4 ++ K5 ++ K6)
  | query {Γ Δ Δ' q K K'} :
    Means env a R Γ Δ (.block q) K → Means env a R Γ (Cte.defineAll q.ctes Δ') (.union q.union) K' →
    Means env a R Γ Δ (.query Δ' q) (K ++ K')

/-! ### Later stores -/

theorem IsStar.of_evolves {table : Option String} (hstar : IsStar e' table) (h : KindEvolves a e e') :
    IsStar e table := by
  cases hstar with
  | all =>
    cases h
    exact .all
  | table =>
    cases h
    exact .table

theorem KindEvolves.column?_eq_none (h : KindEvolves a e e') (he : e.column? = none) :
    e'.column? = none := by
  have hnone := h.isSome_column?
  rw [he] at hnone
  exact Option.isNone_iff_eq_none.mp (Option.isSome_eq_false_iff.mp hnone)

theorem KindEvolves.forall₂_children (h : KindEvolves a e e') :
    Forall₂ (fun c c' => c' = c ∨ (a.expr c').isLiteral = true) e.children e'.children := by
  cases h with
  | compare _ hl hr => exact .cons hl (.cons hr .nil)
  | _ => exact forall₂_same.mpr fun _ _ => Or.inl rfl

variable {env : Accessor} {a' : Arena} {R R' : Registry} {Γ Γ' : List (List ScopeTable)} {Δ : EntryMap}
  {ids K : List ExprId} {q : Select} {p : Phrase}

theorem Arena.lt_size_of_expr {id : ExprId} (h : a.expr id ≠ .connect .and []) : id < a.size :=
  Nat.lt_of_not_le fun hid => h (expr_of_size_le hid)

theorem Means.lt_size (h : Means env a R Γ Δ (.exprs ids) K) {id : ExprId} (hid : id ∈ ids) :
    id < a.size := by
  induction ids generalizing K with
  | nil => cases hid
  | cons _ _ ih =>
    cases h with
    | exprsCons hx hrest =>
      rcases mem_cons.mp hid with rfl | hid
      · cases hx with
        | literal hl => exact Arena.lt_size_of_isLiteral hl
        | column he | subquery he => exact Arena.lt_size_of_expr (by rw [he]; exact Expr.noConfusion)
        | node hlt => exact hlt
      · exact ih hrest hid

theorem Means.exprs_of_forall (h : ∀ id ∈ ids, Means env a R Γ Δ (.expr id) []) :
    Means env a R Γ Δ (.exprs ids) [] := by
  induction ids with
  | nil => exact .exprsNil
  | cons _ _ ih =>
    obtain ⟨hid, hids⟩ := forall_mem_cons.mp h
    exact .exprsCons hid (ih hids)

theorem Means.append {K' : List ExprId}
    (h : Means env a R Γ Δ (.exprs ids) K) (h' : Means env a R Γ Δ (.exprs ids') K') :
    Means env a R Γ Δ (.exprs (ids ++ ids')) (K ++ K') := by
  induction ids generalizing K with
  | nil =>
    cases h
    exact h'
  | cons _ _ ih =>
    cases h with
    | exprsCons hid hrest =>
      rw [append_assoc]
      exact .exprsCons hid (ih hrest)

theorem Means.split (h : Means env a R Γ Δ (.exprs (ids ++ ids')) K) :
    ∃ K1 K2, K = K1 ++ K2 ∧ Means env a R Γ Δ (.exprs ids) K1 ∧ Means env a R Γ Δ (.exprs ids') K2 := by
  induction ids generalizing K with
  | nil => exact ⟨[], K, rfl, .exprsNil, h⟩
  | cons _ _ ih =>
    cases h with
    | exprsCons hid hrest =>
      obtain ⟨K1, K2, rfl, h1, h2⟩ := ih hrest
      exact ⟨_ ++ K1, K2, (append_assoc ..).symm, .exprsCons hid h1, h2⟩

theorem Means.of_mem {x : ExprId} (h : Means env a R Γ Δ (.exprs ids) K) (hx : x ∈ ids) :
    ∃ K', K'.Sublist K ∧ Means env a R Γ Δ (.expr x) K' := by
  induction ids generalizing K with
  | nil => cases hx
  | cons _ _ ih =>
    cases h with
    | exprsCons hid hrest =>
      rcases mem_cons.mp hx with rfl | hx
      · exact ⟨_, sublist_append_left _ _, hid⟩
      · obtain ⟨K', hsub, hmeans⟩ := ih hrest hx
        exact ⟨K', hsub.trans (sublist_append_right _ _), hmeans⟩

theorem Means.exprs_of_forall₂ (h : Means env a R Γ Δ (.exprs ids) K)
    (hids : Forall₂ (fun c c' => c' = c ∨ (a.expr c').isLiteral = true) ids ids') :
    ∃ K', K'.Sublist K ∧ Means env a R Γ Δ (.exprs ids') K' := by
  induction hids generalizing K with
  | nil => exact ⟨K, .refl _, h⟩
  | cons hc _ ih =>
    cases h with
    | @exprsCons _ _ _ _ K1 _ hid hrest =>
      obtain ⟨K', hsub, hrest⟩ := ih hrest
      rcases hc with rfl | hliteral
      · exact ⟨K1 ++ K', hsub.append_left _, .exprsCons hid hrest⟩
      · exact ⟨K', hsub.trans (sublist_append_right _ _), .exprsCons (.literal hliteral) hrest⟩

theorem Cte.Numbered.mono {c : Cte} {n n' : Nat} (h : c.Numbered Δ n) (hn : n ≤ n') :
    c.Numbered Δ n' := fun serial hserial => by
  obtain ⟨m, hm, hlt, hnew⟩ := h serial hserial
  exact ⟨m, hm, hlt.trans_le hn, hnew⟩

theorem Means.mono (h : Means env a R Γ Δ p K) (hR : R.Extends R') (hΓ : Widens Γ Γ')
    (ha : Evolves a a') :
    ∃ K', K'.Sublist K ∧ Means env a' R' Γ' Δ p K' := by
  induction h generalizing Γ' with
  | literal hid => exact ⟨[], .refl _, .literal (ha.isLiteral hid)⟩
  | column he hres hdepth hc =>
    refine ⟨[], .refl _, .column (ha.column he hres) hres ?_ (hc.widen hΓ)⟩
    rw [ha.depth he hres, hdepth]
  | subquery he hd _ ih =>
    obtain ⟨_, hsub, ih⟩ := ih hΓ
    exact ⟨_, hsub.cons_cons _, .subquery (ha.bound he hd) hd ih⟩
  | @node _ _ id _ hlt hcolumn hsub _ ih =>
    obtain ⟨_, hsub1, ih⟩ := ih hΓ
    have hkind := ha.kind id hlt
    obtain ⟨_, hsub2, hchildren⟩ := ih.exprs_of_forall₂ hkind.forall₂_children
    refine ⟨_, (hsub2.trans hsub1).cons_cons _, .node (hlt.trans_le ha.size_le)
      (hkind.column?_eq_none hcolumn) ?_ hchildren⟩
    rw [hkind.isSubquery, hsub]
  | exprsNil => exact ⟨[], .refl _, .exprsNil⟩
  | exprsCons _ _ ih ih' =>
    obtain ⟨_, hsub, ih⟩ := ih hΓ
    obtain ⟨_, hsub', ih'⟩ := ih' hΓ
    exact ⟨_, hsub.append hsub', .exprsCons ih ih'⟩
  | table ht hr hknown hdenotes hname hsettled =>
    cases hΓ with
    | cons hF _ =>
      exact ⟨[], .refl _, .table (hF ht) (hR.references hr) hknown hdenotes hname hsettled⟩
  | derived ht hr hsettled _ ih =>
    obtain ⟨_, hsub, ih⟩ := ih hΓ
    cases hΓ with
    | cons hF _ => exact ⟨_, hsub, .derived (hF ht) (hR.references hr) hsettled ih⟩
  | join hleft hnot _ _ _ ihl ihr ihc =>
    obtain ⟨_, hl, ihl⟩ := ihl (.refl _)
    obtain ⟨_, hr, ihr⟩ := ihr hΓ
    obtain ⟨_, hc, ihc⟩ := ihc hΓ
    exact ⟨_, (hl.append hr).append hc, .join (hleft.trans hΓ) hnot ihl ihr ihc⟩
  | list _ ih =>
    obtain ⟨_, hsub, ih⟩ := ih hΓ
    exact ⟨_, hsub, .list ih⟩
  | sourcesNil => exact ⟨[], .refl _, .sourcesNil⟩
  | sourcesCons hfirst hnot _ _ ih ih' =>
    obtain ⟨_, hsub, ih⟩ := ih (.refl _)
    obtain ⟨_, hsub', ih'⟩ := ih' hΓ
    exact ⟨_, hsub.append hsub', .sourcesCons (hfirst.trans hΓ) hnot ih ih'⟩
  | fromNone => exact ⟨[], .refl _, .fromNone⟩
  | fromSome _ ih =>
    obtain ⟨_, hsub, ih⟩ := ih hΓ
    exact ⟨_, hsub, .fromSome ih⟩
  | entry hnumbered hlen hname _ ih =>
    obtain ⟨_, hsub, ih⟩ := ih hΓ
    exact ⟨_, hsub, .entry (hnumbered.mono hR.nextTemp) hlen hname ih⟩
  | entriesNil => exact ⟨[], .refl _, .entriesNil⟩
  | entriesCons _ _ ih ih' =>
    obtain ⟨_, hsub, ih⟩ := ih hΓ
    obtain ⟨_, hsub', ih'⟩ := ih' hΓ
    exact ⟨_, hsub.append hsub', .entriesCons ih ih'⟩
  | unionNone => exact ⟨[], .refl _, .unionNone⟩
  | unionSome _ ih =>
    obtain ⟨_, hsub, ih⟩ := ih hΓ
    exact ⟨_, hsub, .unionSome ih⟩
  | @block F _ _ _ _ _ _ _ _ _ _ hdepth hF haliases hstars hkeys _ hitems _ _ _ _ ihe ihi ihs ihf ihg iho =>
    have hΓ' : Widens (F :: _) (F :: Γ') := .cons (Subset.refl _) hΓ
    obtain ⟨_, he, ihe⟩ := ihe hΓ'
    obtain ⟨_, hi, ihi⟩ := ihi hΓ'
    obtain ⟨_, hs, ihs⟩ := ihs hΓ'
    obtain ⟨_, hf, ihf⟩ := ihf hΓ'
    obtain ⟨_, hg, ihg⟩ := ihg hΓ'
    obtain ⟨_, ho, iho⟩ := iho hΓ'
    refine ⟨_, ((((he.append hi).append hs).append hf).append hg).append ho,
      .block ?_ (Subset.trans hF (map_subset _ hR.references)) haliases ?_ hkeys ihe ihi ihs ihf ihg
        iho⟩
    · rw [hdepth, hΓ.length_eq]
    · intro id hid table hstar
      exact hstars id hid table (hstar.of_evolves (ha.kind id (hitems.lt_size hid)))
  | query _ _ ihb ihu =>
    obtain ⟨_, hb, ihb⟩ := ihb hΓ
    obtain ⟨_, hu, ihu⟩ := ihu hΓ
    exact ⟨_, hb.append hu, .query ihb ihu⟩

theorem Means.evolve (h : Means env a R Γ Δ p K) (ha : Evolves a a') :
    ∃ K', K'.Sublist K ∧ Means env a' R Γ Δ p K' :=
  h.mono (.refl R) (.refl Γ) ha

theorem Means.widen (h : Means env a R Γ Δ p K) (hΓ : Widens Γ Γ') :
    ∃ K', K'.Sublist K ∧ Means env a R Γ' Δ p K' :=
  h.mono (.refl R) hΓ (.refl a)

theorem Means.of_query {Δ' : EntryMap} (h : Means env a R Γ Δ (.query Δ' q) K) :
    ∃ K1 K2, K = K1 ++ K2 ∧ Means env a R Γ Δ (.block q) K1 ∧
      Means env a R Γ (Cte.defineAll q.ctes Δ') (.union q.union) K2 := by
  cases h with
  | query hblock hunion => exact ⟨_, _, rfl, hblock, hunion⟩

theorem Means.entries_of_block (h : Means env a R Γ Δ (.block q) K) :
    ∃ F K', Means env a R (F :: Γ) Δ (.entries q.ctes) K' := by
  cases h with
  | block _ _ _ _ _ hentries => exact ⟨_, _, hentries⟩

theorem Means.withUnion (h : Means env a R Γ Δ (.block q) K) (union : Option Select) :
    Means env a R Γ Δ (.block { q with union := union }) K := by
  cases h with
  | block hdepth hF haliases hstars hkeys he hi hs hf hg ho =>
    exact .block hdepth hF haliases hstars hkeys he hi hs hf hg ho

end SqlAnalysis
