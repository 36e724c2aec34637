import SqlAnalysis.Proofs.Binding.BlockResolution
import SqlAnalysis.Proofs.Plan.Account

/-!
# Where the parts of a plan come from

The plan of a bound statement is built step by step, and every step keeps its account: the scans stand
for the names in FROM, the columns of the query blocks are within reach, and the filters are the WHERE
conditions.

* **`decorrelated_step`**: a subquery that becomes a join, and the condition that it stood in.
* **`Lowers.accounted`**: every step keeps its account.
* **`exists_account`**: so does the plan of a whole SELECT.
-/

namespace SqlAnalysis

open LowerM List Arena
open Arena (Keeps)

variable {c first : ExprId} {more : List ExprId} {use : SubqueryUse} {q : Select}
  {right input out : Lowered} {a2 : Arena} {depth : Nat} {aggregated : Plan}
  {bodies : List (VisibleCte × Lowered)}

/-- What the clauses of a query block mean, with the tables `F` of the block. -/
structure BlockMeans (env : Accessor) (bound : Arena) (R : Registry) (F : List ScopeTable)
    (Γ : List (List ScopeTable)) (Δ : EntryMap) (q : Select) (Ki Ks Kf Kg Ko : List ExprId) : Prop where
  whole : q.Meant bound R
  depth : q.depth = some Γ.length
  registered : F ⊆ R.references.map (·.table)
  aliases : ∀ t ∈ F, t.knownAs ∈ TableRef.aliasesOpt q.source
  items : Means env bound R (F :: Γ) Δ (.exprs q.items) Ki
  source : Means env bound R (F :: Γ) Δ (.from_ q.source) Ks
  filter : Means env bound R (F :: Γ) Δ (.exprs q.filter.toList) Kf
  grouping : Means env bound R (F :: Γ) Δ (.exprs ((q.grouping.map (·.exprs)).getD [])) Kg
  ordering : ∃ sorted, (∀ x ∈ (q.ordering.getD []).map (·.expr), x ∈ sorted ∨ x ∈ q.items) ∧
    Means env bound R (F :: Γ) Δ (.exprs sorted) Ko

/-- What is known after a step, given what the part means and which WITH entries are in force. -/
def LowerTask.Accounted (env : Accessor) (bound : Arena) (R : Registry) (a a' : Arena) :
    LowerTask → Prop
  | .query ctes own right q out => ∀ Γ Δ Δ' K, Means env bound R Γ Δ (.query Δ' q) K →
    Matches R.nextTemp ctes own Δ → (q.union.isSome = true → Matches R.nextTemp ctes right Δ') →
    K.Nodup → Ready bound K a →
    Keeps K a a' ∧ Account bound a' R Γ K [] out ∧
      ∀ x ∈ q.items, Placed bound a' R Γ out.plan.scans K x
  | .entries ctes own cs bodies after => ∀ Γ Δ K, Means env bound R Γ Δ (.entries cs) K →
    Matches R.nextTemp ctes own Δ → K.Nodup → Ready bound K a →
    Keeps K a a' ∧ Extended R.nextTemp ctes cs after ∧
      ∀ b ∈ bodies, Account bound a' R Γ K [] b.2
  | .block ctes own q out => ∀ F Γ Δ Ki Ks Kf Kg Ko, BlockMeans env bound R F Γ Δ q Ki Ks Kf Kg Ko →
    Matches R.nextTemp ctes own Δ → (Ki ++ Ks ++ Kf ++ Kg ++ Ko).Nodup →
    Ready bound (Ki ++ Ks ++ Kf ++ Kg ++ Ko) a →
    Keeps (Ki ++ Ks ++ Kf ++ Kg ++ Ko) a a' ∧
      Account bound a' R (F :: Γ) (Ki ++ Ks ++ Kf ++ Kg ++ Ko) [] out ∧
      Sees R F out.plan.scans ∧
      ∀ x ∈ q.items, Placed bound a' R (F :: Γ) out.plan.scans (Ki ++ Ks ++ Kf ++ Kg ++ Ko) x
  | .from_ ctes own clause out => ∀ Γ Δ K, Means env bound R Γ Δ (.from_ clause) K →
    Matches R.nextTemp ctes own Δ → K.Nodup → Ready bound K a →
    Keeps K a a' ∧ Account bound a' R Γ K (NameUse.all own (TableRef.namesOpt clause)) out
  | .source ctes own item out => ∀ Γ Δ K, Means env bound R Γ Δ (.source item) K →
    Matches R.nextTemp ctes own Δ → K.Nodup → Ready bound K a →
    Keeps K a a' ∧ Account bound a' R Γ K (NameUse.all own item.names) out
  | .sources ctes own input items out => ∀ Γ Δ K0 K uses, Means env bound R Γ Δ (.sources items) K →
    Matches R.nextTemp ctes own Δ → (K0 ++ K).Nodup → Ready bound K a →
    Account bound a R Γ K0 uses input →
    Keeps K a a' ∧
      Account bound a' R Γ (K0 ++ K) (uses ++ NameUse.all own (TableRef.namesAll items)) out
  | .where_ ctes own filter input out => ∀ Γ Δ K0 K uses,
    Means env bound R Γ Δ (.exprs filter.toList) K →
    Matches R.nextTemp ctes own Δ → (K0 ++ K).Nodup → Ready bound K a →
    Account bound a R Γ K0 uses input → input.plan.isAggregate = false →
    Keeps K a a' ∧ ∃ p, Account bound a' R Γ (K0 ++ K) uses { out with plan := p } ∧
      input.plan.scans ⊆ p.scans ∧
      ((filter = none ∧ out.plan = p) ∨ ∃ f, filter = some f ∧ p.isAggregate = false ∧
        out.plan = .filter (a'.predicates f) p ∧
        ∀ c ∈ a'.conjuncts f, Placed bound a' R Γ p.scans K c)
  | .conjuncts ctes own cs input out => ∀ Γ Δ K0 K uses, Means env bound R Γ Δ (.exprs cs) K →
    Matches R.nextTemp ctes own Δ → (K0 ++ K).Nodup → Ready bound K a →
    Account bound a R Γ K0 uses input →
    Keeps K a a' ∧ Account bound a' R Γ (K0 ++ K) uses out ∧
      ∀ c ∈ cs, Placed bound a' R Γ out.plan.scans K c

variable {env : Accessor} {bound a a1 a3 : Arena} {R : Registry} {Γ : List (List ScopeTable)}
  {Δ : EntryMap} {K : List ExprId}

/-! ### Subqueries -/

theorem decorrelated_step (h : Means env bound R Γ Δ (.expr c) K) (hnodup : K.Nodup)
    (hr : Ready bound K a) (huse : subqueryUse a c = .ok use) (hq : a.query? use.subquery = some q)
    (hitems : q.items = first :: more)
    (hquery : ∀ Kq, Means env bound R Γ Δ (.query Δ q) Kq → Kq.Nodup →
      Ready bound Kq (a.setQuery use.subquery {}) →
      Keeps Kq (a.setQuery use.subquery {}) a1 ∧ Account bound a1 R Γ Kq [] right ∧
        ∀ x ∈ q.items, Placed bound a1 R Γ right.plan.scans Kq x)
    (ha3 : a3 = (a1.setQuery use.subquery q).update c fun n =>
      { n with kind := decorrelatedPredicate use.subquery first n.kind }) (ht1 : Tracks bound a1)
    (ht3 : Tracks bound a3) :
    Keeps K a a3 ∧ Account bound a3 R Γ K [] right ∧ Placed bound a3 R Γ right.plan.scans K c := by
  obtain ⟨Kq, Ko, hdistinct, hsub, hmeans, hothers⟩ := h.of_use hr hnodup huse hq
  simp only [nodup_cons, mem_cons, mem_append, not_or, nodup_append'] at hdistinct
  obtain ⟨⟨hne, hcq, hco⟩, ⟨hsq, hso⟩, hKq, -, hdisjoint⟩ := hdistinct
  have hc : c ∈ K := hsub mem_cons_self
  have hKq_sub : Kq ⊆ K := fun x hx => hsub (by simp [hx])
  have hKo_sub : Ko ⊆ K := fun x hx => hsub (by simp [hx])
  have hisSub := isSubquery_of_query? hq
  -- the query is taken out and its plan is built
  have hk0 : Keeps [use.subquery] a (a.setQuery use.subquery {}) := .setQuery hisSub {}
  obtain ⟨hk1, haccount, hplaced⟩ := hquery Kq hmeans hKq <| (hr.mono hKq_sub).keep hk0
    (singleton_disjoint.mpr hsq) (hr.tracks.setQuery hisSub (.inl rfl))
  -- the query is put back and the condition rewritten
  have hk2 : Keeps [use.subquery] a1 (a1.setQuery use.subquery q) := by
    refine .setQuery ?_ q
    rw [ht1.isSubquery, ← hr.tracks.isSubquery]
    exact hisSub
  have hsame : (a1.setQuery use.subquery q).expr c = a.expr c := by
    rw [expr_setQuery_of_ne q hne, hk1 c (.inl hcq), expr_setQuery_of_ne _ hne]
  have hleaf := isLeaf_of_use huse
  have hk3 : Keeps [c] (a1.setQuery use.subquery q) a3 := by
    rw [ha3]
    exact .update (by rw [hsame, hleaf]) _
  have hexpr : a3.expr c = decorrelatedPredicate use.subquery first (a.expr c) := by
    rw [ha3, expr, node_update_self, ← hsame]
    · rfl
    · rw [size_setQuery, ht1.size, ← hr.tracks.size]
      exact lt_size_of_use huse
  have hk23 : Keeps [c, use.subquery] a1 a3 := (hk2.mono (by simp)).trans (hk3.mono (by simp))
  have hdisjoint23 : [c, use.subquery].Disjoint Kq := by
    rw [disjoint_cons_left, singleton_disjoint]
    exact ⟨hcq, hsq⟩
  have hk : Keeps (c :: use.subquery :: Kq) a a3 :=
    ((hk0.mono (by simp)).trans (hk1.mono (by simp))).trans (hk23.mono (by simp))
  have hdisjoint_o : (c :: use.subquery :: Kq).Disjoint Ko := by
    rw [disjoint_cons_left, disjoint_cons_left]
    exact ⟨hco, hso, hdisjoint⟩
  refine ⟨hk.mono ?_, (haccount.keep hk23 hdisjoint23 ht1 ht3).mono hKq_sub, .node hc ?_ fun d hd => ?_⟩
  · exact Subset.trans (cons_subset_cons _ (cons_subset_cons _ (subset_append_left _ _))) hsub
  · rw [hexpr]
    exact column?_decorrelatedPredicate _ _ _ hleaf
  · rw [hexpr] at hd
    rcases children_of_use huse hd with rfl | ⟨hd, hd'⟩
    · have hfirst := hplaced d (hitems ▸ mem_cons_self)
      exact (hfirst.keep hk23 hdisjoint23).mono (Subset.refl _) hKq_sub
    · have hplaced := placed_of_means (hothers d hd hd') (hr.mono hKo_sub) right.plan.scans
      exact (hplaced.keep hk hdisjoint_o).mono (Subset.refl _) hKo_sub

/-! ### Steps -/

namespace LowerTask.Accounted

variable {ctes after : List VisibleCte} {own names : List String}

theorem conjunctsJoin {cs : List ExprId} (huse : subqueryUse a c = .ok use)
    (hq : a.query? use.subquery = some q) (hitems : q.items = first :: more)
    (ha3 : a3 = (a1.setQuery use.subquery q).update c fun n =>
      { n with kind := decorrelatedPredicate use.subquery first n.kind })
    (htracks : Tracks bound a → Tracks bound a1 ∧ Tracks bound a3 ∧ Tracks bound a2)
    (hscans : (Lowered.combine (.join use.join [] input.plan right.plan) input right).plan.scans ⊆
      out.plan.scans)
    (ihq : LowerTask.Accounted env bound R (a.setQuery use.subquery {}) a1 (.query ctes own own q right))
    (ih : LowerTask.Accounted env bound R a3 a2 (.conjuncts ctes own cs
      (.combine (.join use.join [] input.plan right.plan) input right) out)) :
    LowerTask.Accounted env bound R a a2 (.conjuncts ctes own (c :: cs) input out) := by
  intro Γ Δ K0 K uses hmeans hmatch hnodup hr hinput
  cases hmeans with
  | @exprsCons _ _ _ _ Kc Kr hc hrest =>
    simp only [nodup_append', disjoint_append_right] at hnodup
    obtain ⟨hK0, ⟨hKc, hKr, hcr⟩, h0c, h0r⟩ := hnodup
    obtain ⟨ht1, ht3, _⟩ := htracks hr.tracks
    obtain ⟨hk, hright, hplaced⟩ := decorrelated_step hc hKc (hr.mono (subset_append_left _ _)) huse
      hq hitems (fun Kq hquery hKq hready => ihq Γ Δ Δ Kq hquery hmatch (fun _ => hmatch) hKq hready)
      ha3 ht1 ht3
    have hinput3 := (hinput.keep hk h0c.symm hr.tracks ht3).mono (subset_append_left K0 Kc)
    have hboth : Account bound a3 R Γ (K0 ++ Kc) (uses ++ [])
        (.combine (.join use.join [] input.plan right.plan) input right) :=
      hinput3.combine (hright.mono (subset_append_right K0 Kc)) rfl rfl rfl
        (forall_mem_nil _)
    rw [append_nil] at hboth
    obtain ⟨hk', haccount, hconditions⟩ := ih Γ Δ (K0 ++ Kc) Kr uses hrest hmatch
      (by
        simp only [nodup_append', disjoint_append_left]
        exact ⟨⟨hK0, hKc, h0c⟩, hKr, h0r, hcr⟩)
      ((hr.mono (subset_append_right _ _)).keep hk hcr ht3) hboth
    refine ⟨(hk.mono (subset_append_left _ _)).trans (hk'.mono (subset_append_right _ _)), ?_, ?_⟩
    · rw [← append_assoc]
      exact haccount
    · refine forall_mem_cons.mpr ⟨?_, fun d hd => ?_⟩
      · refine (hplaced.keep hk' hcr.symm).mono ?_ (subset_append_left _ _)
        rw [Lowered.combine, Plan.scans_join] at hscans
        exact Subset.trans (subset_append_right _ _) hscans
      · exact (hconditions d hd).mono (Subset.refl _) (subset_append_right _ _)

theorem finish_reads {input plan : Plan} (hagg : lowerAggregation a depth q input = .ok aggregated)
    (hlimit : lowerLimit q aggregated = .ok plan) :
    plan.scans = input.scans ∧ plan.wheres = input.wheres := by
  have haggregate (keys : List ExprId) :
      (Plan.aggregate keys input).scans = input.scans ∧
        (Plan.aggregate keys input).wheres = input.wheres := by
    rw [Plan.scans_of_children rfl, Plan.wheres_of_children rfl]
    simp [Plan.children]
  have haggregated : aggregated.scans = input.scans ∧ aggregated.wheres = input.wheres := by
    rcases lowerAggregation_ok hagg with rfl | ⟨keys, _, rfl⟩ | ⟨g, having, _, _, _, rfl⟩
    · exact ⟨rfl, rfl⟩
    · exact haggregate keys
    · rw [Plan.scans_of_children rfl, Plan.wheres_of_children rfl]
      simpa [Plan.children] using haggregate g.keys
  rcases lowerLimit_ok hlimit with ⟨_, rfl⟩ | ⟨count, offset, rfl⟩
  · exact haggregated
  · rw [Plan.scans_of_children rfl, Plan.wheres_of_children rfl]
    simpa [Plan.children] using haggregated

theorem finish_clauses {input plan : Plan}
    (hagg : lowerAggregation a depth q input = .ok aggregated)
    (hlimit : lowerLimit q aggregated = .ok plan) {x : ExprId} (hx : x ∈ plan.clauses) :
    x ∈ input.clauses ∨ x ∈ q.items ∨ x ∈ (q.grouping.map (·.exprs)).getD [] ∨
      (∃ having ∈ (q.grouping.map (·.exprs)).getD [], x ∈ a.conjuncts having) ∨
      x ∈ (q.ordering.getD []).map (·.expr) := by
  have haggregate {keys : List ExprId} (hkeys : keys ⊆ q.items ++ (q.grouping.map (·.exprs)).getD [])
      (hx : x ∈ (Plan.aggregate keys input).clauses) :
      x ∈ input.clauses ∨ x ∈ q.items ∨ x ∈ (q.grouping.map (·.exprs)).getD [] := by
    rw [Plan.clauses_eq] at hx
    simp only [Plan.ownClauses, Plan.children, flatMap_cons, flatMap_nil, append_nil,
      mem_append] at hx
    exact hx.elim (fun hx => .inr (mem_append.mp (hkeys hx))) .inl
  have haggregated (hx : x ∈ aggregated.clauses) : x ∈ input.clauses ∨ x ∈ q.items ∨
      x ∈ (q.grouping.map (·.exprs)).getD [] ∨
      ∃ having ∈ (q.grouping.map (·.exprs)).getD [], x ∈ a.conjuncts having := by
    rcases lowerAggregation_ok hagg with rfl | ⟨keys, hkeys, rfl⟩ | ⟨g, having, hg, hhaving, _, rfl⟩
    · exact .inl hx
    · exact (haggregate hkeys hx).imp_right (Or.imp_right .inl)
    · have hexprs : (q.grouping.map (·.exprs)).getD [] = g.keys ++ [having] := by
        rw [hg, Option.map_some, Option.getD_some, Grouping.exprs, hhaving]
        rfl
      rw [Plan.clauses_eq] at hx
      simp only [Plan.ownClauses, Plan.ownPredicates, predicates, map_map, Plan.children,
        flatMap_cons, flatMap_nil, append_nil, mem_append] at hx
      rcases hx with hx | hx
      · obtain ⟨_, hc, rfl⟩ := mem_map.mp hx
        exact .inr (.inr (.inr ⟨having, by rw [hexprs]; simp, hc⟩))
      · refine (haggregate ?_ hx).imp_right (Or.imp_right .inl)
        rw [hexprs]
        exact fun x hx => mem_append_right _ (mem_append_left _ hx)
  rcases lowerLimit_ok hlimit with ⟨_, rfl⟩ | ⟨count, offset, rfl⟩
  · exact (haggregated hx).imp_right (Or.imp_right (Or.imp_right .inl))
  · rw [Plan.clauses_eq] at hx
    simp only [Plan.ownClauses, Plan.children, flatMap_cons, flatMap_nil, append_nil,
      mem_append] at hx
    rcases hx with hx | hx
    · exact .inr (.inr (.inr (.inr hx)))
    · exact (haggregated hx).imp_right (Or.imp_right (Or.imp_right .inl))

theorem block {depth : Nat} {scanned filtered : Lowered} {aggregated limited : Plan} {a2 : Arena}
    (hagg : lowerAggregation a2 depth q filtered.plan = .ok aggregated)
    (hlimit : lowerLimit q aggregated = .ok limited)
    (hscanned : LowerTask.ReadsAliases (.from_ ctes own q.source scanned))
    (htracks : Tracks bound a → Tracks bound a1)
    (ihf : LowerTask.Accounted env bound R a a1 (.from_ ctes own q.source scanned))
    (ihw : LowerTask.Accounted env bound R a1 a2 (.where_ ctes own q.filter scanned filtered))
    (htracks' : Tracks bound a → Tracks bound a2) :
    LowerTask.Accounted env bound R a a2 (.block ctes own q
      { plan := limited, blocks := ⟨q, own⟩ :: filtered.blocks, attached := filtered.attached }) := by
  intro F Γ Δ Ki Ks Kf Kg Ko hm hmatch hnodup hr
  have hKi : Ki ⊆ Ki ++ Ks ++ Kf ++ Kg ++ Ko := fun x hx => by simp [hx]
  have hKs : Ks ⊆ Ki ++ Ks ++ Kf ++ Kg ++ Ko := fun x hx => by simp [hx]
  have hKf : Kf ⊆ Ki ++ Ks ++ Kf ++ Kg ++ Ko := fun x hx => by simp [hx]
  have hKg : Kg ⊆ Ki ++ Ks ++ Kf ++ Kg ++ Ko := fun x hx => by simp [hx]
  have hKo : Ko ⊆ Ki ++ Ks ++ Kf ++ Kg ++ Ko := fun x hx => by simp [hx]
  have hKsf : Ks ++ Kf ⊆ Ki ++ Ks ++ Kf ++ Kg ++ Ko := append_subset.mpr ⟨hKs, hKf⟩
  simp only [nodup_append', disjoint_append_left] at hnodup
  obtain ⟨⟨⟨⟨-, hs, his⟩, hf, hif, hsf⟩, -, ⟨-, hsg⟩, hfg⟩, -, ⟨⟨-, hso⟩, hfo⟩, -⟩ := hnodup
  have ht1 := htracks hr.tracks
  obtain ⟨hk1, hfrom⟩ := ihf (F :: Γ) Δ Ks hm.source hmatch hs (hr.mono hKs)
  obtain ⟨hk2, p, hp, hsub, hshape⟩ := ihw (F :: Γ) Δ Ks Kf _ hm.filter hmatch
    (nodup_append'.mpr ⟨hs, hf, hsf⟩) ((hr.mono hKf).keep hk1 hsf ht1) hfrom hscanned.1
  have hsees : Sees R F p.scans := by
    refine Sees.mono (fun t ht => ⟨?_, hscanned.2 _ (hm.aliases t ht)⟩) hsub
    obtain ⟨r, hr, heq⟩ := mem_map.mp (hm.registered ht)
    exact ⟨r, hr, heq⟩
  -- the filters of the block are those below, and its own if it has a WHERE condition
  obtain ⟨ws, hwheres, hscans, hfits, hsome, hfiltered⟩ : ∃ ws, filtered.plan.wheres = ws ++ p.wheres ∧
      filtered.plan.scans = p.scans ∧
      (∀ w ∈ ws, Fits bound a2 R (Ki ++ Ks ++ Kf ++ Kg ++ Ko) ⟨q, own⟩ w) ∧
      (q.filter.isSome = true → ∃ w, w ∈ ws) ∧
      ∀ x ∈ filtered.plan.clauses, x ∈ p.clauses ∨ Placed bound a2 R (F :: Γ) p.scans Kf x := by
    rcases hshape with ⟨hnone, rfl⟩ | ⟨f, hfilter, hkind, hplan, hplaced⟩
    · refine ⟨[], rfl, rfl, forall_mem_nil _, fun h => ?_, fun x hx => .inl hx⟩
      rw [hnone] at h
      cases h
    · rw [hplan, Plan.wheres_filter hkind, Plan.scans_of_children rfl, Plan.clauses_eq]
      refine ⟨[(a2.predicates f, p)], rfl, by simp [Plan.children], forall_mem_singleton.mpr
        ⟨f, Γ, hfilter, hm.depth, rfl, fun c hc => ?_⟩, fun _ => ⟨_, mem_singleton_self _⟩, ?_⟩
      · exact ((hplaced c hc).narrow hsees).mono (Subset.refl _) hKf
      · simp only [Plan.ownClauses, Plan.ownPredicates, predicates, map_map, Plan.children,
          flatMap_cons, flatMap_nil, append_nil, forall_mem_append]
        refine ⟨fun x hx => ?_, fun x hx => .inl hx⟩
        obtain ⟨c, hc, rfl⟩ := mem_map.mp hx
        exact .inr (hplaced c hc)
  obtain ⟨hscans', hwheres'⟩ := finish_reads hagg hlimit
  rw [hscans] at hscans'
  rw [hwheres] at hwheres'
  have hclauses : ∀ x ∈ q.clauses,
      Placed bound bound R (F :: Γ) limited.scans (Ki ++ Ks ++ Kf ++ Kg ++ Ko) x := by
    have hlist {ids K : List ExprId} (h : Means env bound R (F :: Γ) Δ (.exprs ids) K)
        (hK : K ⊆ Ki ++ Ks ++ Kf ++ Kg ++ Ko) :
        ∀ x ∈ ids, Placed bound bound R (F :: Γ) limited.scans (Ki ++ Ks ++ Kf ++ Kg ++ Ko) x :=
      fun x hx => (placed_of_mem h (.refl bound K) _ hx).mono (Subset.refl _) hK
    exact forall_mem_append.mpr ⟨forall_mem_append.mpr ⟨hlist hm.items hKi,
      hlist hm.filter hKf⟩, hlist hm.grouping hKg⟩
  have hp := hp.mono hKsf
  -- the nodes of the other clauses are still as they were bound
  have hready {K' : List ExprId} (hsub : K' ⊆ Ki ++ Ks ++ Kf ++ Kg ++ Ko) (hd : Ks.Disjoint K')
      (hd' : Kf.Disjoint K') : Ready bound K' a2 :=
    ((hr.mono hsub).keep hk1 hd ht1).keep hk2 hd' (htracks' hr.tracks)
  have hitems : ∀ x ∈ q.items, Placed bound a2 R (F :: Γ) limited.scans (Ki ++ Ks ++ Kf ++ Kg ++ Ko) x :=
    fun x hx => (placed_of_mem hm.items (hready hKi his.symm hif.symm) _ hx).mono (Subset.refl _) hKi
  refine ⟨(hk1.mono hKs).trans (hk2.mono hKf), ⟨?_, ?_, ?_, ?_, ?_, fun x hx => ?_⟩, ?_, hitems⟩
  · show Reads R _ limited.scans
    rw [hscans']
    exact hp.reads
  · exact forall_mem_cons.mpr ⟨hm.whole, hp.meant⟩
  · refine forall_mem_cons.mpr ⟨hclauses, fun block hb x hx => ?_⟩
    refine (hp.columns block hb x hx).mono ?_ (Subset.refl _)
    exact hscans' ▸ Subset.refl _
  · intro w hw
    rcases mem_append.mp (hwheres' ▸ hw) with hw | hw
    · exact ⟨_, mem_cons_self, hfits w hw⟩
    · exact (hp.filters w hw).imp fun _ hb => ⟨mem_cons_of_mem _ hb.1, hb.2⟩
  · refine forall_mem_cons.mpr ⟨fun h => ?_, fun block hb h => ?_⟩
    · obtain ⟨w, hw⟩ := hsome h
      exact ⟨w, hwheres' ▸ mem_append_left _ hw, hfits w hw⟩
    · exact (hp.filtered block hb h).imp fun _ hw => ⟨hwheres' ▸ mem_append_right _ hw.1, hw.2⟩
  · have hgrouping := hready hKg hsg hfg
    rcases finish_clauses hagg hlimit hx with hx | hx | hx | ⟨having, hhaving, hx⟩ | hx
    · rcases hfiltered x hx with hx | hplaced
      · exact (hp.clauses x hx).mono (hscans' ▸ Subset.refl _) (Subset.refl _)
      · exact hplaced.mono (hscans' ▸ Subset.refl _) hKf
    · exact hitems x hx
    · exact (placed_of_mem hm.grouping hgrouping _ hx).mono (Subset.refl _) hKg
    · exact (placed_of_mem_conjuncts hm.grouping hgrouping _ hhaving hx).mono (Subset.refl _) hKg
    · obtain ⟨_, hkeys, hsorted⟩ := hm.ordering
      rcases hkeys x hx with hx | hx
      · exact (placed_of_mem hsorted (hready hKo hso hfo) _ hx).mono (Subset.refl _) hKo
      · exact hitems x hx
  · show Sees R F limited.scans
    rw [hscans']
    exact hsees

theorem head (ihe : LowerTask.Accounted env bound R a a1 (.entries ctes own q.ctes bodies after))
    (ihb : LowerTask.Accounted env bound R a1 a2 (.block after (namesBeside own q.ctes) q out))
    (hmeans : Means env bound R Γ Δ (.block q) K) (hmatch : Matches R.nextTemp ctes own Δ)
    (hnodup : K.Nodup) (hr : Ready bound K a) (ht1 : Tracks bound a1) (ht2 : Tracks bound a2) :
    Keeps K a a2 ∧ Extended R.nextTemp ctes q.ctes after ∧ ∃ F,
      Account bound a2 R (F :: Γ) K [] out ∧ (∀ b ∈ bodies, Account bound a2 R (F :: Γ) K [] b.2) ∧
      Sees R F out.plan.scans ∧ ∀ x ∈ q.items, Placed bound a2 R (F :: Γ) out.plan.scans K x := by
  cases hmeans with
  | @block F _ _ _ _ Ke Ki Ks Kf Kg Ko hdepth hF haliases hstars hkeys he hi hs hf hg ho =>
    have hwhole : q.Meant bound R :=
      ⟨env, Γ, Δ, _, .block hdepth hF haliases hstars hkeys he hi hs hf hg ho⟩
    have hK : Ke ++ Ki ++ Ks ++ Kf ++ Kg ++ Ko = Ke ++ (Ki ++ Ks ++ Kf ++ Kg ++ Ko) := by simp
    rw [hK] at hnodup hr ⊢
    obtain ⟨hKe, hKb, hdisjoint⟩ := nodup_append'.mp hnodup
    obtain ⟨hk1, hafter, hbodies⟩ := ihe (F :: Γ) Δ Ke he hmatch hKe (hr.mono (subset_append_left _ _))
    obtain ⟨hk2, hout, hsees, hitems⟩ := ihb F Γ _ Ki Ks Kf Kg Ko
      ⟨hwhole, hdepth, hF, haliases, hi, hs, hf, hg, _, hkeys, ho⟩
      (hmatch.extended hafter) hKb ((hr.mono (subset_append_right _ _)).keep hk1 hdisjoint ht1)
    refine ⟨(hk1.mono (subset_append_left _ _)).trans (hk2.mono (subset_append_right _ _)),
      hafter, F, hout.mono (subset_append_right _ _), fun b hb => ?_, hsees, fun x hx => ?_⟩
    · exact ((hbodies b hb).keep hk2 hdisjoint.symm ht1 ht2).mono (subset_append_left _ _)
    · exact (hitems x hx).mono (Subset.refl _) (subset_append_right _ _)

theorem queryAlone (hunion : q.union = none)
    (ihe : LowerTask.Accounted env bound R a a1 (.entries ctes own q.ctes bodies after))
    (ihb : LowerTask.Accounted env bound R a1 a2 (.block after (namesBeside own q.ctes) q out))
    (htracks : Tracks bound a → Tracks bound a1 ∧ Tracks bound a2) :
    LowerTask.Accounted env bound R a a2 (.query ctes own names q (out.attachAll bodies)) := by
  intro Γ Δ Δ' K hmeans hmatch _ hnodup hr
  obtain ⟨_, _, rfl, hblock, hnone⟩ := hmeans.of_query
  rw [hunion] at hnone
  cases hnone
  rw [append_nil] at hnodup hr ⊢
  obtain ⟨ht1, ht2⟩ := htracks hr.tracks
  obtain ⟨hk, _, _, hout, hbodies, hsees, hitems⟩ := head ihe ihb hblock hmatch hnodup hr ht1 ht2
  have hscans := out.scans_attachAll bodies
  exact ⟨hk, (hout.attachAll hbodies).narrow (hsees.mono hscans),
    fun x hx => ((hitems x hx).narrow hsees).mono hscans (Subset.refl _)⟩

theorem queryUnion {right : Select} {out' : Lowered} {a3 : Arena} (hunion : q.union = some right)
    (ihe : LowerTask.Accounted env bound R a a1 (.entries ctes own q.ctes bodies after))
    (ihb : LowerTask.Accounted env bound R a1 a2 (.block after (namesBeside own q.ctes) q out))
    (ihr : LowerTask.Accounted env bound R a2 a3 (.query after (namesBeside names q.ctes)
      (namesBeside names q.ctes) right out'))
    (htracks : Tracks bound a → Tracks bound a1 ∧ Tracks bound a2 ∧ Tracks bound a3) :
    LowerTask.Accounted env bound R a a3 (.query ctes own names q
      ((Lowered.combine (.union out.plan out'.plan) out out').attachAll bodies)) := by
  intro Γ Δ Δ' K hmeans hmatch hmatch' hnodup hr
  obtain ⟨Kb, Ku, rfl, hblock, hright⟩ := hmeans.of_query
  rw [hunion] at hright hmatch'
  obtain ⟨hKb, hKu, hdisjoint⟩ := nodup_append'.mp hnodup
  obtain ⟨ht1, ht2, ht3⟩ := htracks hr.tracks
  obtain ⟨hk, hafter, F, hout, hbodies, hsees, hitems⟩ := head ihe ihb hblock hmatch hKb
    (hr.mono (subset_append_left _ _)) ht1 ht2
  have hmatch' := (hmatch' rfl).extended hafter
  cases hright with
  | unionSome hright =>
    obtain ⟨hk', hout', _⟩ := ihr Γ _ _ Ku hright hmatch' (fun _ => hmatch') hKu
      ((hr.mono (subset_append_right _ _)).keep hk hdisjoint ht2)
    have hleft {x : Lowered} (h : Account bound a2 R (F :: Γ) Kb [] x) :
        Account bound a3 R (F :: Γ) (Kb ++ Ku) [] x :=
      (h.keep hk' hdisjoint.symm ht2 ht3).mono (subset_append_left _ _)
    have hboth : Account bound a3 R (F :: Γ) (Kb ++ Ku) ([] ++ [])
        (.combine (.union out.plan out'.plan) out out') :=
      (hleft hout).combine (hout'.outer.mono (subset_append_right _ _)) rfl rfl rfl
        (forall_mem_nil _)
    have hscans : out.plan.scans ⊆
        ((Lowered.combine (.union out.plan out'.plan) out out').attachAll bodies).plan.scans := by
      refine Subset.trans ?_ (Lowered.scans_attachAll _ bodies)
      rw [Lowered.combine, Plan.scans_union]
      exact subset_append_left _ _
    refine ⟨(hk.mono (subset_append_left _ _)).trans (hk'.mono (subset_append_right _ _)),
      (hboth.attachAll fun b hb => hleft (hbodies b hb)).narrow (hsees.mono hscans), fun x hx => ?_⟩
    exact (((hitems x hx).narrow hsees).keep hk' hdisjoint.symm).mono hscans (subset_append_left _ _)

theorem entriesCons {c : Cte} {cs : List Cte} {v : VisibleCte} {body : Lowered}
    {bodies : List (VisibleCte × Lowered)} {s s1 : LowerState} {a2 a3 : Arena}
    (hv : visibleCte c s = .ok v s1)
    (ihq : LowerTask.Accounted env bound R s1.exprs a2 (.query (if c.recursive then v :: ctes else ctes)
      (if c.recursive then c.name :: own else own)
      (if c.recursive then own.filter (· ≠ c.name) else own) c.query body))
    (ih : LowerTask.Accounted env bound R a2 a3
      (.entries (v :: ctes) (own.filter (· ≠ c.name)) cs bodies after))
    (htracks : Tracks bound s.exprs → Tracks bound a2 ∧ Tracks bound a3) :
    LowerTask.Accounted env bound R s.exprs a3
      (.entries ctes own (c :: cs) ((v, body) :: bodies) after) := by
  intro Γ Δ K hmeans hmatch hnodup hr
  have hexprs : s1.exprs = s.exprs := by rw [(visibleCte_run hv).2]
  rw [hexprs] at ihq
  cases hmeans with
  | @entriesCons _ _ _ _ Kc Kr hentry hrest =>
    obtain ⟨hKc, hKr, hdisjoint⟩ := nodup_append'.mp hnodup
    obtain ⟨ht2, ht3⟩ := htracks hr.tracks
    cases hentry with
    | entry hnumbered hlen _ hquery =>
      have hshows := visibleCte_shows hv hlen hnumbered
      have hinside : Matches R.nextTemp (if c.recursive then v :: ctes else ctes)
          (if c.recursive then c.name :: own else own) Δ := by
        split
        · exact hmatch.recursive hshows hnumbered
        · exact hmatch
      have hright (hunion : c.query.union.isSome = true) :
          Matches R.nextTemp (if c.recursive then v :: ctes else ctes)
            (if c.recursive then own.filter (· ≠ c.name) else own)
            (if c.isInductive then c.define Δ else Δ) := by
        rw [Cte.isInductive, hunion, Bool.and_true]
        split
        · exact hmatch.define hshows
        · exact hmatch
      obtain ⟨hk, hbody, _⟩ := ihq Γ Δ _ Kc hquery hinside hright hKc
        (hr.mono (subset_append_left _ _))
      obtain ⟨hk', hafter, hbodies⟩ := ih Γ _ Kr hrest (hmatch.define hshows) hKr
        ((hr.mono (subset_append_right _ _)).keep hk hdisjoint ht2)
      refine ⟨(hk.mono (subset_append_left _ _)).trans (hk'.mono (subset_append_right _ _)),
        .cons hshows hafter, forall_mem_cons.mpr ⟨?_, fun b hb => ?_⟩⟩
      · exact (hbody.keep hk' hdisjoint.symm ht2 ht3).mono (subset_append_left _ _)
      · exact (hbodies b hb).mono (subset_append_right _ _)

theorem beside {K0 K' K1 : List ExprId} {uses : List NameUse} {item : TableRef} {kind : PlanJoin}
    {predicates : List Predicate} (hinput : Account bound a R Γ K0 uses input)
    (ih : LowerTask.Accounted env bound R a a1 (.source ctes own item out))
    (hmeans : Means env bound R Γ Δ (.source item) K') (hmatch : Matches R.nextTemp ctes own Δ)
    (hnodup : (K0 ++ K').Nodup) (hr : Ready bound K' a) (ht1 : Tracks bound a1)
    (hK1 : K0 ++ K' ⊆ K1) (hpredicates : Keeps K' a a1 → ∀ c ∈ predicates,
      Placed bound a1 R Γ (input.plan.scans ++ out.plan.scans) K1 c.expr) :
    Keeps K' a a1 ∧ Account bound a1 R Γ K1 (uses ++ NameUse.all own item.names)
      (.combine (.join kind predicates input.plan out.plan) input out) := by
  obtain ⟨_, hK', hdisjoint⟩ := nodup_append'.mp hnodup
  obtain ⟨hk, hout⟩ := ih Γ Δ K' hmeans hmatch hK' hr
  obtain ⟨hK0, hK'⟩ := append_subset.mp hK1
  refine ⟨hk, ((hinput.keep hk hdisjoint.symm hr.tracks ht1).mono hK0).combine (hout.mono hK') rfl rfl rfl ?_⟩
  exact forall_mem_map.mpr (hpredicates hk)

end LowerTask.Accounted

/-! ### All steps -/

theorem NameUse.all_append (own : List String) (names names' : List BaseTable) :
    NameUse.all own (names ++ names') = NameUse.all own names ++ NameUse.all own names' :=
  map_append

theorem Lowers.accounted {env' : Accessor} {task : LowerTask} {s s' : LowerState}
    (h : Lowers env' task s s')
    (henv : ∀ ctes base, lowerBaseTable env' ctes base = lowerBaseTable env ctes base) :
    task.Accounted env bound R s.exprs s'.exprs := by
  induction h with
  | entriesNil =>
    intro Γ Δ K hmeans _ _ _
    cases hmeans
    exact ⟨.refl _ _, .nil, forall_mem_nil _⟩
  | entriesCons hv hq hrest ihq ih =>
    refine .entriesCons hv ihq ih fun ht => ?_
    obtain ⟨_, rfl⟩ := visibleCte_run hv
    have ht2 := (hq.reachesBack ht).1
    exact ⟨ht2, (hrest.reachesBack ht2).1⟩
  | queryAlone hunion he hb ihe ihb =>
    refine .queryAlone hunion ihe ihb fun ht => ?_
    have ht1 := (he.reachesBack ht).1
    exact ⟨ht1, (hb.reachesBack ht1).1⟩
  | queryUnion hunion he hb hr ihe ihb ihr =>
    refine .queryUnion hunion ihe ihb ihr fun ht => ?_
    have ht1 := (he.reachesBack ht).1
    have ht2 := (hb.reachesBack ht1).1
    exact ⟨ht1, ht2, (hr.reachesBack ht2).1⟩
  | block _ hf hw hagg hlimit ihf ihw =>
    exact .block hagg hlimit hf.readsAliases (fun ht => (hf.reachesBack ht).1) ihf ihw
      fun ht => (hw.reachesBack (hf.reachesBack ht).1).1
  | fromNone =>
    intro Γ Δ K hmeans _ _ _
    cases hmeans
    exact ⟨.refl _ _, .leaf (reads_empty R) rfl rfl⟩
  | fromSome _ ih =>
    intro Γ Δ K hmeans
    cases hmeans with
    | fromSome hitem => exact ih Γ Δ K hitem
  | table hbase =>
    intro Γ Δ K hmeans hmatch _ _
    cases hmeans with
    | table _ hr hknown hd =>
      rw [henv] at hbase
      have hread := reads_table hmatch hr hknown hd hbase
      rcases lowerBaseTable_ok hbase with ⟨v, _, _, rfl⟩ | ⟨id, _, _, rfl⟩
      · exact ⟨.refl _ _, .leaf hread rfl rfl⟩
      · exact ⟨.refl _ _, .leaf hread rfl rfl⟩
  | derived _ ih =>
    intro Γ Δ K hmeans hmatch hnodup hr
    cases hmeans with
    | derived _ href _ hquery =>
      obtain ⟨hk, hout, _⟩ := ih _ Δ Δ K hquery hmatch (fun _ => hmatch) hnodup hr
      refine ⟨hk, hout.above ?_ ?_ ?_ ?_⟩
      · rw [Plan.scans_derivedGet]
        exact hout.reads.derived href _
      · rw [Plan.scans_derivedGet]
        exact subset_cons_self _ _
      · rw [Plan.wheres_of_children rfl]
        simp [Plan.children]
      · rw [Plan.clauses_eq]
        simp [Plan.ownClauses, Plan.ownPredicates, Plan.children]
  | @join _ _ _ _ _ _ out out' predicates _ s1 s2 hl hr hcond ihl ihr =>
    intro Γ Δ K hmeans hmatch hnodup hready
    cases hmeans with
    | @join _ _ _ _ _ _ _ K1 Kr Kc hwiden _ hleft hright hcondition =>
      obtain ⟨Kl, hsubl, hleft⟩ := hleft.widen hwiden
      have hsub : (Kl ++ Kr).Sublist (K1 ++ Kr ++ Kc) :=
        (hsubl.append_right Kr).trans (sublist_append_left _ Kc)
      have hKlr := hnodup.sublist hsub
      obtain ⟨hKl, _, hdisjoint⟩ := nodup_append'.mp hKlr
      -- the condition is as it was bound when both operands have their plans
      obtain ⟨hdc, hdc'⟩ := disjoint_append_left.mp (nodup_append'.mp hnodup).2.2
      have hready_c := hready.mono (subset_append_right (K1 ++ Kr) Kc)
      have hready := hready.mono hsub.subset
      have ht1 := (hl.reachesBack hready.tracks).1
      have ht2 := (hr.reachesBack ht1).1
      obtain ⟨hk, hout⟩ := ihl Γ Δ Kl hleft hmatch hKl (hready.mono (subset_append_left _ _))
      have hpredicates (hk' : Keeps Kr s1.exprs s2.exprs) : ∀ p ∈ predicates,
          Placed bound s2.exprs R Γ (out.plan.scans ++ out'.plan.scans) (K1 ++ Kr ++ Kc) p.expr := by
        intro p hp
        rcases joinPredicates_ok hcond with rfl | ⟨c, rfl, _, rfl⟩
        · cases hp
        · obtain ⟨x, hx, rfl⟩ := mem_map.mp hp
          have hready_c := (hready_c.keep hk (fun x hx => hdc (hsubl.subset hx)) ht1).keep hk' hdc' ht2
          exact (placed_of_mem_conjuncts hcondition hready_c _ (mem_singleton_self c) hx).mono
            (Subset.refl _) (subset_append_right _ _)
      obtain ⟨hk', hboth⟩ := LowerTask.Accounted.beside hout ihr hright hmatch hKlr
        ((hready.mono (subset_append_right _ _)).keep hk hdisjoint ht1) ht2 hsub.subset hpredicates
      rw [← NameUse.all_append] at hboth
      have hkeeps := (hk.mono (subset_append_left _ _)).trans (hk'.mono (subset_append_right _ _))
      exact ⟨hkeeps.mono hsub.subset, hboth⟩
  | list hf _ ihf ihr =>
    intro Γ Δ K hmeans hmatch hnodup hr
    cases hmeans with
    | list hsources =>
      cases hsources with
      | @sourcesCons _ _ _ _ _ _ Kr hwiden _ hfirst hrest =>
        obtain ⟨Kf, hsub, hfirst⟩ := hfirst.widen hwiden
        have hsub := hsub.append_right Kr
        have hnodup := hnodup.sublist hsub
        have hr := hr.mono hsub.subset
        obtain ⟨hKf, _, hdisjoint⟩ := nodup_append'.mp hnodup
        obtain ⟨hk, hout⟩ := ihf Γ Δ Kf hfirst hmatch hKf (hr.mono (subset_append_left _ _))
        obtain ⟨hk', hall⟩ := ihr Γ Δ Kf Kr _ hrest hmatch hnodup
          ((hr.mono (subset_append_right _ _)).keep hk hdisjoint (hf.reachesBack hr.tracks).1) hout
        rw [← NameUse.all_append] at hall
        have hkeeps := (hk.mono (subset_append_left _ _)).trans (hk'.mono (subset_append_right _ _))
        exact ⟨hkeeps.mono hsub.subset, hall.mono hsub.subset⟩
  | sourcesNil =>
    intro Γ Δ K0 K uses hmeans _ _ _ hinput
    cases hmeans
    refine ⟨.refl _ _, ?_⟩
    rw [append_nil, TableRef.namesAll, NameUse.all, map_nil, append_nil]
    exact hinput
  | sourcesCons hf _ ihf ihr =>
    intro Γ Δ K0 K uses hmeans hmatch hnodup hr hinput
    cases hmeans with
    | @sourcesCons _ _ _ _ _ _ Kr hwiden _ hfirst hrest =>
      obtain ⟨Kf, hsub, hfirst⟩ := hfirst.widen hwiden
      have hsub := hsub.append_right Kr
      have hnodup := hnodup.sublist (hsub.append_left K0)
      have hr := hr.mono hsub.subset
      rw [← append_assoc] at hnodup
      obtain ⟨hK0f, _, hdisjoint⟩ := nodup_append'.mp hnodup
      have ht1 := (hf.reachesBack hr.tracks).1
      obtain ⟨hk, hboth⟩ := LowerTask.Accounted.beside hinput ihf hfirst hmatch hK0f
        (hr.mono (subset_append_left _ _)) ht1 (Subset.refl _)
        fun _ _ hp => (not_mem_nil hp).elim
      obtain ⟨hk', hall⟩ := ihr Γ Δ _ Kr _ hrest hmatch hnodup
        ((hr.mono (subset_append_right _ _)).keep hk (disjoint_append_left.mp hdisjoint).2 ht1)
        hboth
      rw [append_assoc, append_assoc, ← NameUse.all_append] at hall
      have hkeeps := (hk.mono (subset_append_left _ _)).trans (hk'.mono (subset_append_right _ _))
      exact ⟨hkeeps.mono hsub.subset, hall.mono (hsub.append_left K0).subset⟩
  | whereNone =>
    intro Γ Δ K0 K uses hmeans _ _ _ hinput _
    cases hmeans
    rw [append_nil]
    exact ⟨.refl _ _, _, hinput, Subset.refl _, .inl ⟨rfl, rfl⟩⟩
  | @whereSome _ _ filter _ out s _ hc ih =>
    intro Γ Δ K0 K uses hmeans hmatch hnodup hr hinput hkind
    cases hmeans with
    | exprsCons hfilter hnil =>
      cases hnil
      rw [append_nil] at hnodup hr ⊢
      obtain ⟨K'', hsub, hconditions⟩ := hfilter.conjunctsFrom bound.bound
      have hconjuncts : s.exprs.conjuncts filter = bound.conjunctsFrom bound.bound filter :=
        hr.tracks.conjuncts filter
      obtain ⟨hk, hout, hplaced⟩ := ih Γ Δ K0 K'' uses (hconjuncts ▸ hconditions) hmatch
        (hnodup.sublist (hsub.append_left _)) (hr.mono hsub.subset) hinput
      have ht1 := (hc.reachesBack hr.tracks).1
      obtain ⟨hkind', hscans⟩ := hc.readsAliases
      refine ⟨hk.mono hsub.subset, out.plan, hout.mono (hsub.append_left _).subset, hscans,
        .inr ⟨filter, rfl, hkind' hkind, rfl, fun c hc => ?_⟩⟩
      rw [ht1.conjuncts, ← hr.tracks.conjuncts] at hc
      exact (hplaced c hc).mono (Subset.refl _) hsub.subset
  | conjunctsNil =>
    intro Γ Δ K0 K uses hmeans _ _ _ hinput
    cases hmeans
    rw [append_nil]
    exact ⟨.refl _ _, hinput, forall_mem_nil _⟩
  | conjunctsPlain hflag hrest ih =>
    intro Γ Δ K0 K uses hmeans hmatch hnodup hr hinput
    cases hmeans with
    | @exprsCons _ _ _ _ Kc Kr hc hcs =>
      simp only [nodup_append', disjoint_append_right] at hnodup
      obtain ⟨hK0, ⟨_, hKr, hcr⟩, _, h0r⟩ := hnodup
      obtain ⟨hk, hout, hplaced⟩ := ih Γ Δ K0 Kr uses hcs hmatch (nodup_append'.mpr ⟨hK0, hKr, h0r⟩)
        (hr.mono (subset_append_right _ _)) hinput
      refine ⟨hk.mono (subset_append_right _ _), hout.mono (fun x hx => ?_),
        forall_mem_cons.mpr ⟨?_, fun d hd => ?_⟩⟩
      · simp only [mem_append] at hx ⊢
        tauto
      · have hready := (hr.mono (subset_append_left _ _)).keep hk hcr.symm
          (hrest.reachesBack hr.tracks).1
        exact (placed_of_means hc hready _).mono (Subset.refl _) (subset_append_left _ _)
      · exact (hplaced d hd).mono (Subset.refl _) (subset_append_right _ _)
  | conjunctsJoin _ huse hq hitems _ hcheck hquery hrest ihq ihr =>
    refine .conjunctsJoin huse hq hitems rfl (fun ht => ?_) hrest.readsAliases.2 ihq ihr
    obtain ⟨ht1, hwithin⟩ :=
      hquery.reachesBack (ht.take hq)
    have ht3 := ht.decorrelate ht1 huse hq hitems hcheck hwithin
    exact ⟨ht1, ht3, (hrest.reachesBack ht3).1⟩

theorem exists_account (henv : env.Numbered) {p : Parsed} {parameters : List Value} {b : Bound}
    {q0 : Select} {n : Nat} (hp : p.statement = .select q0) (hfresh : p.exprs.FreshQuery q0)
    (hb : (bind env p parameters).result = .ok b) (hq : b.statement = .select q)
    (hout : Derives (env.withNextTemp n) b q out) :
    ∃ R K next, R.nextTemp = (bind env p parameters).nextTemp ∧ Registered R.references next ∧
      Account b.exprs (lower (env.withNextTemp n) b).bound.exprs R [] K [] out := by
  obtain ⟨_, R, K, next, hq', hR, hregistered, hK, hmeans⟩ := bind_means henv hp hfresh hb
  cases hq.symm.trans hq'
  have haccounted : LowerTask.Accounted env b.exprs R b.exprs (lower (env.withNextTemp n) b).bound.exprs
      (.query [] [] [] q out) := hout.lowers.accounted fun _ _ => rfl
  exact ⟨R, K, next, hR, hregistered, (haccounted [] _ _ K hmeans (matches_nil _)
    (fun _ => matches_nil _) hK (.refl b.exprs K)).2.1⟩

end SqlAnalysis
