import SqlAnalysis.Proofs.Binding.FromItems
import SqlAnalysis.Proofs.Plan.Placement
import SqlAnalysis.Proofs.Plan.Reading

/-!
# The columns and conditions of a plan

A plan does not say which query blocks it was made of.  A derivation keeps them beside it, and an account
relates the two: every scan stands for a name in FROM, the columns of the clauses of a block are read
below it or belong to blocks further out, and the filters are the WHERE conditions, one for each block
that has one.

Plans are built from smaller ones, so there is one lemma for each way of building.  An account may be
given more nodes (`mono`) or one more block around it (`outer`), and survives changes of nodes that are
not its own (`keep`).  It goes over to an operator above its plan (`above`), to two plans side by side
(`merge`, `combine`) and to plans of WITH entries put under their references (`attachAll`).  That a whole
run keeps accounts is assembled from these in `Lowers.accounted`.

* **`Account`**, **`Fits`**: what is known of a plan, and of one filter in it.
* **`Lowers.readsAliases`**: the plan of a FROM clause reads every alias of the clause.
* **`Means.of_use`**: the meaning of a condition gives those of its subquery and its other operand.
-/

namespace SqlAnalysis

open LowerM List TableRef
open Arena (Keeps)

/-! ### Accounts -/

/-- The expressions of the select list, WHERE, GROUP BY and HAVING. -/
def Select.clauses (q : Select) : List ExprId :=
  q.items ++ q.filter.toList ++ (q.grouping.map (·.exprs)).getD []

/-- A filter has the conjuncts of the WHERE condition of a query block, and all their columns belong to
blocks further out or are read below the filter. -/
def Fits (bound a : Arena) (R : Registry) (K : List ExprId) (block : PlannedBlock)
    (w : List Predicate × Plan) : Prop :=
  ∃ filter Γ, block.query.filter = some filter ∧ block.query.depth = some Γ.length ∧
    w.1 = a.predicates filter ∧ ∀ c ∈ a.conjuncts filter, Placed bound a R Γ w.2.scans K c

/-- A plan inside blocks with the tables `Γ`, made of the nodes `K`.  The names `uses` stand in the FROM
clause of the block that the plan is a part of. -/
structure Account (bound a : Arena) (R : Registry) (Γ : List (List ScopeTable)) (K : List ExprId)
    (uses : List NameUse) (out : Lowered) : Prop where
  reads : Reads R (uses ++ out.uses) out.plan.scans
  meant : ∀ block ∈ out.blocks, block.query.Meant bound R
  columns : ∀ block ∈ out.blocks, ∀ x ∈ block.query.clauses,
    Placed bound bound R Γ out.plan.scans K x
  filters : ∀ w ∈ out.plan.wheres, ∃ block ∈ out.blocks, Fits bound a R K block w
  filtered : ∀ block ∈ out.blocks, block.query.filter.isSome = true →
    ∃ w ∈ out.plan.wheres, Fits bound a R K block w
  clauses : ∀ x ∈ out.plan.clauses, Placed bound a R Γ out.plan.scans K x

section

variable {bound a a' : Arena} {R : Registry} {Γ : List (List ScopeTable)} {K K' : List ExprId}
  {uses uses' : List NameUse} {out out' : Lowered} {F : List ScopeTable} {plan : Plan}
  {block : PlannedBlock} {w w' : List Predicate × Plan}

namespace Fits

theorem grow (h : Fits bound a R K block w) (hw : Plan.WhereGrows w w') : Fits bound a R K block w' := by
  obtain ⟨filter, Γ, hfilter, hdepth, hpredicates, hplaced⟩ := h
  exact ⟨filter, Γ, hfilter, hdepth, hw.1.trans hpredicates,
    fun c hc => (hplaced c hc).mono hw.2 (Subset.refl _)⟩

theorem mono (h : Fits bound a R K block w) (hK : K ⊆ K') : Fits bound a R K' block w := by
  obtain ⟨filter, Γ, hfilter, hdepth, hpredicates, hplaced⟩ := h
  exact ⟨filter, Γ, hfilter, hdepth, hpredicates,
    fun c hc => (hplaced c hc).mono (Subset.refl _) hK⟩

theorem keep (h : Fits bound a R K block w) (hk : Keeps K' a a') (hd : K'.Disjoint K)
    (ht : Tracks bound a) (ht' : Tracks bound a') : Fits bound a' R K block w := by
  obtain ⟨filter, Γ, hfilter, hdepth, hpredicates, hplaced⟩ := h
  have hconjuncts : a'.conjuncts filter = a.conjuncts filter := by rw [ht.conjuncts, ht'.conjuncts]
  refine ⟨filter, Γ, hfilter, hdepth, ?_, fun c hc => ?_⟩
  · rw [hpredicates, Arena.predicates, Arena.predicates, hconjuncts]
    refine map_congr_left fun c hc => ?_
    rw [(hplaced c hc).aliasesOf_eq hk hd (ht'.size.trans ht.size.symm)]
  · rw [hconjuncts] at hc
    exact (hplaced c hc).keep hk hd

end Fits

namespace Account

theorem mono (h : Account bound a R Γ K uses out) (hK : K ⊆ K') : Account bound a R Γ K' uses out where
  reads := h.reads
  meant := h.meant
  columns block hb x hx := (h.columns block hb x hx).mono (Subset.refl _) hK
  filters w hw := (h.filters w hw).imp fun _ hb => ⟨hb.1, hb.2.mono hK⟩
  filtered block hb hf := (h.filtered block hb hf).imp fun _ hw => ⟨hw.1, hw.2.mono hK⟩
  clauses x hx := (h.clauses x hx).mono (Subset.refl _) hK

theorem outer (h : Account bound a R Γ K uses out) : Account bound a R (F :: Γ) K uses out :=
  { h with
    columns := fun block hb x hx => (h.columns block hb x hx).outer
    clauses := fun x hx => (h.clauses x hx).outer }

theorem narrow (h : Account bound a R (F :: Γ) K uses out) (hF : Sees R F out.plan.scans) :
    Account bound a R Γ K uses out :=
  { h with
    columns := fun block hb x hx => (h.columns block hb x hx).narrow hF
    clauses := fun x hx => (h.clauses x hx).narrow hF }

theorem keep (h : Account bound a R Γ K uses out) (hk : Keeps K' a a') (hd : K'.Disjoint K)
    (ht : Tracks bound a) (ht' : Tracks bound a') : Account bound a' R Γ K uses out where
  reads := h.reads
  meant := h.meant
  columns := h.columns
  filters w hw := (h.filters w hw).imp fun _ hb => ⟨hb.1, hb.2.keep hk hd ht ht'⟩
  filtered block hb hf := (h.filtered block hb hf).imp fun _ hw => ⟨hw.1, hw.2.keep hk hd ht ht'⟩
  clauses x hx := (h.clauses x hx).keep hk hd

theorem leaf (h : Reads R uses plan.scans) (hwheres : plan.wheres = []) (hclauses : plan.clauses = []) :
    Account bound a R Γ K uses { plan := plan } where
  reads := by
    rw [Lowered.uses, flatMap_nil, append_nil]
    exact h
  meant _ hb := (not_mem_nil hb).elim
  columns _ hb := (not_mem_nil hb).elim
  filters w hw := by
    rw [hwheres] at hw
    cases hw
  filtered _ hb := (not_mem_nil hb).elim
  clauses x hx := by
    rw [hclauses] at hx
    cases hx

theorem above (h : Account bound a R Γ K uses out) (hreads : Reads R (uses ++ out.uses) plan.scans)
    (hscans : out.plan.scans ⊆ plan.scans) (hwheres : plan.wheres = out.plan.wheres)
    (hclauses : plan.clauses ⊆ out.plan.clauses) :
    Account bound a R Γ K uses { out with plan := plan } where
  reads := hreads
  meant := h.meant
  columns block hb x hx := (h.columns block hb x hx).mono hscans (Subset.refl _)
  filters w hw := h.filters w (hwheres ▸ hw)
  filtered block hb hf := (h.filtered block hb hf).imp fun _ hw => ⟨hwheres ▸ hw.1, hw.2⟩
  clauses x hx := (h.clauses x (hclauses hx)).mono hscans (Subset.refl _)

theorem merge (h : Account bound a R Γ K uses out) (h' : Account bound a R Γ K uses' out')
    {merged : Lowered} (hblocks : merged.blocks = out.blocks ++ out'.blocks)
    (hscans : ∀ scan, scan ∈ merged.plan.scans ↔ scan ∈ out.plan.scans ++ out'.plan.scans)
    (hdown : ∀ w' ∈ merged.plan.wheres, ∃ w ∈ out.plan.wheres ++ out'.plan.wheres, Plan.WhereGrows w w')
    (hup : ∀ w ∈ out.plan.wheres ++ out'.plan.wheres, ∃ w' ∈ merged.plan.wheres, Plan.WhereGrows w w')
    (hclauses : ∀ x ∈ merged.plan.clauses, x ∈ out.plan.clauses ∨ x ∈ out'.plan.clauses ∨
      Placed bound a R Γ (out.plan.scans ++ out'.plan.scans) K x) :
    Account bound a R Γ K (uses ++ uses') merged := by
  have hleft : out.plan.scans ⊆ merged.plan.scans :=
    fun scan hscan => (hscans scan).mpr (mem_append_left _ hscan)
  have hright : out'.plan.scans ⊆ merged.plan.scans :=
    fun scan hscan => (hscans scan).mpr (mem_append_right _ hscan)
  refine ⟨(h.reads.append h'.reads).congr (fun u => ?_) hscans, ?_, fun block hb x hx => ?_,
    fun w' hw' => ?_, fun block hb hf => ?_, fun x hx => ?_⟩
  · rw [Lowered.uses, hblocks, flatMap_append]
    simp only [mem_append, Lowered.uses]
    tauto
  · rw [hblocks]
    exact forall_mem_append.mpr ⟨h.meant, h'.meant⟩
  · rw [hblocks] at hb
    rcases mem_append.mp hb with hb | hb
    · exact (h.columns block hb x hx).mono hleft (Subset.refl _)
    · exact (h'.columns block hb x hx).mono hright (Subset.refl _)
  · obtain ⟨w, hw, hgrow⟩ := hdown w' hw'
    rw [hblocks]
    rcases mem_append.mp hw with hw | hw
    · exact (h.filters w hw).imp fun _ hb => ⟨mem_append_left _ hb.1, hb.2.grow hgrow⟩
    · exact (h'.filters w hw).imp fun _ hb => ⟨mem_append_right _ hb.1, hb.2.grow hgrow⟩
  · rw [hblocks] at hb
    rcases mem_append.mp hb with hb | hb
    · obtain ⟨w, hw, hfits⟩ := h.filtered block hb hf
      exact (hup w (mem_append_left _ hw)).imp fun _ hw' => ⟨hw'.1, hfits.grow hw'.2⟩
    · obtain ⟨w, hw, hfits⟩ := h'.filtered block hb hf
      exact (hup w (mem_append_right _ hw)).imp fun _ hw' => ⟨hw'.1, hfits.grow hw'.2⟩
  · rcases hclauses x hx with hx | hx | hplaced
    · exact (h.clauses x hx).mono hleft (Subset.refl _)
    · exact (h'.clauses x hx).mono hright (Subset.refl _)
    · exact hplaced.mono (fun scan hscan => (hscans scan).mpr hscan) (Subset.refl _)

theorem combine (h : Account bound a R Γ K uses out) (h' : Account bound a R Γ K uses' out')
    (hscan : plan.scan? = none) (hwhere : plan.where? = none)
    (hchildren : plan.children = [out.plan, out'.plan])
    (hown : ∀ x ∈ plan.ownClauses, Placed bound a R Γ (out.plan.scans ++ out'.plan.scans) K x) :
    Account bound a R Γ K (uses ++ uses') (.combine plan out out') := by
  have hscans : plan.scans = out.plan.scans ++ out'.plan.scans := by
    rw [Plan.scans_of_children hscan, hchildren]
    simp
  have hwheres : plan.wheres = out.plan.wheres ++ out'.plan.wheres := by
    rw [Plan.wheres_of_children hwhere, hchildren]
    simp
  refine h.merge h' rfl (fun scan => by rw [← hscans]; rfl) (fun w hw => ?_) (fun w hw => ?_) fun x hx => ?_
  · exact ⟨w, hwheres ▸ hw, rfl, Subset.refl _⟩
  · exact ⟨w, hwheres ▸ hw, rfl, Subset.refl _⟩
  · rw [Lowered.combine, Plan.clauses_eq, hchildren] at hx
    simp only [flatMap_cons, flatMap_nil, append_nil, mem_append] at hx
    rcases hx with hx | hx | hx
    · exact .inr (.inr (hown x hx))
    · exact .inl hx
    · exact .inr (.inl hx)

theorem attachAll (h : Account bound a R Γ K [] out) {bodies : List (VisibleCte × Lowered)}
    (hbodies : ∀ b ∈ bodies, Account bound a R Γ K [] b.2) :
    Account bound a R Γ K [] (out.attachAll bodies) := by
  refine Lowered.attachAll_keeps h fun b hb _ _ _ hl hplan => ?_
  obtain ⟨hdown, hup⟩ := Plan.wheres_attachCte hplan
  refine hl.merge (hbodies b hb) rfl (fun scan => by rw [Plan.mem_scans_attachCte hplan, mem_append])
    hdown hup fun x hx => ?_
  exact (Plan.mem_clauses_attachCte hplan hx).imp_right .inl

end Account

theorem Lowered.scans_attachAll (out : Lowered) (bodies : List (VisibleCte × Lowered)) :
    out.plan.scans ⊆ (out.attachAll bodies).plan.scans :=
  attachAll_keeps (P := (out.plan.scans ⊆ ·.plan.scans)) (Subset.refl _) fun _ _ _ _ _ hl hplan _ hscan =>
    (Plan.mem_scans_attachCte hplan).mpr (.inl (hl hscan))

end

/-! ### Plans of FROM clauses -/

/-- The plan of a FROM clause reads every alias of the clause, and joins with subqueries keep that.  It
is no aggregation. -/
def LowerTask.ReadsAliases : LowerTask → Prop
  | .from_ _ _ clause out => out.plan.isAggregate = false ∧
    ∀ k ∈ aliasesOpt clause, ∃ scan ∈ out.plan.scans, scan.knownAs = k
  | .source _ _ item out => out.plan.isAggregate = false ∧
    ∀ k ∈ item.aliases, ∃ scan ∈ out.plan.scans, scan.knownAs = k
  | .sources _ _ input items out => (input.plan.isAggregate = false → out.plan.isAggregate = false) ∧
    input.plan.scans ⊆ out.plan.scans ∧
    ∀ k ∈ aliasesAll items, ∃ scan ∈ out.plan.scans, scan.knownAs = k
  | .conjuncts _ _ _ input out => (input.plan.isAggregate = false → out.plan.isAggregate = false) ∧
    input.plan.scans ⊆ out.plan.scans
  | _ => True

@[simp] theorem Plan.scans_join (kind : PlanJoin) (predicates : List Predicate) (l r : Plan) :
    (join kind predicates l r).scans = l.scans ++ r.scans := by
  rw [scans_of_children rfl]
  simp [children]

@[simp] theorem Plan.scans_union (l r : Plan) : (union l r).scans = l.scans ++ r.scans := by
  rw [scans_of_children rfl]
  simp [children]

theorem Lowers.readsAliases {env : Accessor} {task : LowerTask} {s s' : LowerState}
    (h : Lowers env task s s') : task.ReadsAliases := by
  induction h with
  | fromNone => exact ⟨rfl, forall_mem_nil _⟩
  | fromSome _ ih => exact ih
  | table hbase =>
    simp only [LowerTask.ReadsAliases, aliases, forall_mem_singleton]
    rcases lowerBaseTable_ok hbase with ⟨v, _, _, rfl⟩ | ⟨id, _, _, rfl⟩
    · exact ⟨rfl, _, mem_singleton_self _, rfl⟩
    · exact ⟨rfl, _, mem_singleton_self _, rfl⟩
  | derived =>
    simp only [LowerTask.ReadsAliases, aliases, forall_mem_singleton,
      Plan.scans_derivedGet]
    exact ⟨rfl, _, mem_cons_self, rfl⟩
  | join _ _ _ ihl ihr =>
    simp only [LowerTask.ReadsAliases, aliases, Lowered.combine, Plan.scans_join]
    refine ⟨rfl, forall_mem_append.mpr ⟨fun k hk => ?_, fun k hk => ?_⟩⟩
    · exact (ihl.2 k hk).imp fun _ hscan => ⟨mem_append_left _ hscan.1, hscan.2⟩
    · exact (ihr.2 k hk).imp fun _ hscan => ⟨mem_append_right _ hscan.1, hscan.2⟩
  | list _ _ ihf ihr =>
    simp only [LowerTask.ReadsAliases, aliases, aliasesAll]
    refine ⟨ihr.1 ihf.1, forall_mem_append.mpr ⟨fun k hk => ?_, ihr.2.2⟩⟩
    exact (ihf.2 k hk).imp fun _ hscan => ⟨ihr.2.1 hscan.1, hscan.2⟩
  | sourcesNil =>
    simp only [LowerTask.ReadsAliases, aliasesAll]
    exact ⟨id, Subset.refl _, forall_mem_nil _⟩
  | sourcesCons _ _ ihf ihr =>
    obtain ⟨hkind, hsub, haliases⟩ := ihr
    simp only [Lowered.combine, Plan.scans_join] at hkind hsub
    simp only [LowerTask.ReadsAliases, aliasesAll]
    refine ⟨fun _ => hkind rfl, Subset.trans (subset_append_left _ _) hsub,
      forall_mem_append.mpr ⟨fun k hk => ?_, haliases⟩⟩
    exact (ihf.2 k hk).imp fun _ hscan => ⟨hsub (mem_append_right _ hscan.1), hscan.2⟩
  | conjunctsNil => exact ⟨id, Subset.refl _⟩
  | conjunctsPlain _ _ ih => exact ih
  | conjunctsJoin _ _ _ _ _ _ _ _ _ ihr =>
    obtain ⟨hkind, hsub⟩ := ihr
    simp only [Lowered.combine, Plan.scans_join] at hkind hsub
    exact ⟨fun _ => hkind rfl, Subset.trans (subset_append_left _ _) hsub⟩
  | _ => exact trivial

/-! ### Conditions that become joins -/

section

variable {env : Accessor} {bound a : Arena} {R : Registry} {Γ : List (List ScopeTable)}
  {Δ : EntryMap} {c first : ExprId} {use : SubqueryUse} {q : Select} {K : List ExprId}

theorem isLeaf_of_use (huse : subqueryUse a c = .ok use) : (a.expr c).isLeaf = false := by
  rcases subqueryUse_ok huse with ⟨_, _, _, he, _⟩ | ⟨_, he, _⟩
  · rw [he]
    rfl
  · rw [he]
    rfl

theorem column?_decorrelatedPredicate (subquery first : ExprId) (e : Expr) (h : e.isLeaf = false) :
    (decorrelatedPredicate subquery first e).column? = none := by
  cases e <;> first | rfl | cases h

theorem children_of_use (huse : subqueryUse a c = .ok use) {d : ExprId}
    (hd : d ∈ (decorrelatedPredicate use.subquery first (a.expr c)).children) :
    d = first ∨ d ∈ (a.expr c).children ∧ d ≠ use.subquery := by
  rcases subqueryUse_ok huse with ⟨op, left, right, he, _⟩ | ⟨operand, he, _⟩
  · rw [he] at hd ⊢
    have hreplaced {x : ExprId} (hx : x ∈ [left, right])
        (hd : d = if x = use.subquery then first else x) :
        d = first ∨ d ∈ (Expr.compare op left right).children ∧ d ≠ use.subquery := by
      split at hd
      · exact .inl hd
      · rename_i hne
        exact .inr ⟨hd ▸ hx, hd ▸ hne⟩
    rcases mem_pair.mp hd with hd | hd
    · exact hreplaced mem_cons_self hd
    · exact hreplaced (mem_cons_of_mem _ (mem_singleton_self _)) hd
  · rw [he] at hd
    exact .inl (mem_singleton.mp hd)

theorem Means.of_isSubquery {x : ExprId} (h : Means env bound R Γ Δ (.expr x) K) (hr : Ready bound K a)
    (hq : a.query? x = some q) : ∃ Kq, K = x :: Kq ∧ Means env bound R Γ Δ (.query Δ q) Kq := by
  have hsub : (bound.expr x).isSubquery = true := by
    rw [← hr.tracks.isSubquery]
    exact Arena.isSubquery_of_query? hq
  cases h with
  | subquery he _ hquery =>
    have hsame := hr.same x (.inl mem_cons_self)
    rw [he, Arena.query?_eq_some.mp hq] at hsame
    cases hsame
    exact ⟨_, rfl, hquery⟩
  | literal hliteral =>
    cases he : bound.expr x with
    | subquery =>
      rw [he] at hliteral
      cases hliteral
    | _ => rw [he] at hsub; cases hsub
  | column he =>
    rw [he] at hsub
    cases hsub
  | node _ _ hno =>
    rw [hno] at hsub
    cases hsub

theorem Means.of_use (h : Means env bound R Γ Δ (.expr c) K) (hr : Ready bound K a) (hnodup : K.Nodup)
    (huse : subqueryUse a c = .ok use) (hq : a.query? use.subquery = some q) :
    ∃ Kq Ko, (c :: use.subquery :: (Kq ++ Ko)).Nodup ∧ c :: use.subquery :: (Kq ++ Ko) ⊆ K ∧
      Means env bound R Γ Δ (.query Δ q) Kq ∧
      ∀ d ∈ (a.expr c).children, d ≠ use.subquery → Means env bound R Γ Δ (.expr d) Ko := by
  have hleaf := isLeaf_of_use huse
  have hnode : ∃ K', K = c :: K' ∧ Means env bound R Γ Δ (.exprs (a.expr c).children) K' := by
    cases h with
    | literal hliteral =>
      rw [hr.same c (.inr (by rw [Expr.isLeaf, hliteral, Bool.true_or])), Expr.isLeaf, hliteral] at hleaf
      cases hleaf
    | column he =>
      rw [hr.same c (.inr (by rw [he]; rfl)), he] at hleaf
      cases hleaf
    | subquery he =>
      have hplain := (hr.tracks.bound_of_use huse).1
      rw [he] at hplain
      cases hplain
    | node _ _ _ hchildren =>
      rw [hr.same c (.inl mem_cons_self)]
      exact ⟨_, rfl, hchildren⟩
  obtain ⟨_, rfl, hchildren⟩ := hnode
  rcases subqueryUse_ok huse with
    ⟨op, left, right, he, _, _, ⟨hside, hright, hleft⟩ | ⟨hside, hleft, hright⟩⟩ |
    ⟨operand, he, _, _, hside, _⟩
  all_goals
    rw [he] at hchildren ⊢
    rw [hside] at hq ⊢
  · cases hchildren with
    | @exprsCons _ _ _ _ Kl _ hl hrest =>
      cases hrest with
      | @exprsCons _ _ _ _ Kr _ hr' hnil =>
        cases hnil
        rw [append_nil] at hr hnodup ⊢
        have hsub : Kr ⊆ c :: (Kl ++ Kr) := fun x hx => by simp [hx]
        obtain ⟨Kq, rfl, hquery⟩ := hr'.of_isSubquery (hr.mono hsub) hq
        have hperm : (c :: (Kl ++ right :: Kq)).Perm (c :: right :: (Kq ++ Kl)) :=
          .cons c (perm_middle.trans (.cons right perm_append_comm))
        refine ⟨Kq, Kl, hperm.nodup_iff.mp hnodup, hperm.symm.subset, hquery, fun d hd hne => ?_⟩
        rcases mem_pair.mp hd with rfl | rfl
        · exact hl
        · exact (hne rfl).elim
  · cases hchildren with
    | @exprsCons _ _ _ _ Kl _ hl hrest =>
      cases hrest with
      | @exprsCons _ _ _ _ Kr _ hr' hnil =>
        cases hnil
        rw [append_nil] at hr hnodup ⊢
        have hsub : Kl ⊆ c :: (Kl ++ Kr) := fun x hx => by simp [hx]
        obtain ⟨Kq, rfl, hquery⟩ := hl.of_isSubquery (hr.mono hsub) hq
        refine ⟨Kq, Kr, hnodup, Subset.refl _, hquery, fun d hd hne => ?_⟩
        rcases mem_pair.mp hd with rfl | rfl
        · exact (hne rfl).elim
        · exact hr'
  · cases hchildren with
    | exprsCons ho hnil =>
      cases hnil
      rw [append_nil] at hr hnodup ⊢
      obtain ⟨Kq, rfl, hquery⟩ := ho.of_isSubquery (hr.mono (subset_cons_self _ _)) hq
      refine ⟨Kq, [], ?_, ?_, hquery, fun d hd hne => (hne (mem_singleton.mp hd)).elim⟩
      · rw [append_nil]
        exact hnodup
      · rw [append_nil]
        exact Subset.refl _

end

end SqlAnalysis
