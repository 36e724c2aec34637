import SqlAnalysis.Proofs.Binding.WellFormed
import SqlAnalysis.Proofs.Plan.Tracks

/-!
# How the building of plans ends

The plan of a well-formed statement is built with enough levels, or the statement is refused.

* **`endsWell_decorrelate`**: a condition loses its subquery and refers to its output instead.
* **`lowerQuery_able`**: the building of plans with a number of levels is able to use them.
-/

namespace SqlAnalysis

open LowerM List TableRef Arena

variable {α : Type} {q : Select} {first c : ExprId} {a : Arena} {use : SubqueryUse}

/-! ### Levels -/

/-- Some expressions are in the store, and the queries that occur in them have, together with so many
other parts, at most so many parts as there are levels. -/
structure Arena.Fits (n weight : Nat) (ids : List ExprId) (a : Arena) : Prop where
  lt_size : ∀ y ∈ ids, y < a.size
  load_le : weight + a.load ids ≤ n

namespace Arena.Fits

variable {a' : Arena} {n weight weight' : Nat} {ids ids' : List ExprId} {x y : ExprId}

theorem refines (h : a.Fits n weight ids) (ha : a.WellFormed) (hr : a.Refines a') :
    a'.Fits n weight ids where
  lt_size y hy := (h.lt_size y hy).trans_le hr.size_le
  load_le := (Nat.add_le_add_left (hr.load_le ha h.lt_size) _).trans h.load_le

theorem mono (h : a.Fits n weight ids) (hweight : weight' ≤ weight) (hids : ∀ y ∈ ids', y ∈ ids) :
    a.Fits n weight' ids' where
  lt_size y hy := h.lt_size y (hids y hy)
  load_le := (Nat.add_le_add hweight (load_mono hids)).trans h.load_le

theorem reaches (h : a.Fits n weight ids) (ha : a.WellFormed) (hy : y ∈ ids) (hx : a.Reaches y x) :
    a.Fits n 0 [x] := by
  refine ⟨fun z hz => ?_, ?_⟩
  · rw [mem_singleton.mp hz]
    rcases Relation.reflTransGen_iff_eq_or_transGen.mp hx with rfl | hbelow
    · exact h.lt_size _ hy
    · exact ha.lt_size_of_below hbelow
  · rw [Nat.zero_add]
    calc a.load [x] ≤ a.load ids := load_le_of_reaches fun z hz => ⟨y, hy, by
          rw [mem_singleton.mp hz]
          exact hx⟩
      _ ≤ weight + a.load ids := Nat.le_add_left _ _
      _ ≤ n := h.load_le

end Arena.Fits

theorem Arena.WellFormed.grounded (h : a.WellFormed) {x : ExprId} (hx : x < a.size) : a.Grounded x := by
  induction hn : a.rank x using Nat.strong_induction_on generalizing x with
  | _ _ ih =>
    refine .intro hx fun c hc => ?_
    have hrefers : a.Refers x c := Expr.mem_parts_of_children hc
    exact ih _ (hn ▸ h.rank_lt hrefers) (h.lt_size hrefers) rfl

/-- The building of a plan gives a result or refuses, and refines the store. -/
abbrev LowerM.Ends (act : LowerM α) (s : LowerState) : Prop :=
  EndsWell LowerState.exprs act (fun _ _ => True) s

def LowerQuery.Able (lower : LowerQuery) (n : Nat) : Prop :=
  ∀ ⦃ctes q s⦄, s.exprs.WellFormed → s.exprs.Fits n q.weight q.exprs →
    Ends (lower ctes q) s

section

variable {env : Accessor} {lower : LowerQuery} {ctes : List VisibleCte} {n : Nat} {s : LowerState}

theorem endsWell_exprs (hs : s.exprs.WellFormed) {weight : Nat} {ids : List ExprId}
    (h : s.exprs.Fits n weight ids) : Ends (exprs ids) s :=
  .of_ok (run_exprs.mpr ⟨look_ok fun id hid => hs.grounded (h.lt_size id hid), rfl, rfl⟩) (.refl _) trivial

theorem endsWell_ofExcept (x : Except Diagnostic α) :
    Ends (ofExcept x) s := by
  cases x with
  | ok => exact endsWell_pure trivial
  | error e => exact endsWell_refused e

/-! ### Subqueries -/

theorem endsWell_onQuery {id : ExprId} {act : Select → LowerM α} {Q : α → Prop}
    (hs : s.exprs.WellFormed) (hq : s.exprs.expr id = .subquery q)
    (h : EndsWell LowerState.exprs (act q) (fun r _ => Q r)
      { s with exprs := s.exprs.setQuery id {} }) :
    EndsWell LowerState.exprs (onQuery id act) (fun r _ => Q r) s := by
  have hback {a' : Arena} (hr : (s.exprs.setQuery id {}).Refines a') :
      s.exprs.Refines (a'.setQuery id q) :=
    ((refines_takeQuery hq).trans hr hs).setQuery hq
      ⟨le_rfl, .of_subset fun _ hy => hy⟩
  have hquery : s.exprs.query? id = some q := query?_eq_some.mpr hq
  unfold EndsWell onQuery
  rw [hquery, Option.getD_some]
  dsimp only
  cases hrun : act q { s with exprs := s.exprs.setQuery id {} } with
  | ok =>
    obtain ⟨hr, hQ⟩ := h.ok hrun
    exact ⟨hback hr, hQ⟩
  | error =>
    obtain ⟨hr, he⟩ := h.error hrun
    exact ⟨hback hr, he⟩

theorem endsWell_lowerSubquery (hlower : lower.Able n) (hs : s.exprs.WellFormed)
    (hq : s.exprs.Fits n q.weight q.exprs) (singleColumn : Bool) :
    Ends (lowerSubquery lower ctes singleColumn q) s := by
  have hread : ∀ y ∈ q.items ++ q.filter.toList, y ∈ q.exprs := forall_mem_append.mpr ⟨q.items_subset,
    fun y hy => (Select.forall_mem_exprs.mp fun _ h => h).2.2.2.1 y (mem_append_left _ hy)⟩
  have hend : Ends (do
      ofExcept (checkSubquery (← exprs (q.items ++ q.filter.toList)) q)
      lower ctes q) s := by
    refine .bind hs (endsWell_exprs hs (hq.mono (Nat.zero_le _) hread)) fun {_ s1} _ hs1 hr1 _ => ?_
    refine .bind hs1 (endsWell_ofExcept _) fun {_ s2} _ hs2 hr2 _ => ?_
    exact hlower hs2 (hq.refines hs (hr1.trans hr2 hs))
  unfold lowerSubquery
  split
  · exact endsWell_refused_bind _
  · exact hend

theorem ctorIdx_decorrelatedPredicate (subquery first : ExprId) (e : Expr) :
    (decorrelatedPredicate subquery first e).ctorIdx = e.ctorIdx := by
  cases e <;> rfl

theorem mem_children_decorrelatedPredicate {subquery y : ExprId} {e : Expr}
    (h : y ∈ (decorrelatedPredicate subquery first e).children) : y = first ∨ y ∈ e.children := by
  cases e with
  | operate => exact .inl (mem_singleton.mp h)
  | compare _ left right =>
    have hreplace (x : ExprId) : (if x = subquery then first else x) = first ∨
        (if x = subquery then first else x) = x := by
      by_cases hx : x = subquery
      · exact .inl (if_pos hx)
      · exact .inr (if_neg hx)
    rcases mem_pair.mp h with rfl | rfl
    · exact (hreplace left).imp_right fun heq => mem_pair.mpr (.inl heq)
    · exact (hreplace right).imp_right fun heq => mem_pair.mpr (.inr heq)
  | _ => exact .inr h

theorem subqueryUse_refers (h : subqueryUse a c = .ok use) :
    a.Refers c use.subquery ∧ ((a.expr c).ctorIdx = 5 ∨ (a.expr c).ctorIdx = 7) := by
  rcases subqueryUse_ok h with ⟨op, left, right, he, _, _, hside⟩ | ⟨operand, he, _, _, huse, _⟩
  · refine ⟨?_, .inl (by rw [he]; rfl)⟩
    rw [Arena.Refers, he]
    exact mem_pair.mpr (hside.symm.imp (·.1) (·.1))
  · refine ⟨?_, .inr (by rw [he]; rfl)⟩
    rw [Arena.Refers, he, huse]
    exact mem_singleton_self _

theorem Arena.Refines.decorrelate {a' : Arena} (h : a.Refines a') (hc : c < a.size)
    (huse : subqueryUse a c = .ok use) (hq : a.expr use.subquery = .subquery q)
    (hfirst : first ∈ q.items) :
    a.Refines (a'.update c fun n =>
      { n with kind := decorrelatedPredicate use.subquery first n.kind }) := by
  obtain ⟨hrefers, hkind⟩ := subqueryUse_refers huse
  rw [← h.kind hc] at hkind
  refine h.update hc ?_ (ctorIdx_decorrelatedPredicate _ _ _) (fun he => ?_) fun y hy => ?_
  · rw [Expr.isSubquery_eq]
    rcases hkind with hkind | hkind
    · rw [hkind]
      rfl
    · rw [hkind]
      rfl
  · rw [he] at hkind
    cases hkind with
    | inl hkind => cases hkind
    | inr hkind => cases hkind
  · rcases mem_children_decorrelatedPredicate hy with rfl | hy
    · exact .inl (.head hrefers (below_of_query hq (q.items_subset y hfirst)))
    · exact h.refers hc (Expr.mem_parts_of_children hy)

theorem endsWell_decorrelate (hlower : lower.Able n) (hs : s.exprs.WellFormed)
    (hc : s.exprs.Fits n 0 [c]) (plan : Plan) :
    Ends (decorrelate lower ctes c plan) s := by
  refine .bind hs (endsWell_exprs hs hc) fun {a s1} hrun hs1 hr1 _ => ?_
  obtain ⟨_, rfl, rfl⟩ := run_exprs.mp hrun
  refine .bind hs (endsWell_ofExcept _) fun {use s1} hrun _ _ _ => ?_
  obtain ⟨huse, rfl⟩ := run_ofExcept.mp hrun
  obtain ⟨q, _, hq⟩ := query?_of_isSubquery (subqueryUse_isSubquery huse)
  have hfits : s.exprs.Fits n q.weight q.exprs := by
    refine ⟨fun y hy => hs.lt_size_of_below (below_of_query hq hy), ?_⟩
    have hload : q.weight + s.exprs.load q.exprs ≤ s.exprs.load [c] :=
      hs.weight_add_load_le mem_cons_self (.single (subqueryUse_refers huse).1) hq
    have hle := hc.load_le
    omega
  have htaken := refines_takeQuery hq
  have hquery : EndsWell LowerState.exprs (onQuery use.subquery fun query => do
      pure (← lowerSubquery lower ctes use.singleColumn query, query.items))
      (fun r _ => r.2 = q.items) s := by
    refine endsWell_onQuery hs hq ?_
    exact .bind (htaken.wellFormed hs) (endsWell_lowerSubquery hlower (htaken.wellFormed hs)
      (hfits.refines hs htaken) _) fun _ _ _ _ => endsWell_pure rfl
  refine hquery.bind_from fun {r s'} _ hr hitems => ?_
  obtain ⟨right, items⟩ := r
  cases items with
  | nil => exact ⟨hr, _, rfl⟩
  | cons first =>
    have hfirst : first ∈ q.items := hitems ▸ mem_cons_self
    exact ⟨hr.decorrelate (hc.lt_size c mem_cons_self) huse hq hfirst, trivial⟩

theorem endsWell_decorrelateAll (hlower : lower.Able n) (hs : s.exprs.WellFormed) {cs : List ExprId}
    (hcs : ∀ c ∈ cs, s.exprs.Fits n 0 [c]) (plan : Plan) :
    Ends (decorrelateAll lower ctes cs plan) s := by
  induction cs generalizing s plan with
  | nil => exact endsWell_pure trivial
  | cons _ _ ih =>
    rw [decorrelateAll]
    obtain ⟨hc, hcs⟩ := forall_mem_cons.mp hcs
    refine .bind hs (endsWell_exprs hs hc) fun {_ s1} _ hs1 hr1 _ =>
      endsWell_ite (fun _ => ?_) fun _ => ?_
    · refine .bind hs1 (endsWell_decorrelate hlower hs1 (hc.refines hs hr1) plan)
        fun {_ s2} _ hs2 hr2 _ => ?_
      exact ih hs2 (fun x hx => (hcs x hx).refines hs (hr1.trans hr2 hs)) _
    · exact ih hs1 (fun x hx => (hcs x hx).refines hs hr1) _

theorem endsWell_lowerFilter (hlower : lower.Able n) (hs : s.exprs.WellFormed) {filter : ExprId}
    (hfilter : s.exprs.Fits n 0 [filter]) (plan : Plan) :
    Ends (lowerFilter lower ctes filter plan) s := by
  refine .bind hs (endsWell_exprs hs hfilter) fun {a s1} hrun _ _ _ => ?_
  obtain ⟨_, rfl, rfl⟩ := run_exprs.mp hrun
  have hconjuncts : ∀ c ∈ s.exprs.conjuncts filter, s.exprs.Fits n 0 [c] := fun c hc =>
    hfilter.reaches hs mem_cons_self (contains_of_mem_conjuncts hc).reaches
  refine .bind hs (endsWell_decorrelateAll hlower hs hconjuncts plan) fun {_ s2} _ hs2 hr2 _ => ?_
  exact .bind hs2 (endsWell_exprs hs2 (hfilter.refines hs hr2)) fun _ _ _ _ => endsWell_pure trivial

end

/-! ### Queries and statements -/

/-- A well-formed store in which everything fits that did in the given one. -/
structure Arena.Affords (n : Nat) (a a' : Arena) : Prop where
  wellFormed : a'.WellFormed
  fits : ∀ {weight ids}, a.Fits n weight ids → a'.Fits n weight ids

instance {n : Nat} : Lasting (a.Affords n) where
  keep h hr := ⟨hr.wellFormed h.wellFormed, fun hf => (h.fits hf).refines h.wellFormed hr⟩

theorem LowerQuery.Able.builds {lower : LowerQuery} {n : Nat} (h : lower.Able n) (a : Arena) :
    lower.Builds (calm LowerState.exprs (a.Affords n)) fun weight ids => a.Fits n weight ids where
  mono hfits := hfits.mono
  query hq _ _ hs := (h hs.1 (hs.2.fits hq)).calm
  reads hids _ hs := (endsWell_exprs hs.1 (hs.2.fits hids)).calm
  filter hid _ plan _ hs := (endsWell_lowerFilter h hs.1 (hs.2.fits hid) plan).calm
  temp _ _ := .refl _

theorem lowerQuery_able (env : Accessor) (levels : Nat) : (lowerQuery env levels).Able levels := by
  induction levels with
  | zero =>
    intro ctes q s _ hfits
    have hload := hfits.load_le
    have hpos := q.weight_pos
    omega
  | succ n ih =>
    intro ctes q s hs hfits
    refine endsWell_of_follows hs ((ih.builds s.exprs).agree_lowerQueryWith ctes (fun hw hids => ?_)
      ⟨hs, hs, id⟩).2
    obtain ⟨hlt, hload⟩ := hfits.mono hw hids
    exact ⟨hlt, by omega⟩

section

variable {env : Accessor} {b : Bound}

/-- **A well-formed bound statement gets its plan or is refused.** -/
theorem endsWell_lower (hb : b.WellFormed) :
    Ends (lowerStatementWith env (lowerQuery env (lowerLevels b)) b.statement)
      { exprs := b.exprs, nextTemp := env.catalog.nextTemp } := by
  have hfits : b.exprs.Fits (lowerLevels b) b.statement.weight b.statement.exprs := by
    have hload := b.exprs.load_le_weight b.statement.exprs
    refine ⟨hb.lt_size, ?_⟩
    unfold lowerLevels
    omega
  refine endsWell_of_follows hb.store (((lowerQuery_able env _).builds b.exprs).agree_lowerStatementWith
    (fun _ _ => ?_) hfits ⟨hb.store, hb.store, id⟩).2
  exact .of_appends ((Arena.Appends.refl _).push rfl fun _ hc => absurd hc not_mem_nil)

theorem lower_refused (hb : b.WellFormed) {fault : Fault}
    (h : (lower env b).result = .error fault) : ∃ d, fault = .refused d := by
  unfold lower at h
  dsimp only at h
  split at h
  · cases h
  · rename_i hrun
    cases h
    exact ((endsWell_lower hb).error hrun).2

theorem lower_refines (env : Accessor) (hb : b.WellFormed) :
    b.exprs.Refines (lower env b).bound.exprs ∧ (lower env b).bound.WellFormed := by
  have hkept {a : Arena} (hr : b.exprs.Refines a) : ({ b with exprs := a } : Bound).WellFormed :=
    ⟨hr.wellFormed hb.store, fun y hy => (hb.lt_size y hy).trans_le hr.size_le⟩
  unfold lower
  dsimp only
  split
  · rename_i hrun
    have hr := ((endsWell_lower hb).ok hrun).1
    exact ⟨hr, hkept hr⟩
  · rename_i hrun
    have hr := ((endsWell_lower hb).error hrun).1
    exact ⟨hr, hkept hr⟩

end

end SqlAnalysis
