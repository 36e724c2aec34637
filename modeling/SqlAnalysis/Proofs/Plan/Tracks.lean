import SqlAnalysis.Proofs.Binding.Clauses

/-!
# How the building of plans treats the state

* **`LowerQuery.Builds`**: what nested queries and conditions have to do, so that all plans are built along
  a track.
* **`LowerQuery.Builds.agree_lowerStatementWith`**: then so are the plans of statements.
-/

namespace SqlAnalysis

open LowerM List TableRef Track

variable {α : Type} {T : Track LowerState}

namespace Track

theorem agree_except (x : Except Diagnostic α) : T.Follows (LowerM.ofExcept x) := by
  cases x with
  | ok a => exact agree_pure a
  | error => exact agree_refused _

theorem agree_joinPredicates {condition : Option ExprId} (h : T.Follows (exprs condition.toList)) :
    T.Follows (joinPredicates condition) := by
  cases condition with
  | none => exact agree_pure _
  | some => exact agree_bind h fun _ => agree_ite (agree_refused _) (agree_pure _)

end Track

theorem Select.afterGrouping_subset (q : Select) : ∀ y ∈ q.afterGrouping, y ∈ q.exprs := by
  have hconditions := (forall_mem_exprs (q := q) (S := (· ∈ q.exprs))).mp fun _ h => h
  refine forall_mem_append.mpr ⟨q.items_subset, fun y hy => hconditions.2.2.2.1 y (mem_append_right _ ?_)⟩
  cases hg : q.grouping with
  | none =>
    rw [hg] at hy
    cases hy
  | some g =>
    rw [hg] at hy
    exact mem_append_right _ hy

/-- Queries and conditions become plans along a track if they have no more parts and no other expressions
than the track allows. -/
structure LowerQuery.Builds (lower : LowerQuery) (T : Track LowerState)
    (Allows : Nat → List ExprId → Prop) : Prop where
  mono : ∀ {weight weight' ids ids'}, Allows weight ids → weight' ≤ weight → (∀ y ∈ ids', y ∈ ids) →
    Allows weight' ids'
  query : ∀ {q : Select}, Allows q.weight q.exprs → ∀ ctes, T.Follows (lower ctes q)
  reads : ∀ {ids}, Allows 0 ids → T.Follows (exprs ids)
  filter : ∀ {id}, Allows 0 [id] → ∀ ctes plan, T.Follows (lowerFilter lower ctes id plan)
  temp : ∀ {s : LowerState} {n}, T.Inv s → T.Rel s { s with nextTemp := n }

namespace LowerQuery.Builds

variable {env : Accessor} {lower : LowerQuery} {Allows : Nat → List ExprId → Prop} {q : Select}

/-! ### FROM -/

mutual

theorem agree_lowerSource (h : lower.Builds T Allows) (ctes : List VisibleCte) :
    (item : TableRef) → Allows item.weight item.exprs → T.Follows (lowerSource env lower ctes item)
  | .table _, _ => by
    rw [lowerSource]
    exact agree_except _
  | .derived q _, hitem => by
    rw [lowerSource]
    exact agree_bind (h.query (h.mono hitem (Nat.le_add_left _ _) fun _ hy => hy) ctes) fun _ =>
      agree_bind (h.reads (h.mono hitem (Nat.zero_le _) q.items_subset)) fun _ => agree_pure _
  | .join _ left right condition, hitem => by
    rw [lowerSource]
    rw [TableRef.weight, TableRef.exprs] at hitem
    have hleft : Allows left.weight left.exprs := h.mono hitem (by omega) fun y hy =>
      mem_append_left _ (mem_append_left _ hy)
    have hright : Allows right.weight right.exprs := h.mono hitem (by omega) fun y hy =>
      mem_append_left _ (mem_append_right _ hy)
    have hcondition : Allows 0 condition.toList := h.mono hitem (Nat.zero_le _) fun y hy =>
      mem_append_right _ hy
    exact agree_bind (h.agree_lowerSource ctes left hleft) fun _ =>
      agree_bind (h.agree_lowerSource ctes right hright) fun _ =>
      agree_bind (agree_joinPredicates (h.reads hcondition)) fun _ => agree_pure _
  | .list [], _ => by
    rw [lowerSource]
    exact agree_refused _
  | .list (first :: rest), hitem => by
    rw [lowerSource]
    rw [TableRef.weight, TableRef.exprs, weightAll, exprsAll] at hitem
    have hfirst : Allows first.weight first.exprs := h.mono hitem (by omega) fun y hy =>
      mem_append_left _ hy
    have hrest : Allows (weightAll rest) (exprsAll rest) := h.mono hitem (by omega) fun y hy =>
      mem_append_right _ hy
    exact agree_bind (h.agree_lowerSource ctes first hfirst) fun plan =>
      h.agree_lowerSources ctes plan rest hrest

theorem agree_lowerSources (h : lower.Builds T Allows) (ctes : List VisibleCte) (plan : Plan) :
    (items : List TableRef) → Allows (weightAll items) (exprsAll items) →
      T.Follows (lowerSources env lower ctes plan items)
  | [], _ => by
    rw [lowerSources]
    exact agree_pure _
  | item :: rest, hitems => by
    rw [lowerSources]
    rw [weightAll, exprsAll] at hitems
    have hitem : Allows item.weight item.exprs := h.mono hitems (by omega) fun y hy =>
      mem_append_left _ hy
    have hrest : Allows (weightAll rest) (exprsAll rest) := h.mono hitems (by omega) fun y hy =>
      mem_append_right _ hy
    exact agree_bind (h.agree_lowerSource ctes item hitem) fun _ => h.agree_lowerSources ctes _ rest hrest

end

variable (h : lower.Builds T Allows)

include h

/-! ### Query blocks -/

theorem agree_lowerCtes (ctes : List VisibleCte) {cs : List Cte}
    (hcs : Allows (Cte.weightAll cs) (Cte.exprsAll cs)) : T.Follows (lowerCtes lower ctes cs) := by
  induction cs generalizing ctes with
  | nil => exact agree_pure _
  | cons c cs ih =>
    rw [Cte.weightAll_cons, Cte.exprsAll_cons] at hcs
    have hquery : Allows c.query.weight c.query.exprs := h.mono hcs (by omega) fun y hy =>
      mem_append_left _ hy
    have hrest : Allows (Cte.weightAll cs) (Cte.exprsAll cs) := h.mono hcs (by omega) fun y hy =>
      mem_append_right _ hy
    have hvisible : T.Follows (visibleCte c) :=
      agree_bind (h.reads (h.mono hquery (Nat.zero_le _) c.query.items_subset)) fun _ => agree_bind (agree_modifyGet fun _ => h.temp) fun _ => agree_pure _
    exact agree_bind hvisible fun _ => agree_bind (h.query hquery _) fun _ =>
      agree_bind (ih _ hrest) fun _ => agree_pure _

theorem agree_lowerBody (ctes : List VisibleCte)
    (hsource : Allows (weightOpt q.source) (exprsOpt q.source)) (hfilter : Allows 0 q.filter.toList)
    (hafter : Allows 0 q.afterGrouping) :
    T.Follows (lowerBody env lower ctes q) := by
  unfold lowerBody
  cases q.depth with
  | none => exact agree_refused _
  | some depth =>
    -- from its last step to its first
    have hend (plan : Plan) : T.Follows (do
        let plan ← LowerM.ofExcept (lowerAggregation (← exprs q.afterGrouping) depth q plan)
        LowerM.ofExcept (lowerLimit q plan)) :=
      agree_bind (h.reads hafter) fun _ => agree_bind (agree_except _) fun _ => agree_except _
    cases hf : q.filter with
    | none =>
      cases hs : q.source with
      | none => exact hend _
      | some source =>
        rw [hs] at hsource
        exact agree_bind (h.agree_lowerSource ctes source hsource) hend
    | some =>
      rw [hf] at hfilter
      cases hs : q.source with
      | none => exact agree_bind (agree_pure _) fun plan => agree_bind (h.filter hfilter ctes plan) hend
      | some source =>
        rw [hs] at hsource
        exact agree_bind (h.agree_lowerSource ctes source hsource) fun plan =>
          agree_bind (h.filter hfilter ctes plan) hend

theorem agree_lowerQueryWith (ctes : List VisibleCte)
    (hq : ∀ {weight ids}, weight < q.weight → (∀ y ∈ ids, y ∈ q.exprs) → Allows weight ids) :
    T.Follows (lowerQueryWith env lower ctes q) := by
  obtain ⟨hctes, _, hsource, hconditions, _, hunion⟩ :=
    (Select.forall_mem_exprs (q := q) (S := (· ∈ q.exprs))).mp fun _ h => h
  have hweight := q.weight_eq
  refine agree_bind (h.agree_lowerCtes ctes (hq (by omega) hctes)) fun entries => ?_
  refine agree_bind (h.agree_lowerBody entries.2 (hq (by omega) hsource)
    (hq (by omega) fun y hy => hconditions y (mem_append_left _ hy))
    (hq (by omega) q.afterGrouping_subset)) fun plan => ?_
  cases hu : q.union with
  | none => exact agree_pure _
  | some right =>
    rw [hu] at hunion hweight
    rw [Select.weightOpt] at hweight
    exact agree_bind (h.query (hq (by omega) hunion) entries.2) fun _ => agree_pure _

/-! ### Statements -/

theorem agree_lowerInsert {i : Insert} (hi : Allows (Statement.insert i).weight i.source.exprs) :
    T.Follows (lowerInsert env lower i) := by
  refine agree_bind (agree_except _) fun _ => agree_bind (agree_except _) fun _ =>
    agree_bind (agree_except _) fun _ => ?_
  rw [Statement.weight] at hi
  cases hs : i.source with
  | values =>
    rw [hs] at hi
    exact agree_bind (h.reads (h.mono hi (Nat.zero_le _) fun _ hy => hy)) fun _ =>
      agree_bind (agree_forM fun _ _ => agree_except _) fun _ => agree_pure _
  | query q =>
    rw [hs] at hi
    exact agree_bind (h.reads (h.mono hi (Nat.zero_le _) q.items_subset)) fun _ => agree_bind (agree_except _) fun _ =>
      agree_bind (h.query hi []) fun _ => agree_pure _

theorem agree_lowerStatementWith
    (hcolumn : ∀ {s : LowerState} {ref t depth name}, T.Inv s → T.Rel s { s with exprs :=
      (s.exprs.push { kind := .column ref, type := t, depth := depth, name := name }).2 })
    {st : Statement} (hst : Allows st.weight st.exprs) : T.Follows (lowerStatementWith env lower st) := by
  induction st with
  | select => exact h.query hst []
  | insert => exact h.agree_lowerInsert hst
  | update =>
    exact agree_bind (h.reads (h.mono hst (Nat.zero_le _) fun _ hy => mem_append_left _ hy)) fun _ =>
      agree_except _
  | delete =>
    exact agree_bind (h.reads (h.mono hst (Nat.zero_le _) fun _ hy => hy)) fun _ => agree_except _
  | create _ c =>
    cases c with
    | database | schema => exact agree_pure _
    | table | view => exact agree_bind (agree_except _) fun _ => agree_pure _
    | index =>
      refine agree_bind (agree_except _) fun _ => agree_bind (agree_except _) fun schema =>
        agree_bind (agree_mapM fun key _ => ?_) fun _ => agree_bind (agree_except _) fun _ => agree_pure _
      cases key with
      | expression => exact agree_pure _
      | column name =>
        dsimp only [indexColumn]
        cases schema.column? name with
        | none => exact agree_refused _
        | some => exact agree_modifyGet fun _ => hcolumn
    | trigger => exact agree_except _
  | drop | analyze => exact agree_except _
  | explain _ ih =>
    refine agree_bind (ih (h.mono hst ?_ fun _ hy => hy)) fun _ => agree_pure _
    rw [Statement.weight]
    omega

end LowerQuery.Builds

end SqlAnalysis
