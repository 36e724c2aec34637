import SqlAnalysis.Proofs.Binding.InsertMeaning
import SqlAnalysis.Proofs.Binding.References
import SqlAnalysis.Proofs.Plan.Provenance

/-!
# Plans are closed

Every column in the conditions, grouping expressions, sort keys and select list of a plan belongs to a
relation that the plan reads.  An INSERT ... SELECT is bound in a scope that shows its target, which the
plan does not read.

* **`Lowers.regroup`**: the select list of a query matters for the grouping of its plan only.
* **`plan_closed_or_target`**: a column that the plan does not read is one of the target of an INSERT.
-/

namespace SqlAnalysis

open LowerM List

variable {out : Lowered} {x y : ExprId} {a bound : Arena} {R : Registry}
  {Γ : List (List ScopeTable)} {K : List ExprId} {s s' : LowerState} {scans : List Plan.Scan}
  {ref : ColumnRef}

/-! ### Plans that group differently -/

/-- The second plan has another grouping of its first block than the first plan; what the first one is
grouped by is in `E`. -/
inductive Plan.Regroups (E : List ExprId) : Plan → Plan → Prop where
  | refl (p : Plan) : Regroups E p p
  | keys {keys : List ExprId} {p : Plan} : keys ⊆ E → Regroups E (.aggregate keys p) (.aggregate [] p)
  | added {p : Plan} : Regroups E p (.aggregate [] p)
  | limit {count : Option Nat} {offset : Nat} {keys : List SortKey} {p p' : Plan} :
    Regroups E p p' → Regroups E (.limit count offset keys p) (.limit count offset keys p')
  | union {l l' r : Plan} : Regroups E l l' → Regroups E (.union l r) (.union l' r)

namespace Plan.Regroups

variable {E : List ExprId} {p p' : Plan}

theorem attachCte (h : Regroups E p p') (name : String) (body : Plan) :
    Option.Rel (Regroups E) (p.attachCte name body) (p'.attachCte name body) := by
  induction h with
  | refl p =>
    cases p.attachCte name body with
    | none => exact .none
    | some q => exact .some (.refl q)
  | @keys _ p hkeys =>
    rw [Plan.attachCte, Plan.attachCte]
    cases p.attachCte name body with
    | none => exact .none
    | some => exact .some (.keys hkeys)
  | @added p =>
    rw [Plan.attachCte]
    cases p.attachCte name body with
    | none => exact .none
    | some => exact .some .added
  | @limit _ _ _ p p' _ ih =>
    rw [Plan.attachCte, Plan.attachCte]
    generalize p.attachCte name body = x at ih ⊢
    generalize p'.attachCte name body = y at ih ⊢
    cases ih with
    | none => exact .none
    | some hq => exact .some (.limit hq)
  | @union l l' r hl ih =>
    rw [Plan.attachCte, Plan.attachCte]
    generalize l.attachCte name body = x at ih ⊢
    generalize l'.attachCte name body = y at ih ⊢
    cases ih with
    | some hq => exact .some (.union hq)
    | none =>
      cases r.attachCte name body with
      | none => exact .none
      | some => exact .some (.union hl)

theorem attachAll {out' : Lowered} (h : Regroups E out.plan out'.plan)
    (bodies : List (VisibleCte × Lowered)) :
    Regroups E (out.attachAll bodies).plan (out'.attachAll bodies).plan := by
  induction bodies with
  | nil => exact h
  | cons b bodies ih =>
    show Regroups E ((out.attachAll bodies).attach b.1 b.2).plan ((out'.attachAll bodies).attach b.1 b.2).plan
    rw [Lowered.attach_plan, Lowered.attach_plan]
    have hrel := ih.attachCte b.1.name b.2.plan
    generalize (out.attachAll bodies).plan.attachCte b.1.name b.2.plan = x at hrel ⊢
    generalize (out'.attachAll bodies).plan.attachCte b.1.name b.2.plan = y at hrel ⊢
    cases hrel with
    | none => exact ih
    | some hq => exact hq

theorem scans_eq (h : Regroups E p p') : p'.scans = p.scans := by
  induction h with
  | refl => rfl
  | keys => rw [Plan.scans_of_children rfl, Plan.scans_of_children rfl, Plan.children, Plan.children]
  | added =>
    rw [Plan.scans_of_children rfl]
    exact append_nil _
  | limit _ ih =>
    rw [Plan.scans_of_children rfl, Plan.scans_of_children rfl]
    exact congrArg (· ++ []) ih
  | union _ ih => rw [Plan.scans_union, Plan.scans_union, ih]

theorem clauses (h : Regroups E p p') (hx : x ∈ p.clauses) : x ∈ p'.clauses ∨ x ∈ E := by
  induction h with
  | refl => exact .inl hx
  | keys hkeys =>
    rw [Plan.clauses_eq] at hx ⊢
    exact (mem_append.mp hx).elim (fun hx => .inr (hkeys hx)) .inl
  | @added p =>
    rw [Plan.clauses_eq]
    exact .inl (by simpa [Plan.ownClauses, Plan.children] using hx)
  | limit _ ih | union _ ih =>
    rw [Plan.clauses_eq] at hx ⊢
    simp only [Plan.children, flatMap_cons, flatMap_nil, append_nil, mem_append] at hx ⊢
    tauto

end Plan.Regroups

/-! ### The select list of a query -/

def Select.regrouped (q : Select) (items : List ExprId) : Select :=
  { q with items := items, distinct := false, grouping := some (q.grouping.getD { keys := [] }) }

theorem Select.grouping_regrouped (q : Select) (items : List ExprId) :
    ((q.regrouped items).grouping.map (·.exprs)).getD [] = (q.grouping.map (·.exprs)).getD [] := by
  rw [regrouped]
  cases q.grouping <;> rfl

theorem Means.regrouped {env : Accessor} {Δ Δ' : EntryMap} {q : Select}
    (h : Means env a R Γ Δ (.query Δ' q) K) :
    Means env a R Γ Δ (.query Δ' (q.regrouped q.items)) K := by
  cases h with
  | query hblock hunion =>
    refine .query ?_ hunion
    cases hblock with
    | block hdepth hF haliases hstars hkeys he hi hs hf hg ho =>
      refine .block hdepth hF haliases hstars hkeys he hi hs hf ?_ ho
      rw [Select.grouping_regrouped]
      exact hg

section

variable {env : Accessor} {depth : Nat} {q : Select} {input plan plan' : Plan}

theorem lowerAggregation_regrouped (h : lowerAggregation a depth q input = .ok plan) (items : List ExprId) :
    ∃ plan', lowerAggregation a depth (q.regrouped items) input = .ok plan' ∧
      Plan.Regroups q.items plan plan' := by
  have hgrouping : lowerAggregation a depth (q.regrouped items) input =
      lowerGrouping a (q.grouping.getD { keys := [] }) input := by
    simp [lowerAggregation, Select.regrouped]
  rw [hgrouping]
  unfold lowerAggregation at h
  dsimp only at h
  split at h
  · cases h
  · cases hg : q.grouping with
    | some =>
      rw [hg] at h
      exact ⟨plan, h, .refl plan⟩
    | none =>
      rw [hg] at h
      refine ⟨_, rfl, ?_⟩
      dsimp only at h
      split at h
      · cases h
        exact .refl _
      · split at h
        · cases h
          exact .keys (Subset.refl _)
        · cases h
          exact .added

theorem lowerLimit_regroups {E : List ExprId} (h : lowerLimit q input = .ok plan)
    (hinput : Plan.Regroups E input plan') :
    ∃ limited, lowerLimit q plan' = .ok limited ∧ Plan.Regroups E plan limited := by
  unfold lowerLimit at h ⊢
  split at h
  · rename_i hnone
    cases h
    exact ⟨plan', if_pos hnone, hinput⟩
  · rename_i hsome
    rw [if_neg hsome]
    dsimp only at h ⊢
    cases hc : rowCount? (q.bounds.getD {}).limit with
    | error =>
      rw [hc] at h
      cases h
    | ok =>
      cases ho : rowCount? (q.bounds.getD {}).offset with
      | error =>
        rw [hc, ho] at h
        cases h
      | ok =>
        rw [hc, ho] at h
        cases h
        exact ⟨_, rfl, .limit hinput⟩

theorem Lowers.regroup {ctes : List VisibleCte} {own right : List String}
    (h : Lowers env (.query ctes own right q out) s s') (items : List ExprId) :
    ∃ out', Lowers env (.query ctes own right (q.regrouped items) out') s s' ∧
      Plan.Regroups q.items out.plan out'.plan := by
  have hblock {ctes own out s s'} (h : Lowers env (.block ctes own q out) s s') :
      ∃ out', Lowers env (.block ctes own (q.regrouped items) out') s s' ∧
        Plan.Regroups q.items out.plan out'.plan := by
    cases h with
    | block hdepth hf hw hagg hlimit =>
      obtain ⟨_, hagg', hgroups⟩ := lowerAggregation_regrouped hagg items
      obtain ⟨_, hlimit', hgroups⟩ := lowerLimit_regroups hlimit hgroups
      exact ⟨_, .block hdepth hf hw hagg' hlimit', hgroups⟩
  cases h with
  | queryAlone hunion he hb =>
    obtain ⟨out', hb', hgroups⟩ := hblock hb
    exact ⟨_, .queryAlone hunion he hb', hgroups.attachAll _⟩
  | queryUnion hunion he hb hr =>
    obtain ⟨_, hb', hgroups⟩ := hblock hb
    refine ⟨_, .queryUnion hunion he hb' hr, Plan.Regroups.attachAll ?_ _⟩
    exact .union hgroups

end

/-! ### Columns of a plan -/

theorem Placed.table_eq (h : Placed bound a R Γ scans K x) (hy : a.Contains x y)
    (href : a.expr y = .column ref) :
    (∃ scan ∈ scans, ref.table = some scan.knownAs) ∨ ∃ F ∈ Γ, ∃ t ∈ F, ref.table = some t.knownAs := by
  obtain ⟨_, rfl, _, hcovered⟩ := (h y hy).2 ref href
  rcases hcovered with ⟨F, outer, hsuffix, t, ht, hc⟩ | ⟨r, _, ⟨_, hc⟩, scan, hscan, hknown⟩
  · refine .inr ⟨F, hsuffix.subset mem_cons_self, t, ht, congrArg some ?_⟩
    exact ScopeTable.knownAs_of_mem_columns hc
  · refine .inl ⟨scan, hscan, congrArg some ?_⟩
    rw [hknown, ScopeTable.knownAs_of_mem_columns hc]

section

variable {env : Accessor} {b : Bound} {tree : Plan} {n : Nat} {q : Select}

theorem Lowers.query_accounted (h : Lowers (env.withNextTemp n) (.query [] [] [] q out) s s')
    (hs : s.exprs = bound)
    (hmeans : Means env bound R Γ (fun _ => none) (.query (fun _ => none) q) K) (hK : K.Nodup) :
    Arena.Keeps K bound s'.exprs ∧ Account bound s'.exprs R Γ K [] out ∧
      ∀ x ∈ q.items, Placed bound s'.exprs R Γ out.plan.scans K x := by
  have haccounted : LowerTask.Accounted env bound R s.exprs s'.exprs (.query [] [] [] q out) :=
    h.accounted fun _ _ => rfl
  rw [hs] at haccounted
  exact haccounted Γ _ _ K hmeans (matches_nil _) (fun _ => matches_nil _) hK (.refl bound K)

theorem lower_insert_lowers {insert : Insert} (hb : b.statement = .insert insert)
    (hsource : insert.source = .query q) (h : (lower env b).result = .ok tree) :
    ∃ table out, tree = .insertSelect table out.plan ∧
      Lowers env (.query [] [] [] q out) ⟨b.exprs, env.catalog.nextTemp⟩
        ⟨(lower env b).bound.exprs, (lower env b).nextTemp⟩ := by
  have hrun := lower_run h
  simp only [hb, lowerStatementWith, lowerInsert, hsource, run_bind, LowerM.run_ofExcept, LowerM.run_exprs,
    run_pure] at hrun
  obtain ⟨table, _, ⟨_, rfl⟩, _, _, ⟨_, rfl⟩, _, _, ⟨_, rfl⟩, _, _, ⟨_, _, rfl⟩, _, _, ⟨_, rfl⟩, _, _,
    hquery, rfl, rfl⟩ := hrun
  obtain ⟨out, rfl, hlowers⟩ := lowerQuery_lowers env _ _ _ _ _ _ hquery [] []
  exact ⟨table, out, rfl, hlowers⟩

end

/-! ### Statements -/

/-- The query of a SELECT or of an INSERT ... SELECT. -/
def Statement.query? : Statement → Option Select
  | .select q => some q
  | .insert ⟨_, _, .query q⟩ => some q
  | _ => none

section

variable {env : Accessor} {p : Parsed} {parameters : List Value} {b : Bound} {tree : Plan} {n : Nat}
  {q0 : Select}

theorem select_reads (henv : env.Numbered) (hp : p.statement = .select q0)
    (hfresh : p.exprs.FreshQuery q0) (hb : (bind env p parameters).result = .ok b)
    (htree : (lower (env.withNextTemp n) b).result = .ok tree) :
    ∃ q, b.statement = .select q ∧ ∀ x ∈ tree.clauses ++ q.items, ∀ y ref,
      (lower (env.withNextTemp n) b).bound.exprs.Contains x y →
      (lower (env.withNextTemp n) b).bound.exprs.expr y = .column ref →
      ∃ scan ∈ tree.scans, ref.table = some scan.knownAs := by
  obtain ⟨q, _, _, _, hq, _, _, hK, hmeans⟩ := bind_means henv hp hfresh hb
  obtain ⟨out, hout⟩ := exists_derives hq htree
  obtain rfl : out.plan = tree := Except.ok.inj (hout.result.symm.trans htree)
  obtain ⟨_, haccount, hitems⟩ := hout.lowers.query_accounted rfl hmeans hK
  refine ⟨q, hq, fun x hx y ref hy href => ?_⟩
  have hplaced := (mem_append.mp hx).elim (haccount.clauses x) (hitems x)
  -- there are no blocks around the statement
  exact (hplaced.table_eq hy href).resolve_right fun ⟨F, hF, _⟩ => not_mem_nil hF

theorem RowValue.table_eq {F : List ScopeTable} {items : List ExprId} {id : ExprId}
    (h : RowValue env b.exprs [F] (fun _ => none) n items id)
    (hitems : ∀ x ∈ items, Placed b.exprs a R [F] scans K x) (hK : ∀ x ∈ K, x < n)
    (hk : Arena.Keeps K b.exprs a) (ht : Tracks b.exprs a) (hy : a.Contains id y)
    (href : a.expr y = .column ref) :
    (∃ scan ∈ scans, ref.table = some scan.knownAs) ∨ ∃ t ∈ F, ref.table = some t.knownAs := by
  have hfound {R' : Registry} {K' : List ExprId} (h : Placed b.exprs a R' [F] scans K' id) :
      (∃ scan ∈ scans, ref.table = some scan.knownAs) ∨ ∃ t ∈ F, ref.table = some t.knownAs := by
    refine (h.table_eq hy href).imp_right fun ⟨F', hF, ht⟩ => ?_
    rwa [mem_singleton.mp hF] at ht
  cases h with
  | item hid => exact hfound (hitems id hid)
  | @operand v t hv he =>
    rcases ht.operand (x := v) (c := id) (by rw [he]; exact mem_singleton_self _) with hsub | hchild
    · -- a subquery has no columns of its own
      obtain ⟨_, _, hq⟩ := query?_of_isSubquery ((ht.isSubquery id).trans hsub)
      cases hy with
      | here =>
        rw [hq] at href
        cases href
      | child hc =>
        rw [hq] at hc
        cases hc
    · exact hfound ((hitems v hv).of_contains (.child hchild (.here id)))
  | added hnew hmeans =>
    refine hfound (placed_of_means hmeans ((Ready.refl b.exprs _).keep hk ?_ ht) scans)
    exact fun x hx hx' => Nat.not_lt.mpr (hnew x hx') (hK x hx)

/-- **Plans are closed, up to the target of an INSERT.**  Every column in the conditions, grouping
expressions, sort keys and select list of the plan of a SELECT or an INSERT ... SELECT has the alias of a
relation that the plan reads, or it is a column of the target.  Nothing is said about the select list of an
INSERT whose target has a default with a resolved column: where such a default is copied, it brings the
columns that it was stored with. -/
theorem plan_closed_or_target (henv : env.Numbered) (hquery : p.statement.query? = some q0)
    (hstatement : p.statement.isFresh = true) (hfresh : p.exprs.FreshQuery q0)
    (hb : (bind env p parameters).result = .ok b)
    (htree : (lower (env.withNextTemp n) b).result = .ok tree) :
    ∃ q, b.statement.query? = some q ∧ ∀ x ∈ tree.clauses ++ q.items, ∀ y ref,
      (lower (env.withNextTemp n) b).bound.exprs.Contains x y →
      (lower (env.withNextTemp n) b).bound.exprs.expr y = .column ref →
      (∃ scan ∈ tree.scans, ref.table = some scan.knownAs) ∨
        ∃ insert, b.statement = .insert insert ∧ (ref.table = some insert.table.knownAs ∨
          x ∈ q.items ∧ ∃ target, env.requireTable insert.table.name = .ok target ∧ ¬target.2.Unresolved) := by
  cases hp : p.statement with
  | select q =>
    rw [hp] at hquery
    cases hquery
    obtain ⟨q, hq, hreads⟩ := select_reads henv hp hfresh hb htree
    exact ⟨q, by rw [hq]; rfl, fun x hx y ref hy href => .inl (hreads x hx y ref hy href)⟩
  | insert insert0 =>
    obtain ⟨_, _, source0⟩ := insert0
    cases source0 with
    | values =>
      rw [hp] at hquery
      cases hquery
    | query q =>
      rw [hp] at hquery hstatement
      cases hquery
      have htable := (Bool.and_eq_true_iff.mp hstatement).1
      obtain ⟨insert, target, q, row, F, _, _, _, hinsert, htarget, hsource, hF, hK, hlt, hmeans, hrow⟩ :=
        bind_insert_means henv hp rfl (Option.isNone_iff_eq_none.mp htable) hfresh hb
      obtain ⟨table, out, rfl, hlowers⟩ := lower_insert_lowers hinsert hsource htree
      have ht := (hlowers.reachesBack (.refl b.exprs)).1
      -- the plan is that of the query with its own select list, up to its grouping
      obtain ⟨out', hlowers', hgroups⟩ := hlowers.regroup q.items
      obtain ⟨hk, haccount, hitems⟩ := hlowers'.query_accounted rfl hmeans.regrouped hK
      have hscans : (Plan.insertSelect table out.plan).scans = out'.plan.scans := by
        rw [hgroups.scans_eq, Plan.scans_of_children rfl]
        exact append_nil _
      refine ⟨{ q with items := row }, by obtain ⟨_, _, _⟩ := insert; cases hsource; rw [hinsert]; rfl, ?_⟩
      intro x hx y ref hy href
      rw [hscans]
      have htarget_of (h : ∃ t ∈ F, ref.table = some t.knownAs) : ref.table = some insert.table.knownAs := by
        obtain ⟨t, ht, hknown⟩ := h
        rw [hknown, hF t ht]
      -- a clause of the plan, or a value
      have hcases : x ∈ out'.plan.clauses ∨ x ∈ row := by
        rcases mem_append.mp hx with hx | hx
        · rw [Plan.clauses_eq] at hx
          exact hgroups.clauses (by simpa [Plan.ownClauses, Plan.ownPredicates, Plan.children] using hx)
        · exact .inr hx
      rcases hcases with hx | hx
      · refine ((haccount.clauses x hx).table_eq hy href).imp_right fun hfound => ?_
        obtain ⟨F', hF', hfound⟩ := hfound
        rw [mem_singleton.mp hF'] at hfound
        exact ⟨insert, hinsert, .inl (htarget_of hfound)⟩
      · by_cases hschema : target.2.Unresolved
        · refine ((hrow hschema x hx).table_eq hitems hlt hk ht hy href).imp_right fun hfound => ?_
          exact ⟨insert, hinsert, .inl (htarget_of hfound)⟩
        · exact .inr ⟨insert, hinsert, .inr ⟨hx, target, htarget, hschema⟩⟩
  | update | delete | create | drop | analyze | explain =>
    rw [hp] at hquery
    cases hquery

end

/-- `SELECT x.a FROM t AS x WHERE x.b = 1 ORDER BY x.b` -/
def copiedColumnQuery : Select :=
  { items := [0]
    source := some (.table (.named "t" "x"))
    filter := some 1
    ordering := some [{ expr := 4, direction := .ascending }] }

/-- The rows of that query, inserted into `t (b)`. -/
def copiedColumn : Parsed :=
  { statement := .insert {
      table := .named "t" "t"
      columns := ["b"]
      source := .query copiedColumnQuery }
    exprs := .ofExprs [
      .columnOf "x" "a",
      .compare .equal 2 3,
      .columnOf "x" "b",
      .constant (.ofByte 1),
      .columnOf "x" "b"] }

/-- `INSERT INTO t (b) SELECT a` -/
def targetColumn : Parsed :=
  { statement := .insert {
      table := .named "t" "t"
      columns := ["b"]
      source := .query { items := [0] } }
    exprs := .ofExprs [.column { column := "a" }] }

/-- The plan reads `t` as `x`, and all columns in its condition, its sort key and its select list are of
`x`. -/
def copiedColumnFacts : Bool :=
  match (bind twoColumns copiedColumn []).result with
  | .error _ => false
  | .ok b =>
    match (lower (twoColumns.withNextTemp (bind twoColumns copiedColumn []).nextTemp) b).result with
    | .error _ => false
    | .ok tree => tree.clauses = [4, 1] && (b.statement.query?.map (·.items)) = some [5, 0]

/-- The column is one of the target, and the plan reads only the row without columns. -/
def targetColumnFacts : Bool :=
  match (bind twoColumns targetColumn []).result with
  | .error _ => false
  | .ok b =>
    match (lower (twoColumns.withNextTemp (bind twoColumns targetColumn []).nextTemp) b).result with
    | .error _ => false
    | .ok tree => tree.scans.map (·.knownAs) = [⟨"", none⟩] && (b.statement.query?.map (·.items)) = some [1, 0] &&
      (((lower (twoColumns.withNextTemp (bind twoColumns targetColumn []).nextTemp) b).bound.exprs.expr
        0).column?.map (·.table)) = some (some ⟨"t", some 1⟩)

theorem copiedAndTargetColumn_facts :
    (copiedColumn.statement.isFresh && copiedColumn.exprs.isFreshQuery 8 copiedColumnQuery &&
      copiedColumnFacts && targetColumn.statement.isFresh &&
      targetColumn.exprs.isFreshQuery 2 { items := [0] } && targetColumnFacts) = true := by
  decide +kernel

theorem copiedColumn_closed :
    ∃ b tree q, (bind twoColumns copiedColumn []).result = .ok b ∧
      (lower (twoColumns.withNextTemp (bind twoColumns copiedColumn []).nextTemp) b).result = .ok tree ∧
      tree.clauses = [4, 1] ∧ b.statement.query? = some q ∧ q.items = [5, 0] ∧
      ∀ x ∈ tree.clauses ++ q.items, ∀ y ref,
        (lower (twoColumns.withNextTemp (bind twoColumns copiedColumn []).nextTemp) b).bound.exprs.Contains
          x y →
        (lower (twoColumns.withNextTemp (bind twoColumns copiedColumn []).nextTemp) b).bound.exprs.expr y =
          .column ref →
        (∃ scan ∈ tree.scans, ref.table = some scan.knownAs) ∨
          ∃ insert, b.statement = .insert insert ∧ (ref.table = some insert.table.knownAs ∨
            x ∈ q.items ∧ ∃ target, twoColumns.requireTable insert.table.name = .ok target ∧
              ¬target.2.Unresolved) := by
  have hall := copiedAndTargetColumn_facts
  simp only [Bool.and_eq_true] at hall
  obtain ⟨⟨⟨⟨⟨hstatement, hfresh⟩, hfacts⟩, -⟩, -⟩, -⟩ := hall
  unfold copiedColumnFacts at hfacts
  split at hfacts
  · cases hfacts
  · rename_i b hb
    split at hfacts
    · cases hfacts
    · rename_i tree htree
      simp only [Bool.and_eq_true, decide_eq_true_eq, Option.map_eq_some_iff] at hfacts
      obtain ⟨hclauses, q, hq, hitems⟩ := hfacts
      obtain ⟨_, hq', hclosed⟩ := plan_closed_or_target
        (Catalog.Reachable.accessor (.create (.table _ _ _) _ .initial)) rfl hstatement
        (Arena.freshQuery_of_isFreshQuery hfresh) hb htree
      cases hq.symm.trans hq'
      exact ⟨b, tree, q, hb, htree, hclauses, hq, hitems, hclosed⟩

theorem targetColumn_not_closed :
    targetColumn.statement.isFresh = true ∧ targetColumn.exprs.FreshQuery { items := [0] } ∧
      ∃ b tree q ref, (bind twoColumns targetColumn []).result = .ok b ∧
        (lower (twoColumns.withNextTemp (bind twoColumns targetColumn []).nextTemp) b).result = .ok tree ∧
        b.statement.query? = some q ∧ 0 ∈ q.items ∧
        (lower (twoColumns.withNextTemp (bind twoColumns targetColumn []).nextTemp) b).bound.exprs.expr 0 =
          .column ref ∧ ∀ scan ∈ tree.scans, ref.table ≠ some scan.knownAs := by
  have hall := copiedAndTargetColumn_facts
  simp only [Bool.and_eq_true] at hall
  obtain ⟨⟨⟨-, hstatement⟩, hfresh⟩, hfacts⟩ := hall
  refine ⟨hstatement, Arena.freshQuery_of_isFreshQuery hfresh, ?_⟩
  unfold targetColumnFacts at hfacts
  split at hfacts
  · cases hfacts
  · rename_i b hb
    split at hfacts
    · cases hfacts
    · rename_i tree htree
      simp only [Bool.and_eq_true, decide_eq_true_eq, Option.map_eq_some_iff] at hfacts
      obtain ⟨⟨hscans, q, hq, hitems⟩, ref, href, htable⟩ := hfacts
      refine ⟨b, tree, q, ref, hb, htree, hq, by rw [hitems]; decide,
        Expr.eq_column_of_column? href, fun scan hscan => ?_⟩
      have hknown : scan.knownAs ∈ tree.scans.map (·.knownAs) := mem_map_of_mem hscan
      rw [hscans, mem_singleton] at hknown
      rw [htable, hknown]
      decide

end SqlAnalysis
