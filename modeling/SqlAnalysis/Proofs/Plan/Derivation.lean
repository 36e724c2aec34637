import SqlAnalysis.Planner
import SqlAnalysis.Proofs.Plan.Traversal
import SqlAnalysis.Proofs.Run

/-!
# Derivations of plans

What a run that builds a plan has done, as rules without a monad.  A derivation also keeps where the
parts of the plan come from: plans themselves do not say it.  The plan of a WITH entry is attached by
name, long after it was built, so its blocks are added to those of the plan around it only then, and
only if it was attached (`Lowered.attach`).

There is a kind of task for each computation and a rule for each way in which it can end well.  What a
plan means is left to later modules, which argue by induction on derivations.

* **`lowerQuery_lowers`**, **`exists_derives`**: every run that ends well has a derivation.
-/

namespace SqlAnalysis

open LowerM

section

variable {env : Accessor} {a : Arena} {s s' : LowerState} {b : Bound} {ctes : List VisibleCte} {q : Select}
  {plan input : Plan}

/-! ### Plans with their origin -/

/-- The plan of a WITH entry put under a reference. -/
structure Attachment where
  entry : VisibleCte
  body : Plan
  scan : CteScan

/-- A query block whose plan is part of a plan. -/
structure PlannedBlock where
  query : Select
  /-- The names of the recursive WITH entries whose base case the block belongs to, as far as no
  nearer entry has the name. -/
  ownNames : List String

/-- A plan with what it is made of. -/
structure Lowered where
  plan : Plan
  /-- The query blocks whose plans are part of the plan. -/
  blocks : List PlannedBlock := []
  /-- The WITH entries whose plans are part of the plan. -/
  attached : List Attachment := []

namespace Lowered

/-- A plan of a WITH entry is put under the first open reference of its name, with what it is made
of; an entry without an open reference is left out. -/
def attach (out : Lowered) (entry : VisibleCte) (body : Lowered) : Lowered :=
  match out.plan.openScans.find? (·.cte = entry.name),
    out.plan.attachCte entry.name body.plan with
  | some scan, some plan =>
    { plan := plan
      blocks := out.blocks ++ body.blocks
      attached := out.attached ++ (body.attached ++ [⟨entry, body.plan, scan⟩]) }
  | _, _ => out

def attachAll (out : Lowered) (bodies : List (VisibleCte × Lowered)) : Lowered :=
  bodies.foldr (fun b out => out.attach b.1 b.2) out

def combine (plan : Plan) (left right : Lowered) : Lowered :=
  { plan := plan
    blocks := left.blocks ++ right.blocks
    attached := left.attached ++ right.attached }

theorem attach_cases (out : Lowered) (entry : VisibleCte) (body : Lowered) :
    (out.plan.attachCte entry.name body.plan = none ∧ out.attach entry body = out) ∨
    ∃ scan plan, out.plan.openScans.find? (·.cte = entry.name) = some scan ∧
      out.plan.attachCte entry.name body.plan = some plan ∧
      out.attach entry body =
        { plan := plan
          blocks := out.blocks ++ body.blocks
          attached := out.attached ++ (body.attached ++ [⟨entry, body.plan, scan⟩]) } := by
  unfold attach
  cases hp : out.plan.attachCte entry.name body.plan with
  | none => exact .inl ⟨rfl, by split <;> simp_all⟩
  | some plan =>
    obtain ⟨scan, hscan, _⟩ := Plan.attachCte_references hp
    rw [hscan]
    exact .inr ⟨scan, plan, rfl, rfl, rfl⟩

theorem attach_plan (out : Lowered) (entry : VisibleCte) (body : Lowered) :
    (out.attach entry body).plan =
      (out.plan.attachCte entry.name body.plan).getD out.plan := by
  rcases out.attach_cases entry body with ⟨hnone, heq⟩ | ⟨scan, plan, _, hplan, heq⟩
  · rw [heq, hnone, Option.getD_none]
  · rw [heq, hplan, Option.getD_some]

theorem attachAll_plan (out : Lowered) (bodies : List (VisibleCte × Lowered)) :
    (out.attachAll bodies).plan = attachCtes (bodies.map fun b => (b.1.name, b.2.plan)) out.plan := by
  induction bodies with
  | nil => rfl
  | cons _ _ ih =>
    rw [attachCtes, List.map_cons, List.foldr_cons, ← attachCtes, ← ih]
    exact attach_plan _ _ _

theorem attachAll_keeps {P : Lowered → Prop} {bodies : List (VisibleCte × Lowered)} {out : Lowered}
    (h : P out) (hstep : ∀ b ∈ bodies, ∀ (l : Lowered) plan attached, P l →
      l.plan.attachCte b.1.name b.2.plan = some plan → P ⟨plan, l.blocks ++ b.2.blocks, attached⟩) :
    P (out.attachAll bodies) := by
  induction bodies with
  | nil => exact h
  | cons b bodies ih =>
    obtain ⟨hfirst, hrest⟩ := List.forall_mem_cons.mp hstep
    have ih := ih hrest
    show P ((out.attachAll bodies).attach b.1 b.2)
    rcases (out.attachAll bodies).attach_cases b.1 b.2 with ⟨_, heq⟩ | ⟨_, _, _, hplan, heq⟩
    · rw [heq]
      exact ih
    · rw [heq]
      exact hfirst _ _ _ ih hplan

end Lowered

def namesBeside (own : List String) (cs : List Cte) : List String :=
  own.filter fun name => cs.all (·.name != name)

/-! ### Judgements and rules -/

/-- What is lowered, and what it becomes.  `own` are the names of the recursive WITH entries in whose
base case the part stands. -/
inductive LowerTask where
  /-- A query under the entries in force.  `right` takes the place of `own` in the further branches of
  its UNION. -/
  | query (ctes : List VisibleCte) (own right : List String) (q : Select) (out : Lowered)
  /-- A WITH list: the entries with their plans, and the entries in force after it. -/
  | entries (ctes : List VisibleCte) (own : List String) (cs : List Cte)
      (bodies : List (VisibleCte × Lowered)) (after : List VisibleCte)
  /-- A query block without its WITH list and UNION. -/
  | block (ctes : List VisibleCte) (own : List String) (q : Select) (out : Lowered)
  | from_ (ctes : List VisibleCte) (own : List String) (source : Option TableRef) (out : Lowered)
  | source (ctes : List VisibleCte) (own : List String) (item : TableRef) (out : Lowered)
  /-- Further FROM items beside a plan. -/
  | sources (ctes : List VisibleCte) (own : List String) (input : Lowered) (items : List TableRef)
      (out : Lowered)
  | where_ (ctes : List VisibleCte) (own : List String) (filter : Option ExprId)
      (input out : Lowered)
  /-- The subqueries of conditions above a plan. -/
  | conjuncts (ctes : List VisibleCte) (own : List String) (conditions : List ExprId)
      (input out : Lowered)

/-- How parts of a statement become plans, and how the expressions change meanwhile. -/
inductive Lowers (env : Accessor) : LowerTask → LowerState → LowerState → Prop where
  | entriesNil {ctes own s} : Lowers env (.entries ctes own [] [] ctes) s s
  | entriesCons {ctes own c cs v body bodies after s s1 s2 s3} :
    visibleCte c s = .ok v s1 →
    Lowers env (.query (if c.recursive then v :: ctes else ctes)
      (if c.recursive then c.name :: own else own)
      (if c.recursive then own.filter (· ≠ c.name) else own) c.query body) s1 s2 →
    Lowers env (.entries (v :: ctes) (own.filter (· ≠ c.name)) cs bodies after) s2 s3 →
    Lowers env (.entries ctes own (c :: cs) ((v, body) :: bodies) after) s s3
  | queryAlone {ctes own right q bodies after out s s1 s2} :
    q.union = none →
    Lowers env (.entries ctes own q.ctes bodies after) s s1 →
    Lowers env (.block after (namesBeside own q.ctes) q out) s1 s2 →
    Lowers env (.query ctes own right q (out.attachAll bodies)) s s2
  | queryUnion {ctes own right q r bodies after out out' s s1 s2 s3} :
    q.union = some r →
    Lowers env (.entries ctes own q.ctes bodies after) s s1 →
    Lowers env (.block after (namesBeside own q.ctes) q out) s1 s2 →
    Lowers env (.query after (namesBeside right q.ctes) (namesBeside right q.ctes) r out') s2 s3 →
    Lowers env (.query ctes own right q
      ((Lowered.combine (.union out.plan out'.plan) out out').attachAll bodies)) s s3
  | block {ctes own q depth scanned filtered aggregated limited s s1 s2} :
    q.depth = some depth →
    Lowers env (.from_ ctes own q.source scanned) s s1 →
    Lowers env (.where_ ctes own q.filter scanned filtered) s1 s2 →
    lowerAggregation s2.exprs depth q filtered.plan = .ok aggregated →
    lowerLimit q aggregated = .ok limited →
    Lowers env (.block ctes own q
      { plan := limited
        blocks := ⟨q, own⟩ :: filtered.blocks
        attached := filtered.attached }) s s2
  | fromNone {ctes own s} : Lowers env (.from_ ctes own none { plan := .get Get.empty }) s s
  | fromSome {ctes own item out s s1} :
    Lowers env (.source ctes own item out) s s1 →
    Lowers env (.from_ ctes own (some item) out) s s1
  | table {ctes own base plan s} :
    lowerBaseTable env ctes base = .ok plan →
    Lowers env (.source ctes own (.table base) { plan := plan }) s s
  | derived {ctes own q knownAs out s s1} :
    Lowers env (.query ctes own own q out) s s1 →
    Lowers env (.source ctes own (.derived q knownAs)
      { out with plan := .derivedGet knownAs (outputColumns s1.exprs q.items) out.plan }) s s1
  | join {ctes own kind left right condition out out' predicates s s1 s2} :
    Lowers env (.source ctes own left out) s s1 →
    Lowers env (.source ctes own right out') s1 s2 →
    joinPredicates condition s2 = .ok predicates s2 →
    Lowers env (.source ctes own (.join kind left right condition)
      (.combine (.join kind.inPlan predicates out.plan out'.plan) out out')) s s2
  | list {ctes own first rest out out' s s1 s2} :
    Lowers env (.source ctes own first out) s s1 →
    Lowers env (.sources ctes own out rest out') s1 s2 →
    Lowers env (.source ctes own (.list (first :: rest)) out') s s2
  | sourcesNil {ctes own input s} : Lowers env (.sources ctes own input [] input) s s
  | sourcesCons {ctes own input item rest out out' s s1 s2} :
    Lowers env (.source ctes own item out) s s1 →
    Lowers env (.sources ctes own (.combine (.join .inner [] input.plan out.plan) input out)
      rest out') s1 s2 →
    Lowers env (.sources ctes own input (item :: rest) out') s s2
  | whereNone {ctes own input s} : Lowers env (.where_ ctes own none input input) s s
  | whereSome {ctes own filter input out s s1} :
    Lowers env (.conjuncts ctes own (s.exprs.conjuncts filter) input out) s s1 →
    Lowers env (.where_ ctes own (some filter) input
      { out with plan := .filter (s1.exprs.predicates filter) out.plan }) s s1
  | conjunctsNil {ctes own input s} : Lowers env (.conjuncts ctes own [] input input) s s
  | conjunctsPlain {ctes own c cs input out s s1} :
    (s.exprs.node c).hasSubquery = false →
    Lowers env (.conjuncts ctes own cs input out) s s1 →
    Lowers env (.conjuncts ctes own (c :: cs) input out) s s1
  | conjunctsJoin {ctes own c cs input right out use q first more s s1 s2} :
    (s.exprs.node c).hasSubquery = true →
    subqueryUse s.exprs c = .ok use →
    s.exprs.query? use.subquery = some q →
    q.items = first :: more →
    (use.singleColumn = true → more = []) →
    checkSubquery (s.exprs.setQuery use.subquery {}) q = .ok () →
    Lowers env (.query ctes own own q right)
      { s with exprs := s.exprs.setQuery use.subquery {} } s1 →
    Lowers env (.conjuncts ctes own cs
      (.combine (.join use.join [] input.plan right.plan) input right) out)
      { s1 with
        exprs := (s1.exprs.setQuery use.subquery q).update c fun n =>
          { n with kind := decorrelatedPredicate use.subquery first n.kind } } s2 →
    Lowers env (.conjuncts ctes own (c :: cs) input out) s s2

/-! ### Steps without state -/

theorem lowerBaseTable_ok {base : BaseTable} (h : lowerBaseTable env ctes base = .ok plan) :
    (∃ v, base.name.schema = none ∧ ctes.find? (·.name == base.name.name) = some v ∧
        plan = .cteScan (v.scan base.knownAs)) ∨
      (∃ table, (base.name.schema = none → ctes.find? (·.name == base.name.name) = none) ∧
        planTable env base.name = .ok table ∧
        plan = .get { table := table, knownAs := base.knownAs }) := by
  unfold lowerBaseTable at h
  split at h
  · rename_i v hv
    cases h
    split at hv
    · rename_i hs
      exact .inl ⟨v, Option.isNone_iff_eq_none.mp hs, hv, rfl⟩
    · cases hv
  · rename_i hv
    cases ht : planTable env base.name with
    | error =>
      rw [ht] at h
      cases h
    | ok table =>
      rw [ht] at h
      cases h
      refine .inr ⟨table, fun hs => ?_, rfl, rfl⟩
      rw [if_pos (by rw [hs]; rfl)] at hv
      exact hv

theorem lowerAggregation_ok {depth : Nat} (h : lowerAggregation a depth q input = .ok plan) :
    plan = input ∨
      (∃ keys, keys ⊆ q.items ++ (q.grouping.map (·.exprs)).getD [] ∧ plan = .aggregate keys input) ∨
      ∃ g having, q.grouping = some g ∧ g.having = some having ∧
        (a.node having).hasSubquery = false ∧
        plan = .filter (a.predicates having) (.aggregate g.keys input) := by
  unfold lowerAggregation at h
  dsimp only at h
  split at h
  · cases h
  · split at h
    · rename_i g hg
      unfold lowerGrouping at h
      dsimp only at h
      split at h
      · cases h
        refine .inr (.inl ⟨_, ?_, rfl⟩)
        rw [hg]
        exact fun x hx => List.mem_append_right _ (List.mem_append_left _ hx)
      · rename_i having hh
        split at h
        · cases h
        · rename_i hs
          cases h
          exact .inr (.inr ⟨g, having, hg, hh, Bool.eq_false_iff.mpr hs, rfl⟩)
    · split at h
      · cases h
        exact .inr (.inl ⟨_, List.nil_subset _, rfl⟩)
      · split at h
        · cases h
          exact .inr (.inl ⟨_, List.subset_append_left _ _, rfl⟩)
        · cases h
          exact .inl rfl

theorem lowerLimit_ok (h : lowerLimit q input = .ok plan) :
    q.ordering = none ∧ plan = input ∨
      ∃ count offset, plan = .limit count offset (q.ordering.getD []) input := by
  unfold lowerLimit at h
  split at h
  · rename_i hnone
    cases h
    exact .inl ⟨Option.isNone_iff_eq_none.mp (Bool.and_eq_true_iff.mp hnone).1, rfl⟩
  · dsimp only at h
    cases hc : rowCount? (q.bounds.getD {}).limit with
    | error =>
      rw [hc] at h
      cases h
    | ok =>
      cases ho : rowCount? (q.bounds.getD {}).offset with
      | error =>
        rw [hc, ho] at h
        cases h
      | ok =>
        rw [hc, ho] at h
        cases h
        exact .inr ⟨_, _, rfl⟩

theorem finish_keeps {depth : Nat} {aggregated : Plan}
    (hagg : lowerAggregation a depth q input = .ok aggregated)
    (hlimit : lowerLimit q aggregated = .ok plan) (P : Plan → Prop) (hinput : P input)
    (haggregate : ∀ keys p, P p → P (.aggregate keys p))
    (hhaving : ∀ g having p, q.grouping = some g → g.having = some having →
      (a.node having).hasSubquery = false → P p → P (.filter (a.predicates having) p))
    (hlimited : ∀ count offset keys p, P p → P (.limit count offset keys p)) : P plan := by
  have haggregated : P aggregated := by
    rcases lowerAggregation_ok hagg with rfl | ⟨keys, _, rfl⟩ | ⟨g, having, hg, hh, hs, rfl⟩
    · exact hinput
    · exact haggregate _ _ hinput
    · exact hhaving _ _ _ hg hh hs (haggregate _ _ hinput)
  rcases lowerLimit_ok hlimit with ⟨_, rfl⟩ | ⟨count, offset, rfl⟩
  · exact haggregated
  · exact hlimited _ _ _ _ haggregated

/-! ### Steps of a run -/

theorem joinPredicates_ok {condition : Option ExprId} {predicates : List Predicate}
    (h : joinPredicates condition s = .ok predicates s') :
    predicates = [] ∨ ∃ c, condition = some c ∧ (s.exprs.node c).hasSubquery = false ∧
      predicates = s.exprs.predicates c := by
  cases condition with
  | none =>
    rw [joinPredicates, run_pure] at h
    exact .inl h.1.symm
  | some c =>
    simp only [joinPredicates, run_bind, LowerM.run_exprs, run_ite, LowerM.run_refuse, and_false,
      false_or, run_pure] at h
    obtain ⟨_, _, ⟨_, rfl, rfl⟩, hflag, rfl, rfl⟩ := h
    exact .inr ⟨c, rfl, Bool.eq_false_iff.mpr hflag, rfl⟩

theorem subqueryUse_ok {c : ExprId} {use : SubqueryUse} (h : subqueryUse a c = .ok use) :
    (∃ op left right, a.expr c = .compare op left right ∧ use.singleColumn = true ∧
      use.join = (if op = .isIn then .mark else .single) ∧
      ((use.subquery = right ∧ (a.expr right).isSubquery = true ∧ (a.expr left).isSubquery = false) ∨
        (use.subquery = left ∧ (a.expr left).isSubquery = true ∧
          (a.expr right).isSubquery = false))) ∨
    (∃ operand, a.expr c = .operate .exists [operand] ∧ use.singleColumn = false ∧
      use.join = .mark ∧ use.subquery = operand ∧ (a.expr operand).isSubquery = true) := by
  unfold subqueryUse at h
  split at h
  · rename_i op left right he
    dsimp only at h
    split at h
    · cases h
    · rename_i hl hr
      cases h
      exact .inl ⟨op, left, right, he, rfl, rfl, .inl ⟨rfl, hr, hl⟩⟩
    · rename_i hl hr
      cases h
      exact .inl ⟨op, left, right, he, rfl, rfl, .inr ⟨rfl, hl, hr⟩⟩
    · cases h
  · rename_i operand he
    split at h
    · rename_i hs
      cases h
      exact .inr ⟨operand, he, rfl, rfl, rfl, hs⟩
    · cases h
  · cases h

theorem subqueryUse_isSubquery {c : ExprId} {use : SubqueryUse} (h : subqueryUse a c = .ok use) :
    (a.expr use.subquery).isSubquery = true := by
  rcases subqueryUse_ok h with ⟨_, _, _, _, _, _, h | h⟩ | ⟨_, _, _, _, h⟩
  · rw [h.1]
    exact h.2.1
  · rw [h.1]
    exact h.2.1
  · rw [h.1]
    exact h.2

theorem query?_of_isSubquery {id : ExprId} (h : (a.expr id).isSubquery = true) :
    ∃ q, a.query? id = some q ∧ a.expr id = .subquery q := by
  unfold Arena.query?
  cases he : a.expr id with
  | subquery q => exact ⟨q, rfl, rfl⟩
  | _ => rw [he] at h; cases h

theorem lowerSubquery_run {lower : LowerQuery} {single : Bool}
    (h : lowerSubquery lower ctes single q s = .ok plan s') :
    (single = true → q.items.length = 1) ∧ checkSubquery s.exprs q = .ok () ∧
      lower ctes q s = .ok plan s' := by
  unfold lowerSubquery at h
  split at h
  · simp at h
  · rename_i hone
    simp only [run_bind, run_exprs, run_ofExcept] at h
    obtain ⟨_, _, ⟨_, rfl, rfl⟩, _, _, ⟨hcheck, rfl⟩, hrun⟩ := h
    refine ⟨fun hs => ?_, hcheck, hrun⟩
    simpa [hs] using hone

theorem visibleCte_run {c : Cte} {v : VisibleCte} (h : visibleCte c s = .ok v s') :
    v = { name := c.name
          columns := (c.columns.zip c.query.items).map fun x => ⟨x.1, s.exprs.typeOf x.2⟩
          tableId := Oid.temp s.nextTemp
          expressions := c.query.items ::
            (if c.recursive then c.query.union.map (·.items) else none).toList
          recursive := c.recursive } ∧
      s' = { s with nextTemp := s.nextTemp + 1 } := by
  simp only [visibleCte, run_bind, run_exprs, run_takeTemp, run_pure] at h
  obtain ⟨_, _, ⟨_, rfl, rfl⟩, _, _, ⟨rfl, rfl⟩, rfl, rfl⟩ := h
  exact ⟨rfl, rfl⟩

theorem visibleCte_name {c : Cte} {v : VisibleCte} (h : visibleCte c s = .ok v s') :
    v.name = c.name := by
  rw [(visibleCte_run h).1]

section

variable {lower : LowerQuery}

def DerivedBy (env : Accessor) (lower : LowerQuery) : Prop :=
  ∀ ctes q s plan s', lower ctes q s = .ok plan s' →
    ∀ own right, ∃ out : Lowered, out.plan = plan ∧ Lowers env (.query ctes own right q out) s s'

mutual

theorem lowerSource_lowers (hl : DerivedBy env lower) (own : List String) :
    (item : TableRef) → ∀ {s s' : LowerState} {plan : Plan},
      lowerSource env lower ctes item s = .ok plan s' →
        ∃ out : Lowered, out.plan = plan ∧ Lowers env (.source ctes own item out) s s'
  | .table base, s, s', plan, h => by
    rw [lowerSource, run_ofExcept] at h
    obtain ⟨hb, rfl⟩ := h
    exact ⟨{ plan := plan }, rfl, .table hb⟩
  | .derived q knownAs, s, s', plan, h => by
    simp only [lowerSource, run_bind, run_exprs, run_pure] at h
    obtain ⟨input, u, hq, _, _, ⟨_, rfl, rfl⟩, rfl, rfl⟩ := h
    obtain ⟨out, rfl, hd⟩ := hl _ _ _ _ _ hq own own
    exact ⟨_, rfl, .derived hd⟩
  | .join kind left right condition, s, s', plan, h => by
    simp only [lowerSource, run_bind, run_pure] at h
    obtain ⟨p, u, hleft, p', u', hright, predicates, u'', hp, rfl, rfl⟩ := h
    obtain ⟨out, rfl, hd⟩ := lowerSource_lowers hl own left hleft
    obtain ⟨out', rfl, hd'⟩ := lowerSource_lowers hl own right hright
    have hsame : u'' = u' := by
      unfold joinPredicates at hp
      cases condition with
      | none => exact (run_pure.mp hp).2.symm
      | some condition =>
        simp only [run_bind, run_exprs, run_ite, run_refuse, run_pure] at hp
        grind
    subst hsame
    exact ⟨_, rfl, .join hd hd' hp⟩
  | .list [], s, s', plan, h => by
    simp [lowerSource] at h
  | .list (first :: rest), s, s', plan, h => by
    simp only [lowerSource, run_bind] at h
    obtain ⟨p, u, hfirst, hrest⟩ := h
    obtain ⟨out, rfl, hd⟩ := lowerSource_lowers hl own first hfirst
    obtain ⟨out', rfl, hd'⟩ := lowerSources_lowers hl own rest out hrest
    exact ⟨out', rfl, .list hd hd'⟩

theorem lowerSources_lowers (hl : DerivedBy env lower) (own : List String) :
    (items : List TableRef) → ∀ (input : Lowered) {s s' : LowerState} {plan : Plan},
      lowerSources env lower ctes input.plan items s = .ok plan s' →
        ∃ out : Lowered, out.plan = plan ∧ Lowers env (.sources ctes own input items out) s s'
  | [], input, s, s', plan, h => by
    rw [lowerSources, run_pure] at h
    obtain ⟨rfl, rfl⟩ := h
    exact ⟨input, rfl, .sourcesNil⟩
  | item :: rest, input, s, s', plan, h => by
    simp only [lowerSources, run_bind] at h
    obtain ⟨_, _, hitem, hrest⟩ := h
    obtain ⟨out, rfl, hd⟩ := lowerSource_lowers hl own item hitem
    obtain ⟨out', rfl, hd'⟩ := lowerSources_lowers hl own rest
      (.combine (.join .inner [] input.plan out.plan) input out) hrest
    exact ⟨out', rfl, .sourcesCons hd hd'⟩

end

theorem decorrelate_lowers (hl : DerivedBy env lower) (own : List String)
    {c : ExprId} {input : Lowered}
    (h : decorrelate lower ctes c input.plan s = .ok plan s') :
    ∃ (use : SubqueryUse) (q : Select) (first : ExprId) (more : List ExprId) (right : Lowered)
      (s1 : LowerState),
      subqueryUse s.exprs c = .ok use ∧ s.exprs.query? use.subquery = some q ∧
      q.items = first :: more ∧ (use.singleColumn = true → more = []) ∧
      checkSubquery (s.exprs.setQuery use.subquery {}) q = .ok () ∧
      Lowers env (.query ctes own own q right)
        { s with exprs := s.exprs.setQuery use.subquery {} } s1 ∧
      plan = .join use.join [] input.plan right.plan ∧
      s' = { s1 with
        exprs := (s1.exprs.setQuery use.subquery q).update c fun n =>
          { n with kind := decorrelatedPredicate use.subquery first n.kind } } := by
  simp only [decorrelate, run_bind, run_exprs, run_ofExcept, run_onQuery, run_pure] at h
  obtain ⟨_, _, ⟨_, rfl, rfl⟩, use, _, ⟨huse, rfl⟩, ⟨_, _⟩, _, ⟨_, ⟨_, _, hsub, hp, rfl⟩, rfl⟩,
    h⟩ := h
  obtain ⟨q, hq, -⟩ := query?_of_isSubquery (subqueryUse_isSubquery huse)
  rw [hq, Option.getD_some] at hsub hp h
  cases hp
  obtain ⟨hsingle, hcheck, hrun⟩ := lowerSubquery_run hsub
  obtain ⟨right, rfl, hd⟩ := hl _ _ _ _ _ hrun own own
  cases hitems : q.items with
  | nil =>
    simp [hitems] at h
  | cons first more =>
    rw [hitems, run_bind] at h
    obtain ⟨_, _, hmod, hpure⟩ := h
    rw [run_modifyExprs] at hmod
    rw [run_pure] at hpure
    obtain ⟨rfl, rfl⟩ := hpure
    refine ⟨use, q, first, more, right, _, huse, hq, hitems, ?_, hcheck, hd, rfl, hmod.symm⟩
    intro hone
    have := hsingle hone
    rw [hitems] at this
    exact List.length_eq_zero_iff.mp (Nat.succ.inj this)

theorem decorrelateAll_lowers (hl : DerivedBy env lower)
    (own : List String) (conditions : List ExprId) :
    ∀ (input : Lowered) {s s' : LowerState} {plan : Plan},
      decorrelateAll lower ctes conditions input.plan s = .ok plan s' →
        ∃ out : Lowered, out.plan = plan ∧
          Lowers env (.conjuncts ctes own conditions input out) s s' := by
  induction conditions with
  | nil =>
    intro input s s' plan h
    rw [decorrelateAll, run_pure] at h
    obtain ⟨rfl, rfl⟩ := h
    exact ⟨input, rfl, .conjunctsNil⟩
  | cons c _ ih =>
    intro input s s' plan h
    simp only [decorrelateAll, run_bind, run_exprs] at h
    obtain ⟨_, _, ⟨_, rfl, rfl⟩, h⟩ := h
    cases hflag : (s.exprs.node c).hasSubquery with
    | false =>
      rw [hflag] at h
      obtain ⟨out, rfl, hd⟩ := ih input h
      exact ⟨out, rfl, .conjunctsPlain hflag hd⟩
    | true =>
      rw [hflag] at h
      obtain ⟨_, _, hfirst, hrest⟩ := run_bind.mp h
      obtain ⟨use, _, _, _, right, _, huse, hq, hitems, hone, hcheck, hd, rfl, rfl⟩ :=
        decorrelate_lowers hl own hfirst
      obtain ⟨out, rfl, hd'⟩ := ih (.combine (.join use.join [] input.plan right.plan) input right) hrest
      exact ⟨out, rfl, .conjunctsJoin hflag huse hq hitems hone hcheck hd hd'⟩

theorem lowerBody_run (h : lowerBody env lower ctes q s = .ok plan s') :
    ∃ depth scanned s1 filtered aggregated, q.depth = some depth ∧
      (match q.source with
        | some source => lowerSource env lower ctes source
        | none => pure (.get Get.empty)) s = .ok scanned s1 ∧
      (match q.filter with
        | some filter => lowerFilter lower ctes filter scanned
        | none => pure scanned) s1 = .ok filtered s' ∧
      lowerAggregation s'.exprs depth q filtered = .ok aggregated ∧
      lowerLimit q aggregated = .ok plan := by
  unfold lowerBody at h
  cases hdepth : q.depth with
  | none =>
    simp [hdepth] at h
  | some depth =>
    cases hs : q.source <;> cases hf : q.filter <;>
      simp only [hdepth, hs, hf, run_bind, run_ofExcept, run_exprs] at h <;>
      obtain ⟨scanned, s1, hfrom, filtered, _, hwhere, _, _, ⟨_, rfl, rfl⟩, aggregated, _, ⟨hagg, rfl⟩,
        hlimit, rfl⟩ := h <;>
      exact ⟨depth, scanned, s1, filtered, aggregated, rfl, hfrom, hwhere, hagg, hlimit⟩

theorem lowerBody_lowers (hl : DerivedBy env lower) (own : List String)
    (h : lowerBody env lower ctes q s = .ok plan s') :
    ∃ out : Lowered, out.plan = plan ∧ Lowers env (.block ctes own q out) s s' := by
  obtain ⟨_, p1, s1, p2, _, hdepth, hfrom, hwhere, hagg, hlimit⟩ := lowerBody_run h
  have hscanned : ∃ out : Lowered, out.plan = p1 ∧
      Lowers env (.from_ ctes own q.source out) s s1 := by
    cases hsource : q.source with
    | none =>
      rw [hsource, run_pure] at hfrom
      obtain ⟨rfl, rfl⟩ := hfrom
      exact ⟨_, rfl, .fromNone⟩
    | some item =>
      rw [hsource] at hfrom
      obtain ⟨out, rfl, hd⟩ := lowerSource_lowers hl own item hfrom
      exact ⟨out, rfl, .fromSome hd⟩
  obtain ⟨scanned, rfl, hd1⟩ := hscanned
  have hfiltered : ∃ out : Lowered, out.plan = p2 ∧
      Lowers env (.where_ ctes own q.filter scanned out) s1 s' := by
    cases hfilter : q.filter with
    | none =>
      rw [hfilter, run_pure] at hwhere
      obtain ⟨rfl, rfl⟩ := hwhere
      exact ⟨_, rfl, .whereNone⟩
    | some =>
      simp only [hfilter, lowerFilter, run_bind, run_exprs, run_pure] at hwhere
      obtain ⟨_, _, ⟨_, rfl, rfl⟩, _, _, hall, _, _, ⟨_, rfl, rfl⟩, rfl, rfl⟩ := hwhere
      obtain ⟨_, rfl, hd⟩ := decorrelateAll_lowers hl own _ scanned hall
      exact ⟨_, rfl, .whereSome hd⟩
  obtain ⟨_, rfl, hd2⟩ := hfiltered
  exact ⟨_, rfl, .block hdepth hd1 hd2 hagg hlimit⟩

theorem lowerCtes_lowers (hl : DerivedBy env lower) (cs : List Cte) :
    ∀ {ctes after : List VisibleCte} (own : List String) {s s' : LowerState}
      {plans : List (String × Plan)},
      lowerCtes lower ctes cs s = .ok (plans, after) s' →
        ∃ bodies : List (VisibleCte × Lowered),
          plans = bodies.map (fun b => (b.1.name, b.2.plan)) ∧
          Lowers env (.entries ctes own cs bodies after) s s' := by
  induction cs with
  | nil =>
    intro ctes after own s s' plans h
    rw [lowerCtes, run_pure] at h
    obtain ⟨h, rfl⟩ := h
    cases h
    exact ⟨[], rfl, .entriesNil⟩
  | cons c _ ih =>
    intro ctes after own s s' plans h
    simp only [lowerCtes, run_bind, run_pure] at h
    obtain ⟨v, _, hv, _, _, hbody, ⟨_, _⟩, _, hrest, h, rfl⟩ := h
    cases h
    obtain ⟨body, rfl, hd⟩ := hl _ _ _ _ _ hbody (if c.recursive then c.name :: own else own)
      (if c.recursive then own.filter (· ≠ c.name) else own)
    obtain ⟨bodies, rfl, hd'⟩ := ih (own.filter (· ≠ c.name)) hrest
    exact ⟨(v, body) :: bodies, by rw [List.map_cons, visibleCte_name hv], .entriesCons hv hd hd'⟩

theorem lowerQueryWith_run (h : lowerQueryWith env lower ctes q s = .ok plan s') :
    ∃ plans after s1 p s2 p', lowerCtes lower ctes q.ctes s = .ok (plans, after) s1 ∧
      lowerBody env lower after q s1 = .ok p s2 ∧
      (match q.union with
        | none => pure p
        | some right => do pure (Plan.union p (← lower after right))) s2 = .ok p' s' ∧
      plan = attachCtes plans p' := by
  cases hu : q.union <;> simp only [lowerQueryWith, hu, run_bind, run_pure] at h
  · obtain ⟨⟨plans, after⟩, s1, hctes, p, s2, hbody, _, _, ⟨rfl, rfl⟩, rfl, rfl⟩ := h
    exact ⟨plans, after, s1, p, _, p, hctes, hbody, rfl, rfl⟩
  · obtain ⟨⟨plans, after⟩, s1, hctes, p, s2, hbody, p', _, hr, _, _, ⟨rfl, rfl⟩, rfl, rfl⟩ := h
    refine ⟨plans, after, s1, p, s2, _, hctes, hbody, ?_, rfl⟩
    simp only [run_bind, run_pure]
    exact ⟨p', _, hr, rfl, rfl⟩

theorem lowerQueryWith_lowers (hl : DerivedBy env lower) : DerivedBy env (lowerQueryWith env lower) := by
  intro ctes q s plan s' h own right
  obtain ⟨_, _, _, p, _, _, hctes, hbody, hunion, rfl⟩ := lowerQueryWith_run h
  obtain ⟨_, rfl, hd⟩ := lowerCtes_lowers hl q.ctes own hctes
  obtain ⟨_, rfl, hd'⟩ := lowerBody_lowers hl (namesBeside own q.ctes) hbody
  cases hq : q.union with
  | none =>
    simp only [hq, run_pure] at hunion
    obtain ⟨rfl, rfl⟩ := hunion
    exact ⟨_, Lowered.attachAll_plan _ _, .queryAlone hq hd hd'⟩
  | some =>
    simp only [hq, run_bind, run_pure] at hunion
    obtain ⟨_, _, hr, rfl, rfl⟩ := hunion
    obtain ⟨_, rfl, hd''⟩ := hl _ _ _ _ _ hr (namesBeside right q.ctes) (namesBeside right q.ctes)
    exact ⟨_, Lowered.attachAll_plan _ _, .queryUnion hq hd hd' hd''⟩

end

theorem lowerQuery_lowers (env : Accessor) (fuel : Nat) : DerivedBy env (lowerQuery env fuel) := by
  induction fuel with
  | zero =>
    intro ctes q s plan s' h
    cases h
  | succ n ih => exact lowerQueryWith_lowers ih

theorem lower_run (h : (lower env b).result = .ok plan) :
    lowerStatementWith env (lowerQuery env (lowerLevels b)) b.statement
        ⟨b.exprs, env.catalog.nextTemp⟩ =
      .ok plan ⟨(lower env b).bound.exprs, (lower env b).nextTemp⟩ := by
  unfold lower at h ⊢
  dsimp only at h ⊢
  split at h
  · rename_i hrun
    cases h
    exact hrun
  · cases h

/-- A derivation of the plan of a SELECT. -/
structure Derives (env : Accessor) (b : Bound) (q : Select) (out : Lowered) : Prop where
  result : (lower env b).result = .ok out.plan
  lowers : Lowers env (.query [] [] [] q out) ⟨b.exprs, env.catalog.nextTemp⟩
    ⟨(lower env b).bound.exprs, (lower env b).nextTemp⟩

theorem exists_derives (hq : b.statement = .select q)
    (h : (lower env b).result = .ok plan) : ∃ out, Derives env b q out := by
  have hrun := lower_run h
  rw [hq, lowerStatementWith] at hrun
  obtain ⟨out, rfl, hd⟩ := lowerQuery_lowers env _ _ _ _ _ _ hrun [] []
  exact ⟨out, h, hd⟩

end

/-! ### Statements that can be planned -/

def Accessor.initial : Accessor := ⟨.initial, 1, 2⟩

/-- What binding a statement without parameters and building its plan give, if both end well. -/
def planned? (env : Accessor) (p : Parsed) : Option (Bound × Plan) :=
  match plan {} env p [] with
  | ⟨.ok (.plan bound tree), _, _, _⟩ => some (bound, tree)
  | _ => none

/-- Whether a statement is a SELECT that can be bound and has a plan. -/
def isPlannedSelect (env : Accessor) (p : Parsed) : Bool :=
  match (bind env p []).result with
  | .error _ => false
  | .ok b =>
    match b.statement, (lower (env.withNextTemp (bind env p []).nextTemp) b).result with
    | .select _, .ok _ => true
    | _, _ => false

theorem exists_of_isPlannedSelect {p : Parsed} (h : isPlannedSelect env p = true) :
    ∃ b q tree, (bind env p []).result = .ok b ∧ b.statement = .select q ∧
      (lower (env.withNextTemp (bind env p []).nextTemp) b).result = .ok tree := by
  unfold isPlannedSelect at h
  split at h
  · cases h
  · rename_i b hb
    split at h
    · rename_i q tree hq htree
      exact ⟨b, q, tree, hb, hq, htree⟩
    · cases h

end SqlAnalysis
