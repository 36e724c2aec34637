import SqlAnalysis.Proofs.Plan.DerivedTables
import SqlAnalysis.Proofs.Plan.Provenance

/-!
# Joins of a FROM clause

The joins of a plan with conditions are those that FROM clauses spell out.  Which tables are below such
a join is decided by the nesting of the FROM clause, and which tables its condition can see by the order
of its items, so that the condition may need a table that is not below the join.

* **`Lowers.joinsFrom`**: every join with a condition stands for a join item of a planned block.
* **`from_items_independent_iff`**: when FROM items do without the tables beside them.
-/

namespace SqlAnalysis

open LowerM List Arena TableRef

variable {kind : JoinKind} {left right : TableRef} {j : List Predicate × List Alias}
  {bound a : Arena} {y c : ExprId} {R : Registry} {block : Select} {before after : List Alias}
  {depth : Nat}

/-! ### Joins of a plan -/

namespace Plan

variable {p p' body : Plan} {name : String}

/-- The aliases that the plan of a FROM item has for its tables, from left to right. -/
def offers : Plan → List Alias
  | .get scan => [scan.knownAs]
  | .derivedGet knownAs _ _ => [knownAs]
  | .cteScan scan => [scan.knownAs]
  | .cteBody scan _ => [scan.knownAs]
  | .join _ _ left right => left.offers ++ right.offers
  | _ => []

def join? : Plan → Option (List Predicate × List Alias)
  | .join _ predicates left right => some (predicates, left.offers ++ right.offers)
  | _ => none

/-- The joins of a plan. -/
def joins (p : Plan) : List (List Predicate × List Alias) := p.subplans.filterMap join?

theorem joins_of_children (h : p.join? = none) : p.joins = p.children.flatMap joins := by
  rw [joins, filterMap_subplans, h]
  rfl

theorem mem_joins_join {kind : PlanJoin} {predicates : List Predicate} {left right : Plan} :
    j ∈ (join kind predicates left right).joins ↔
      j = (predicates, left.offers ++ right.offers) ∨ j ∈ left.joins ∨ j ∈ right.joins := by
  rw [joins, filterMap_subplans]
  simp [join?, children, joins]

theorem offers_attachCte (h : p.attachCte name body = some p') : p'.offers = p.offers := by
  have hattaches := attaches_of_attachCte h
  clear h
  induction hattaches with
  | scan => rfl
  | under hf _ _ ih =>
    cases hf with
    | joinLeft | joinRight => rw [offers, offers, ih]
    | _ => rfl

theorem join?_attachCte (h : p.attachCte name body = some p') : p'.join? = p.join? := by
  cases attaches_of_attachCte h with
  | scan => rfl
  | under hf hin =>
    cases hf with
    | joinLeft | joinRight => rw [join?, join?, offers_attachCte hin]
    | _ => rfl

theorem mem_joins_attachCte (h : p.attachCte name body = some p') (hj : j ∈ p'.joins) :
    j ∈ p.joins ∨ j ∈ body.joins := by
  obtain ⟨r', hr', hj⟩ := mem_filterMap.mp hj
  rcases mem_subplans_attachCte h hr' with hr' | ⟨r, hr, rfl | hgrows⟩
  · exact .inr (mem_filterMap.mpr ⟨r', hr', hj⟩)
  · exact .inl (mem_filterMap.mpr ⟨r', hr, hj⟩)
  · exact .inl (mem_filterMap.mpr ⟨r, hr, (join?_attachCte hgrows).symm.trans hj⟩)

end Plan

/-! ### Joins and their FROM items -/

@[simp] theorem TableRef.aliasesAll_append (items rest : List TableRef) :
    aliasesAll (items ++ rest) = aliasesAll items ++ aliasesAll rest := by
  induction items with
  | nil => rfl
  | cons _ _ ih => rw [cons_append, aliasesAll, aliasesAll, ih, append_assoc]

namespace TableRef.Stands

variable {items : List TableRef} {item : TableRef}

theorem append_right (h : Stands items before item after) (rest : List TableRef) :
    Stands (items ++ rest) before item (after ++ aliasesAll rest) := by
  induction h with
  | head =>
    rw [← aliasesAll_append]
    exact .head
  | tail _ ih => exact .tail ih
  | join h =>
    rw [append_assoc, ← aliasesAll_append]
    exact .join h
  | list h =>
    rw [append_assoc, ← aliasesAll_append]
    exact .list h

theorem append_left (h : Stands items before item after) (first : List TableRef) :
    Stands (first ++ items) (aliasesAll first ++ before) item after := by
  induction first with
  | nil => exact h
  | cons _ _ ih =>
    rw [aliasesAll, append_assoc]
    exact .tail ih

end TableRef.Stands

/-- A join of a plan has the condition of a join item, which has no subquery, and joins its tables. -/
def IsJoinOf (bound : Arena) (items : List TableRef) (j : List Predicate × List Alias) : Prop :=
  ∃ before kind left right c after, TableRef.Stands items before (.join kind left right (some c)) after ∧
    j.2 = left.aliases ++ right.aliases ∧ ¬bound.HasSubquery c ∧ j.1.map (·.expr) = bound.conjuncts c

/-- Every join of a plan has no condition or stands for a join item, among FROM items or in a block whose
plan is part of the plan. -/
def Lowered.JoinsFrom (bound : Arena) (items : List TableRef) (out : Lowered) : Prop :=
  ∀ j ∈ out.plan.joins, j.1 = [] ∨ IsJoinOf bound items j ∨
    ∃ block ∈ out.blocks, IsJoinOf bound block.query.source.toList j

section

variable {items items' rest : List TableRef} {out out' : Lowered}

namespace IsJoinOf

theorem append_right (h : IsJoinOf bound items j) (rest : List TableRef) :
    IsJoinOf bound (items ++ rest) j := by
  obtain ⟨_, _, _, _, _, _, hstands, h⟩ := h
  exact ⟨_, _, _, _, _, _, hstands.append_right rest, h⟩

theorem append_left (h : IsJoinOf bound items j) (first : List TableRef) :
    IsJoinOf bound (first ++ items) j := by
  obtain ⟨_, _, _, _, _, _, hstands, h⟩ := h
  exact ⟨_, _, _, _, _, _, hstands.append_left first, h⟩

theorem operand {condition : Option ExprId} (h : IsJoinOf bound [left, right] j) :
    IsJoinOf bound [.join kind left right condition] j := by
  obtain ⟨_, _, _, _, _, _, hstands, h⟩ := h
  exact ⟨_, _, _, _, _, _, .join hstands, h⟩

theorem list (h : IsJoinOf bound items j) : IsJoinOf bound [.list items] j := by
  obtain ⟨_, _, _, _, _, _, hstands, h⟩ := h
  exact ⟨_, _, _, _, _, _, .list hstands, h⟩

theorem not_nil : ¬IsJoinOf bound [] j := by
  rintro ⟨_, _, _, _, _, _, hstands, _⟩
  cases hstands

end IsJoinOf

namespace Lowered.JoinsFrom

theorem mono (h : out.JoinsFrom bound items)
    (hsub : ∀ {j}, IsJoinOf bound items j → IsJoinOf bound items' j) : out.JoinsFrom bound items' :=
  fun j hj => (h j hj).imp_right (Or.imp_left hsub)

theorem of_query (h : out.JoinsFrom bound []) (items : List TableRef) : out.JoinsFrom bound items :=
  h.mono fun hj => (IsJoinOf.not_nil hj).elim

theorem above (h : out.JoinsFrom bound items) {plan : Plan} (hplan : plan.joins = out.plan.joins) :
    Lowered.JoinsFrom bound items { out with plan := plan } :=
  fun j hj => h j (hplan ▸ hj)

theorem leaf {plan : Plan} (h : plan.joins = []) : Lowered.JoinsFrom bound items { plan := plan } :=
  fun _ hj => (not_mem_nil (h ▸ hj)).elim

theorem combine (h : out.JoinsFrom bound items) (h' : out'.JoinsFrom bound items) {plan : Plan}
    (hplan : ∀ j ∈ plan.joins, j.1 = [] ∨ IsJoinOf bound items j ∨ j ∈ out.plan.joins ∨ j ∈ out'.plan.joins) :
    (Lowered.combine plan out out').JoinsFrom bound items := by
  intro j hj
  rcases hplan j hj with hj | hj | hj | hj
  · exact .inl hj
  · exact .inr (.inl hj)
  · refine (h j hj).imp_right (Or.imp_right ?_)
    exact fun ⟨block, hblock, hj⟩ => ⟨block, mem_append_left _ hblock, hj⟩
  · refine (h' j hj).imp_right (Or.imp_right ?_)
    exact fun ⟨block, hblock, hj⟩ => ⟨block, mem_append_right _ hblock, hj⟩

theorem beside (h : out.JoinsFrom bound items) (h' : out'.JoinsFrom bound items) (kind : PlanJoin) :
    (Lowered.combine (.join kind [] out.plan out'.plan) out out').JoinsFrom bound items := by
  refine h.combine h' fun j hj => ?_
  rcases Plan.mem_joins_join.mp hj with rfl | hj
  · exact .inl rfl
  · exact .inr (.inr hj)

theorem attachAll (h : out.JoinsFrom bound items) {bodies : List (VisibleCte × Lowered)}
    (hbodies : ∀ b ∈ bodies, b.2.JoinsFrom bound []) : (out.attachAll bodies).JoinsFrom bound items :=
  Lowered.attachAll_keeps (P := (·.JoinsFrom bound items)) h fun b hb _ _ _ hl hplan =>
    hl.combine ((hbodies b hb).of_query items) fun _ hj => .inr (.inr (Plan.mem_joins_attachCte hplan hj))

end Lowered.JoinsFrom

/-- Where the joins of what is lowered come from, and which tables FROM items have in their plans. -/
def LowerTask.JoinsFrom (bound : Arena) : LowerTask → Prop
  | .query _ _ _ _ out | .block _ _ _ out => out.JoinsFrom bound []
  | .entries _ _ _ bodies _ => ∀ b ∈ bodies, b.2.JoinsFrom bound []
  | .from_ _ _ clause out => out.JoinsFrom bound clause.toList
  | .source _ _ item out => out.plan.offers = item.aliases ∧ out.JoinsFrom bound [item]
  | .sources _ _ input items out =>
    ∀ first, input.JoinsFrom bound first → input.plan.offers = aliasesAll first →
      out.plan.offers = aliasesAll (first ++ items) ∧ out.JoinsFrom bound (first ++ items)
  | .where_ _ _ _ input out | .conjuncts _ _ _ input out =>
    ∀ items, input.JoinsFrom bound items → out.JoinsFrom bound items

theorem Lowers.joinsFrom {env : Accessor} {task : LowerTask} {s s' : LowerState}
    (h : Lowers env task s s') (hsettled : bound.Settled) (hsound : bound.Sound task.mentioned)
    (hs : Tracks bound s.exprs) : task.JoinsFrom bound := by
  induction h with
  | entriesNil => exact forall_mem_nil _
  | @entriesCons _ _ _ _ _ _ _ _ _ _ _ _ hv hbody _ ih ih' =>
    obtain ⟨_, rfl⟩ := visibleCte_run hv
    rw [LowerTask.mentioned, Cte.exprsAll_cons, Sound.append_iff] at hsound
    exact forall_mem_cons.mpr ⟨ih hsound.1 hs, ih' hsound.2 (hbody.reachesBack hs).1⟩
  | queryAlone _ hentries _ ih ih' =>
    have hbodies := ih (sound_select.mp hsound).1 hs
    exact (ih' hsound (hentries.reachesBack hs).1).attachAll hbodies
  | queryUnion hunion hentries hblock _ ih ih' ih'' =>
    obtain ⟨hctes, _, _, _, _, _, hright⟩ := sound_select.mp hsound
    rw [hunion] at hright
    have hs1 := (hentries.reachesBack hs).1
    have hout := ih' hsound hs1
    have hout' := ih'' hright (hblock.reachesBack hs1).1
    refine (hout.combine hout' fun j hj => .inr (.inr ?_)).attachAll (ih hctes hs)
    rw [Plan.joins_of_children rfl] at hj
    simpa [Plan.children] using hj
  | @block _ own q _ _ filtered _ limited _ _ _ _ hfrom _ hagg hlimit ih ih' =>
    obtain ⟨_, _, hsource, hfilter, _⟩ := sound_select.mp hsound
    have hfiltered := ih' hfilter (hfrom.reachesBack hs).1 _ (ih hsource hs)
    have hjoins : limited.joins = filtered.plan.joins := by
      refine finish_keeps hagg hlimit (·.joins = filtered.plan.joins) rfl (fun keys p hp => ?_)
        (fun g having p _ _ _ hp => ?_) fun count offset keys p hp => ?_
      all_goals
        rw [Plan.joins_of_children rfl, ← hp]
        exact append_nil _
    intro j hj
    rw [hjoins] at hj
    refine (hfiltered j hj).imp_right fun h => .inr ?_
    rcases h with hj | ⟨block, hblock, hj⟩
    · exact ⟨⟨q, own⟩, mem_cons_self, hj⟩
    · exact ⟨block, mem_cons_of_mem _ hblock, hj⟩
  | fromNone => exact .leaf rfl
  | fromSome _ ih => exact (ih hsound hs).2
  | table h =>
    rcases lowerBaseTable_ok h with ⟨_, _, _, rfl⟩ | ⟨_, _, _, rfl⟩
    · exact ⟨rfl, .leaf rfl⟩
    · exact ⟨rfl, .leaf rfl⟩
  | derived _ ih =>
    refine ⟨rfl, ((ih hsound hs).of_query _).above ?_⟩
    rw [Plan.joins_of_children rfl]
    exact append_nil _
  | @join _ _ kind left right condition _ _ predicates _ _ _ hl hr hcond ihl ihr =>
    have hsound : bound.Sound (left.exprs ++ right.exprs ++ condition.toList) := hsound
    simp only [Sound.append_iff] at hsound
    obtain ⟨⟨hleft, hright⟩, hcondition⟩ := hsound
    have hs1 := (hl.reachesBack hs).1
    obtain ⟨hoffers, hout⟩ := ihl hleft hs
    obtain ⟨hoffers', hout'⟩ := ihr hright hs1
    refine ⟨by rw [Lowered.combine, Plan.offers, hoffers, hoffers']; rfl, ?_⟩
    refine (hout.mono fun h => (h.append_right [right]).operand).combine
      (hout'.mono fun h => (h.append_left [left]).operand) fun j hj => ?_
    rcases Plan.mem_joins_join.mp hj with rfl | hj
    · rcases joinPredicates_ok hcond with hnil | ⟨c, rfl, hflag, rfl⟩
      · exact .inl hnil
      · have hs2 := (hr.reachesBack hs1).1
        rw [hs2.flag] at hflag
        refine .inr (.inl ⟨[], kind, left, right, c, [], .head, ?_, ?_, ?_⟩)
        · rw [hoffers, hoffers']
        · exact (hcondition c (mem_singleton_self _) c (.here _)).2 hflag
        · rw [predicates, map_map, ← hs2.conjuncts]
          exact map_id _
    · exact .inr (.inr hj)
  | @list _ _ first rest _ _ _ _ _ hfirst _ ih ih' =>
    have hsound : bound.Sound (first.exprs ++ exprsAll rest) := hsound
    rw [Sound.append_iff] at hsound
    obtain ⟨hoffers, hout⟩ := ih hsound.1 hs
    obtain ⟨hoffers', hout'⟩ := ih' hsound.2 (hfirst.reachesBack hs).1 [first] hout
      (hoffers.trans (append_nil _).symm)
    exact ⟨hoffers', hout'.mono IsJoinOf.list⟩
  | sourcesNil =>
    intro first hinput hoffers
    rw [append_nil]
    exact ⟨hoffers, hinput⟩
  | @sourcesCons _ _ _ item rest _ _ _ _ _ hfirst _ ih ih' =>
    have hsound : bound.Sound (item.exprs ++ exprsAll rest) := hsound
    rw [Sound.append_iff] at hsound
    intro first hinput hoffers
    obtain ⟨hoffers', hout⟩ := ih hsound.1 hs
    have hjoined := ih' hsound.2 (hfirst.reachesBack hs).1 (first ++ [item])
      ((hinput.mono fun h => h.append_right [item]).beside (hout.mono fun h => h.append_left first) .inner)
      (by
        rw [Lowered.combine, Plan.offers, hoffers, hoffers', aliasesAll_append]
        exact congrArg _ (append_nil _).symm)
    rwa [append_assoc] at hjoined
  | whereNone | conjunctsNil => exact fun _ h => h
  | @whereSome _ _ filter _ _ s _ _ ih =>
    have hfilter := hsound filter (mem_singleton_self _)
    have hconjuncts : ∀ c ∈ s.exprs.conjuncts filter, bound.Contains filter c := fun c hc =>
      contains_of_mem_conjuncts (hs.conjuncts filter ▸ hc)
    intro items hinput
    refine (ih (fun c hc y hy => hfilter y ((hconjuncts c hc).trans hy)) hs items hinput).above ?_
    rw [Plan.joins_of_children rfl]
    exact append_nil _
  | conjunctsPlain _ _ ih => exact ih (fun id hid => hsound id (mem_cons_of_mem _ hid)) hs
  | @conjunctsJoin _ _ _ _ _ _ _ use q _ _ _ _ _ _ huse hq hitems _ hcheck hquery _ ih ih' =>
    have hbound := hs.query_eq hq hitems
    have hright := ih (hsettled _ _ (query?_eq_some.mp hbound) hquery.isSome_depth) (hs.take hq)
    obtain ⟨hs1, hwithin⟩ := hquery.reachesBack (hs.take hq)
    intro items hinput
    exact ih' (fun id hid => hsound id (mem_cons_of_mem _ hid))
      (hs.decorrelate hs1 huse hq hitems hcheck hwithin) items (hinput.beside (hright.of_query items) _)

end

/-! ### Columns of join conditions -/

theorem Decorrelates.contains (h : Decorrelates bound a) {x : ExprId} (hx : ¬bound.HasSubquery x)
    (hy : a.Contains x y) : bound.Contains x y ∧ a.expr y = bound.expr y := by
  induction hy with
  | here x => exact ⟨.here x, h.kept x hx⟩
  | child hc _ ih =>
    rw [h.kept _ hx] at hc
    obtain ⟨hy, he⟩ := ih (not_hasSubquery_of_contains hx (.child hc (.here _)))
    exact ⟨.child hc hy, he⟩

theorem Select.Meant.depth_le (h : block.Meant a R)
    (hs : TableRef.Stands block.source.toList before (.join kind left right (some c)) after)
    (hdepth : block.depth = some depth) {ref : ColumnRef} (hy : a.Contains c y)
    (he : a.expr y = .column ref) : ∃ d ≤ depth, (a.node y).depth = some d := by
  obtain ⟨_, _, _, Γ, Δ, _, hblock, _, hitem⟩ := h.means_item hs
  cases Option.some.inj (hdepth.symm.trans hblock)
  cases hitem with
  | join _ _ _ _ hcondition =>
    obtain ⟨K', _, hc⟩ := hcondition.of_mem (mem_singleton_self c)
    obtain ⟨column, _, hrecorded, hres | ⟨_, _, _, _, hscan, _⟩⟩ :=
      (placed_of_means hc (.refl a K') [] y hy).2 ref he
    · exact ⟨column.depth, Nat.le_of_lt_succ hres.depth_lt, hrecorded⟩
    · cases hscan

/-! ### FROM items and the tables beside them -/

/-- Every column of the block at the depth that occurs in the FROM item belongs to a table of the item. -/
def TableRef.Independent (item : TableRef) (a : Arena) (depth : Option Nat) : Prop :=
  ∀ ref, item.HasColumn a depth ref → ∃ k ∈ item.aliases, ref.table = some k

/-- A column of the block at the depth that occurs in the FROM item belongs to one of the tables. -/
def TableRef.LeansOn (item : TableRef) (a : Arena) (depth : Option Nat) (tables : List Alias) : Prop :=
  ∃ ref, item.HasColumn a depth ref ∧ ∃ k ∈ tables, ref.table = some k

/-- **A FROM item does without the tables beside it exactly if it does without those before it.** -/
theorem Select.Meant.independent_iff (h : block.Meant a R) {item : TableRef}
    (hs : TableRef.Stands block.source.toList before item after) :
    item.Independent a block.depth ↔ ¬item.LeansOn a block.depth before := by
  constructor
  · rintro hown ⟨ref, href, k, hk, htable⟩
    obtain ⟨_, hk', htable'⟩ := hown ref href
    cases htable.symm.trans htable'
    exact (h.means_item hs).1 hk hk'
  · intro hnot ref href
    obtain ⟨k, hk, htable⟩ := h.sees hs href
    rcases mem_append.mp hk with hk | hk
    · exact (hnot ⟨ref, href, k, hk, htable⟩).elim
    · exact ⟨k, hk, htable⟩

/-- Every column in the conditions of a join belongs to a block around the one at the depth or to a table
below the join. -/
def JoinProduces (a : Arena) (depth : Nat) (j : List Predicate × List Alias) : Prop :=
  ∀ predicate ∈ j.1, ∀ y ref, a.Contains predicate.expr y → a.expr y = .column ref →
    (∃ d < depth, (a.node y).depth = some d) ∨ ∃ k ∈ j.2, ref.table = some k

/-- A column in the conditions of a join belongs to the block at the depth, and there to one of the
tables. -/
def JoinLeansOn (a : Arena) (depth : Nat) (tables : List Alias) (j : List Predicate × List Alias) : Prop :=
  ∃ predicate ∈ j.1, ∃ y ref, a.Contains predicate.expr y ∧ a.expr y = .column ref ∧
    (a.node y).depth = some depth ∧ ∃ k ∈ tables, ref.table = some k

/-- **A join has all columns of its conditions exactly if they do without the tables of the FROM items
before it.** -/
theorem Select.Meant.joinProduces_iff (h : block.Meant bound R) (hd : Decorrelates bound a)
    (ht : Tracks bound a)
    (hs : TableRef.Stands block.source.toList before (.join kind left right (some c)) after)
    (htables : j.2 = (join kind left right (some c)).aliases) (hc : ¬bound.HasSubquery c)
    (hconjuncts : j.1.map (·.expr) = bound.conjuncts c) (hdepth : block.depth = some depth) :
    JoinProduces a depth j ↔ ¬JoinLeansOn a depth before j := by
  have hbound {predicate : Predicate} (hp : predicate ∈ j.1) {y : ExprId}
      (hy : a.Contains predicate.expr y) : bound.Contains c y ∧ a.expr y = bound.expr y := by
    have hmem : predicate.expr ∈ bound.conjuncts c := hconjuncts ▸ mem_map_of_mem hp
    have hcontains := contains_of_mem_conjuncts hmem
    obtain ⟨hy, he⟩ := hd.contains (not_hasSubquery_of_contains hc hcontains) hy
    exact ⟨hcontains.trans hy, he⟩
  constructor
  · rintro hproduces ⟨predicate, hp, y, ref, hy, he, hown, k, hk, htable⟩
    rcases hproduces predicate hp y ref hy he with ⟨d, hlt, hd⟩ | ⟨k', hk', htable'⟩
    · cases hown.symm.trans hd
      exact Nat.lt_irrefl _ hlt
    · cases htable.symm.trans htable'
      exact (h.means_item hs).1 hk (htables ▸ hk')
  · intro hnot predicate hp y ref hy he
    obtain ⟨hcontains, heq⟩ := hbound hp hy
    obtain ⟨d, hle, hrecorded⟩ := h.depth_le hs hdepth hcontains (heq ▸ he)
    rw [← ht.depth] at hrecorded
    rcases Nat.lt_or_eq_of_le hle with hlt | rfl
    · exact .inl ⟨d, hlt, hrecorded⟩
    · refine .inr ?_
      have hcolumn : (join kind left right (some c)).HasColumn bound block.depth ref := by
        refine ⟨c, mem_append_right _ (mem_singleton_self c), y, hcontains.reaches, heq ▸ he, ?_⟩
        rw [hdepth, ← hrecorded, ht.depth]
      obtain ⟨k, hk, htable⟩ := h.sees hs hcolumn
      rcases mem_append.mp hk with hk | hk
      · exact (hnot ⟨predicate, hp, y, ref, hy, he, hrecorded, k, hk, htable⟩).elim
      · exact ⟨k, htables ▸ hk, htable⟩

/-- **FROM items are independent of their neighbours exactly if they use no table that stands before
them.**  In every bound SELECT this holds of every FROM item of every query block.  In its plan every join
with conditions stands for a join item of a FROM clause, and all columns of its conditions are produced
below it or by an enclosing block exactly if none belongs to a table that stands before the item. -/
theorem from_items_independent_iff {env : Accessor} {p : Parsed} {parameters : List Value} {b : Bound}
    {q0 q : Select} {n : Nat} {tree : Plan} (henv : env.Numbered) (hp : p.statement = .select q0)
    (hfresh : p.isFresh = true) (htree : p.exprs.TreeShaped q0.exprs)
    (hb : (bind env p parameters).result = .ok b) (hq : b.statement = .select q)
    (hlower : (lower (env.withNextTemp n) b).result = .ok tree) :
    (∀ block, b.exprs.IsBlock q block → ∀ before item after,
      TableRef.Stands block.source.toList before item after →
        (item.Independent b.exprs block.depth ↔ ¬item.LeansOn b.exprs block.depth before)) ∧
    (∃ out, Derives (env.withNextTemp n) b q out) ∧
    ∀ out, Derives (env.withNextTemp n) b q out → ∀ j ∈ tree.joins, j.1 ≠ [] →
      ∃ block ∈ out.blocks, ∃ before item after depth,
        TableRef.Stands block.query.source.toList before item after ∧ j.2 = item.aliases ∧
        block.query.depth = some depth ∧
        (JoinProduces (lower (env.withNextTemp n) b).bound.exprs depth j ↔
          ¬JoinLeansOn (lower (env.withNextTemp n) b).bound.exprs depth before j) := by
  have hstatement : p.statement.isFresh = true ∧ p.exprs.isFresh = true := Bool.and_eq_true_iff.mp hfresh
  rw [hp] at hstatement
  have hquery : p.exprs.FreshQuery q0 := by
    obtain ⟨K, huses, hnodup⟩ := htree
    exact ⟨hstatement.1, K, huses, fun x _ => isFresh_expr hstatement.2 x, hnodup⟩
  refine ⟨fun block hblock before item after hs => ?_, exists_derives hq hlower, fun out hout j hj hne => ?_⟩
  · obtain ⟨_, R, K, _, hq', _, _, _, hmeans⟩ := bind_means henv hp hquery hb
    cases hq.symm.trans hq'
    exact (hmeans.meant_of_isBlock hblock).independent_iff hs
  · obtain rfl : out.plan = tree := Except.ok.inj (hout.result.symm.trans hlower)
    have hsound := bind_sound (settled_of_isFresh hstatement.2) hb
    rw [hq] at hsound
    obtain ⟨_, _, _, _, _, haccount⟩ := exists_account henv hp hquery hb hq hout
    have hdecorrelates := (hout.lowers.decorrelation hsound.1 hsound.2 (.refl b.exprs)).decorrelates
    have htracks := (hout.lowers.reachesBack (.refl b.exprs)).1
    rcases hout.lowers.joinsFrom hsound.1 hsound.2 (.refl b.exprs) j hj with
      hj | hj | ⟨block, hblock, before, kind, left, right, c, after, hs, htables, hc, hconjuncts⟩
    · exact (hne hj).elim
    · exact (IsJoinOf.not_nil hj).elim
    · have hmeant := haccount.meant block hblock
      obtain ⟨_, _, _, Γ, _, _, hdepth, _⟩ := hmeant.means_item hs
      exact ⟨block, hblock, before, _, after, Γ.length, hs, htables, hdepth,
        hmeant.joinProduces_iff hdecorrelates htracks hs htables hc hconjuncts hdepth⟩

/-- `SELECT 1 FROM t AS x, t AS y INNER JOIN t AS z ON z.a = x.a` -/
def tableBefore : Parsed :=
  { statement := .select {
      items := [0]
      source := some (.list [
        .table (.named "t" "x"),
        .join .inner (.table (.named "t" "y"))
          (.table (.named "t" "z")) (some 1)]) }
    exprs := .ofExprs [
      .constant (.ofByte 1),
      .compare .equal 2 3,
      .columnOf "z" "a",
      .columnOf "x" "a"] }

/-- Whether an operand of the condition is a column of the outermost block without a table among the
aliases. -/
def Arena.hasForeignColumn (a : Arena) (c : ExprId) (aliases : List Alias) : Bool :=
  (a.expr c).children.any fun x => (a.node x).depth = some 0 &&
    (a.expr x).column?.any fun ref => aliases.all fun k => ref.table ≠ some k

theorem Arena.exists_of_hasForeignColumn {aliases : List Alias}
    (h : a.hasForeignColumn c aliases = true) :
    ∃ x ref, x ∈ (a.expr c).children ∧ (a.node x).depth = some 0 ∧ a.expr x = .column ref ∧
      ¬∃ k ∈ aliases, ref.table = some k := by
  simp only [hasForeignColumn, any_eq_true, Bool.and_eq_true, decide_eq_true_eq, Option.any_eq_true,
    all_eq_true] at h
  obtain ⟨x, hx, hdepth, ref, href, hnot⟩ := h
  exact ⟨x, ref, hx, hdepth, Expr.eq_column_of_column? href, fun ⟨k, hk, htable⟩ => hnot k hk htable⟩

/-- The join condition has a column whose table is neither in the join item nor below the join in the
plan. -/
def tableBeforeFacts : Bool :=
  match (bind twoColumns tableBefore []).result with
  | .error _ => false
  | .ok b =>
    match b.statement, (lower (twoColumns.withNextTemp (bind twoColumns tableBefore []).nextTemp) b).result with
    | .select q, .ok tree =>
      match q.source with
      | some (.list [_, .join _ left right (some c)]) =>
        q.depth = some 0 && b.exprs.hasForeignColumn c (left.aliases ++ right.aliases) &&
          tree.joins.any fun j => j.1.map (·.expr) = [c] && (lower (twoColumns.withNextTemp
            (bind twoColumns tableBefore []).nextTemp) b).bound.exprs.hasForeignColumn c j.2
      | _ => false
    | _, _ => false

theorem tableBefore_facts : (isPlannedSelect twoColumns tableBefore && tableBefore.isFresh &&
    tableBefore.exprs.isTreeShaped 5 [0, 1] && tableBeforeFacts) = true := by
  decide +kernel

theorem tableBefore_independent_iff :
    ∃ b q tree out, (bind twoColumns tableBefore []).result = .ok b ∧ b.statement = .select q ∧
      (lower (twoColumns.withNextTemp (bind twoColumns tableBefore []).nextTemp) b).result = .ok tree ∧
      Derives (twoColumns.withNextTemp (bind twoColumns tableBefore []).nextTemp) b q out ∧
      (∀ block, b.exprs.IsBlock q block → ∀ before item after,
        TableRef.Stands block.source.toList before item after →
          (item.Independent b.exprs block.depth ↔ ¬item.LeansOn b.exprs block.depth before)) ∧
      ∀ j ∈ tree.joins, j.1 ≠ [] → ∃ block ∈ out.blocks, ∃ before item after depth,
        TableRef.Stands block.query.source.toList before item after ∧ j.2 = item.aliases ∧
        block.query.depth = some depth ∧
        (JoinProduces (lower (twoColumns.withNextTemp (bind twoColumns tableBefore []).nextTemp)
            b).bound.exprs depth j ↔
          ¬JoinLeansOn (lower (twoColumns.withNextTemp (bind twoColumns tableBefore []).nextTemp)
            b).bound.exprs depth before j) := by
  have hfacts := tableBefore_facts
  simp only [Bool.and_eq_true] at hfacts
  obtain ⟨⟨⟨hplanned, hfresh⟩, hshape⟩, -⟩ := hfacts
  obtain ⟨b, q, tree, hb, hq, htree⟩ := exists_of_isPlannedSelect hplanned
  obtain ⟨hitems, ⟨out, hout⟩, hjoins⟩ := from_items_independent_iff
    (Catalog.Reachable.accessor (.create (.table _ _ _) _ .initial)) rfl hfresh
    (treeShaped_of_isTreeShaped hshape) hb hq htree
  exact ⟨b, q, tree, out, hb, hq, htree, hout, hitems, hjoins out hout⟩

theorem tableBefore_not_independent :
    ∃ b q tree before item after, (bind twoColumns tableBefore []).result = .ok b ∧
      b.statement = .select q ∧
      (lower (twoColumns.withNextTemp (bind twoColumns tableBefore []).nextTemp) b).result = .ok tree ∧
      b.exprs.IsBlock q q ∧ TableRef.Stands q.source.toList before item after ∧
      ¬item.Independent b.exprs q.depth ∧ q.depth = some 0 ∧ ∃ j ∈ tree.joins,
        ¬JoinProduces (lower (twoColumns.withNextTemp (bind twoColumns tableBefore []).nextTemp)
          b).bound.exprs 0 j := by
  have hfacts := tableBefore_facts
  simp only [Bool.and_eq_true] at hfacts
  obtain ⟨⟨⟨hplanned, -⟩, -⟩, hfacts⟩ := hfacts
  obtain ⟨b, q, tree, hb, hq, htree⟩ := exists_of_isPlannedSelect hplanned
  simp only [tableBeforeFacts, hb, hq, htree] at hfacts
  split at hfacts
  · rename_i first kind left right c hsource
    simp only [Bool.and_eq_true, decide_eq_true_eq, any_eq_true] at hfacts
    obtain ⟨⟨hdepth, hcolumn⟩, j, hj, hpredicates, hforeign⟩ := hfacts
    have hstands : TableRef.Stands q.source.toList (first.aliases ++ [])
        (.join kind left right (some c)) ([] ++ []) := by
      rw [hsource]
      exact .list (.tail .head)
    refine ⟨b, q, tree, _, _, _, hb, hq, htree, .inl q.mem_blocks_self, hstands, fun hown => ?_, hdepth,
      j, hj, fun hproduces => ?_⟩
    · obtain ⟨x, ref, hx, hrecorded, he, hnot⟩ := exists_of_hasForeignColumn hcolumn
      exact hnot (hown ref ⟨c, mem_append_right _ (mem_singleton_self c), x,
        .single (Expr.mem_parts_of_children hx), he, hrecorded.trans hdepth.symm⟩)
    · obtain ⟨x, ref, hx, _, he, hnot⟩ := exists_of_hasForeignColumn hforeign
      obtain ⟨predicate, hp, hexpr⟩ : ∃ predicate ∈ j.1, predicate.expr = c :=
        mem_map.mp (hpredicates ▸ mem_singleton_self c)
      rcases hproduces predicate hp x ref (hexpr ▸ .child hx (.here x)) he with ⟨d, hlt, _⟩ | hown
      · exact Nat.not_lt_zero d hlt
      · exact hnot hown
  · cases hfacts

end SqlAnalysis
