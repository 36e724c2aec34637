import SqlAnalysis.Proofs.Binding.DerivedColumns
import SqlAnalysis.Proofs.Plan.Account

/-!
# Derived tables in plans

The plan of a derived table maps the names of its output columns to expressions.  Binding takes the
first column of a name; of equal names the plan keeps the last.

* **`find?_outputColumns`**: the expression that a plan has for a name.
* **`Lowers.readsOnly`**: what is known of the parts of a statement is known of the relations of its plan.
* **`derived_columns_agree_iff`**: binding and plan agree on a column exactly if no later column of the
  derived table has its name.
-/

namespace SqlAnalysis

open List Arena TableRef

variable {a a' bound : Arena} {env : Accessor} {task : LowerTask} {s s' : LowerState} {q : Select}
  {out : Lowered} {bodies : List (VisibleCte × Lowered)} {part : NamedPart → Prop}
  {items : List TableRef}

/-! ### Output names -/

theorem find?_outputColumns_append (a : Arena) (ids : List ExprId) (id : ExprId) (name : String) :
    (outputColumns a (ids ++ [id])).find? name =
      if a.outputName id = name then some id else (outputColumns a ids).find? name := by
  rw [outputColumns, foldl_append]
  exact Keyed.find?_insert _ _ _ _

theorem outputColumns_congr (h : ∀ x, a'.outputName x = a.outputName x) (ids : List ExprId) :
    outputColumns a' ids = outputColumns a ids := by
  simp only [outputColumns, h]

theorem find?_outputColumns {ids : List ExprId} (hnodup : ids.Nodup) {i : Nat} {id : ExprId}
    (hi : ids[i]? = some id) :
    (outputColumns a ids).find? (a.outputName id) = some id ↔
      ∀ (j : Nat) (id' : ExprId), i < j → ids[j]? = some id' → a.outputName id' ≠ a.outputName id := by
  induction ids using reverseRecOn generalizing i id with
  | nil => cases hi
  | append_singleton ids last ih =>
    obtain ⟨hnodup, _, hlast⟩ := nodup_append'.mp hnodup
    rw [find?_outputColumns_append]
    rcases Nat.lt_trichotomy i ids.length with hlt | rfl | hgt
    · rw [getElem?_append_left hlt] at hi
      have hne : last ≠ id := fun heq =>
        hlast (mem_of_getElem? hi) (heq ▸ mem_singleton_self last)
      split
      · -- the last one has the name
        rename_i hname
        refine iff_of_false (fun h => hne (Option.some.inj h)) fun h => ?_
        exact h ids.length last hlt getElem?_concat_length hname
      · rename_i hname
        rw [ih hnodup hi]
        refine ⟨fun h j id' hj hj' => ?_, fun h j id' hj hj' => h j id' hj ?_⟩
        · rcases Nat.lt_trichotomy j ids.length with hlt' | rfl | hgt'
          · exact h j id' hj (by rwa [getElem?_append_left hlt'] at hj')
          · rw [getElem?_concat_length] at hj'
            cases hj'
            exact hname
          · rw [getElem?_eq_none (by rw [length_append, length_singleton]; omega)] at hj'
            cases hj'
        · rwa [List.getElem?_append_left (List.getElem?_eq_some_iff.mp hj').1]
    · rw [getElem?_concat_length] at hi
      cases hi
      refine iff_of_true (if_pos rfl) fun j id' hj hj' => ?_
      rw [getElem?_eq_none (by rw [length_append, length_singleton]; omega)] at hj'
      cases hj'
    · rw [getElem?_eq_none (by rw [length_append, length_singleton]; omega)] at hi
      cases hi

/-! ### The store while a plan is built -/

theorem Arena.node_setQuery_eq (a : Arena) (id : ExprId) (q : Select) (x : ExprId) :
    ∃ e, (a.setQuery id q).node x = { a.node x with kind := e } := by
  rw [setQuery, node_update]
  split
  · split
    · exact ⟨_, rfl⟩
    · exact ⟨_, rfl⟩
  · exact ⟨_, rfl⟩

theorem Lowers.node_eq (h : Lowers env task s s') (x : ExprId) :
    ∃ e, s'.exprs.node x = { s.exprs.node x with kind := e } := by
  induction h with
  | entriesCons hv _ _ ih ih' =>
    obtain ⟨_, rfl⟩ := visibleCte_run hv
    obtain ⟨e, he⟩ := ih
    obtain ⟨e', he'⟩ := ih'
    exact ⟨e', by rw [he', he]⟩
  | queryAlone _ _ _ ih ih' | block _ _ _ _ _ ih ih' | join _ _ _ ih ih' | list _ _ ih ih'
  | sourcesCons _ _ ih ih' =>
    obtain ⟨e, he⟩ := ih
    obtain ⟨e', he'⟩ := ih'
    exact ⟨e', by rw [he', he]⟩
  | queryUnion _ _ _ _ ih ih' ih'' =>
    obtain ⟨_, he⟩ := ih
    obtain ⟨_, he'⟩ := ih'
    obtain ⟨e'', he''⟩ := ih''
    exact ⟨e'', by rw [he'', he', he]⟩
  | fromSome _ ih | derived _ ih | whereSome _ ih | conjunctsPlain _ _ ih => exact ih
  | @conjunctsJoin _ _ _ _ _ _ _ use q _ _ s s1 _ _ _ _ _ _ _ _ _ ih ih' =>
    obtain ⟨_, he0⟩ := s.exprs.node_setQuery_eq use.subquery {} x
    obtain ⟨_, he1⟩ := ih
    obtain ⟨_, he2⟩ := s1.exprs.node_setQuery_eq use.subquery q x
    obtain ⟨e3, he3⟩ := ih'
    dsimp only at he1 he3
    rw [node_update] at he3
    split at he3
    · exact ⟨e3, by rw [he3, he2, he1, he0]⟩
    · exact ⟨e3, by rw [he3, he2, he1, he0]⟩
  | _ => exact ⟨_, rfl⟩

theorem Arena.outputName_congr {x : ExprId} (h : ∃ e, a'.node x = { a.node x with kind := e }) :
    a'.outputName x = a.outputName x := by
  obtain ⟨_, he⟩ := h
  rw [outputName, he, outputName]

theorem Arena.outputName_rewrite (a : Arena) (c : ExprId) (f : Expr → Expr) (x : ExprId) :
    (a.update c fun n => { n with kind := f n.kind }).outputName x = a.outputName x := by
  refine outputName_congr ?_
  rw [node_update]
  split
  · exact ⟨_, rfl⟩
  · exact ⟨_, rfl⟩

theorem Lowers.outputName_eq (h : Lowers env task s s') (x : ExprId) :
    s'.exprs.outputName x = s.exprs.outputName x :=
  outputName_congr (h.node_eq x)

theorem Lowers.outputName_rewritten {n : Nat} {s1 : LowerState} {sub : ExprId}
    (h : Lowers env task ⟨a, n⟩ s1) (c first : ExprId) (x : ExprId) :
    ((s1.exprs.setQuery sub q).update c fun n =>
      { n with kind := decorrelatedPredicate sub first n.kind }).outputName x = a.outputName x :=
  calc _ = (s1.exprs.setQuery sub q).outputName x :=
        outputName_rewrite _ c (decorrelatedPredicate sub first) x
    _ = s1.exprs.outputName x := outputName_congr (s1.exprs.node_setQuery_eq sub q x)
    _ = a.outputName x := h.outputName_eq x

/-- The store follows the one that binding has left, and all outputs keep their names. -/
structure TracksNames (bound a : Arena) : Prop extends Tracks bound a where
  name : ∀ x, a.outputName x = bound.outputName x

theorem TracksNames.refl (a : Arena) : TracksNames a a := ⟨.refl a, fun _ => rfl⟩

theorem Lowers.tracksNames (h : Lowers env task s s') (hs : TracksNames bound s.exprs) :
    TracksNames bound s'.exprs :=
  ⟨(h.reachesBack hs.toTracks).1, fun x => (h.outputName_eq x).trans (hs.name x)⟩

theorem TracksNames.take {x : ExprId} (h : TracksNames bound a) (hq : a.query? x = some q) :
    TracksNames bound (a.setQuery x {}) :=
  ⟨h.toTracks.take hq, fun y => (outputName_congr (a.node_setQuery_eq x {} y)).trans (h.name y)⟩

theorem TracksNames.decorrelate {use : SubqueryUse} {c first : ExprId} {more : List ExprId}
    {ctes : List VisibleCte} {own right : List String} {out : Lowered} {s1 : LowerState} {n : Nat}
    (h : TracksNames bound a)
    (huse : subqueryUse a c = .ok use) (hq : a.query? use.subquery = some q) (hitems : q.items = first :: more)
    (hcheck : checkSubquery (a.setQuery use.subquery {}) q = .ok ())
    (hquery : Lowers env (.query ctes own right q out) ⟨a.setQuery use.subquery {}, n⟩ s1) :
    TracksNames bound ((s1.exprs.setQuery use.subquery q).update c fun n =>
      { n with kind := decorrelatedPredicate use.subquery first n.kind }) := by
  obtain ⟨hs1, hwithin⟩ := hquery.reachesBack (h.toTracks.take hq)
  exact ⟨h.toTracks.decorrelate hs1 huse hq hitems hcheck hwithin,
    fun x => (hquery.outputName_rewritten c first x).trans ((h.take hq).name x)⟩

theorem Lowers.isSome_depth {ctes : List VisibleCte} {own right : List String}
    (h : Lowers env (.query ctes own right q out) s s') : q.depth.isSome = true := by
  cases h with
  | queryAlone _ _ hblock | queryUnion _ _ hblock => cases hblock with | block hd => rw [hd]; rfl

/-! ### Relations of a plan -/

def Plan.ReadsOnly (P : Plan.Scan → Prop) (plan : Plan) : Prop := ∀ scan ∈ plan.scans, P scan

namespace Plan.ReadsOnly

variable {P : Plan.Scan → Prop} {plan l r : Plan}

theorem of_children (h : ∀ scan, plan.scan? = some scan → P scan)
    (hchildren : ∀ p ∈ plan.children, p.ReadsOnly P) : plan.ReadsOnly P := by
  intro scan hmem
  rw [scans, filterMap_subplans] at hmem
  rcases mem_append.mp hmem with hmem | hmem
  · exact h scan (Option.mem_toList.mp hmem)
  · obtain ⟨p, hp, hmem⟩ := mem_flatMap.mp hmem
    exact hchildren p hp scan hmem

theorem above (h : l.ReadsOnly P) (hscan : plan.scan? = none) (hchildren : plan.children = [l]) :
    plan.ReadsOnly P :=
  of_children (fun _ hs => nomatch hscan.symm.trans hs) (hchildren ▸ forall_mem_singleton.mpr h)

theorem both (hl : l.ReadsOnly P) (hr : r.ReadsOnly P) (hscan : plan.scan? = none)
    (hchildren : plan.children = [l, r]) : plan.ReadsOnly P :=
  of_children (fun _ hs => nomatch hscan.symm.trans hs)
    (hchildren ▸ forall_mem_cons.mpr ⟨hl, forall_mem_singleton.mpr hr⟩)

theorem attachAll (h : out.plan.ReadsOnly P) (hbodies : ∀ b ∈ bodies, b.2.plan.ReadsOnly P) :
    (out.attachAll bodies).plan.ReadsOnly P :=
  Lowered.attachAll_keeps (P := (·.plan.ReadsOnly P)) h fun b hb _ _ _ hl hplan scan hmem =>
    ((mem_scans_attachCte hplan).mp hmem).elim (hl scan) (hbodies b hb scan)

end Plan.ReadsOnly

section

variable {α : Type}

def LowerTask.gather (probe : Probe α) : LowerTask → List α
  | .query _ _ _ q _ => q.gather probe
  | .entries _ _ cs _ _ => Cte.gatherAll probe cs
  | .block _ _ q _ => gatherOpt probe q.source
  | .from_ _ _ item _ => gatherOpt probe item
  | .source _ _ item _ => item.gather probe
  | .sources _ _ _ items _ => gatherAll probe items
  | .where_ .. | .conjuncts .. => []

def LowerTask.inForce : LowerTask → List VisibleCte
  | .query ctes _ _ _ _ | .entries ctes _ _ _ _ | .block ctes _ _ _ | .from_ ctes _ _ _ | .source ctes _ _ _
  | .sources ctes _ _ _ _ | .where_ ctes _ _ _ _ | .conjuncts ctes _ _ _ _ => ctes

/-- What the relations that a plan reads are like if the parts of the statement are as they should be. -/
structure ScanRule (bound : Arena) (probe : Probe α) (part : α → Prop) (P : Plan.Scan → Prop) : Prop where
  table : ∀ scan, P (.table scan)
  derived : ∀ {q k}, (∀ x ∈ probe.reference (.derived q k), part x) →
    P (.derived k (outputColumns bound q.items))
  entry : ∀ {c v s s'}, (∀ x ∈ probe.entry c, part x) → visibleCte c s = .ok v s' → ∀ k, P (.cte (v.scan k))

/-- What is said of the plans of a step, and of the entries that are in force after it. -/
def LowerTask.ReadsOnly (P : Plan.Scan → Prop) : LowerTask → Prop
  | .query _ _ _ _ out | .block _ _ _ out | .from_ _ _ _ out | .source _ _ _ out => out.plan.ReadsOnly P
  | .entries _ _ _ bodies after =>
    (∀ b ∈ bodies, b.2.plan.ReadsOnly P) ∧ ∀ v ∈ after, ∀ k, P (.cte (v.scan k))
  | .sources _ _ input _ out | .where_ _ _ _ input out | .conjuncts _ _ _ input out =>
    input.plan.ReadsOnly P → out.plan.ReadsOnly P

theorem Lowers.readsOnly {probe : Probe α} {part : α → Prop} {P : Plan.Scan → Prop}
    (hP : ScanRule bound probe part P)
    (hbound : ∀ {x q}, bound.query? x = some q → q.depth.isSome = true → ∀ p ∈ q.gather probe, part p)
    (h : Lowers env task s s') (hs : TracksNames bound s.exprs)
    (hparts : ∀ p ∈ task.gather probe, part p)
    (hctes : ∀ v ∈ task.inForce, ∀ k, P (.cte (v.scan k))) : task.ReadsOnly P := by
  induction h with
  | entriesNil => exact ⟨forall_mem_nil _, hctes⟩
  | @entriesCons ctes _ _ _ v _ _ _ _ _ _ _ hv hbody _ ih ih' =>
    rw [LowerTask.gather, Cte.gatherAll_cons] at hparts
    obtain ⟨hparts, hrest⟩ := forall_mem_append.mp hparts
    obtain ⟨hentry, hquery⟩ := forall_mem_append.mp hparts
    have hctes' : ∀ w ∈ v :: ctes, ∀ k, P (.cte (w.scan k)) :=
      forall_mem_cons.mpr ⟨hP.entry hentry hv, hctes⟩
    obtain ⟨_, rfl⟩ := visibleCte_run hv
    obtain ⟨hbodies, hafter⟩ := ih' (hbody.tracksNames hs) hrest hctes'
    refine ⟨forall_mem_cons.mpr ⟨ih hs hquery fun w hw => ?_, hbodies⟩, hafter⟩
    dsimp only [LowerTask.inForce] at hw
    split at hw
    · exact hctes' w hw
    · exact hctes w hw
  | queryAlone _ hentries _ ih ih' =>
    rw [LowerTask.gather, Select.gather_eq] at hparts
    simp only [forall_mem_append] at hparts
    obtain ⟨hbodies, hafter⟩ := ih hs hparts.1.1.2 hctes
    exact Plan.ReadsOnly.attachAll (ih' (hentries.tracksNames hs) hparts.1.2 hafter) hbodies
  | queryUnion hunion hentries hblock _ ih ih' ih'' =>
    rw [LowerTask.gather, Select.gather_eq, hunion] at hparts
    simp only [forall_mem_append] at hparts
    have hs1 := hentries.tracksNames hs
    obtain ⟨hbodies, hafter⟩ := ih hs hparts.1.1.2 hctes
    have hout := ih' hs1 hparts.1.2 hafter
    have hout' := ih'' (hblock.tracksNames hs1)
      hparts.2 hafter
    exact Plan.ReadsOnly.attachAll (hout.both hout' rfl rfl) hbodies
  | block _ hfrom _ hagg hlimit ih ih' =>
    have hfiltered := ih' (hfrom.tracksNames hs)
      (forall_mem_nil _) hctes (ih hs hparts hctes)
    refine finish_keeps hagg hlimit (Plan.ReadsOnly _) hfiltered (fun keys p hp => ?_)
      (fun g having p _ _ _ hp => ?_) fun count offset keys p hp => ?_
    all_goals exact hp.above rfl rfl
  | fromNone =>
    refine .of_children (fun scan hscan => ?_) (forall_mem_nil _)
    cases hscan
    exact hP.table _
  | fromSome _ ih | conjunctsPlain _ _ ih => exact ih hs hparts hctes
  | table hbase =>
    refine .of_children (fun scan hscan => ?_) fun p hp => ?_ <;>
      rcases lowerBaseTable_ok hbase with ⟨v, _, hv, rfl⟩ | ⟨table, _, _, rfl⟩
    · cases hscan
      exact hctes v (mem_of_find?_eq_some hv) _
    · cases hscan
      exact hP.table _
    · exact (not_mem_nil hp).elim
    · exact (not_mem_nil hp).elim
  | @derived _ _ _ _ _ _ _ hquery ih =>
    obtain ⟨hpart, hquery'⟩ := forall_mem_append.mp hparts
    refine .of_children (fun scan hscan => ?_) (forall_mem_singleton.mpr (ih hs hquery' hctes))
    cases hscan
    rw [outputColumns_congr (hquery.tracksNames hs).name]
    exact hP.derived hpart
  | @join _ _ _ _ _ _ _ _ _ _ _ _ hl _ _ ih ih' =>
    obtain ⟨hleft, hright⟩ := forall_mem_append.mp hparts
    exact Plan.ReadsOnly.both (ih hs hleft hctes) (ih' (hl.tracksNames hs) hright hctes) rfl rfl
  | @list _ _ _ _ _ _ _ _ _ hfirst _ ih ih' =>
    obtain ⟨hitem, hrest⟩ := forall_mem_append.mp hparts
    exact ih' (hfirst.tracksNames hs) hrest hctes
      (ih hs hitem hctes)
  | @sourcesCons _ _ _ _ _ _ _ _ _ _ hfirst _ ih ih' =>
    intro hinput
    obtain ⟨hitem, hrest⟩ := forall_mem_append.mp hparts
    exact ih' (hfirst.tracksNames hs) hrest hctes
      (hinput.both (ih hs hitem hctes) rfl rfl)
  | whereSome _ ih => exact fun hinput => (ih hs hparts hctes hinput).above rfl rfl
  | @conjunctsJoin _ _ c _ _ _ _ use q first _ s _ _ _ huse hq hitems _ hcheck hquery _ ih ih' =>
    intro hinput
    have hbound' := hs.query_eq hq hitems
    have hright := ih (hs.take hq) (hbound hbound' hquery.isSome_depth) hctes
    exact ih' (hs.decorrelate huse hq hitems hcheck hquery) hparts hctes (hinput.both hright rfl rfl)
  | _ => exact id

end

theorem Plan.scans_subset {p input : Plan} (h : input ∈ p.children) : input.scans ⊆ p.scans := by
  intro scan hscan
  rw [scans, filterMap_subplans]
  exact mem_append_right _ (mem_flatMap.mpr ⟨input, h, hscan⟩)

/-! ### Plans of derived tables -/

/-- The derived tables among the FROM items are known and read by a plan. -/
def Plan.ReadsDerived (bound : Arena) (part : NamedPart → Prop) (items : List TableRef) (plan : Plan) : Prop :=
  ∀ q k, .derived q k ∈ items →
    part (.derived q.items k) ∧ .derived k (outputColumns bound q.items) ∈ plan.scans

/-- The derived tables of all blocks whose plans are part of a plan are read by it. -/
def Lowered.ReadsDerived (bound : Arena) (part : NamedPart → Prop) (out : Lowered) : Prop :=
  ∀ block ∈ out.blocks, out.plan.ReadsDerived bound part (itemsOpt block.query.source)

theorem Plan.ReadsDerived.mono {plan plan' : Plan} (h : plan.ReadsDerived bound part items)
    (hsub : plan.scans ⊆ plan'.scans) :
    plan'.ReadsDerived bound part items := fun q k hq =>
  ⟨(h q k hq).1, hsub (h q k hq).2⟩

theorem Plan.ReadsDerived.append {items' : List TableRef} {plan : Plan}
    (h : plan.ReadsDerived bound part items) (h' : plan.ReadsDerived bound part items') :
    plan.ReadsDerived bound part (items ++ items') := fun q k hq =>
  (mem_append.mp hq).elim (h q k) (h' q k)

namespace Lowered.ReadsDerived

variable {out' : Lowered}

theorem combine (h : out.ReadsDerived bound part) (h' : out'.ReadsDerived bound part) {plan : Plan}
    (hscans : plan.scans = out.plan.scans ++ out'.plan.scans) :
    (Lowered.combine plan out out').ReadsDerived bound part := by
  refine forall_mem_append.mpr ⟨fun block hb => (h block hb).mono ?_,
    fun block hb => (h' block hb).mono ?_⟩
  · rw [Lowered.combine, hscans]
    exact subset_append_left _ _
  · rw [Lowered.combine, hscans]
    exact subset_append_right _ _

theorem attachAll (h : out.ReadsDerived bound part)
    (hbodies : ∀ b ∈ bodies, b.2.ReadsDerived bound part) :
    (out.attachAll bodies).ReadsDerived bound part := by
  refine Lowered.attachAll_keeps (P := (Lowered.ReadsDerived bound part ·)) h
    fun b hb _ _ _ hl hplan => forall_mem_append.mpr ⟨fun block hmem => (hl block hmem).mono
      fun scan hscan => ?_, fun block hmem => (hbodies b hb block hmem).mono fun scan hscan => ?_⟩
  · exact (Plan.mem_scans_attachCte hplan).mpr (Or.inl hscan)
  · exact (Plan.mem_scans_attachCte hplan).mpr (Or.inr hscan)

end Lowered.ReadsDerived

/-- The derived tables of what is lowered, and of all blocks in its plan, are read. -/
def LowerTask.ReadsDerived (bound : Arena) (part : NamedPart → Prop) : LowerTask → Prop
  | .query _ _ _ _ out | .block _ _ _ out => out.ReadsDerived bound part
  | .entries _ _ _ bodies _ => ∀ b ∈ bodies, b.2.ReadsDerived bound part
  | .from_ _ _ clause out =>
    out.ReadsDerived bound part ∧ out.plan.ReadsDerived bound part (itemsOpt clause)
  | .source _ _ item out => out.ReadsDerived bound part ∧ out.plan.ReadsDerived bound part item.items
  | .sources _ _ input items out => input.plan.scans ⊆ out.plan.scans ∧
    (input.ReadsDerived bound part → out.ReadsDerived bound part) ∧
    out.plan.ReadsDerived bound part (itemsAll items)
  | .where_ _ _ _ input out | .conjuncts _ _ _ input out => input.plan.scans ⊆ out.plan.scans ∧
    (input.ReadsDerived bound part → out.ReadsDerived bound part)

/-- **A plan reads the derived tables of all blocks whose plans are part of it.** -/
theorem Lowers.readsDerived
    (hbound : ∀ {x q}, bound.query? x = some q → q.depth.isSome = true → ∀ p ∈ q.named, part p)
    (h : Lowers env task s s') (hs : TracksNames bound s.exprs)
    (hnamed : ∀ p ∈ task.gather NamedPart.probe, part p) : task.ReadsDerived bound part := by
  induction h with
  | entriesNil => exact forall_mem_nil _
  | @entriesCons _ _ _ _ _ _ _ _ _ _ _ _ hv hbody _ ih ih' =>
    obtain ⟨_, rfl⟩ := visibleCte_run hv
    rw [LowerTask.gather, NamedPart.gather_cons] at hnamed
    obtain ⟨_, hnamed⟩ := forall_mem_cons.mp hnamed
    obtain ⟨hquery, hrest⟩ := forall_mem_append.mp hnamed
    exact forall_mem_cons.mpr ⟨ih hs hquery, ih' (hbody.tracksNames hs) hrest⟩
  | queryAlone _ hentries _ ih ih' =>
    rw [LowerTask.gather, ← Select.named, Select.named_eq] at hnamed
    obtain ⟨hnamed, _⟩ := forall_mem_append.mp hnamed
    obtain ⟨hctes, hsource⟩ := forall_mem_append.mp hnamed
    exact Lowered.ReadsDerived.attachAll (ih' (hentries.tracksNames hs) hsource) (ih hs hctes)
  | @queryUnion _ _ _ _ _ _ _ out out' _ _ _ _ hunion hentries hblock _ ih ih' ih'' =>
    rw [LowerTask.gather, ← Select.named, Select.named_eq, hunion] at hnamed
    obtain ⟨hnamed, hright⟩ := forall_mem_append.mp hnamed
    obtain ⟨hctes, hsource⟩ := forall_mem_append.mp hnamed
    have hs1 := hentries.tracksNames hs
    have hout : out.ReadsDerived bound part := ih' hs1 hsource
    have hout' : out'.ReadsDerived bound part := ih'' (hblock.tracksNames hs1) hright
    exact (hout.combine hout' (Plan.scans_union _ _)).attachAll (ih hs hctes)
  | @block _ _ _ _ _ filtered _ limited _ _ _ _ hfrom _ hagg hlimit ih ih' =>
    obtain ⟨hscanned, hclause⟩ := ih hs hnamed
    obtain ⟨hsub, hfiltered⟩ := ih' (hfrom.tracksNames hs) (forall_mem_nil _)
    have hscans : filtered.plan.scans ⊆ limited.scans := by
      refine finish_keeps hagg hlimit (filtered.plan.scans ⊆ ·.scans) (Subset.refl _)
        (fun keys p hp => ?_) (fun g having p _ _ _ hp => ?_) fun count offset keys p hp => ?_
      all_goals exact Subset.trans hp (Plan.scans_subset mem_cons_self)
    refine forall_mem_cons.mpr ⟨hclause.mono (Subset.trans hsub hscans), fun block hb => ?_⟩
    exact (hfiltered hscanned block hb).mono hscans
  | fromNone => exact ⟨forall_mem_nil _, fun _ _ hq => (not_mem_nil hq).elim⟩
  | fromSome _ ih | conjunctsPlain _ _ ih => exact ih hs hnamed
  | table =>
    refine ⟨forall_mem_nil _, fun q k hq => ?_⟩
    rw [items] at hq
    cases mem_singleton.mp hq
  | @derived _ _ _ _ _ _ _ hquery ih =>
    obtain ⟨hpart, hnamed⟩ := forall_mem_cons.mp hnamed
    have hout := ih hs hnamed
    refine ⟨fun block hb => (hout block hb).mono ?_, fun q' k hq => ?_⟩
    · rw [Plan.scans_derivedGet]
      exact subset_cons_self _ _
    · rw [items] at hq
      cases mem_singleton.mp hq
      rw [Plan.scans_derivedGet, outputColumns_congr (hquery.tracksNames hs).name]
      exact ⟨hpart, mem_cons_self⟩
  | @join _ _ kind _ _ _ out out' predicates _ _ _ hl _ _ ih ih' =>
    obtain ⟨hleft, hright⟩ := forall_mem_append.mp hnamed
    obtain ⟨hout, hleft⟩ := ih hs hleft
    obtain ⟨hout', hright⟩ := ih' (hl.tracksNames hs) hright
    have hscans := Plan.scans_join kind.inPlan predicates out.plan out'.plan
    refine ⟨hout.combine hout' hscans, fun q k hq => ?_⟩
    rw [items, mem_cons] at hq
    rcases hq with hq | hq
    · cases hq
    · refine Plan.ReadsDerived.append (hleft.mono ?_) (hright.mono ?_) q k hq
      · rw [Lowered.combine, hscans]
        exact subset_append_left _ _
      · rw [Lowered.combine, hscans]
        exact subset_append_right _ _
  | @list _ _ _ _ _ _ _ _ _ hfirst _ ih ih' =>
    obtain ⟨hitem, hrest⟩ := forall_mem_append.mp hnamed
    obtain ⟨hout, hitem⟩ := ih hs hitem
    obtain ⟨hsub, hout', hrest⟩ := ih' (hfirst.tracksNames hs) hrest
    refine ⟨hout' hout, fun q k hq => ?_⟩
    rw [items, itemsAll, mem_cons] at hq
    rcases hq with hq | hq
    · cases hq
    · exact (hitem.mono hsub).append hrest q k hq
  | sourcesNil =>
    refine ⟨Subset.refl _, id, fun q k hq => ?_⟩
    rw [itemsAll] at hq
    cases hq
  | @sourcesCons _ _ _ _ _ _ _ _ _ _ hfirst _ ih ih' =>
    obtain ⟨hitem, hrest⟩ := forall_mem_append.mp hnamed
    obtain ⟨hout, hitem⟩ := ih hs hitem
    obtain ⟨hsub, hout', hrest⟩ := ih' (hfirst.tracksNames hs) hrest
    rw [Lowered.combine, Plan.scans_join] at hsub
    refine ⟨Subset.trans (subset_append_left _ _) hsub, fun hinput => ?_, fun q k hq => ?_⟩
    · exact hout' (hinput.combine hout (Plan.scans_join _ _ _ _))
    · rw [itemsAll] at hq
      exact ((hitem.mono (Subset.trans (subset_append_right _ _) hsub)).append hrest) q k hq
  | whereNone | conjunctsNil => exact ⟨Subset.refl _, id⟩
  | @whereSome _ _ filter _ out _ s1 _ ih =>
    obtain ⟨hsub, hout⟩ := ih hs hnamed
    have hscans : out.plan.scans ⊆ (Plan.filter (s1.exprs.predicates filter) out.plan).scans :=
      Plan.scans_subset mem_cons_self
    exact ⟨Subset.trans hsub hscans, fun hinput block hb => (hout hinput block hb).mono hscans⟩
  | @conjunctsJoin _ _ c _ _ _ _ use q first _ s _ _ _ huse hq hitems _ hcheck hquery _ ih ih' =>
    have hbound' := hs.query_eq hq hitems
    obtain ⟨hsub, hout⟩ := ih' (hs.decorrelate huse hq hitems hcheck hquery) hnamed
    rw [Lowered.combine, Plan.scans_join] at hsub
    refine ⟨Subset.trans (subset_append_left _ _) hsub, fun hinput => ?_⟩
    exact hout (hinput.combine (ih (hs.take hq) (hbound hbound' hquery.isSome_depth))
      (Plan.scans_join _ _ _ _))

/-! ### Agreement of binding and plan -/

section

variable {env' : Accessor} {p : Parsed} {parameters : List Value} {b : Bound} {q0 : Select}
  {tree : Plan}

/-- **Binding and plan agree on the columns of derived tables as long as no later column has the same
name.**  Every derived table of a FROM clause in the plan has one map of its output columns there.  A
column that is resolved to the derived table is one of its output columns, the only one with its number;
the map has the expression of this column under the column's name exactly if no later output column has
the name. -/
theorem derived_columns_agree_iff (hp : p.statement = .select q0) (hfresh : p.isFresh = true)
    (hnames : p.exprs.isUnnumbered = true) (htree : p.exprs.TreeShaped q0.exprs)
    (hb : (bind env p parameters).result = .ok b) (hq : b.statement = .select q)
    (hlower : (lower env' b).result = .ok tree) :
    (∃ out, Derives env' b q out) ∧ ∀ out, Derives env' b q out → ∀ block ∈ out.blocks, ∀ d k,
      .derived d k ∈ TableRef.itemsOpt block.query.source → ∃ columns,
        .derived k columns ∈ tree.scans ∧
        (∀ columns', .derived k columns' ∈ tree.scans → columns' = columns) ∧
        ∀ x ref, b.exprs.expr x = .column ref → ref.isResolved = true → ref.table = some k →
          ∃ (i : Nat) (id : ExprId) (n : Nat), d.items[i]? = some id ∧
            (b.exprs.node id).knownAs = some ⟨ref.column, some n⟩ ∧ ref.columnId = Oid.temp n ∧
            (∀ (j : Nat) (id' : ExprId), d.items[j]? = some id' → b.exprs.serial? id' = some n → j = i) ∧
            (columns.find? ref.column = some id ↔ ∀ (j : Nat) (id' : ExprId), i < j →
              d.items[j]? = some id' → b.exprs.outputName id' ≠ ref.column) := by
  refine ⟨exists_derives hq hlower, fun out hout block hblock d k hd => ?_⟩
  have hplan : out.plan = tree := Except.ok.inj (hout.result.symm.trans hlower)
  have hbound : ∀ {x q}, b.exprs.query? x = some q → q.depth.isSome = true →
      ∀ part ∈ q.named, part ∈ b.named := by
    intro x q hx hdepth part hpart
    refine mem_append_right _ (mem_boundQueries.mpr ?_)
    exact ⟨x, q, query?_eq_some.mp hx, hdepth, hpart⟩
  have hnamed : ∀ part ∈ q.named, part ∈ b.named := by
    intro part hpart
    rw [Bound.named, hq]
    exact mem_append_left _ hpart
  obtain ⟨hpart, hscan⟩ := hout.lowers.readsDerived hbound (.refl _) hnamed block hblock d k hd
  have hrule : ScanRule b.exprs NamedPart.probe (· ∈ b.named) fun scan => ∀ k columns,
      scan = .derived k columns → ∃ ids, .derived ids k ∈ b.named ∧ columns = outputColumns b.exprs ids := {
    table := by rintro _ _ _ ⟨⟩
    derived := by
      rintro q k hpart _ _ ⟨⟩
      exact ⟨q.items, hpart _ (mem_singleton_self _), rfl⟩
    entry := by rintro _ _ _ _ _ _ _ _ _ ⟨⟩ }
  have hscans := hout.lowers.readsOnly hrule hbound (.refl _) hnamed (forall_mem_nil _)
  rw [hplan] at hscan
  refine ⟨outputColumns b.exprs d.items, hscan, fun columns hmem => ?_, fun x ref hx hres hk => ?_⟩
  · obtain ⟨_, hids, rfl⟩ := hscans _ (by rwa [hplan]) k columns rfl
    cases bind_eq_of_alias? hp hfresh hb hids hpart rfl rfl
    rfl
  · obtain ⟨i, id, n, hi, hname, hnumber, honly⟩ :=
      bind_derived_column hp hfresh hnames htree hb hpart hx hres hk
    refine ⟨i, id, n, hi, hname, hnumber, honly, ?_⟩
    have houtput : b.exprs.outputName id = ref.column := outputName_of_knownAs hname
    rw [← houtput]
    have hnodup := (nodup_flatMap.mp (bind_nodup_items hp hfresh htree hb)).1 _ hpart
    exact find?_outputColumns hnodup hi

end

/-- `SELECT d.a FROM (SELECT a, b AS a FROM t) d` -/
def repeatedName : Parsed :=
  { statement := .select {
      items := [0]
      source := some (.derived
        { items := [1, 2]
          source := some (.table (.named "t" "t")) } ⟨"d", none⟩) }
    exprs := ⟨#[
      .ofExpr (.columnOf "d" "a"),
      .ofExpr (.column { column := "a" }),
      { ExprNode.ofExpr (.column { column := "b" }) with knownAs := some ⟨"a", none⟩ }]⟩ }

/-- The column has the name and the number of the first output column, and the plan has the second one
under its name. -/
def repeatedNameFacts : Bool :=
  match planned? twoColumns repeatedName with
  | some (b, .derivedGet k columns _) => (b.exprs.expr 0).column?.any fun ref =>
    ref.table = some k && (b.exprs.node 1).knownAs.any (fun known =>
      known.name = ref.column && known.serial.any (ref.columnId = Oid.temp ·)) &&
      columns.find? ref.column = some 2
  | _ => false

theorem repeatedName_facts : (isPlannedSelect twoColumns repeatedName && repeatedName.isFresh &&
    repeatedName.exprs.isUnnumbered && repeatedName.exprs.isTreeShaped 4 [0, 1, 2] &&
      repeatedNameFacts) = true := by
  decide +kernel

theorem repeatedName_agree_iff :
    ∃ b q tree out, (bind twoColumns repeatedName []).result = .ok b ∧ b.statement = .select q ∧
      (lower (twoColumns.withNextTemp (bind twoColumns repeatedName []).nextTemp) b).result = .ok tree ∧
      Derives (twoColumns.withNextTemp (bind twoColumns repeatedName []).nextTemp) b q out ∧
      ∀ block ∈ out.blocks, ∀ d k, .derived d k ∈ TableRef.itemsOpt block.query.source → ∃ columns,
        .derived k columns ∈ tree.scans ∧
        ∀ x ref, b.exprs.expr x = .column ref → ref.isResolved = true → ref.table = some k →
          ∃ (i : Nat) (id : ExprId), d.items[i]? = some id ∧
            (columns.find? ref.column = some id ↔ ∀ (j : Nat) (id' : ExprId), i < j →
              d.items[j]? = some id' → b.exprs.outputName id' ≠ ref.column) := by
  have hfacts := repeatedName_facts
  simp only [Bool.and_eq_true] at hfacts
  obtain ⟨⟨⟨⟨hplanned, hfresh⟩, hnames⟩, hshape⟩, -⟩ := hfacts
  obtain ⟨b, q, tree, hb, hq, hplan⟩ := exists_of_isPlannedSelect hplanned
  obtain ⟨⟨out, hout⟩, hagree⟩ := derived_columns_agree_iff rfl hfresh hnames
    (treeShaped_of_isTreeShaped hshape) hb hq hplan
  refine ⟨b, q, tree, out, hb, hq, hplan, hout, fun block hblock d k hd => ?_⟩
  obtain ⟨columns, hscan, _, hcolumns⟩ := hagree out hout block hblock d k hd
  refine ⟨columns, hscan, fun x ref hx hres hk => ?_⟩
  obtain ⟨i, id, _, hi, _, _, _, hiff⟩ := hcolumns x ref hx hres hk
  exact ⟨i, id, hi, hiff⟩

theorem repeatedName_disagrees :
    ∃ b k columns input ref n, planned? twoColumns repeatedName = some (b, .derivedGet k columns input) ∧
      b.exprs.expr 0 = .column ref ∧ ref.table = some k ∧
      (b.exprs.node 1).knownAs = some ⟨ref.column, some n⟩ ∧ ref.columnId = Oid.temp n ∧
      columns.find? ref.column = some 2 := by
  have hfacts := (Bool.and_eq_true_iff.mp repeatedName_facts).2
  unfold repeatedNameFacts at hfacts
  split at hfacts
  · rename_i b k columns input hplanned
    simp only [Option.any_eq_true, Bool.and_eq_true, decide_eq_true_eq] at hfacts
    obtain ⟨ref, href, ⟨hk, ⟨_, _⟩, hknown, hname, n, hserial, hnumber⟩, hfind⟩ := hfacts
    refine ⟨b, k, columns, input, ref, n, hplanned, Expr.eq_column_of_column? href, hk, ?_, hnumber, hfind⟩
    rw [hknown, ← hname, ← hserial]
  · cases hfacts

end SqlAnalysis
