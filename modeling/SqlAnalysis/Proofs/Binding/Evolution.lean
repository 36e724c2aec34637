import SqlAnalysis.Proofs.Binding.Derivation
import SqlAnalysis.Proofs.Expr.Evolution

/-!
# How a binding changes the store

* **`LocalChange.adjusts`**, **`Arena.adjusts_finish`**: single steps keep what is bound.
* **`Binds.progress`**: a binding lets the store evolve and finishes what it binds.
-/

namespace SqlAnalysis

open Arena

variable {id : ExprId} {e : Expr} {a a' : Arena} {depth : Nat} {tables : List ScopeTable}
  {ids : List ExprId} {columns : List DerivedColumn} {v v' : BindView} {q : Select}

/-! ### Single steps -/

theorem LocalChange.adjusts (h : LocalChange id e a a') (hlt : id < a.size)
    (he : KindEvolves a e (a.expr id)) : Adjusts a a' := by
  cases h with
  | type => exact .of_update_kind (fun _ => rfl) (fun _ => rfl) fun _ => .inl rfl
  | constant _ hw hpromote =>
    have hw : (a.node id).kind = _ := hw
    refine .trans (.of_update ⟨⟨?_, fun _ _ => rfl, .inl rfl⟩, fun hs => ?_⟩)
      (.of_update_kind (fun _ => rfl) (fun _ => rfl) fun _ => .inl rfl)
    · rw [hw]
      exact .constant (.single ⟨_, hpromote⟩)
    · rw [hw] at hs
      cases hs
  | @call name args _ _ _ hcall =>
    subst hcall
    have hkind : ∃ procId, (a.node id).kind = .call name args procId := by
      generalize hk : a.expr id = k at he
      cases he with
      | refl => exact ⟨_, hk⟩
      | call => exact ⟨_, hk⟩
    obtain ⟨_, hk⟩ := hkind
    refine .of_update ⟨⟨?_, fun _ _ => rfl, .inl rfl⟩, fun hs => ?_⟩
    · rw [hk]
      exact .call _ _ _ _
    · rw [hk] at hs
      cases hs
  | @cast op _ _ operand inner _ hcompare _ _ hinner =>
    subst hcompare
    have hkind : ∃ l r, (a.node id).kind = .compare op l r := by
      generalize hk : a.expr id = k at he
      cases he with
      | refl => exact ⟨_, _, hk⟩
      | compare => exact ⟨_, _, hk⟩
    obtain ⟨l, r, hk⟩ := hkind
    have hne : inner ≠ id := by
      rintro rfl
      rw [expr, hk] at hinner
      cases hinner
    have hliteral : ((a.replaceChild id operand inner).expr inner).isLiteral = true := by
      rw [replaceChild, expr_update_of_ne _ hne]
      exact hinner
    have hoperand (c : ExprId) : (if c = operand then inner else c) = c ∨
        ((a.replaceChild id operand inner).expr (if c = operand then inner else c)).isLiteral =
          true := by
      by_cases hc : c = operand
      · rw [if_pos hc]
        exact .inr hliteral
      · rw [if_neg hc]
        exact .inl rfl
    refine .of_update ⟨⟨?_, fun _ _ => rfl, .inl rfl⟩, fun hs => ?_⟩
    · rw [hk]
      exact .compare op (hoperand l) (hoperand r)
    · rw [hk] at hs
      cases hs

namespace Arena

theorem adjusts_finish (h : a.Grounded id) : Adjusts a (a.finish id) := by
  have hdepth := Adjusts.of_deriveDepth a id
  have hflag := Adjusts.of_flags (deriveSubqueryFlag_spec (hdepth.grounded h))
  exact (hdepth.trans hflag).trans (.of_deriveName _ _)

theorem node_finish (a : Arena) (id z : ExprId) : ∃ depth flag name,
    (a.finish id).node z = { a.node z with depth := depth, hasSubquery := flag, name := name } := by
  obtain ⟨depth, hdepth, _⟩ := (differ_deriveDepth a id).node z
  obtain ⟨flag, hflag⟩ := (differ_deriveSubqueryFlag (a.deriveDepth id).2 id).node z
  obtain ⟨name, hname⟩ := (differ_deriveName ((a.deriveDepth id).2.deriveSubqueryFlag id).2 id).node z
  exact ⟨depth, flag, name, by rw [finish, hname, hflag, hdepth]⟩

@[simp] theorem expr_finish (a : Arena) (id z : ExprId) : (a.finish id).expr z = a.expr z := by
  obtain ⟨_, _, _, hnode⟩ := a.node_finish id z
  rw [expr, hnode, expr]

@[simp] theorem typeOf_finish (a : Arena) (id z : ExprId) : (a.finish id).typeOf z = a.typeOf z := by
  obtain ⟨_, _, _, hnode⟩ := a.node_finish id z
  rw [typeOf, hnode, typeOf]

@[simp] theorem knownAs_finish (a : Arena) (id z : ExprId) :
    ((a.finish id).node z).knownAs = (a.node z).knownAs := by
  obtain ⟨_, _, _, hnode⟩ := a.node_finish id z
  rw [hnode]

@[simp] theorem size_finish (a : Arena) (id : ExprId) : (a.finish id).size = a.size := by
  rw [finish, (differ_deriveName _ id).size, (differ_deriveSubqueryFlag _ id).size,
    (differ_deriveDepth a id).size]

theorem flagged_finish {y : ExprId} (h : a.Grounded id) (hy : (a.finish id).Contains id y) :
    (a.finish id).Flagged y := by
  have hground := (Adjusts.of_deriveDepth a id).grounded h
  have hflags := deriveSubqueryFlag_spec hground
  have hexpr (z : ExprId) : (a.finish id).expr z = (a.deriveDepth id).2.expr z := by
    rw [finish, expr_deriveName, hflags.expr]
  rw [contains_iff_of_expr hexpr] at hy
  refine (Adjusts.of_deriveName _ id).flagged ⟨?_, fun hflag hs => ?_⟩
  · exact (Adjusts.of_flags hflags).grounded (hground.of_contains hy)
  · obtain ⟨_, hn, hin, _⟩ := hflags.node y
    rw [hasSubquery_iff_of_expr hflags.expr] at hs
    rw [hn] at hflag
    rw [(hin hy).mpr hs] at hflag
    cases hflag

theorem adjusts_rename (a : Arena) (id : ExprId) (knownAs : Alias) :
    Adjusts a (a.update id fun n => { n with knownAs := some knownAs }) :=
  .of_update_kind (fun _ => rfl) (fun _ => rfl) fun _ => .inl rfl

theorem adjusts_nameColumn (a : Arena) (id : ExprId) (knownAs : Alias) :
    Adjusts a (a.nameColumn id knownAs) :=
  (adjusts_rename a id knownAs).trans (.of_deriveName _ _)

theorem appends_starNodes (a : Arena) (depth : Nat) (tables : List ScopeTable) :
    a.Appends (a.pushAll (starNodes depth tables)) :=
  .of_pushAll fun n hn => by
    obtain ⟨_, _, rfl⟩ := List.mem_map.mp hn
    exact ⟨rfl, rfl⟩

theorem node_pushAll_starNodes (h : a.size ≤ id)
    (hlt : id < (a.pushAll (starNodes depth tables)).size) :
    ∃ t ∈ tables, ∃ c ∈ t.columns depth, (a.pushAll (starNodes depth tables)).node id = c.node := by
  rw [size_pushAll] at hlt
  have hlt := Nat.sub_lt_left_of_lt_add h hlt
  rw [node_pushAll_of_size_le _ h, List.getD_eq_getElem?_getD, List.getElem?_eq_getElem hlt,
    Option.getD_some]
  obtain ⟨c, hc, heq⟩ := List.mem_map.mp (List.getElem_mem hlt)
  obtain ⟨t, ht, hc⟩ := List.mem_flatMap.mp hc
  exact ⟨t, ht, c, hc, heq.symm⟩

theorem sound_starNodes :
    (a.pushAll (starNodes depth tables)).Sound
      (List.range' a.size (starNodes depth tables).length) := by
  intro id hid y hy
  rw [List.mem_range'_1, ← size_pushAll] at hid
  obtain ⟨_, _, c, _, hnode⟩ := node_pushAll_starNodes hid.1 hid.2
  have hkind : (a.pushAll (starNodes depth tables)).expr id = .column c.ref := by
    rw [expr, hnode]
    rfl
  have hground : (a.pushAll (starNodes depth tables)).Grounded id := by
    refine .intro hid.2 fun c hc => ?_
    rw [hkind] at hc
    cases hc
  cases hy with
  | here =>
    refine ⟨hground, fun _ => ?_⟩
    rw [hasSubquery_iff, hkind]
    simp [Expr.isSubquery, Expr.children]
  | child hc _ =>
    rw [hkind] at hc
    cases hc

end Arena

theorem NamesDerived.adjusts (h : NamesDerived ids v columns v') : Adjusts v.exprs v'.exprs := by
  induction h with
  | nil => exact .refl _
  | cons _ _ ih => exact .trans (adjusts_rename _ _ _) ih

theorem NamesEntry.adjusts {given : List Alias} (h : NamesEntry ids given v columns v') :
    Adjusts v.exprs v'.exprs := by
  induction h with
  | nil => exact .refl _
  | cons _ _ _ ih => exact .trans (adjusts_nameColumn _ _ _) ih

theorem Aliases.exprs_eq {given known : Alias} (h : Aliases given v known v') :
    v'.exprs = v.exprs := by
  cases h
  rfl

theorem Rescopes.exprs_eq {f : Scope → Except Diagnostic Scope} (h : Rescopes f v v') :
    v'.exprs = v.exprs := by
  cases h
  rfl

theorem Arena.adjusts_markSubquery (a : Arena) (id : ExprId) (t : SqlType) :
    Adjusts a (a.update id fun n => { n with type := t, hasSubquery := true }) :=
  .of_update_kind (fun _ => rfl) (fun _ => rfl) fun _ => .inr rfl

theorem Arena.adjusts_resolve {ref : ColumnRef} (he : a.expr id = .column ref)
    (hres : ref.isResolved = false) (ref' : ColumnRef) (t : SqlType) (depth : Option Nat) :
    Adjusts a (a.update id fun n => { n with kind := .column ref', type := t, depth := depth }) := by
  have hk : (a.node id).kind = .column ref := he
  refine .of_update ⟨⟨?_, fun hc hres' => ?_, .inl rfl⟩, fun hs => ?_⟩
  · rw [hk]
    exact .column _ hres
  · rw [hk] at hc
    cases hc
    rw [hres] at hres'
    cases hres'
  · rw [hk] at hs
    cases hs

theorem Arena.evolves_subquery {a1 : Arena} (he : a.expr id = .subquery q) (hq : q.depth = none)
    (h : Evolves (a.setQuery id {}) a1) (q' : Select) : Evolves a (a1.setQuery id q') := by
  refine ⟨((Reshapes.of_setQuery a id {}).trans h.toReshapes).trans (.of_setQuery a1 id q'),
    fun {y q0} hy hd => ?_⟩
  have hne : y ≠ id := by
    rintro rfl
    rw [he] at hy
    cases hy
    rw [hq] at hd
    cases hd
  rw [expr_setQuery_of_ne _ hne]
  refine h.bound ?_ hd
  rw [expr_setQuery_of_ne _ hne]
  exact hy

theorem Arena.settled_setQuery (h : a.Settled) (hq : q.depth.isSome = true → a.Sound q.exprs) :
    (a.setQuery id q).Settled := by
  intro y q0 hy hd
  refine (Reshapes.of_setQuery a id q).sound ?_
  by_cases hne : y = id
  · subst hne
    by_cases hs : (a.expr y).isSubquery = true
    · rw [expr_setQuery_self q hs] at hy
      cases hy
      exact hq hd
    · rw [setQuery_of_not_isSubquery q (Bool.not_eq_true _ ▸ hs)] at hy
      exact h y q0 hy hd
  · rw [expr_setQuery_of_ne _ hne] at hy
    exact h y q0 hy hd

/-! ### Whole bindings -/

/-- The work on a node goes on with what the node has become. -/
def BindTask.Ready : BindTask → Arena → Prop
  | .acts id e _, a => id < a.size ∧ KindEvolves a e (a.expr id)
  | _, _ => True

theorem BindTask.Ready.reshape {visited : List ExprId} (h : (BindTask.acts id e visited).Ready a)
    (hr : Reshapes a a') (rest : List ExprId) : (BindTask.acts id e rest).Ready a' :=
  ⟨h.1.trans_le hr.size_le, h.2.trans (hr.kind id h.1) fun _ => hr.isLiteral⟩

/-- All expressions of what was bound are sound. -/
def BindTask.Finished : BindTask → Arena → Prop
  | .expr id, a => a.Grounded id
  | .acts _ _ visited, a => ∀ c ∈ visited, a.Grounded c
  | .roots ids, a => a.Sound ids
  | .items _ ids, a => a.Sound ids
  | .source _ item, a => a.Sound item.exprs
  | .sources _ refs, a => a.Sound (TableRef.exprsAll refs)
  | .from_ _ ref, a => a.Sound (TableRef.exprsOpt ref)
  | .entry _ c, a => a.Sound c.query.exprs
  | .entries _ cs, a => a.Sound (Cte.exprsAll cs)
  | .union _ right _, a => a.Sound (Select.exprsOpt right)
  | .branch _ _ q, a => a.Sound q.exprs
  | .query _ q, a => a.Sound q.exprs

/-- The store evolves, and what bound subqueries mention is sound afterwards if it was before. -/
structure Advances (a a' : Arena) : Prop extends Evolves a a' where
  settled : a.Settled → a'.Settled

theorem Adjusts.advances (h : Adjusts a a') : Advances a a' :=
  ⟨h.toEvolves, h.settled⟩

theorem Advances.refl (a : Arena) : Advances a a := (Adjusts.refl a).advances

theorem Advances.trans {a'' : Arena} (h : Advances a a') (h' : Advances a' a'') : Advances a a'' :=
  ⟨h.toEvolves.trans h'.toEvolves, fun ha => h'.settled (h.settled ha)⟩

/-- The store advances, and everything bound is finished. -/
structure BindTask.Progress (task : BindTask) (a a' : Arena) : Prop extends Advances a a' where
  finished : task.Finished a'

namespace BindTask.Progress

theorem finish (h : (BindTask.expr id).Progress a a') :
    (BindTask.roots [id]).Progress a (a'.finish id) :=
  ⟨h.toAdvances.trans (adjusts_finish h.finished).advances,
    .cons (fun _ => flagged_finish h.finished) (.nil _)⟩

end BindTask.Progress

theorem Select.exprs_eq (q : Select) :
    q.exprs = Cte.exprsAll q.ctes ++ q.items ++ TableRef.exprsOpt q.source ++ q.filter.toList ++
      (q.grouping.map (·.exprs)).getD [] ++ ((q.ordering.getD []).map (·.expr)) ++
      Select.exprsOpt q.union := by
  cases q
  rw [Select.exprs]

theorem Cte.exprsAll_cons (c : Cte) (cs : List Cte) :
    Cte.exprsAll (c :: cs) = c.query.exprs ++ Cte.exprsAll cs := by
  cases c
  rw [Cte.exprsAll]

theorem Arena.sound_select :
    a.Sound q.exprs ↔ a.Sound (Cte.exprsAll q.ctes) ∧ a.Sound q.items ∧
      a.Sound (TableRef.exprsOpt q.source) ∧ a.Sound q.filter.toList ∧
      a.Sound ((q.grouping.map (·.exprs)).getD []) ∧
      a.Sound ((q.ordering.getD []).map (·.expr)) ∧ a.Sound (Select.exprsOpt q.union) := by
  simp only [Select.exprs_eq, Sound.append_iff, and_assoc]

section

variable {env : Accessor}

theorem Binds.progress {task : BindTask} (h : Binds env task v v')
    (hready : task.Ready v.exprs := by trivial) : task.Progress v.exprs v'.exprs := by
  induction h with
  | columnDone hlt he =>
    refine ⟨.refl _, .intro hlt fun c hc => ?_⟩
    rw [he] at hc
    cases hc
  | @columnFresh _ _ c _ hlt he hres hc =>
    have hstep := adjusts_resolve he hres c.ref c.type (some c.depth)
    refine ⟨hstep.advances, hstep.grounded (.intro hlt fun c hc => ?_)⟩
    rw [he] at hc
    cases hc
  | @subqueryDone id _ t v hlt he _ =>
    have hstep := adjusts_markSubquery v.exprs id t
    refine ⟨hstep.advances, hstep.grounded (.intro hlt fun c hc => ?_)⟩
    rw [he] at hc
    cases hc
  | @subqueryFresh id q q' t v v1 hlt he hq _ ih =>
    have ih := ih trivial
    have hbound := evolves_subquery he hq ih.toEvolves q'
    have hmark := adjusts_markSubquery (v1.exprs.setQuery id q') id t
    refine ⟨⟨hbound.trans hmark.toEvolves, fun ha => hmark.settled ?_⟩,
      hmark.grounded (hbound.grounded (.intro hlt fun c hc => ?_))⟩
    · exact settled_setQuery (ih.settled (settled_setQuery ha fun h => by cases h))
        fun _ => ih.finished
    · rw [he] at hc
      cases hc
  | @node id _ _ _ hlt _ _ _ hall ih =>
    have ih := ih ⟨hlt, .refl _⟩
    refine ⟨ih.toAdvances, .intro (hlt.trans_le ih.size_le) fun c hc => ?_⟩
    rcases (ih.kind id hlt).mem_children hc with hc | hc
    · exact ih.finished c (hall c hc)
    · exact grounded_of_isLiteral hc
  | actsNil => exact ⟨.refl _, List.forall_mem_nil _⟩
  | actsLocal hl _ ih =>
    have hstep := hl.adjusts hready.1 hready.2
    have ih := ih (hready.reshape hstep.toReshapes _)
    exact ⟨hstep.advances.trans ih.toAdvances, ih.finished⟩
  | actsVisit _ _ _ ihc ih =>
    have ihc := ihc trivial
    have ih := ih (hready.reshape ihc.toReshapes _)
    refine ⟨ihc.toAdvances.trans ih.toAdvances, fun d hd => ?_⟩
    rcases List.mem_cons.mp hd with rfl | hd
    · exact ih.grounded ihc.finished
    · exact ih.finished d hd
  | @rootsCons id _ _ _ v' _ _ ih ih' | @itemsRoot id _ _ _ _ v' _ _ _ ih ih' =>
    have hroot := (ih trivial).finish
    have ih' := ih' trivial
    dsimp only at ih'
    have hid : v'.exprs.Sound [id] := ih'.sound hroot.finished
    exact ⟨hroot.toAdvances.trans ih'.toAdvances, hid.append ih'.finished⟩
  | @itemsStar _ _ _ _ scope _ tables v _ _ _ _ _ ih =>
    have ih := ih trivial
    have hpush := Adjusts.of_appends (v.exprs.appends_starNodes scope.depth tables)
    exact ⟨hpush.advances.trans ih.toAdvances, .append (ih.sound sound_starNodes) ih.finished⟩
  | table halias _ hscope =>
    rw [hscope.exprs_eq, halias.exprs_eq]
    exact ⟨.refl _, .nil _⟩
  | derived halias _ hnames hscope ih =>
    rw [halias.exprs_eq] at ih
    have ih := ih trivial
    rw [hscope.exprs_eq]
    exact ⟨ih.toAdvances.trans hnames.adjusts.advances, hnames.adjusts.sound ih.finished⟩
  | join _ _ _ ihl ihr ihc =>
    have ihl := ihl trivial
    have ihr := ihr trivial
    have ihc := ihc trivial
    exact ⟨(ihl.toAdvances.trans ihr.toAdvances).trans ihc.toAdvances,
      .append (.append (ihc.sound (ihr.sound ihl.finished)) (ihc.sound ihr.finished)) ihc.finished⟩
  | list _ ih | fromSome _ ih | unionSome _ _ ih | query _ ih =>
    exact ⟨(ih trivial).toAdvances, (ih trivial).finished⟩
  | sourcesCons _ _ ih ih' =>
    have ih := ih trivial
    have ih' := ih' trivial
    exact ⟨ih.toAdvances.trans ih'.toAdvances, .append (ih'.sound ih.finished) ih'.finished⟩
  | entryPlain _ _ _ hnames hscope ih =>
    have ih := ih trivial
    rw [hscope.exprs_eq]
    exact ⟨ih.toAdvances.trans hnames.adjusts.advances, hnames.adjusts.sound ih.finished⟩
  | entryInductive _ _ _ hnames hscope _ ih ih' =>
    have ih := ih trivial
    have ih' := ih' trivial
    rw [hscope.exprs_eq] at ih'
    exact ⟨(ih.toAdvances.trans hnames.adjusts.advances).trans ih'.toAdvances, ih'.finished⟩
  | @entriesCons _ c' _ cs' _ _ v' _ _ ih ih' =>
    have ih := ih trivial
    have ih' := ih' trivial
    refine ⟨ih.toAdvances.trans ih'.toAdvances, ?_⟩
    show v'.exprs.Sound (Cte.exprsAll (c' :: cs'))
    rw [Cte.exprsAll_cons]
    exact .append (ih'.sound ih.finished) ih'.finished
  | branch _ _ _ _ _ _ _ _ ihe ihf ihr ihi ihu iho =>
    have ihe := ihe trivial
    have ihf := ihf trivial
    have ihr := ihr trivial
    have ihi := ihi trivial
    have ihu := ihu trivial
    have iho := iho trivial
    -- from each clause on, the clauses after it
    have hu := ihu.toAdvances.trans iho.toAdvances
    have hi := ihi.toAdvances.trans hu
    have hr := ihr.toAdvances.trans hi
    have hf := ihf.toAdvances.trans hr
    refine ⟨ihe.toAdvances.trans hf, ?_⟩
    obtain ⟨hfilter, hgrouping⟩ := Sound.append_iff.mp (hi.sound ihr.finished)
    exact sound_select.mpr ⟨hf.sound ihe.finished, hu.sound ihi.finished,
      hr.sound ihf.finished, hfilter, hgrouping, iho.finished, iho.sound ihu.finished⟩
  | _ => exact ⟨.refl _, .nil _⟩

theorem Binds.evolves {task : BindTask} (h : Binds env task v v')
    (hready : task.Ready v.exprs := by trivial) : Evolves v.exprs v'.exprs := (h.progress hready).toEvolves

theorem Binds.reshapes {task : BindTask} (h : Binds env task v v')
    (hready : task.Ready v.exprs := by trivial) : Reshapes v.exprs v'.exprs := (h.evolves hready).toReshapes

theorem Binds.expr_setQuery {q' : Select} {v1 : BindView}
    (h : Binds env (.query q q') { v with exprs := v.exprs.setQuery id {} } v1)
    (he : v.exprs.expr id = .subquery q) : (v1.exprs.setQuery id q').expr id = .subquery q' := by
  have hempty : (v.exprs.setQuery id {}).expr id = .subquery {} :=
    expr_setQuery_self {} (by rw [he]; rfl)
  refine expr_setQuery_self q' ?_
  have hlt : id < (v.exprs.setQuery id {}).size := lt_size_of_isSubquery (by rw [hempty]; rfl)
  rw [(h.progress.kind id hlt).isSubquery, hempty]
  rfl

end

end SqlAnalysis
