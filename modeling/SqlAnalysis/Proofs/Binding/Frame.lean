import SqlAnalysis.Proofs.Binding.Evolution
import SqlAnalysis.Proofs.Expr.Uses

/-!
# What a binding leaves alone

* **`Binds.confined`**: a binding changes nothing outside a set that has all expressions it starts
  from, and what it yields is in the set.
* **`Binds.addsColumns`**: the nodes that a binding adds are columns.
-/

namespace SqlAnalysis

open List Arena Select

variable {a a' : Arena} {ids items : List ExprId} {id : ExprId} {f : ExprNode → ExprNode}
  {q : Select} {e : Expr} {S : ExprId → Prop} {columns : List DerivedColumn} {v v' : BindView}
  {given : List Alias} {env : Accessor} {task : BindTask}

/-- Nothing leads out of `S`, and numbers without a node belong to it. -/
structure Arena.Encloses (a : Arena) (S : ExprId → Prop) : Prop where
  closed : a.Closed S
  free : ∀ x, a.size ≤ x → S x

theorem Arena.Uses.encloses {K : List ExprId} (h : a.Uses ids K) :
    a.Encloses fun x => x ∈ K ∨ a.size ≤ x :=
  ⟨h.closed, fun _ => .inr⟩

/-- All changes are inside `S`, and nothing leads out of it. -/
structure Confined (S : ExprId → Prop) (a a' : Arena) : Prop where
  size_le : a.size ≤ a'.size
  closed : a'.Closed S
  kept : ∀ x, ¬S x → a'.expr x = a.expr x

namespace Confined

variable {a'' : Arena}

theorem refl (h : a.Encloses S) : Confined S a a := ⟨le_rfl, h.closed, fun _ _ => rfl⟩

theorem trans (h : Confined S a a') (h' : Confined S a' a'') : Confined S a a'' :=
  ⟨h.size_le.trans h'.size_le, h'.closed, fun x hx => (h'.kept x hx).trans (h.kept x hx)⟩

theorem encloses (h : Confined S a a') (ha : a.Encloses S) : a'.Encloses S :=
  ⟨h.closed, fun x hx => ha.free x (h.size_le.trans hx)⟩

theorem of_expr (h : a.Encloses S) (hsize : a.size ≤ a'.size) (hexpr : ∀ x, a'.expr x = a.expr x) :
    Confined S a a' :=
  ⟨hsize, h.closed.congr hexpr, fun x _ => hexpr x⟩

theorem of_update (h : a.Encloses S) (hid : S id) (hparts : ∀ y ∈ (f (a.node id)).kind.parts, S y) :
    Confined S a (a.update id f) := by
  refine ⟨(size_update _ _).symm.le, fun x hx y hy => ?_, fun x hx => ?_⟩
  · rw [expr, node_update] at hy
    split at hy
    · rename_i hxid
      rw [hxid.1] at hy
      exact hparts y hy
    · exact h.closed x hx y hy
  · exact expr_update_of_ne f fun heq => hx (heq ▸ hid)

theorem of_setQuery (h : a.Encloses S) (hid : S id) (hq : ∀ y ∈ q.exprs, S y) :
    Confined S a (a.setQuery id q) := by
  refine of_update h hid fun y hy => ?_
  split at hy
  · exact hq y hy
  · exact h.closed id hid y hy

theorem of_pushAll (h : a.Encloses S) {ns : List ExprNode} (hns : ∀ n ∈ ns, n.kind.parts = []) :
    Confined S a (a.pushAll ns) := by
  refine ⟨by rw [size_pushAll]; exact Nat.le_add_right _ _, fun x hx y hy => ?_, fun x hx => ?_⟩
  · by_cases hlt : x < a.size
    · rw [expr, node_pushAll_of_lt _ hlt] at hy
      exact h.closed x hx y hy
    · rw [expr, node_pushAll_of_size_le _ (Nat.le_of_not_lt hlt),
        getD_eq_getElem?_getD] at hy
      cases hn : ns[x - a.size]? with
      | none =>
        rw [hn] at hy
        cases hy
      | some n =>
        rw [hn, Option.getD_some, hns n (mem_of_getElem? hn)] at hy
        cases hy
  · have hlt : x < a.size := Nat.lt_of_not_le fun hle => hx (h.free x hle)
    rw [expr, node_pushAll_of_lt _ hlt, expr]

end Confined

theorem Expr.mem_parts_mapChildren {f : ExprId → ExprId} {y : ExprId}
    (hy : y ∈ (e.mapChildren f).parts) : y ∈ e.parts ∨ ∃ c ∈ e.parts, y = f c := by
  cases e with
  | compare _ left right =>
    simp only [mapChildren, parts, children, mem_cons, not_mem_nil, or_false] at hy ⊢
    rcases hy with rfl | rfl
    · exact .inr ⟨left, .inl rfl, rfl⟩
    · exact .inr ⟨right, .inr rfl, rfl⟩
  | connect op operands | operate op operands | call name operands procId =>
    obtain ⟨c, hc, rfl⟩ := mem_map.mp hy
    exact .inr ⟨c, hc, rfl⟩
  | aggregate _ arg =>
    cases arg with
    | none => cases hy
    | some arg =>
      obtain rfl := mem_singleton.mp hy
      exact .inr ⟨arg, mem_singleton_self _, rfl⟩
  | cast _ operand =>
    obtain rfl := mem_singleton.mp hy
    exact .inr ⟨operand, mem_singleton_self _, rfl⟩
  | case _ otherwise =>
    refine .inr ?_
    simp only [mapChildren, parts, children, mem_append, mem_flatMap, mem_map] at hy ⊢
    rcases hy with ⟨_, ⟨⟨c, t⟩, hb, rfl⟩, hy⟩ | hy
    · simp only [mem_cons, not_mem_nil, or_false] at hy
      rcases hy with rfl | rfl
      · exact ⟨c, .inl ⟨(c, t), hb, by simp⟩, rfl⟩
      · exact ⟨t, .inl ⟨(c, t), hb, by simp⟩, rfl⟩
    · cases otherwise with
      | none => cases hy
      | some e =>
        obtain rfl := mem_singleton.mp hy
        exact ⟨e, .inr (mem_singleton_self _), rfl⟩
  | _ => exact .inl hy

theorem LocalChange.confined (h : LocalChange id e a a') (hS : a.Encloses S) (hid : S id)
    (hchildren : ∀ c ∈ e.children, S c) : Confined S a a' := by
  cases h with
  | type => exact .of_update hS hid (hS.closed id hid)
  | @constant _ v' =>
    have hset : Confined S a (a.setExpr id (.constant v')) :=
      .of_update hS hid (forall_mem_nil _)
    exact hset.trans (.of_update (hset.encloses hS) hid (hset.closed id hid))
  | call _ _ he =>
    subst he
    exact .of_update hS hid hchildren
  | @cast _ _ _ operand inner _ he hoperand hcast _ =>
    subst he
    have hoperandS : S operand := by
      rcases hoperand with rfl | rfl
      · exact hchildren _ mem_cons_self
      · exact hchildren _ (mem_cons_of_mem _ (mem_singleton_self _))
    have hinner : S inner :=
      hS.closed operand hoperandS inner (by rw [hcast]; exact mem_singleton_self _)
    refine .of_update hS hid fun y hy => ?_
    rcases Expr.mem_parts_mapChildren hy with hy | ⟨c, hc, rfl⟩
    · exact hS.closed id hid y hy
    · split
      · exact hinner
      · exact hS.closed id hid c hc

@[simp] theorem Arena.expr_nameColumn (a : Arena) (id : ExprId) (known : Alias) (x : ExprId) :
    (a.nameColumn id known).expr x = a.expr x := by
  simp [nameColumn]

theorem NamesDerived.expr_eq (h : NamesDerived ids v columns v') (x : ExprId) :
    v'.exprs.expr x = v.exprs.expr x := by
  induction h with
  | nil => rfl
  | cons _ _ ih =>
    exact ih.trans (by simp)

theorem NamesEntry.expr_eq (h : NamesEntry ids given v columns v') (x : ExprId) :
    v'.exprs.expr x = v.exprs.expr x := by
  induction h with
  | nil => rfl
  | cons _ _ _ ih =>
    exact ih.trans (by simp)

theorem Confined.finish (h : Confined S a a') (ha : a.Encloses S) (id : ExprId) :
    Confined S a (a'.finish id) :=
  h.trans (.of_expr (h.encloses ha) ((size_finish _ _).symm.le) (expr_finish _ _))

theorem NamesDerived.confined (h : NamesDerived ids v columns v') (hS : v.exprs.Encloses S) :
    Confined S v.exprs v'.exprs :=
  .of_expr hS h.adjusts.size_le h.expr_eq

theorem NamesEntry.confined (h : NamesEntry ids given v columns v') (hS : v.exprs.Encloses S) :
    Confined S v.exprs v'.exprs :=
  .of_expr hS h.adjusts.size_le h.expr_eq

/-! ### Whole bindings -/

/-- The expressions that a binding starts from. -/
def BindTask.mentioned : BindTask → List ExprId
  | .expr id => [id]
  | .acts id e _ => id :: e.children
  | .roots ids | .items ids _ => ids
  | .source item _ => item.exprs
  | .sources refs _ => TableRef.exprsAll refs
  | .from_ ref _ => TableRef.exprsOpt ref
  | .entry c _ => c.query.exprs
  | .entries cs _ => Cte.exprsAll cs
  | .union right _ _ => exprsOpt right
  | .branch q _ _ | .query q _ => q.exprs

/-- The expressions of what a binding yields. -/
def BindTask.yielded : BindTask → List ExprId
  | .expr _ | .acts .. | .roots _ => []
  | .items _ ids => ids
  | .source _ item => item.exprs
  | .sources _ refs => TableRef.exprsAll refs
  | .from_ _ ref => TableRef.exprsOpt ref
  | .entry _ c => c.query.exprs
  | .entries _ cs => Cte.exprsAll cs
  | .union _ right _ => exprsOpt right
  | .branch _ _ q | .query _ q => q.exprs

theorem mem_of_sortTarget {target : ExprId} (h : sortTarget a items id = .ok target) :
    target = id ∨ target ∈ items := by
  unfold sortTarget at h
  split at h
  · obtain ⟨position, _, h⟩ := except_bind.mp h
    split at h
    · cases h
    · cases hi : items[position.toNat - 1]? with
      | none =>
        rw [hi] at h
        cases h
      | some =>
        rw [hi] at h
        cases h
        exact .inr (mem_of_getElem? hi)
  · split at h
    · cases h
      cases hf : items.find? _ with
      | none => exact .inl rfl
      | some => exact .inr (mem_of_find?_eq_some hf)
    · cases h
      exact .inl rfl
  · cases h
    exact .inl rfl

theorem Sorts.mem {ordering ordering' : Option (List SortKey)}
    (h : Sorts a items ordering ordering') {x : ExprId} (hx : x ∈ (ordering'.getD []).map (·.expr)) :
    x ∈ (ordering.getD []).map (·.expr) ∨ x ∈ items := by
  cases h with
  | none => cases hx
  | some hkeys =>
    dsimp only [Option.getD_some] at hx ⊢
    induction hkeys with
    | nil => cases hx
    | cons hkey _ ih =>
      rw [map_cons, mem_cons] at hx ⊢
      rcases hx with rfl | hx
      · exact (mem_of_sortTarget hkey.1).imp_left .inl
      · exact (ih hx).imp_left .inr

theorem Select.forall_mem_exprs :
    (∀ x ∈ q.exprs, S x) ↔ (∀ x ∈ Cte.exprsAll q.ctes, S x) ∧ (∀ x ∈ q.items, S x) ∧
      (∀ x ∈ TableRef.exprsOpt q.source, S x) ∧
      (∀ x ∈ q.filter.toList ++ (q.grouping.map (·.exprs)).getD [], S x) ∧
      (∀ x ∈ (q.ordering.getD []).map (·.expr), S x) ∧ ∀ x ∈ exprsOpt q.union, S x := by
  simp only [exprs_eq, forall_mem_append, and_assoc]

theorem Select.items_subset (q : Select) : ∀ y ∈ q.items, y ∈ q.exprs :=
  (forall_mem_exprs.mp fun _ h => h).2.1

theorem LocalChange.size_eq (h : LocalChange id e a a') : a'.size = a.size := by
  cases h with
  | constant => exact (size_update _ _).trans (size_update _ _)
  | _ => exact size_update _ _

theorem NamesDerived.size_eq (h : NamesDerived ids v columns v') : v'.exprs.size = v.exprs.size := by
  induction h with
  | nil => rfl
  | cons _ _ ih => exact ih.trans (size_update _ _)

theorem NamesEntry.size_eq (h : NamesEntry ids given v columns v') :
    v'.exprs.size = v.exprs.size := by
  induction h with
  | nil => rfl
  | cons _ _ _ ih =>
    exact ih.trans ((differ_deriveName _ _).size.trans (size_update _ _))

/-- **What a binding yields is what it starts from or new**, and nothing is new if it starts from nothing. -/
theorem Binds.yielded_of (h : Binds env task v v') {n : Nat}
    (hnew : ∀ {x y}, S x → n ≤ y → S y) (hn : n ≤ v.exprs.size) (hin : ∀ x ∈ task.mentioned, S x) :
    ∀ y ∈ task.yielded, S y := by
  have hnone : ∀ x ∈ ([] : List ExprId), S x := forall_mem_nil _
  induction h with
  | itemsStar _ _ _ _ ih =>
    obtain ⟨hid, hids⟩ := forall_mem_cons.mp hin
    refine forall_mem_append.mpr ⟨fun x hx => ?_, ih ?_ hids⟩
    · exact hnew hid (hn.trans (mem_range'_1.mp hx).1)
    · rw [size_pushAll]
      exact hn.trans (Nat.le_add_right _ _)
  | itemsRoot _ hroot _ _ ih =>
    obtain ⟨hid, hids⟩ := forall_mem_cons.mp hin
    refine forall_mem_cons.mpr ⟨hid, ih ?_ hids⟩
    rw [size_finish]
    exact hn.trans hroot.progress.size_le
  | derived halias _ _ _ ih =>
    rw [halias.exprs_eq] at ih
    exact ih hn hin
  | join hl _ _ ihl ihr _ =>
    obtain ⟨hlr, hc⟩ := forall_mem_append.mp hin
    obtain ⟨hleft, hright⟩ := forall_mem_append.mp hlr
    have hle := hn.trans hl.progress.size_le
    exact forall_mem_append.mpr
      ⟨forall_mem_append.mpr ⟨ihl hn hleft, ihr hle hright⟩, hc⟩
  | list _ ih | fromSome _ ih | unionSome _ _ ih | query _ ih | entryPlain _ _ _ _ _ ih =>
    exact ih hn hin
  | sourcesCons hitem _ ih ih' =>
    obtain ⟨hfirst, hrest⟩ := forall_mem_append.mp hin
    exact forall_mem_append.mpr
      ⟨ih hn hfirst, ih' (hn.trans hitem.progress.size_le) hrest⟩
  | entryInductive _ hbase _ hnames hscope _ ih ih' =>
    obtain ⟨hctes, hitems, hsource, hroots, hkeys, hunion⟩ := forall_mem_exprs.mp hin
    obtain ⟨hctes, hitems, hsource, hroots, hkeys, _⟩ := forall_mem_exprs.mp (ih hn
      (forall_mem_exprs.mpr ⟨hctes, hitems, hsource, hroots, hkeys, hnone⟩))
    refine ih' ?_
      (forall_mem_exprs.mpr ⟨hctes, hitems, hsource, hroots, hkeys, hunion⟩)
    rw [hscope.exprs_eq, hnames.size_eq]
    exact hn.trans hbase.progress.size_le
  | entriesCons hentry _ ih ih' =>
    rw [BindTask.mentioned, Cte.exprsAll_cons] at hin
    rw [BindTask.yielded, Cte.exprsAll_cons]
    obtain ⟨hfirst, hrest⟩ := forall_mem_append.mp hin
    exact forall_mem_append.mpr
      ⟨ih hn hfirst, ih' (hn.trans hentry.progress.size_le) hrest⟩
  | branch he hf hr hi _ hsorts _ _ ihe ihf _ ihi ihu _ =>
    obtain ⟨hctes, hitems, hsource, hroots, hkeys, hunion⟩ := forall_mem_exprs.mp hin
    have hne := hn.trans he.progress.size_le
    have hnr := (hne.trans hf.progress.size_le).trans hr.progress.size_le
    have hitems' := ihi hnr hitems
    have hunion' := ihu (hnr.trans hi.progress.size_le) hunion
    exact forall_mem_exprs.mpr ⟨ihe hn hctes, hitems', ihf hne hsource, hroots,
      fun x hx => (hsorts.mem hx).elim (hkeys x) (hitems' x), hunion'⟩
  | _ => exact hnone

theorem Binds.yielded_within (h : Binds env task v v') (hS : v.exprs.Encloses S)
    (hin : ∀ x ∈ task.mentioned, S x) : ∀ x ∈ task.yielded, S x :=
  h.yielded_of (fun _ => hS.free _) le_rfl hin

theorem Binds.changes_within (h : Binds env task v v') (hS : v.exprs.Encloses S)
    (hin : ∀ x ∈ task.mentioned, S x) : Confined S v.exprs v'.exprs := by
  have hnone : ∀ x ∈ ([] : List ExprId), S x := forall_mem_nil _
  induction h with
  | columnFresh => exact .of_update hS (hin _ mem_cons_self) hnone
  | @subqueryDone id _ _ _ _ _ _ =>
    have hid := hin id mem_cons_self
    exact .of_update hS hid (hS.closed id hid)
  | @subqueryFresh id q _ _ _ _ _ he _ hquery ih =>
    have hid := hin id mem_cons_self
    have htaken := Confined.of_setQuery (q := {}) hS hid hnone
    have hq : ∀ x ∈ q.exprs, S x := fun x hx => hS.closed id hid x (by rw [he]; exact hx)
    have hall := htaken.trans (ih (htaken.encloses hS) hq)
    have hput := hall.trans
      (.of_setQuery (hall.encloses hS) hid (hquery.yielded_within (htaken.encloses hS) hq))
    exact hput.trans (.of_update (hput.encloses hS) hid (hput.closed id hid))
  | @node id _ _ _ _ _ hsub _ _ ih =>
    have hid := hin id mem_cons_self
    refine ih hS fun x hx => ?_
    rcases mem_cons.mp hx with rfl | hx
    · exact hid
    · exact hS.closed id hid x (by rw [Expr.parts_of_not_isSubquery hsub]; exact hx)
  | actsLocal hl _ ih =>
    have hstep := hl.confined hS (hin _ mem_cons_self) fun c hc => hin c (mem_cons_of_mem _ hc)
    exact hstep.trans (ih (hstep.encloses hS) hin)
  | actsVisit hc _ _ ihc ih =>
    have hvisit := ihc hS fun x hx => by
      rw [mem_singleton.mp hx]
      exact hin _ (mem_cons_of_mem _ hc)
    exact hvisit.trans (ih (hvisit.encloses hS) hin)
  | @rootsCons id _ _ _ _ _ _ ih ih' | @itemsRoot id _ _ _ _ _ _ _ _ ih ih' =>
    obtain ⟨hid, hids⟩ := forall_mem_cons.mp hin
    dsimp only at ih'
    have hstep := (ih hS fun x hx => mem_singleton.mp hx ▸ hid).finish hS id
    exact hstep.trans (ih' (hstep.encloses hS) hids)
  | @itemsStar _ _ _ _ scope _ tables v _ _ _ _ _ ih =>
    have hpush : Confined S v.exprs (v.exprs.pushAll (starNodes scope.depth tables)) := by
      refine .of_pushAll hS fun n hn => ?_
      obtain ⟨c, _, rfl⟩ := mem_map.mp hn
      rfl
    exact hpush.trans (ih (hpush.encloses hS) (forall_mem_cons.mp hin).2)
  | table halias _ hscope =>
    rw [hscope.exprs_eq, halias.exprs_eq]
    exact .refl hS
  | derived halias _ hnames hscope ih =>
    rw [halias.exprs_eq] at ih
    rw [hscope.exprs_eq]
    have hquery := ih hS hin
    exact hquery.trans (hnames.confined (hquery.encloses hS))
  | join _ _ _ ihl ihr ihc =>
    obtain ⟨hlr, hc⟩ := forall_mem_append.mp hin
    obtain ⟨hl, hr⟩ := forall_mem_append.mp hlr
    have hleft := ihl hS hl
    have hboth := hleft.trans (ihr (hleft.encloses hS) hr)
    exact hboth.trans (ihc (hboth.encloses hS) hc)
  | list _ ih | fromSome _ ih | unionSome _ _ ih | query _ ih => exact ih hS hin
  | sourcesCons _ _ ih ih' =>
    obtain ⟨hitem, hrest⟩ := forall_mem_append.mp hin
    have hfirst := ih hS hitem
    exact hfirst.trans (ih' (hfirst.encloses hS) hrest)
  | entryPlain _ _ _ hnames hscope ih =>
    rw [hscope.exprs_eq]
    have hquery := ih hS hin
    exact hquery.trans (hnames.confined (hquery.encloses hS))
  | @entryInductive c _ _ _ _ _ _ _ _ _ hquery _ hnames hscope _ ih ih' =>
    rw [hscope.exprs_eq] at ih'
    obtain ⟨hctes, hitems, hsource, hroots, hkeys, hunion⟩ := forall_mem_exprs.mp hin
    have hin : ∀ x ∈ Select.exprs { c.query with union := none }, S x := forall_mem_exprs.mpr ⟨hctes, hitems, hsource, hroots, hkeys, hnone⟩
    obtain ⟨hctes, hitems, hsource, hroots, hkeys, _⟩ :=
      forall_mem_exprs.mp (hquery.yielded_within hS hin)
    have hbase := ih hS hin
    have hnamed := hbase.trans (hnames.confined (hbase.encloses hS))
    exact hnamed.trans (ih' (hnamed.encloses hS)
      (forall_mem_exprs.mpr ⟨hctes, hitems, hsource, hroots, hkeys, hunion⟩))
  | entriesCons _ _ ih ih' =>
    rw [BindTask.mentioned, Cte.exprsAll_cons] at hin
    obtain ⟨hentry, hrest⟩ := forall_mem_append.mp hin
    have hfirst := ih hS hentry
    exact hfirst.trans (ih' (hfirst.encloses hS) hrest)
  | branch _ _ _ hi _ hsorts _ _ ihe ihf ihr ihi ihu iho =>
    obtain ⟨hctes, hitems, hsource, hroots, hkeys, hunion⟩ := forall_mem_exprs.mp hin
    have cf := (ihe hS hctes).trans (ihf ((ihe hS hctes).encloses hS) hsource)
    have cr := cf.trans (ihr (cf.encloses hS) hroots)
    have ci := cr.trans (ihi (cr.encloses hS) hitems)
    have cu := ci.trans (ihu (ci.encloses hS) hunion)
    -- a sort key is a fresh expression or an entry of the select list
    exact cu.trans (iho (cu.encloses hS) fun x hx =>
      (hsorts.mem hx).elim (hkeys x) (hi.yielded_within (cr.encloses hS) hitems x))
  | _ => exact .refl hS

theorem Binds.confined (h : Binds env task v v') (hS : v.exprs.Encloses S)
    (hin : ∀ x ∈ task.mentioned, S x) : Confined S v.exprs v'.exprs ∧ ∀ x ∈ task.yielded, S x :=
  ⟨h.changes_within hS hin, h.yielded_within hS hin⟩

/-! ### Closed sets -/

theorem Arena.Encloses.congr (h : a.Encloses S) (hsize : a.size ≤ a'.size)
    (hexpr : ∀ x, a'.expr x = a.expr x) : a'.Encloses S :=
  ⟨h.closed.congr hexpr, fun x hx => h.free x (hsize.trans hx)⟩

theorem Arena.Encloses.update (h : a.Encloses S)
    (hparts : S id → ∀ y ∈ (f (a.node id)).kind.parts, S y) : (a.update id f).Encloses S := by
  refine ⟨fun x hx y hy => ?_, fun x hx => h.free x (by rwa [size_update] at hx)⟩
  rw [expr, node_update] at hy
  split at hy
  · rename_i hxid
    rw [hxid.1] at hx hy
    exact hparts hx y hy
  · exact h.closed x hx y hy

theorem Arena.Appends.encloses (h : a.Appends a') (hS : a.Encloses S) :
    a'.Encloses S := by
  refine ⟨fun x hx y hy => ?_, fun x hx => hS.free x (h.size_le.trans hx)⟩
  rcases Nat.lt_or_ge x a.size with hlt | hge
  · rw [h.expr hlt] at hy
    exact hS.closed x hx y hy
  · rw [Expr.parts_of_not_isSubquery (h.plain hge)] at hy
    exact hS.free y (h.operand hge hy).1

end SqlAnalysis
