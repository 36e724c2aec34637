import SqlAnalysis.Proofs.Binding.Ledger

/-!
# Aliases of output columns

The output columns of a derived table get aliases with serials.  Only a WITH entry gives other aliases
to the items of its select list, so that elsewhere an alias stays as it is once it has a serial, and
its serial belongs to one node only.

* **`Binds.names`**: a binding keeps the aliases of all other nodes.
-/

namespace SqlAnalysis

open Text List Arena BindTask

variable {a a' : Arena} {id x : ExprId} {ids : List ExprId} {columns : List DerivedColumn}
  {v v' : BindView} {task : BindTask}

variable {env : Accessor}

/-- The serial in the alias of a node. -/
def Arena.serial? (a : Arena) (x : ExprId) : Option Nat := (a.node x).knownAs.bind (·.serial)

/-- Whether no alias of an expression has a serial. -/
def Arena.isUnnumbered (a : Arena) : Bool := (range a.size).all fun x => (a.serial? x).isNone

theorem Arena.serial?_of_isUnnumbered (h : a.isUnnumbered = true) (x : ExprId) :
    a.serial? x = none := by
  by_cases hx : x < a.size
  · exact Option.isNone_iff_eq_none.mp (all_eq_true.mp h x (mem_range.mpr hx))
  · rw [serial?, node_of_size_le (Nat.le_of_not_lt hx)]
    rfl

/-- Outside `E` aliases with serials are kept, and a new serial is the serial of no other node. -/
structure Names (E : ExprId → Prop) (v v' : BindView) : Prop where
  next_le : v.nextSerial ≤ v'.nextSerial
  kept : ∀ x, ¬E x → ∀ name n, (v.exprs.node x).knownAs = some ⟨name, some n⟩ →
    (v'.exprs.node x).knownAs = some ⟨name, some n⟩
  fresh : ∀ x, ¬E x → ∀ n, v'.exprs.serial? x = some n → v.exprs.serial? x = some n ∨
    v.nextSerial ≤ n ∧ n < v'.nextSerial ∧
      ∀ y, ¬E y → v'.exprs.serial? y = some n → y = x ∨ v.exprs.serial? y = some n

namespace Names

variable {E E' : ExprId → Prop} {v'' : BindView}

theorem of_knownAs (hnext : v.nextSerial ≤ v'.nextSerial)
    (h : ∀ x, ¬E x → (v'.exprs.node x).knownAs = (v.exprs.node x).knownAs) : Names E v v' := by
  refine ⟨hnext, fun x hx name n hn => (h x hx).trans hn, fun x hx n hn => .inl ?_⟩
  rwa [serial?, h x hx] at hn

theorem refl (E : ExprId → Prop) (v : BindView) : Names E v v := of_knownAs le_rfl fun _ _ => rfl

theorem mono (h : Names E v v') (hE : ∀ x, E x → E' x) : Names E' v v' := by
  refine ⟨h.next_le, fun x hx => h.kept x fun hE' => hx (hE x hE'), fun x hx n hn => ?_⟩
  refine (h.fresh x (fun hE' => hx (hE x hE')) n hn).imp_right fun ⟨hle, hlt, hother⟩ => ?_
  exact ⟨hle, hlt, fun y hy => hother y fun hE' => hy (hE y hE')⟩

theorem trans (h : Names E v v') (h' : Names E v' v'') : Names E v v'' := by
  have hle := h.next_le
  have hle' := h'.next_le
  refine ⟨hle.trans hle', fun x hx name n hn => h'.kept x hx name n (h.kept x hx name n hn),
    fun x hx n hn => ?_⟩
  rcases h'.fresh x hx n hn with hn | ⟨hge, hlt, hother⟩
  · -- the first step has given the serial, and the second one gives only greater ones
    rcases h.fresh x hx n hn with hn | ⟨hge, hlt, hother⟩
    · exact .inl hn
    · refine .inr ⟨hge, by omega, fun y hy hyn => ?_⟩
      rcases h'.fresh y hy n hyn with hyn | ⟨_, _, _⟩
      · exact hother y hy hyn
      · omega
  · refine .inr ⟨by omega, hlt, fun y hy hyn => (hother y hy hyn).imp_right fun hyn => ?_⟩
    rcases h.fresh y hy n hyn with hyn | ⟨_, _, _⟩
    · exact hyn
    · omega

theorem nameOutput {serial next : Nat} (h : Takes v.nextSerial (v.exprs.serial? id) serial next) :
    Names E v { v with exprs := v.exprs.nameOutput id serial, nextSerial := next } := by
  have hknown : ∀ x, x ≠ id →
      ((v.exprs.nameOutput id serial).node x).knownAs = (v.exprs.node x).knownAs := fun x hx => by
    rw [Arena.nameOutput, Arena.node_update_of_ne _ hx]
  cases hserial : v.exprs.serial? id with
  | some =>
    -- the alias has a serial already
    rw [hserial] at h
    cases h
    refine of_knownAs le_rfl fun x _ => ?_
    obtain ⟨k, hk, hn⟩ := Option.bind_eq_some_iff.mp hserial
    by_cases hx : x = id
    · subst hx
      rw [nameOutput, node_update]
      split
      · rw [outputName_of_knownAs hk, hk, ← hn]
      · rfl
    · exact hknown x hx
  | none =>
    rw [hserial] at h
    cases h
    refine ⟨Nat.le_succ _, fun x _ name n hn => ?_, fun x _ n hn => ?_⟩
    · refine (hknown x ?_).trans hn
      rintro rfl
      rw [serial?, hn] at hserial
      cases hserial
    · by_cases hx : x = id
      · subst hx
        dsimp only [serial?] at hn
        rw [nameOutput, node_update] at hn
        split at hn
        · cases hn
          refine .inr ⟨le_rfl, Nat.lt_succ_self _, fun y _ hy => ?_⟩
          by_cases hyx : y = x
          · exact .inl hyx
          · rw [serial?, hknown y hyx] at hy
            exact .inr hy
        · exact .inl hn
      · rw [serial?, hknown x hx] at hn
        exact .inl hn

end Names

theorem NamesDerived.names {E : ExprId → Prop} (h : NamesDerived ids v columns v') :
    Names E v v' := by
  induction h with
  | nil => exact .refl _ _
  | cons htakes _ ih => exact (Names.nameOutput htakes).trans ih

theorem NamesEntry.knownAs_eq {given : List Alias} (h : NamesEntry ids given v columns v')
    (hx : x ∉ ids) : (v'.exprs.node x).knownAs = (v.exprs.node x).knownAs := by
  induction h with
  | nil => rfl
  | @cons id _ _ _ known _ _ v _ _ _ _ ih =>
    rw [mem_cons, not_or] at hx
    exact (ih hx.2).trans (by simp [nameColumn, hx.1])

theorem LocalChange.knownAs_eq {e : Expr} (h : LocalChange id e a a') (x : ExprId) :
    (a'.node x).knownAs = (a.node x).knownAs := by
  cases h <;> simp [setType, setExpr, replaceChild]

theorem Arena.knownAs_pushAll (a : Arena) (depth : Nat) (tables : List ScopeTable) (x : ExprId) :
    ((a.pushAll (starNodes depth tables)).node x).knownAs = (a.node x).knownAs := by
  by_cases hlt : x < a.size
  · rw [node_pushAll_of_lt _ hlt]
  · rw [node_of_size_le (Nat.le_of_not_lt hlt)]
    by_cases hlt' : x < (a.pushAll (starNodes depth tables)).size
    · obtain ⟨_, _, c, _, hnode⟩ := node_pushAll_starNodes (Nat.le_of_not_lt hlt) hlt'
      rw [hnode]
      rfl
    · rw [node_of_size_le (Nat.le_of_not_lt hlt')]

/-! ### Whole bindings -/

/-- The node is an item of a WITH entry that is made or that is part of a bound subquery. -/
def BindTask.EntryItem (task : BindTask) (a : Arena) (x : ExprId) : Prop :=
  ∃ name serials ids, x ∈ ids ∧
    (.entry name serials ids ∈ task.made ∨ a.BoundPart (.entry name serials ids))

theorem BindTask.EntryItem.mono {task' : BindTask} (h : task.EntryItem a x)
    (hmade : ∀ p ∈ task.made, p ∈ task'.made ∨ a'.BoundPart p)
    (hbound : ∀ p, a.BoundPart p → a'.BoundPart p) : task'.EntryItem a' x := by
  obtain ⟨name, serials, ids, hx, h | h⟩ := h
  · exact ⟨name, serials, ids, hx, hmade _ h⟩
  · exact ⟨name, serials, ids, hx, .inr (hbound _ h)⟩

theorem BindTask.entryItem_entry {c c' : Cte} (hx : x ∈ c'.query.items) (a : Arena) :
    (entry c c').EntryItem a x := by
  refine ⟨c'.name, c'.columns.map (·.serial), c'.query.items, hx, .inl ?_⟩
  rw [made_entry]
  exact mem_cons_self

theorem Names.finish (E : ExprId → Prop) (v : BindView) (id : ExprId) :
    Names E v { v with exprs := v.exprs.finish id } := by
  exact .of_knownAs le_rfl fun x _ => by simp

theorem Names.part (h : Names (task.EntryItem a) v v') (task' : BindTask) (hstore : Evolves a a')
    (hmade : ∀ p ∈ task.made, p ∈ task'.made) : Names (task'.EntryItem a') v v' :=
  h.mono fun _ hx => hx.mono (fun p hp => .inl (hmade p hp)) fun _ hp => hstore.boundPart hp

theorem Binds.names (h : Binds env task v v') (hready : task.Ready v.exprs) (hplain : task.Plain) :
    Names (task.EntryItem v'.exprs) v v' := by
  induction h with
  | columnFresh | subqueryDone =>
    exact .of_knownAs le_rfl fun x _ => by simp
  | @subqueryFresh id q q' t v v1 _ he _ hquery ih =>
    have hmark := adjusts_markSubquery (v1.exprs.setQuery id q') id t
    have hhollow := hquery.hollow trivial trivial (v.exprs.hollow_setQuery id)
    have hbefore : Names (EntryItem (.query q q') v1.exprs) v
        { v with exprs := v.exprs.setQuery id {} } :=
      .of_knownAs le_rfl fun x _ => by simp
    have hafter : Names (EntryItem (.query q q') v1.exprs) v1
        { v1 with exprs := (v1.exprs.setQuery id q').markSubquery id t } :=
      .of_knownAs le_rfl fun x _ => by simp [markSubquery]
    refine ((hbefore.trans (ih trivial trivial)).trans hafter).mono fun x hx => hx.mono ?_ ?_
    · exact fun p hp => .inr (hmark.boundPart_iff.mpr
        ⟨id, q', hquery.expr_setQuery he, hquery.isSome_depth, hp⟩)
    · exact fun p hp => hmark.boundPart_iff.mpr (hp.setQuery hhollow q')
  | node hlt hcolumn hsub _ _ ih => exact ih ⟨hlt, .refl _⟩ ⟨hcolumn, hsub⟩
  | @actsLocal id e visited a v v' hl _ ih =>
    have hstep : Names (EntryItem (.acts id e visited) v'.exprs) v { v with exprs := a } :=
      .of_knownAs le_rfl fun x _ => hl.knownAs_eq x
    exact hstep.trans (ih (hready.reshape (hl.adjusts hready.1 hready.2).toReshapes _) hplain)
  | @actsVisit _ _ _ visited _ _ _ _ hc hrest ihc ih =>
    have hready := hready.reshape hc.reshapes visited
    exact ((ihc trivial trivial).part _ (hrest.evolves hready) fun _ hp => hp).trans
      (ih hready hplain)
  | @rootsCons id _ v v1 v' hroot hrest ih ih' | @itemsRoot id _ _ v v1 v' _ hroot hrest ih ih' =>
    have hrest' := hrest.evolves
    dsimp only at hrest'
    have hstore : Evolves v1.exprs v'.exprs :=
      (adjusts_finish hroot.progress.finished).toEvolves.trans hrest'
    have hfirst := (ih trivial trivial).part (.expr id) hstore fun _ hp => hp
    exact (hfirst.trans (.finish _ v1 id)).trans (ih' trivial trivial)
  | @itemsStar _ ids ids' _ scope _ tables v v' _ _ _ _ ih =>
    have hstep : Names (EntryItem (.items ids ids') v'.exprs) v
        { v with exprs := v.exprs.pushAll (starNodes scope.depth tables) } :=
      .of_knownAs le_rfl fun x _ => v.exprs.knownAs_pushAll scope.depth tables x
    exact hstep.trans (ih trivial trivial)
  | table halias _ hscope =>
    refine .of_knownAs ?_ fun x _ => by rw [hscope.exprs_eq, halias.exprs_eq]
    rw [hscope.nextSerial_eq]
    exact halias.countersLe.1
  | @derived q q' given known _ v v1 v2 v3 v4 halias _ hnames hscope ih =>
    have hstore : Evolves v2.exprs v4.exprs := by
      rw [hscope.exprs_eq]
      exact hnames.adjusts.toEvolves
    have hbefore : Names (EntryItem (.source (.derived q given) (.derived q' known)) v4.exprs)
        v v1 := .of_knownAs halias.countersLe.1 fun x _ => by rw [halias.exprs_eq]
    have hafter : Names (EntryItem (.source (.derived q given) (.derived q' known)) v4.exprs)
        v3 v4 := .of_knownAs (hscope.nextSerial_eq.symm.le) fun x _ => by rw [hscope.exprs_eq]
    have hquery' := (ih trivial trivial).part
      (.source (.derived q given) (.derived q' known)) hstore
      fun p hp => mem_cons_of_mem _ hp
    exact ((hbefore.trans hquery').trans hnames.names).trans hafter
  | @join kind left left' right right' condition _ _ _ _ _ hr hc ihl ihr ihc =>
    have hlast := hc.evolves
    have hstore := hr.evolves.trans hlast
    have hfirst := (ihl trivial trivial).part
      (.source (.join kind left right condition) (.join kind left' right' condition)) hstore
      fun p hp => mem_append_left _ hp
    have hsecond := (ihr trivial trivial).part
      (.source (.join kind left right condition) (.join kind left' right' condition)) hlast
      fun p hp => mem_append_right _ hp
    exact (hfirst.trans hsecond).trans
      ((ihc trivial trivial).part _ (.refl _) (forall_mem_nil _))
  | list _ ih | fromSome _ ih => exact ih trivial trivial
  | @sourcesCons item item' rest rest' _ _ _ _ hrest ih ih' =>
    have hfirst := (ih trivial trivial).part (.sources (item :: rest) (item' :: rest'))
      hrest.evolves fun p hp => mem_append_left _ hp
    exact hfirst.trans ((ih' trivial trivial).part _ (.refl _) fun p hp => mem_append_right _ hp)
  | @entryPlain _ _ _ _ v1 _ v3 _ _ _ hnames hscope ih =>
    have hstore : Evolves v1.exprs v3.exprs := by
      rw [hscope.exprs_eq]
      exact hnames.adjusts.toEvolves
    refine Names.trans (Names.part (ih trivial trivial) _ hstore fun p hp => ?_) ?_
    · rw [made_entry]
      exact mem_cons_of_mem _ hp
    · refine .of_knownAs ?_ fun x hx => ?_
      · rw [hscope.nextSerial_eq, hnames.nextSerial_eq]
      · rw [hscope.exprs_eq]
        exact hnames.knownAs_eq fun hmem => hx (entryItem_entry hmem _)
  | @entryInductive c base q' columns _ v1 _ v3 _ _ hbase _ hnames hscope hquery ih ih' =>
    have hstore := hscope.exprs_eq
    have hstep : Evolves v1.exprs v3.exprs := by
      rw [hstore]
      exact hnames.adjusts.toEvolves
    have hitems : q'.items = base.items :=
      hquery.queryItems_eq (hbase.starless_query.reshape hstep.toReshapes)
    have hfirst := (ih trivial trivial).part (.entry c
      { name := lowercase c.name, columns := columns.map (·.knownAs), query := q',
        recursive := c.recursive }) (hstep.trans hquery.evolves) fun p hp => by
          rw [made_entry]
          exact mem_cons_of_mem _ (hbase.keepsBase hstep.toReshapes hquery hp)
    have hsecond := (ih' trivial trivial).part (.entry c
      { name := lowercase c.name, columns := columns.map (·.knownAs), query := q',
        recursive := c.recursive }) (.refl _) fun p hp => by
          rw [made_entry]
          exact mem_cons_of_mem _ hp
    refine hfirst.trans (Names.trans (.of_knownAs ?_ fun x hx => ?_) hsecond)
    · rw [hscope.nextSerial_eq, hnames.nextSerial_eq]
    · rw [hscope.exprs_eq]
      exact hnames.knownAs_eq fun hmem => hx (entryItem_entry (by rwa [hitems]) _)
  | @entriesCons c c' cs cs' _ _ _ _ hrest ih ih' =>
    have hmade := made_entries c c' cs cs'
    refine Names.trans ((ih trivial trivial).part _ hrest.evolves fun p hp => ?_)
      ((ih' trivial trivial).part _ (.refl _) fun p hp => ?_)
    · rw [hmade]
      exact mem_append_left _ hp
    · rw [hmade]
      exact mem_append_right _ hp
  | @unionSome _ _ _ _ _ _ _ _ _ ih | @query _ _ _ _ _ ih =>
    have ih := ih trivial trivial
    exact ⟨ih.next_le, ih.kept, ih.fresh⟩
  | @branch q depth ctes source items union ordering v v1 v2 v3 v4 v5 v6 he hf hr hi hu _ ho _ ihe ihf
      ihr ihi ihu iho =>
    have ho' := ho.evolves
    have hu' := hu.evolves.trans ho'
    have hi' := hi.evolves.trans hu'
    have hr' := hr.evolves.trans hi'
    have hf' := hf.evolves.trans hr'
    have hmade := made_branch q { q with
      ctes := ctes, source := source, items := items, union := union, ordering := ordering,
      depth := some depth } depth
    refine Names.trans (Names.trans (Names.trans (Names.trans (Names.trans
      ((ihe trivial trivial).part _ hf' fun p hp => ?_)
      ((ihf trivial trivial).part _ hr' fun p hp => ?_))
      ((ihr trivial trivial).part _ hi' (forall_mem_nil _)))
      ((ihi trivial trivial).part _ hu' (forall_mem_nil _)))
      ((ihu trivial trivial).part _ ho' fun p hp => ?_))
      ((iho trivial trivial).part _ (.refl _) (forall_mem_nil _))
    · rw [hmade]
      exact mem_append_left _ (mem_append_left _ hp)
    · rw [hmade]
      exact mem_append_left _ (mem_append_right _ hp)
    · rw [hmade]
      exact mem_append_right _ hp
  | _ => exact .refl _ _

end SqlAnalysis
