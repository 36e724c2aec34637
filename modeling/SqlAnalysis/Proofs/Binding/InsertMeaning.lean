import SqlAnalysis.Proofs.Binding.BlockResolution
import SqlAnalysis.Proofs.Binding.StatementFrame

/-!
# What INSERT ... SELECT means

The query of an INSERT is bound inside the scope that shows the target.  Then its select list is put into
the order of the target's columns: casts to the type of a column are taken off, and defaults are copied
for columns that are left out.

* **`columnDefault_fresh`**: the copy of a default is a fresh expression of its own.
* **`arrangeRowFrom_means`**: a value of the new select list is an item of the query, the operand of one
  that is a cast, or the copy of a default that was bound beside the target.
* **`bind_insert_means`**: the query means something inside a block whose only table is the target.
-/

namespace SqlAnalysis

open BindM List Arena

variable {ids items : List ExprId} {a a' : Arena} {id value : ExprId} {column : Column}
  {v v' : BindView} {n : Nat}

variable {env : Accessor} {rec : Recur} {s s' : BindState} {L : List Reference}

/-! ### Copies of defaults -/

/-- The nodes of an expression that was added, each used once and all of them new. -/
def Arena.AddsTree (a a' : Arena) (ids : List ExprId) : Prop :=
  ∃ K, a'.Uses ids K ∧ K.Nodup ∧ ∀ x ∈ K, a.size ≤ x

theorem Arena.Imports.addsTree {other : Arena} {fuel : Nat} {roots : List ExprId}
    (h : other.Imports fuel roots a ids a') : a.AddsTree a' ids := by
  induction h with
  | nil => exact ⟨[], .nil, .nil, forall_mem_nil _⟩
  | @cons _ _ node _ ids _ a a1 a' hn hplain hids hrest ih ih' =>
    obtain ⟨K, huses, hnodup, hnew⟩ := ih
    obtain ⟨K', huses', hnodup', hnew'⟩ := ih'
    have happends := hrest.appends.1
    have hsize : a1.size < a'.size := by
      have hle := happends.size_le
      rwa [size_push] at hle
    have hle : a.size ≤ a1.size := hids.appends.1.size_le
    have hlater : ∀ x ∈ K', a1.size < x := fun x hx => by
      have hx := hnew' x hx
      rwa [size_push] at hx
    -- what was there before the copy of the root stays as it is
    have hexpr : ∀ x ∈ K, a'.expr x = a1.expr x := fun x hx => by
      have hlt := huses.lt_size hx
      rw [happends.expr (by rw [size_push]; exact Nat.lt_succ_of_lt hlt), expr,
        node_push_of_lt _ hlt, expr]
    have hroot : a'.expr a1.size = node.kind.withOperands ids := by
      rw [happends.expr (by rw [size_push]; exact Nat.lt_succ_self _), expr, node_push_size]
    have hparts : a'.Uses (a'.expr a1.size).parts K := by
      rw [hroot, Expr.parts_of_not_isSubquery ((Expr.isSubquery_withOperands _ _).trans hplain),
        Expr.children_withOperands hids.appends.2.1]
      exact huses.congr (hsize.le) hexpr
    refine ⟨a1.size :: K ++ K', .cons hsize hparts huses', nodup_append'.mpr ⟨?_, hnodup', ?_⟩, ?_⟩
    · exact nodup_cons.mpr ⟨fun hmem => Nat.lt_irrefl _ (huses.lt_size hmem), hnodup⟩
    · intro x hx hx'
      rcases mem_cons.mp hx with rfl | hx
      · exact Nat.lt_irrefl _ (hlater _ hx')
      · exact Nat.lt_asymm (huses.lt_size hx) (hlater x hx')
    · refine forall_mem_append.mpr ⟨forall_mem_cons.mpr ⟨hle, hnew⟩, fun x hx => ?_⟩
      exact hle.trans ((hlater x hx).le)

theorem Arena.Copies.fresh (h : a.Copies a') (htree : a.AddsTree a' ids) :
    ∃ K, a'.Fresh ids K ∧ ∀ x ∈ K, a.size ≤ x := by
  obtain ⟨K, huses, hnodup, hnew⟩ := htree
  refine ⟨K, ⟨huses, fun x hx => ?_, hnodup⟩, hnew⟩
  have hplain := h.plain (hnew x hx)
  cases he : a'.expr x with
  | column => rw [Expr.isFresh, h.unresolved (hnew x hx) he, Bool.not_false]
  | subquery =>
    rw [he] at hplain
    cases hplain
  | _ => rfl

theorem columnDefault_fresh (h : columnDefault column s = .ok id s')
    (hcolumn : Schema.Unresolved [column]) :
    ∃ K, s'.exprs.Fresh [id] K ∧ ∀ x ∈ K, s.exprs.size ≤ x := by
  have hcopies := (columnDefault_copies h).1.copies (hcolumn column (mem_singleton_self _))
  refine hcopies.fresh ?_
  rcases run_columnDefault h with ⟨_, _, _, himport, rfl⟩ | ⟨_, _, rfl, rfl⟩
  · exact (importFrom_imports himport).addsTree
  · refine ⟨s.exprs.size :: ([] ++ []), .cons ?_ ?_ .nil, nodup_singleton _,
      forall_mem_singleton.mpr le_rfl⟩
    · show _ < (s.exprs.push _).2.size
      rw [size_push]
      exact Nat.lt_succ_self _
    · show Arena.Uses _ ((s.exprs.push _).2.expr s.exprs.size).parts []
      rw [expr, node_push_size]
      exact .nil

/-! ### Values -/

theorem RootStep.sound (h : RootStep env id v v') (hS : v.Sound L) :
    v'.Sound L ∧ v'.scopes = v.scopes := by
  have hscopes : v'.scopes = v.scopes := h.roots.scopes
  have hle := h.roots.countersLe
  exact ⟨hS.same hscopes (Subset.refl _) (hS.registered.mono hle.1) hle, hscopes⟩

theorem columnDefault_sound (h : columnDefault column s = .ok id s') (hS : s.view.Sound L) :
    s'.view.Sound L ∧ s'.scopes = s.scopes := by
  have hview := (columnDefault_copies h).2
  have hscopes : s'.view.scopes = s.view.scopes := by rw [hview]
  refine ⟨?_, hscopes⟩
  rw [hview]
  exact ⟨hS.leveled, hS.distinct, hS.visible, hS.entries, hS.registered⟩

theorem coerceToColumn_sound (hrec : rec.Derived env)
    (h : coerceToColumn rec value column s = .ok id s') (hS : s.view.Sound L) :
    s'.view.Sound L ∧ s'.scopes = s.scopes := by
  obtain ⟨_, s1, hfrom, _, hitem⟩ := coerceToColumn_run h
  have hstart : s1.view.Sound L ∧ s1.scopes = s.scopes := by
    rcases hfrom with ⟨_, hdefault⟩ | ⟨_, _, rfl⟩
    · exact columnDefault_sound hdefault hS
    · exact ⟨hS, rfl⟩
  obtain ⟨hsound, hscopes⟩ := (bindItem_root hrec hitem).sound hstart.1
  exact ⟨hsound, hscopes.trans hstart.2⟩

theorem RootStep.means_of_fresh (henv : env.Numbered) {t : SqlType} {K : List ExprId}
    (h : RootStep env id v v') (hS : v.Sound L) (hfresh : v.exprs.Fresh [value] K)
    (hK : ∀ x ∈ K, n ≤ x) (hid : id = value ∨ v.exprs.expr value = .cast t id) :
    ∃ R K', (∀ x ∈ K', n ≤ x) ∧ Means env v'.exprs R v.scopes.tables v.scopes.entries (.expr id) K' := by
  obtain ⟨K1, hfresh, hK1⟩ : ∃ K1, v.exprs.Fresh [id] K1 ∧ ∀ x ∈ K1, n ≤ x := by
    rcases hid with rfl | hcast
    · exact ⟨K, hfresh, hK⟩
    · obtain ⟨K1, rfl, hparts, _⟩ := hfresh.single
      rw [hcast] at hparts
      exact ⟨K1, hparts, fun x hx => hK x (mem_cons_of_mem _ hx)⟩
  obtain ⟨_, _, _, _, hsub, hmeans⟩ :=
    BindTask.Resolved.roots_of_fresh (h.roots.resolved henv) hS hfresh
  obtain ⟨K'', hsub', hmeans⟩ := hmeans.of_mem (mem_singleton_self id)
  exact ⟨_, K'', fun x hx => hK1 x (hsub.subset (hsub'.subset hx)), hmeans⟩

/-! ### Rows -/

/-- A value of the new select list: an item of the old one, the operand of an item that is a cast, or an
expression over nodes from `n` on that means something in the tables `Γ`. -/
inductive RowValue (env : Accessor) (a : Arena) (Γ : List (List ScopeTable)) (Δ : EntryMap) (n : Nat)
    (items : List ExprId) (id : ExprId) : Prop where
  | item : id ∈ items → RowValue env a Γ Δ n items id
  | operand {v : ExprId} {t : SqlType} : v ∈ items → a.expr v = .cast t id → RowValue env a Γ Δ n items id
  | added {R : Registry} {K : List ExprId} :
    (∀ x ∈ K, n ≤ x) → Means env a R Γ Δ (.expr id) K → RowValue env a Γ Δ n items id

theorem RowValue.evolve {Γ : List (List ScopeTable)} {Δ : EntryMap}
    (h : RowValue env a Γ Δ n items id) (ha : Evolves a a') : RowValue env a' Γ Δ n items id := by
  cases h with
  | item hid => exact .item hid
  | @operand v t hv he =>
    refine .operand hv (t := t) ?_
    have hkind := ha.kind v (lt_size_of_expr (by rw [he]; exact Expr.noConfusion))
    rw [he] at hkind
    generalize a'.expr v = e at hkind
    cases hkind
    rfl
  | added hK hmeans =>
    obtain ⟨_, hsub, hmeans⟩ := hmeans.evolve ha
    exact .added (fun x hx => hK x (hsub.subset hx)) hmeans

theorem coerceToColumn_rowValue (henv : env.Numbered) (hrec : rec.Derived env)
    (h : coerceToColumn rec value column s = .ok id s') (hcolumn : Schema.Unresolved [column])
    (hS : s.view.Sound L) (hn : n ≤ s.exprs.size)
    (hvalue : value ∈ items ∨ ∃ K, s.exprs.Fresh [value] K ∧ ∀ x ∈ K, n ≤ x) :
    RowValue env s'.exprs s.scopes.tables s.scopes.entries n items id := by
  obtain ⟨_, s1, hfrom, hid, hitem⟩ := coerceToColumn_run h
  have hroot := bindItem_root hrec hitem
  have hroot : RootStep env id s1.view s'.view := hroot
  rcases hfrom with ⟨_, hdefault⟩ | ⟨_, rfl, rfl⟩
  · obtain ⟨hS1, hscopes⟩ := columnDefault_sound hdefault hS
    obtain ⟨K, hfresh, hnew⟩ := columnDefault_fresh hdefault hcolumn
    obtain ⟨R, K', hK', hmeans⟩ :=
      hroot.means_of_fresh henv hS1 hfresh (fun x hx => hn.trans (hnew x hx)) hid
    rw [← hscopes]
    exact .added hK' hmeans
  · rcases hvalue with hvalue | ⟨K, hfresh, hK⟩
    · rcases hid with rfl | hcast
      · exact .item hvalue
      · exact (RowValue.operand hvalue hcast).evolve hroot.progress.toEvolves
    · obtain ⟨_, _, hK', hmeans⟩ := hroot.means_of_fresh henv hS hfresh hK hid
      exact .added hK' hmeans

theorem arrangeRowFrom_means (henv : env.Numbered) (hrec : rec.Derived env) {columns : List String}
    {row : List ExprId} {index : Nat} {schema : Schema}
    (h : arrangeRowFrom rec columns row index schema s = .ok ids s') (hschema : schema.Unresolved)
    (hS : s.view.Sound L) (hn : n ≤ s.exprs.size) :
    ∀ id ∈ ids, RowValue env s'.exprs s.scopes.tables s.scopes.entries n row id := by
  induction schema generalizing s index ids with
  | nil =>
    rw [arrangeRowFrom] at h
    obtain ⟨rfl, _⟩ := run_pure.mp h
    exact forall_mem_nil _
  | cons column _ ih =>
    obtain ⟨hcolumn, hrest⟩ := forall_mem_cons.mp hschema
    have hcolumn : Schema.Unresolved [column] := forall_mem_singleton.mpr hcolumn
    obtain ⟨value, s0, _, _, _, hgiven, hvalue, hvalues, rfl⟩ := arrangeRowFrom_cons_run h
    obtain ⟨hS0, hscopes0, hn0, hstart⟩ : s0.view.Sound L ∧ s0.scopes = s.scopes ∧ n ≤ s0.exprs.size ∧
        (value ∈ row ∨ ∃ K, s0.exprs.Fresh [value] K ∧ ∀ x ∈ K, n ≤ x) := by
      rcases hgiven with ⟨hsome, rfl⟩ | ⟨_, hdefault⟩
      · obtain ⟨_, _, hi⟩ := Option.bind_eq_some_iff.mp hsome
        exact ⟨hS, rfl, hn, Or.inl (mem_of_getElem? hi)⟩
      · obtain ⟨hS0, hscopes⟩ := columnDefault_sound hdefault hS
        obtain ⟨K, hfresh, hnew⟩ := columnDefault_fresh hdefault hcolumn
        exact ⟨hS0, hscopes, hn.trans (columnDefault_appends hdefault).1.size_le,
          Or.inr ⟨K, hfresh, fun x hx => hn.trans (hnew x hx)⟩⟩
    obtain ⟨hS1, hscopes1⟩ := coerceToColumn_sound hrec hvalue hS0
    have hn1 := hn0.trans (coerceToColumn_progress hrec hvalue).toEvolves.size_le
    have hid := coerceToColumn_rowValue henv hrec hvalue hcolumn hS0 hn0 hstart
    have hids := ih hvalues hrest hS1 hn1
    rw [hscopes1, hscopes0] at hids
    rw [hscopes0] at hid
    exact forall_mem_cons.mpr ⟨hid.evolve (arrangeRowFrom_progress hrec hvalues).toEvolves, hids⟩

/-! ### Statements -/

theorem bind_insert_means (henv : env.Numbered) {p : Parsed} {parameters : List Value} {b : Bound}
    {insert : Insert} {q0 : Select} (hp : p.statement = .insert insert) (hsource : insert.source = .query q0)
    (htable : insert.table.knownAs.serial = none) (hfresh : p.exprs.FreshQuery q0)
    (h : (bind env p parameters).result = .ok b) :
    ∃ (insert' : Insert) (target : Oid × Schema) (q : Select) (row : List ExprId) (F : List ScopeTable)
      (R : Registry) (K : List ExprId) (n : Nat), b.statement = .insert insert' ∧
      env.requireTable insert'.table.name = .ok target ∧ insert'.source = .query { q with items := row } ∧
      (∀ t ∈ F, t.knownAs = insert'.table.knownAs) ∧ K.Nodup ∧ (∀ x ∈ K, x < n) ∧
      Means env b.exprs R [F] (fun _ => none) (.query (fun _ => none) q) K ∧
      (target.2.Unresolved → ∀ id ∈ row, RowValue env b.exprs [F] (fun _ => none) n q.items id) := by
  obtain ⟨_, hrun, hexprs, _⟩ := bind_run h
  rw [hp] at hrun
  simp only [bindStatementWith, run_inScope, run_bind, run_pure] at hrun
  obtain ⟨_, ⟨_, _, hinsert, hstatement, rfl⟩, rfl⟩ := hrun
  obtain ⟨s0, s1, table, _, _, q, row, htarget, _, hquery, hrow, rfl⟩ :=
    bindInsert_query_run hsource hinsert
  -- the target becomes the only table of the scope
  obtain ⟨hbinds, _⟩ := bindTarget_binds rfl htarget
  obtain ⟨_, hrequire⟩ := bindTarget_schema rfl rfl htarget
  have hname : table.name = insert.table.name.normalize := by
    cases hbinds
    rfl
  obtain ⟨_, _, hS, hshows, _⟩ := hbinds.resolved henv (BindView.sound_initial p.exprs _ _).open_
    (Option.isNone_iff_eq_none.mpr htable) ⟨.nil, forall_mem_nil _, .nil⟩
  have hadds : AddsTables [{ depth := 0 }] s0.scopes := hbinds.scopes
  obtain ⟨scope, hscope⟩ := hadds.exists_cons
  have htables : s0.scopes.tables = [scope.tables] := by rw [hscope]; rfl
  have hentries : s0.scopes.entries = fun _ => none := by rw [hadds.entries]; rfl
  have hknown : ∀ t ∈ scope.tables, t.knownAs = table.knownAs := by
    intro t ht
    have hshown := hshows t (by rw [show s0.view.scopes = [scope] from hscope]; exact ht)
    rcases hshown with hold | hnew
    · exact (not_mem_nil hold).elim
    · exact mem_singleton.mp hnew
  -- the query is bound inside, and its select list becomes a row
  obtain ⟨hisFresh, K0, huses⟩ := hfresh
  have hstore : s0.exprs = p.exprs := bindTarget_exprs htarget
  have hquery := (recurTo_derived _).query hquery
  obtain ⟨L1, _, hS1, _, hsub, hmeans⟩ := (hquery.resolved henv hS).1 hisFresh
    (show s0.exprs.Fresh q0.exprs K0 by rw [hstore]; exact huses)
  have hscopes : s1.scopes = s0.scopes := hquery.scopes
  have hrow := (arrangeRow_run hrow).2
  obtain ⟨K', hsub', hmeans⟩ := hmeans.evolve (arrangeRowFrom_progress (recurTo_derived _) hrow).toEvolves
  have hsub := hsub'.trans hsub
  have hsize : p.exprs.size ≤ s1.exprs.size := by
    rw [← hstore]
    exact hquery.progress.size_le
  rw [hexprs]
  rw [show s0.view.scopes.tables = [scope.tables] from htables,
    show s0.view.scopes.entries = fun _ => none from hentries] at hmeans
  rw [← hname] at hrequire
  refine ⟨_, _, q, row, scope.tables, s1.view.registry L1, K', s1.exprs.size, hstatement.symm, hrequire, rfl,
    hknown, huses.nodup.sublist hsub, fun x hx => ?_, hmeans, fun hschema id hid => ?_⟩
  · exact (huses.uses.lt_size (hsub.subset hx)).trans_le hsize
  · have hvalue := arrangeRowFrom_means henv (recurTo_derived _) hrow hschema hS1
      le_rfl id hid
    rw [hscopes, htables, hentries] at hvalue
    exact hvalue

end SqlAnalysis
