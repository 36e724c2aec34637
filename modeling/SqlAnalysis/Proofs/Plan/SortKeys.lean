import SqlAnalysis.Proofs.Binding.DatabaseQualifiers

/-!
# Keys of ORDER BY

A key stands for an entry of the select list, by position or by name, after the stars in the list are
replaced and the branches of a UNION are bound.

* **`order_by_unifies`**: from the keys of a block to the keys of its plan.
* **`select_ordered_block`**: the block of a SELECT statement is bound as this result asks for.
-/

namespace SqlAnalysis

open Text List Arena BindM

variable {env : Accessor} {levels depth fuel : Nat} {a : Arena} {items : List ExprId} {e : Expr}
  {q q' q0 : Select} {s s' s0 : BindState} {keys : List SortKey} {key : SortKey}

/-! ### Keys and entries -/

def Value.ordinal? : Value → Option Int
  | .double x => some x.toInt64
  | .integral _ n _ => some n
  | _ => none

/-- A constant that is not the position of an entry. -/
def Expr.IsMisplaced (e : Expr) (items : List ExprId) : Prop :=
  ∃ v, e = .constant v ∧ ∀ n ∈ v.ordinal?, n < 1 ∨ items.length < n

/-- What a key with the expression `e` becomes: the entry at a position, the first entry with the output
name that an unqualified column is written as, or the key itself. -/
inductive Unifies (e : Expr) (a : Arena) (items : List ExprId) (key : SortKey) : SortKey → Prop where
  | position {v : Value} {n : Int} {x : ExprId} :
    e = .constant v → v.ordinal? = some n → 1 ≤ n → items[n.toNat - 1]? = some x →
    Unifies e a items key ⟨x, key.direction⟩
  | name {ref : ColumnRef} {front rest : List ExprId} {x : ExprId} :
    e = .column ref → ref.table = none → ref.isResolved = false → items = front ++ x :: rest →
    a.outputName x = lowercase ref.column → (∀ y ∈ front, a.outputName y ≠ lowercase ref.column) →
    Unifies e a items key ⟨x, key.direction⟩
  | itself :
    (∀ v, e ≠ .constant v) →
    (∀ ref, e = .column ref → ref.table = none → ref.isResolved = false →
      ∀ y ∈ items, a.outputName y ≠ lowercase ref.column) →
    Unifies e a items key key

theorem sortPosition_cases (v : Value) :
    (∃ n, v.ordinal? = some n ∧ sortPosition v = .ok n) ∨
      v.ordinal? = none ∧ ∃ text, sortPosition v = .error ⟨.undefinedColumn, text⟩ := by
  cases v with
  | double | integral => exact .inl ⟨_, rfl, rfl⟩
  | _ => exact .inr ⟨rfl, _, rfl⟩

theorem sortTarget_cases (a : Arena) (items : List ExprId) (key : SortKey) :
    (¬(a.expr key.expr).IsMisplaced items ∧ ∃ x, sortTarget a items key.expr = .ok x ∧
      Unifies (a.expr key.expr) a items key ⟨x, key.direction⟩) ∨
      ∃ text, sortTarget a items key.expr = .error ⟨.undefinedColumn, text⟩ := by
  unfold sortTarget
  split
  · rename_i v hv
    rcases sortPosition_cases v with ⟨n, hn, hposition⟩ | ⟨_, text, hposition⟩
    · rw [hposition]
      by_cases hlow : n < 1
      · exact .inr ⟨_, if_pos hlow⟩
      · cases hx : items[n.toNat - 1]? with
        | none => exact .inr ⟨_, (if_neg hlow).trans (by rw [hx]; rfl)⟩
        | some x =>
          refine .inl ⟨fun ⟨v', hv', hout⟩ => ?_, x, (if_neg hlow).trans (by rw [hx]; rfl),
            .position hv hn (Int.not_lt.mp hlow) hx⟩
          cases hv.symm.trans hv'
          have hlt := (List.getElem?_eq_some_iff.mp hx).1
          have := hout n hn
          omega
    · rw [hposition]
      exact .inr ⟨text, rfl⟩
  · rename_i ref href
    refine .inl ⟨fun ⟨_, hv, _⟩ => Expr.noConfusion (href.symm.trans hv), ?_⟩
    rw [href]
    split
    · rename_i hopen
      rw [Bool.and_eq_true, Option.isNone_iff_eq_none, Bool.not_eq_true'] at hopen
      cases hfind : items.find? (a.outputName · == lowercase ref.column) with
      | none =>
        refine ⟨_, rfl, .itself (fun _ h => by cases h) fun _ heq _ _ y hy => ?_⟩
        cases heq
        have := find?_eq_none.mp hfind y hy
        simpa using this
      | some x =>
        obtain ⟨hx, front, rest, hsplit, hfront⟩ := find?_eq_some_iff_append.mp hfind
        refine ⟨_, rfl, .name rfl hopen.1 hopen.2 hsplit (by simpa using hx) fun y hy => ?_⟩
        have := hfront y hy
        simpa using this
    · rename_i hclosed
      refine ⟨_, rfl, .itself (fun _ h => by cases h) fun _ heq htable hres => ?_⟩
      cases heq
      rw [htable, hres] at hclosed
      exact (hclosed rfl).elim
  · rename_i hconstant hcolumn
    exact .inl ⟨fun ⟨v, hv, _⟩ => hconstant v hv, _, rfl,
      .itself hconstant fun ref heq => (hcolumn ref heq).elim⟩

theorem sortKeys_refuses (h : ∃ key ∈ keys, (a.expr key.expr).IsMisplaced items) :
    Refuses .undefinedColumn (keys.mapM fun key => do
      pure { key with expr := ← BindM.ofExcept (sortTarget a items key.expr) }) := by
  induction keys with
  | nil =>
    obtain ⟨_, hmem, _⟩ := h
    cases hmem
  | cons first rest ih =>
    rw [mapM_cons]
    rcases sortTarget_cases a items first with ⟨hplaced, x, htarget, _⟩ | hrefused
    · rw [htarget]
      refine (ih ?_).bind _
      obtain ⟨key, hmem, hkey⟩ := h
      rcases mem_cons.mp hmem with rfl | hmem
      · exact (hplaced hkey).elim
      · exact ⟨key, hmem, hkey⟩
    · exact ((Refuses.ofExcept hrefused).bind _).bind _

theorem unifies_of_sortTarget {key' : SortKey} (h : sortTarget a items key.expr = .ok key'.expr)
    (hdirection : key'.direction = key.direction) : Unifies (a.expr key.expr) a items key key' := by
  rcases sortTarget_cases a items key with ⟨_, x, htarget, hunifies⟩ | ⟨_, hrefused⟩
  · obtain rfl : x = key'.expr := Except.ok.inj (htarget.symm.trans h)
    rwa [← hdirection] at hunifies
  · cases h.symm.trans hrefused

theorem bindOrdering_refuses (rec : Recur)
    (h : ∃ key ∈ keys, (s.exprs.expr key.expr).IsMisplaced items) :
    ∃ text t, bindOrdering rec items keys s = .error (.refused ⟨.undefinedColumn, text⟩) t :=
  (sortKeys_refuses h).bind (fun keys => do
    keys.forM fun key => bindItem rec key.expr
    pure keys) s

/-! ### Blocks -/

theorem bindBranchWith_ordering (env : Accessor) (rec : Recur) (q : Select) (depth : Nat) :
    bindBranchWith env rec q depth =
      (do let q0 ← bindBranchWith env rec { q with ordering := none } depth
          let ordering ← bindOptional (bindOrdering rec q0.items) q.ordering
          pure { q0 with ordering := ordering }) := by
  simp only [bindBranchWith, bindOptional, bind_assoc, pure_bind]

theorem expr_key_eq (h : bindBranchWith env (recurTo env levels) { q with ordering := none } depth s = .ok q0 s0)
    (htree : s.exprs.TreeShaped q.exprs) (hkeys : q.ordering = some keys) (hkey : key ∈ keys) :
    s0.exprs.expr key.expr = s.exprs.expr key.expr := by
  obtain ⟨K, huses, hnodup⟩ := htree
  rw [Select.exprs_eq, hkeys] at huses
  obtain ⟨K12, K3, rfl, huses, huses3⟩ := huses.split
  obtain ⟨K1, K2, rfl, huses1, huses2⟩ := huses.split
  have hmem : key.expr ∈ K2 := huses2.mem (mem_map_of_mem hkey)
  -- The other clauses lead to `K1` and `K3` only.
  have hothers := huses1.append huses3
  have hconfined := ((bindBranchWith_binds (recurTo_derived levels) h).confined hothers.encloses fun x hx => by
    rw [BindTask.mentioned, Select.exprs_eq] at hx
    exact .inl (hothers.mem (by simpa using hx))).1
  refine hconfined.kept _ ?_
  rintro (hother | hnew)
  · rw [nodup_append, nodup_append] at hnodup
    rcases mem_append.mp hother with hother | hother
    · exact hnodup.1.2.2 _ hother _ hmem rfl
    · exact hnodup.2.2 _ (mem_append_right _ hmem) _ hother rfl
  · exact absurd (huses2.lt_size hmem) (Nat.not_lt.mpr hnew)

/-! ### Plans -/

/-- The keys by which the rows of the first branch of a plan are sorted. -/
def Plan.sortKeys? : Plan → Option (List SortKey)
  | .limit _ _ keys _ => some keys
  | .union left _ => left.sortKeys?
  | _ => none

theorem Plan.sortKeys?_attachCte {p p' body : Plan} {name : String} (h : p.attachCte name body = some p') :
    p'.sortKeys? = p.sortKeys? := by
  have hattaches := Plan.attaches_of_attachCte h
  clear h
  induction hattaches with
  | scan => rfl
  | under hf _ _ ih =>
    cases hf with
    | unionLeft => exact ih
    | _ => rfl

theorem sortKeys?_attachCtes (plans : List (String × Plan)) (plan : Plan) :
    (attachCtes plans plan).sortKeys? = plan.sortKeys? := by
  induction plans with
  | nil => rfl
  | cons entry rest ih =>
    show (((attachCtes rest plan).attachCte entry.1 entry.2).getD (attachCtes rest plan)).sortKeys? = _
    cases hattach : (attachCtes rest plan).attachCte entry.1 entry.2 with
    | none => exact ih
    | some p => exact (Plan.sortKeys?_attachCte hattach).trans ih

theorem lowerQuery_sortKeys {ctes : List VisibleCte} {plan : Plan} {t t' : LowerState}
    (h : lowerQuery env fuel ctes q t = .ok plan t') (hkeys : q.ordering = some keys) :
    plan.sortKeys? = some keys := by
  cases fuel with
  | zero => cases h
  | succ fuel =>
    obtain ⟨_, _, _, body, _, _, _, hbody, hunion, rfl⟩ := lowerQueryWith_run h
    rw [sortKeys?_attachCtes]
    obtain ⟨_, _, _, _, _, _, _, _, _, hlimit⟩ := lowerBody_run hbody
    have hsorted : body.sortKeys? = some keys := by
      rcases lowerLimit_ok hlimit with ⟨hnone, _⟩ | ⟨_, _, rfl⟩
      · rw [hkeys] at hnone
        cases hnone
      · rw [hkeys]
        rfl
    cases hright : q.union with
    | none =>
      simp only [hright, run_pure] at hunion
      obtain ⟨rfl, _⟩ := hunion
      exact hsorted
    | some =>
      simp only [hright, run_bind, run_pure] at hunion
      obtain ⟨_, _, _, rfl, _⟩ := hunion
      exact hsorted

/-- For every block whose other clauses are bound, and whose expressions are not shared: if a key of ORDER BY
is a constant that is neither a double nor an integer from one to the number of entries of the select
list, without its stars, then the block is refused, for an undefined column.  If it is bound, then each
key is the entry at its position, the first entry of its name or itself, with its direction.  Every plan
of the block sorts by these keys in their order. -/
theorem order_by_unifies
    (h : bindBranchWith env (recurTo env levels) { q with ordering := none } depth s = .ok q0 s0)
    (htree : s.exprs.TreeShaped q.exprs) (hkeys : q.ordering = some keys) :
    ((∃ key ∈ keys, (s.exprs.expr key.expr).IsMisplaced q0.items) → ∃ text t,
      bindBranchWith env (recurTo env levels) q depth s = .error (.refused ⟨.undefinedColumn, text⟩) t) ∧
    ∀ q' s', bindBranchWith env (recurTo env levels) q depth s = .ok q' s' →
      q'.items = q0.items ∧ ∃ keys', q'.ordering = some keys' ∧
        Forall₂ (fun key key' => Unifies (s.exprs.expr key.expr) s0.exprs q0.items key key') keys keys' ∧
        ∀ fuel ctes t plan t', lowerQuery env fuel ctes q' t = .ok plan t' →
          plan.sortKeys? = some keys' := by
  have hexpr : ∀ key ∈ keys, s0.exprs.expr key.expr = s.exprs.expr key.expr := fun _ =>
    expr_key_eq h htree hkeys
  have hbind (f : Select → BindM Select) :
      (bindBranchWith env (recurTo env levels) { q with ordering := none } depth >>= f) s = f q0 s0 := by
    show EStateM.bind _ f s = _
    rw [EStateM.bind, h]
  rw [bindBranchWith_ordering, hkeys]
  simp only [hbind]
  refine ⟨fun ⟨key, hmem, hkey⟩ => ?_, fun q' s' hrun => ?_⟩
  · obtain ⟨text, t, herror⟩ := bindOrdering_refuses (recurTo env levels) (s := s0) ⟨key, hmem, hexpr key hmem ▸ hkey⟩
    refine ⟨text, t, ?_⟩
    show EStateM.bind (EStateM.bind _ _) _ s0 = _
    rw [EStateM.bind, EStateM.bind, herror]
  · obtain ⟨ordering, _, hordering, hpure⟩ := run_bind.mp hrun
    obtain ⟨rfl, rfl⟩ := run_pure.mp hpure
    obtain ⟨hsorts, _⟩ := bindOrdering_binds (recurTo_derived levels) hordering
    cases hsorts with
    | @some _ keys' htargets =>
      refine ⟨rfl, keys', rfl, ?_, fun _ _ _ _ _ hlower => lowerQuery_sortKeys hlower rfl⟩
      refine ((forall₂_and_left _ _).mpr ⟨hexpr, htargets⟩).imp fun key key' ⟨hsame, htarget, hdirection⟩ => ?_
      rw [← hsame]
      exact unifies_of_sortTarget htarget hdirection

/-- The block of a SELECT statement starts with the expressions of the statement, and its other clauses are
bound whenever the statement is. -/
theorem select_ordered_block {p : Parsed} {parameters : List Value} {b : Bound} (hp : p.statement = .select q)
    (h : (bind env p parameters).result = .ok b) :
    ∃ levels depth s q0 s0 q' s', BindState.exprs s = p.exprs ∧
      bindBranchWith env (recurTo env levels) { q with ordering := none } depth s = .ok q0 s0 ∧
      bindBranchWith env (recurTo env levels) q depth s = .ok q' s' ∧ b.statement = .select q' := by
  obtain ⟨_, hrun, _⟩ := bind_run h
  rw [hp] at hrun
  simp only [bindStatementWith, run_bind, run_pure] at hrun
  obtain ⟨_, _, hquery, hstatement, _⟩ := hrun
  generalize bindLevels env p = levels at hquery
  obtain _ | _ | levels := levels
  · cases hquery
  · simp only [recurTo, bindQuery, bindQueryWith, run_bind, run_get, run_inScope] at hquery
    obtain ⟨_, _, _, _, hbranch, _⟩ := hquery
    cases hbranch
  · simp only [recurTo, bindQuery, bindQueryWith, run_bind, run_get, run_inScope] at hquery
    obtain ⟨_, _, ⟨rfl, rfl⟩, _, hbranch, _⟩ := hquery
    have hbranch : bindBranchWith env (recurTo env levels) q _ _ = .ok _ _ := hbranch
    have hordering := hbranch
    rw [bindBranchWith_ordering, run_bind] at hordering
    obtain ⟨q0, s0, h0, _⟩ := hordering
    exact ⟨levels, _, _, q0, s0, _, _, rfl, h0, hbranch, hstatement.symm⟩

/-- `SELECT *, a AS x FROM t ORDER BY 3 DESC, b, -a` -/
def sortedRow : Select :=
  { items := [0, 1], source := some (.table (.named "t" "t"))
    ordering := some [⟨2, .descending⟩, ⟨3, .ascending⟩, ⟨4, .ascending⟩] }

def sortedRows : Parsed :=
  { statement := .select sortedRow
    exprs := ⟨#[.ofExpr .star, { ExprNode.ofExpr (.column { column := "a" }) with knownAs := some ⟨"x", none⟩ },
      .ofExpr (.constant (.ofByte 3)), .ofExpr (.column { column := "b" }), .ofExpr (.operate .negate [5]),
      .ofExpr (.column { column := "a" })]⟩ }

/-- What the keys are once the statement is bound. -/
def boundKeys? : Option (List ExprId) :=
  match (bind twoColumns sortedRows []).result with
  | .ok ⟨.select q, _, _⟩ => q.ordering.map (·.map (·.expr))
  | _ => none

/-- A position, the name of an entry that a star stands for, and a key of its own. -/
theorem sortedRow_unifies :
    ∃ b q' q0 s0 keys', (bind twoColumns sortedRows []).result = .ok b ∧ b.statement = .select q' ∧
      q'.ordering = some keys' ∧ keys'.map (·.expr) = [1, 7, 4] ∧ Forall₂ (fun key key' =>
        Unifies (sortedRows.exprs.expr key.expr) (BindState.exprs s0) (Select.items q0) key key')
        [⟨2, .descending⟩, ⟨3, .ascending⟩, ⟨4, .ascending⟩] keys' := by
  have hfacts : sortedRows.exprs.isTreeShaped 8 sortedRow.exprs = true ∧ boundKeys? = some [1, 7, 4] := by
    decide +kernel
  obtain ⟨htree, hbound⟩ := hfacts
  unfold boundKeys? at hbound
  split at hbound
  · rename_i q a hb
    obtain ⟨_, _, s, q0, s0, q', s', hstore, h0, h, hstatement⟩ := select_ordered_block rfl hb
    cases hstatement
    have htree := treeShaped_of_isTreeShaped htree
    rw [← hstore] at htree
    obtain ⟨_, keys', hkeys', hunifies, _⟩ := (order_by_unifies h0 htree rfl).2 _ _ h
    rw [hkeys', Option.map_some, Option.some.injEq] at hbound
    exact ⟨_, _, q0, s0, keys', hb, rfl, hkeys', hbound, hstore ▸ hunifies⟩
  · cases hbound

end SqlAnalysis
