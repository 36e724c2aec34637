import SqlAnalysis.Proofs.Binding.SelectLists

/-!
# Columns of derived tables

A resolved column of a derived table has the name and the number of one of its output columns, as the
select list has them when the whole statement is bound.

* **`bind_derived_column`**: a column of a derived table is just one of its output columns.
-/

namespace SqlAnalysis

open List

variable {part part' : NamedPart} {k : Alias} {x : ExprId}

variable {env : Accessor}

section

variable {p : Parsed} {parameters : List Value} {b : Bound} {q0 : Select}

theorem bind_select_statement (hp : p.statement = .select q0) (h : (bind env p parameters).result = .ok b) :
    ∃ q v, b.statement = .select q ∧ b.exprs = v.exprs ∧
      Binds env (.query q0 q) (BindState.initial env p parameters).view v ∧
      BindsStatement env p.statement b.statement [.query q0 q]
        (BindState.initial env p parameters).view v := by
  obtain ⟨q, v, hq, hstore, hbinds⟩ := bind_select_binds hp h
  rw [hp, hq]
  exact ⟨q, v, rfl, hstore, hbinds, .select hbinds⟩

theorem bind_eq_of_alias? (hp : p.statement = .select q0) (hfresh : p.isFresh = true)
    (h : (bind env p parameters).result = .ok b) (hpart : part ∈ b.named) (hpart' : part' ∈ b.named)
    (hk : part.alias? = some k) (hk' : part'.alias? = some k) : part = part' := by
  obtain ⟨_, _, _, hstore, _, hstatement⟩ := bind_select_statement hp h
  exact eq_of_nodup_filterMap (Nodup.of_map _ (hstatement.nodup_serials hstore hfresh)) hpart hpart' hk hk'

theorem bind_nodup_items (hp : p.statement = .select q0) (hfresh : p.isFresh = true)
    (htree : p.exprs.TreeShaped q0.exprs) (h : (bind env p parameters).result = .ok b) :
    (b.named.flatMap NamedPart.items).Nodup := by
  obtain ⟨_, _, hq, hstore, hbinds, _⟩ := bind_select_statement hp h
  obtain ⟨_, huses, hnodup⟩ := htree
  have hconfined := (hbinds.confined huses.encloses fun x hx => .inl (huses.mem hx)).1
  obtain ⟨_, hitems, _⟩ := (BindsParts.of_query hbinds).nodup_items
    (Bool.and_eq_true_iff.mp hfresh).2 huses hnodup (fun x => by
      rw [flatMap_singleton]
      exact (Select.count_outputs_le x q0).2) hconfined
  rw [flatMap_singleton] at hitems
  rw [Bound.named, hq, hstore]
  exact hitems.of_append_left

theorem NamedPart.eq_of_mem_items {parts : List NamedPart}
    (h : (parts.flatMap NamedPart.items).Nodup) (hpart : part ∈ parts) (hpart' : part' ∈ parts)
    (hx : x ∈ part.items) (hx' : x ∈ part'.items) : part = part' := by
  by_contra hne
  have : Std.Symm (Function.onFun Disjoint NamedPart.items) := ⟨fun _ _ hd => hd.symm⟩
  exact (nodup_flatMap.mp h).2.forall hpart hpart' hne hx hx'

theorem bind_derived_column (hp : p.statement = .select q0) (hfresh : p.isFresh = true)
    (hnames : p.exprs.isUnnumbered = true) (htree : p.exprs.TreeShaped q0.exprs)
    (h : (bind env p parameters).result = .ok b) {ids : List ExprId}
    (hpart : .derived ids k ∈ b.named) {ref : ColumnRef} (hx : b.exprs.expr x = .column ref)
    (hres : ref.isResolved = true) (hk : ref.table = some k) :
    ∃ (i : Nat) (id : ExprId) (n : Nat), ids[i]? = some id ∧
      (b.exprs.node id).knownAs = some ⟨ref.column, some n⟩ ∧ ref.columnId = Oid.temp n ∧
      ∀ (j : Nat) (id' : ExprId), ids[j]? = some id' → b.exprs.serial? id' = some n → j = i := by
  obtain ⟨q, v, _, hstore, hbinds, hstatement⟩ := bind_select_statement hp h
  have hexprs := (Bool.and_eq_true_iff.mp hfresh).2
  have hitems := bind_nodup_items hp hfresh htree h
  have hmade : ∀ part ∈ BindTask.made (.query q0 q), part ∈ b.named := fun part hp =>
    (hstatement.mem_named hstore).mpr (.inl (mem_append_left _ hp))
  have hbound : ∀ part, v.exprs.BoundPart part → part ∈ b.named := fun part hp =>
    (hstatement.mem_named hstore).mpr (.inr hp)
  have hledger := hbinds.ledgered (Ledger.closed_naming env (· ∈ b.named) v.exprs) trivial trivial
    ⟨Ledger.columns_of_isFresh hexprs, forall_mem_nil _,
      (forall_mem_nil _)⟩ ⟨hmade, hbound, fun _ _ _ _ hn => hn⟩
  rw [hstore] at hx ⊢
  obtain ⟨t, _, ⟨part, hmem, halias, hshows⟩, c, hc, hkind, _⟩ := hledger.columns x ref hx hres
  obtain rfl : c.ref = ref := Expr.column.inj (hkind.symm.trans hx)
  have hknown : t.knownAs = k := by
    rw [← ScopeTable.knownAs_of_mem_columns hc]
    exact Option.some.inj hk
  -- the table reference with the alias of the column is the derived table
  obtain rfl : part = .derived ids k :=
    bind_eq_of_alias? hp hfresh h hmem hpart (by rw [halias, hknown]) rfl
  have hother : ∀ id ∈ ids, ¬∃ name serials ids, id ∈ ids ∧ .entry name serials ids ∈ b.named := by
    rintro id hid ⟨name, serials, ids', hid', hentry⟩
    cases NamedPart.eq_of_mem_items hitems hmem hentry hid hid'
  obtain ⟨_, _⟩ := t
  cases hshows with
  | @derived _ _ a hmoment haliased =>
    obtain ⟨_, hcolumn, rfl⟩ := mem_map.mp hc
    obtain ⟨id, hid, rfl⟩ := mem_map.mp hcolumn
    obtain ⟨name, n, hname⟩ := haliased id hid
    obtain ⟨i, hi, hget⟩ := getElem_of_mem hid
    have hfinal := hmoment id (hother id hid) name n hname
    refine ⟨i, id, n, ?_, ?_, ?_, fun j id' hj hn => ?_⟩
    · rw [getElem?_eq_getElem hi, hget]
    · rw [hfinal]
      simp [ResolvedColumn.ref, hname]
    · simp [ResolvedColumn.ref, hname, DerivedColumn.id]
    · have hmade : ∀ id ∈ ids, ¬(BindTask.query q0 q).EntryItem v.exprs id := by
        rintro id hid ⟨name, serials, ids', hid', hentry⟩
        exact hother id hid ⟨name, serials, ids', hid', hentry.elim (hmade _) (hbound _)⟩
      have hserial : v.exprs.serial? id = some n := by rw [Arena.serial?, hfinal]; rfl
      have hnone : ∀ x, (BindState.initial env p parameters).view.exprs.serial? x ≠ some n := fun x hn => by
        cases hn.symm.trans (Arena.serial?_of_isUnnumbered hnames x)
      obtain ⟨_, _, honly⟩ :=
        ((hbinds.names trivial trivial).fresh id (hmade id hid) n hserial).resolve_left (hnone id)
      obtain rfl := (honly id' (hmade id' (mem_of_getElem? hj)) hn).resolve_right (hnone id')
      refine (List.getElem?_inj (List.getElem?_eq_some_iff.mp hj).1
        ((nodup_flatMap.mp hitems).1 _ hmem)).mp ?_
      rw [hj, List.getElem?_eq_getElem hi, hget]

end

end SqlAnalysis
