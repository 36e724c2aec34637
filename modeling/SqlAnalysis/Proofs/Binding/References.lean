import SqlAnalysis.Proofs.Binding.OutputAliases
import SqlAnalysis.Proofs.Binding.ScopeDiscipline
import SqlAnalysis.Proofs.Binding.StatementParts

/-!
# Table references and their serials

In a bound statement a serial stands for one table reference, wherever the reference is: in FROM
clauses, WITH entries, branches of UNION, derived tables and subqueries, or as the target of a
change.  A resolved column carries the alias of the reference that it belongs to.

What a reference exposes is said twice.  In the bound statement a table of the catalog has the column, or a
select list an item with its number; but the type of an item, and the name of a column of a WITH entry, may
still change after it was read, if the base case of a recursive entry is bound again.  So the run says the
rest: a column is looked up in the open scopes, and these show what the references stand for at that time.

* **`bind_references`**: the serials tell the references apart, and every resolved column belongs to
  exactly one of them.
-/

namespace SqlAnalysis

open List Arena

variable {tasks : List BindTask} {v v' : BindView} {w : Weights} {a a' : Arena} {L : Ledger}
  {x : ExprId} {q : Select}

variable {env : Accessor}

/-! ### One part after the other -/

namespace BindsParts

theorem evolves (h : BindsParts env tasks v v') : Evolves v.exprs v'.exprs := by
  induction h with
  | nil => exact (Adjusts.refl _).toEvolves
  | part hbinds hready _ _ ih => exact (hbinds.progress (hready _)).toEvolves.trans ih
  | copy _ hcopy _ ih => exact (Adjusts.of_appends hcopy.appends).toEvolves.trans ih
  | rest hrests _ ih =>
    rw [← hrests.exprs]
    exact ih

theorem complete (h : BindsParts env tasks v v') (hfilled : v.exprs.Filled) :
    v'.exprs.Complete (tasks.flatMap BindTask.reached) := by
  induction h with
  | nil => exact .nil _
  | part hbinds hready _ hrest ih =>
    obtain ⟨hfilled1, hfirst⟩ := hbinds.complete (hready _) hfilled
    rw [flatMap_cons]
    exact (hfirst.evolve hrest.evolves).append (ih hfilled1)
  | copy _ hcopy _ ih => exact ih (hfilled.adjust (.of_appends hcopy.appends))
  | rest hrests _ ih =>
    rw [← hrests.exprs] at hfilled
    exact ih hfilled

end BindsParts

theorem PartRule.parts {P : NamedPart → Arena → Prop} (hP : PartRule env P)
    (h : BindsParts env tasks v v') (hbefore : ∀ p, v.exprs.BoundPart p → P p v.exprs) :
    (∀ p, P p v.exprs → P p v'.exprs) ∧ (∀ p ∈ tasks.flatMap BindTask.made, P p v'.exprs) ∧
      ∀ p, v'.exprs.BoundPart p → P p v'.exprs := by
  induction h with
  | nil => exact ⟨fun _ hp => hp, forall_mem_nil _, hbefore⟩
  | part hbinds hready hplain _ ih =>
    obtain ⟨hkeep, hmade, hbound⟩ := ih (hP.bound hbinds (hready _) hplain hbefore)
    rw [flatMap_cons]
    exact ⟨fun p hp => hkeep p (hP.keep hbinds (hready _) hplain hp),
      forall_mem_append.mpr ⟨fun p hp => hkeep p (hP.made hbinds p hp), hmade⟩, hbound⟩
  | copy _ hcopy _ ih =>
    have happends := hcopy.appends
    obtain ⟨hkeep, hrest⟩ := ih fun p hp =>
      hP.copy happends (hbefore p ((Adjusts.of_appends happends).boundPart_iff.mp hp))
    exact ⟨fun p hp => hkeep p (hP.copy happends hp), hrest⟩
  | rest hrests _ ih =>
    rw [← hrests.exprs] at hbefore ⊢
    exact ih hbefore

/-! ### Serials -/

def Weights.ofSerial (n : Nat) : Weights := { serial := fun m => if m = n then 1 else 0 }

namespace Weights

variable {n : Nat}

theorem ofPart_ofSerial (p : NamedPart) :
    (ofSerial n).ofPart p = if p.alias?.bind (·.serial) = some n then 1 else 0 := by
  rw [ofPart, ofNumbers_eq_zero _ fun _ => rfl, Nat.add_zero]
  cases hk : p.alias? with
  | none => rfl
  | some k =>
    rw [Option.map_some, Option.getD_some, ofAlias, Option.bind_some]
    cases k.serial with
    | none => rfl
    | some => simp [ofSerial]

theorem sum_ofSerial (parts : List NamedPart) :
    (parts.map (ofSerial n).ofPart).sum =
      ((parts.filterMap NamedPart.alias?).map (·.serial)).count (some n) := by
  induction parts with
  | nil => rfl
  | cons p parts ih =>
    rw [map_cons, sum_cons, ih, ofPart_ofSerial]
    cases hk : p.alias? with
    | none => simp [hk]
    | some k =>
      rw [filterMap_cons, hk, Option.bind_some, map_cons, count_cons]
      simp only [beq_iff_eq]
      omega

theorem taken_ofSerial (v : BindView) :
    (ofSerial n).taken v = if n < v.nextSerial then 1 else 0 := by
  simp [taken, ofSerial, Finset.sum_ite_eq']

theorem store_appends (h : a.Appends a') : w.store a' = w.store a := by
  rw [store, store, ← Finset.sum_range_add_sum_Ico _ h.size_le,
    Finset.sum_eq_zero (s := Finset.Ico _ _) fun x hx =>
      w.ofExpr_of_isSubquery (h.plain (Finset.mem_Ico.mp hx).1), Nat.add_zero]
  exact Finset.sum_congr rfl fun x hx => by rw [h.expr (Finset.mem_range.mp hx)]

end Weights

theorem Names.of_appends {E : ExprId → Prop} (h : v.exprs.Appends a)
    (hE : ∀ x, v.exprs.size ≤ x → x < a.size → E x) : Names E v { v with exprs := a } := by
  refine .of_knownAs le_rfl fun x hx => ?_
  rcases Nat.lt_or_ge x v.exprs.size with hlt | hge
  · exact congrArg ExprNode.knownAs (h.node hlt)
  · have hge' : a.size ≤ x := Nat.le_of_not_lt fun hlt => hx (hE x hge hlt)
    rw [node_of_size_le hge, node_of_size_le hge']

theorem BindsParts.exists_copied (h : BindsParts env tasks v v') : ∃ copied : List ExprId,
      (∀ w : Weights, (tasks.map w.made).sum + w.ofItems copied + w.store v'.exprs + w.taken v ≤
        (tasks.map w.given).sum + w.store v.exprs + w.taken v') ∧
      Names (fun x => x ∈ copied ∨ ∃ task ∈ tasks, task.EntryItem v'.exprs x) v v' := by
  induction h with
  | nil => exact ⟨[], fun w => by simp, .refl _ _⟩
  | @part task tasks v v1 v' hbinds hready hplain hrest ih =>
    obtain ⟨copied, hweight, hnames⟩ := ih
    refine ⟨copied, fun w => ?_, ?_⟩
    · have hfirst := hbinds.weight_le (hready _) w
      have hrest := hweight w
      simp only [map_cons, sum_cons]
      omega
    · refine (hbinds.names (hready _) hplain).mono (fun x hx => ?_) |>.trans (hnames.mono ?_)
      · exact .inr ⟨task, mem_cons_self, hx.mono (fun p hp => .inl hp)
          fun p hp => hrest.evolves.boundPart hp⟩
      · rintro x (hx | ⟨task', htask, hx⟩)
        · exact .inl hx
        · exact .inr ⟨task', mem_cons_of_mem _ htask, hx⟩
  | @copy _ tasks a v v' _ hcopy hrest ih =>
    have happends := hcopy.appends
    obtain ⟨copied, hweight, hnames⟩ := ih
    refine ⟨range' v.exprs.size (a.size - v.exprs.size) ++ copied, fun w => ?_, ?_⟩
    · have hsum := w.sum_range_add v.exprs.size (a.size - v.exprs.size)
      rw [Nat.add_sub_cancel' happends.size_le] at hsum
      have hrest := hweight w
      simp only [Weights.taken, Weights.store_appends happends, Weights.ofItems_append] at hrest ⊢
      omega
    · refine (Names.of_appends happends fun x hge hlt => .inl (mem_append_left _ ?_)).trans
        (hnames.mono fun x hx => hx.imp_left (mem_append_right _))
      exact mem_range'_1.mpr ⟨hge, by omega⟩
  | rest hrests hrest ih =>
    obtain ⟨copied, hweight, hnames⟩ := ih
    refine ⟨copied, fun w => ?_, ?_⟩
    · have htaken := w.taken_mono ((congrArg size hrests.exprs.symm).le) hrests.nextSerial
        (hrests.nextTemp.symm.le)
      have hrest := hweight w
      rw [hrests.exprs] at hrest
      omega
    · exact Names.trans (.of_knownAs hrests.nextSerial fun x _ => by rw [hrests.exprs]) hnames

/-! ### Columns -/

/-- The ledger of a store in which the aliases with serials are kept, those of items of WITH entries
apart. -/
def Ledger.naming (part : NamedPart → Prop) (a : Arena) : Ledger where
  part := part
  moment a' := ∀ x, (¬∃ name serials ids, x ∈ ids ∧ part (.entry name serials ids)) → ∀ name n,
    (a'.node x).knownAs = some ⟨name, some n⟩ → (a.node x).knownAs = some ⟨name, some n⟩

theorem Ledger.closed_naming (env : Accessor) (part : NamedPart → Prop) (a : Arena) :
    (naming part a).Closed env where
  binds hbinds hready hplain hanchors x hx name n hn := by
    refine hanchors.moment x hx name n ((hbinds.names hready hplain).kept x ?_ name n hn)
    rintro ⟨name, serials, ids, hmem, hentry⟩
    exact hx ⟨name, serials, ids, hmem, hentry.elim (hanchors.made _) (hanchors.bound _)⟩
  finish _ h x hx name n hn := by
    refine h x hx name n ?_
    rw [knownAs_finish]
    exact hn
  query h x hx name n hn := by
    refine h x hx name n ?_
    simpa [markSubquery] using hn
  derived hnames h x hx name n hn := h x hx name n (hnames.knownAs_eq hn)
  entry hnames hpart h x hx name n hn := by
    obtain ⟨entry, serials, hpart⟩ := hpart
    exact h x hx name n ((hnames.knownAs_eq fun hmem => hx ⟨entry, serials, _, hmem, hpart⟩).trans hn)
  copy happends h x hx name n hn := by
    refine h x hx name n ?_
    rw [happends.node (Nat.lt_of_not_le fun hle => by rw [node_of_size_le hle] at hn; cases hn)]
    exact hn

namespace Ledger

theorem Columns.copies (h : L.Columns env a) (hcopy : a.Copies a') : L.Columns env a' := by
  intro x ref hx hres
  rcases Nat.lt_or_ge x a.size with hlt | hge
  · rw [hcopy.expr hlt] at hx
    rw [hcopy.node hlt]
    exact h x ref hx hres
  · rw [hcopy.unresolved hge hx] at hres
    cases hres

theorem Anchors.before_seq (hL : L.Closed env) (h : BindsSeq env tasks v v')
    (hanchors : L.Anchors (tasks.flatMap BindTask.made) v'.exprs) : L.Anchors [] v.exprs := by
  induction h with
  | nil => exact hanchors
  | part hbinds hready hplain _ ih =>
    rw [flatMap_cons] at hanchors
    obtain ⟨hfirst, hothers⟩ := forall_mem_append.mp hanchors.made
    exact .before hL hbinds (hready _) hplain ((ih (hanchors.congr hothers)).congr hfirst) (forall_mem_nil _)
  | copy _ hcopy _ ih =>
    have hafter := ih hanchors
    have happends := hcopy.appends
    exact ⟨hafter.made, fun p hp => hafter.bound p ((Adjusts.of_appends happends).boundPart_iff.mpr hp),
      hL.copy happends hafter.moment⟩
  | opened _ ih | closed _ ih => exact ih hanchors

/-- **Parts that are bound one after the other show and resolve only what is in the ledger.** -/
theorem bindsSeq_columns (hL : L.Closed env) (h : BindsSeq env tasks v v') (henv : env.Unresolved)
    (hv : v.Ledgered env L) (hanchors : L.Anchors (tasks.flatMap BindTask.made) v'.exprs) :
    L.Columns env v'.exprs := by
  induction h with
  | nil => exact hv.columns
  | part hbinds hready hplain hrest ih =>
    rw [flatMap_cons] at hanchors
    obtain ⟨hfirst, hothers⟩ := forall_mem_append.mp hanchors.made
    have hrest := Anchors.before_seq hL hrest (hanchors.congr hothers)
    exact ih (hbinds.ledgered hL (hready _) hplain hv (hrest.congr hfirst)) (hanchors.congr hothers)
  | copy hcolumn hcopy _ ih =>
    obtain ⟨_, _, htable, hmem⟩ := hcolumn
    exact ih ⟨hv.columns.copies (hcopy.copies (henv htable _ hmem)), hv.scopes⟩ hanchors
  | opened _ ih => exact ih ⟨hv.columns, hv.scopes.open_⟩ hanchors
  | closed _ ih => exact ih ⟨hv.columns, hv.scopes.tail⟩ hanchors

end Ledger

/-! ### Fresh statements -/

/-- A table reference without a serial, or a WITH entry without numbers. -/
structure NamedPart.Fresh (p : NamedPart) : Prop where
  serial : p.alias?.bind (·.serial) = none
  numbers : ∀ n ∈ p.numbers, n = none

theorem NamedPart.Fresh.of_alias {p : NamedPart} {k : Alias} (hk : p.alias? = some k)
    (h : k.serial.isNone = true) (hnumbers : p.numbers = []) : p.Fresh where
  serial := by rw [hk]; exact Option.isNone_iff_eq_none.mp h
  numbers := by rw [hnumbers]; exact forall_mem_nil _

theorem Weights.ofPart_of_fresh {p : NamedPart} (h : p.Fresh) : w.ofPart p = 0 := by
  have hnumbers : w.ofNumbers p.numbers = 0 := by
    refine sum_eq_zero fun x hx => ?_
    obtain ⟨n, hn, rfl⟩ := mem_map.mp hx
    rw [h.numbers n hn]
    rfl
  rw [ofPart, hnumbers, Nat.add_zero]
  cases hk : p.alias? with
  | none => rfl
  | some =>
    have hserial := h.serial
    rw [hk, Option.bind_some] at hserial
    rw [Option.map_some, Option.getD_some, ofAlias, hserial]
    rfl

mutual

theorem Select.fresh_named : (q : Select) → q.isFresh = true →
    ∀ p ∈ q.gather NamedPart.probe, p.Fresh
  | ⟨ctes, _, _, source, _, _, _, _, union, _⟩, h => by
    simp only [Select.isFresh, Bool.and_eq_true] at h
    rw [Select.gather]
    exact forall_mem_append.mpr ⟨forall_mem_append.mpr ⟨Cte.fresh_named ctes h.1.1.1,
      TableRef.fresh_namedOpt source h.1.1.2⟩, Select.fresh_namedOpt union h.1.2⟩

theorem Select.fresh_namedOpt : (right : Option Select) → Select.isFreshOpt right = true →
    ∀ p ∈ Select.gatherOpt NamedPart.probe right, p.Fresh
  | none, _ => forall_mem_nil _
  | some q, h => Select.fresh_named q h

theorem Cte.fresh_named : (cs : List Cte) → Cte.allFresh cs = true →
    ∀ p ∈ Cte.gatherAll NamedPart.probe cs, p.Fresh
  | [], _ => forall_mem_nil _
  | ⟨_, _, query, _⟩ :: rest, h => by
    simp only [Cte.allFresh, Bool.and_eq_true] at h
    refine forall_mem_cons.mpr ⟨⟨rfl, fun n hn => ?_⟩, forall_mem_append.mpr
      ⟨Select.fresh_named query h.1.2, Cte.fresh_named rest h.2⟩⟩
    obtain ⟨k, hk, rfl⟩ := mem_map.mp hn
    exact Option.isNone_iff_eq_none.mp (all_eq_true.mp h.1.1 k hk)

theorem TableRef.fresh_namedOpt : (item : Option TableRef) → TableRef.isFreshOpt item = true →
    ∀ p ∈ TableRef.gatherOpt NamedPart.probe item, p.Fresh
  | none, _ => forall_mem_nil _
  | some item, h => TableRef.fresh_named item h

theorem TableRef.fresh_named : (item : TableRef) → item.isFresh = true →
    ∀ p ∈ item.gather NamedPart.probe, p.Fresh
  | .table base, h => forall_mem_singleton.mpr (.of_alias rfl h rfl)
  | .derived query knownAs, h => by
    simp only [TableRef.isFresh, Bool.and_eq_true] at h
    exact forall_mem_cons.mpr ⟨.of_alias rfl h.2 rfl, Select.fresh_named query h.1⟩
  | .join _ left right _, h => by
    simp only [TableRef.isFresh, Bool.and_eq_true] at h
    exact forall_mem_append.mpr ⟨TableRef.fresh_named left h.1, TableRef.fresh_named right h.2⟩
  | .list items, h => TableRef.fresh_namedAll items h

theorem TableRef.fresh_namedAll : (items : List TableRef) → TableRef.allFresh items = true →
    ∀ p ∈ TableRef.gatherAll NamedPart.probe items, p.Fresh
  | [], _ => forall_mem_nil _
  | item :: rest, h => by
    simp only [TableRef.allFresh, Bool.and_eq_true] at h
    exact forall_mem_append.mpr ⟨TableRef.fresh_named item h.1, TableRef.fresh_namedAll rest h.2⟩

end

/-- Whether nothing of a statement is bound. -/
def Statement.isFresh : Statement → Bool
  | .select q => q.isFresh
  | .insert i =>
    i.table.knownAs.serial.isNone && match i.source with
      | .query q => q.isFresh
      | .values _ => true
  | .update u => u.table.knownAs.serial.isNone
  | .delete d => d.table.knownAs.serial.isNone
  | .explain inner => inner.isFresh
  | .create .. | .drop _ | .analyze _ => true

theorem Statement.fresh_named : (statement : Statement) → statement.isFresh = true →
    ∀ p ∈ statement.named, p.Fresh
  | .select q, h => Select.fresh_named q h
  | .insert ⟨table, _, source⟩, h => by
    simp only [Statement.isFresh, Bool.and_eq_true] at h
    refine forall_mem_cons.mpr ⟨.of_alias rfl h.1 rfl, ?_⟩
    cases source with
    | query q => exact Select.fresh_named q h.2
    | values => exact forall_mem_nil _
  | .update u, h => forall_mem_singleton.mpr (.of_alias rfl h rfl)
  | .delete d, h => forall_mem_singleton.mpr (.of_alias rfl h rfl)
  | .explain inner, h => Statement.fresh_named inner h
  | .create .., _ | .drop _, _ | .analyze _, _ => forall_mem_nil _

/-- Whether nothing of a statement or of its expressions is bound. -/
def Parsed.isFresh (p : Parsed) : Bool := p.statement.isFresh && p.exprs.isFresh

theorem Weights.sum_of_fresh {parts : List NamedPart} (h : ∀ p ∈ parts, p.Fresh) :
    (parts.map w.ofPart).sum = 0 := by
  refine sum_eq_zero fun x hx => ?_
  obtain ⟨p, hp, rfl⟩ := mem_map.mp hx
  exact ofPart_of_fresh (h p hp)

theorem Weights.store_of_fresh (hw : ∀ x, w.item x = 0) (h : a.isFresh = true) : w.store a = 0 := by
  refine Finset.sum_eq_zero fun x _ => ?_
  have hx := isFresh_expr h x
  cases he : a.expr x with
  | subquery q =>
    rw [he] at hx
    show w.ofQuery q = 0
    rw [ofQuery, w.ofItems_eq_zero hw, Nat.zero_add]
    exact sum_of_fresh (Select.fresh_named q hx)
  | _ => rfl

/-! ### Bound statements -/

/-- The subqueries of a store that are bound. -/
def Arena.boundQueries (a : Arena) : List Select :=
  (range a.size).filterMap fun x => (a.query? x).filter (·.depth.isSome)

/-- The table references and WITH entries of a bound statement and of its subqueries. -/
def Bound.named (b : Bound) : List NamedPart :=
  b.statement.named ++ b.exprs.boundQueries.flatMap (·.named)

/-- The aliases of all table references of a bound statement. -/
def Bound.aliases (b : Bound) : List Alias := b.named.filterMap NamedPart.alias?

/-- A table reference of a bound statement exposes a column: of the catalog's table, with the number of
a column of a WITH entry, or with the alias of an item of a derived table. -/
def Bound.Exposes (env : Accessor) (b : Bound) (p : NamedPart) (c : ResolvedColumn) : Prop :=
  ∃ (t : ScopeTable) (depth : Nat), p.alias? = some t.knownAs ∧ c ∈ t.columns depth ∧
    (Ledger.naming (· ∈ b.named) b.exprs).Shows env p t.source

theorem Arena.mem_boundQueries {p : NamedPart} :
    p ∈ a.boundQueries.flatMap (·.named) ↔ a.BoundPart p := by
  constructor
  · intro hp
    obtain ⟨q, hq, hp⟩ := mem_flatMap.mp hp
    obtain ⟨x, _, hx⟩ := mem_filterMap.mp hq
    obtain ⟨hx, hd⟩ := Option.filter_eq_some_iff.mp hx
    exact ⟨x, q, query?_eq_some.mp hx, hd, hp⟩
  · rintro ⟨x, q, hx, hd, hp⟩
    refine mem_flatMap.mpr ⟨q, mem_filterMap.mpr ⟨x, ?_, ?_⟩, hp⟩
    · exact mem_range.mpr (lt_size_of_isSubquery (by rw [hx]; rfl))
    · exact Option.filter_eq_some_iff.mpr ⟨query?_eq_some.mpr hx, hd⟩

theorem Weights.boundQueries_le (w : Weights) (a : Arena) :
    ((a.boundQueries.flatMap (·.named)).map w.ofPart).sum ≤ w.store a := by
  rw [boundQueries, store]
  generalize a.size = size
  induction size with
  | zero => exact le_rfl
  | succ size ih =>
    rw [range_succ, filterMap_append, flatMap_append, map_append, sum_append,
      Finset.sum_range_succ]
    refine Nat.add_le_add ih ?_
    cases hq : (a.query? size).filter (·.depth.isSome) with
    | none => simp [hq]
    | some =>
      obtain ⟨hq', _⟩ := Option.filter_eq_some_iff.mp hq
      rw [query?_eq_some.mp hq']
      simp only [filterMap_cons, hq, filterMap_nil, flatMap_cons, flatMap_nil,
        append_nil]
      exact Nat.le_add_left _ _

theorem sum_map_flatMap {α β : Type} (f : α → List β) (g : β → Nat) (l : List α) :
    (l.map fun x => ((f x).map g).sum).sum = ((l.flatMap f).map g).sum := by
  induction l with
  | nil => rfl
  | cons x l ih => rw [map_cons, sum_cons, ih, flatMap_cons, map_append, sum_append]

theorem Weights.parts_le (hw : ∀ x, w.item x = 0) (h : BindsParts env tasks v v')
    (hfresh : v.exprs.isFresh = true) (hgiven : ∀ p ∈ tasks.flatMap BindTask.given, p.Fresh) :
    ((tasks.flatMap BindTask.made ++ v'.exprs.boundQueries.flatMap (·.named)).map w.ofPart).sum +
      w.taken v ≤ w.taken v' := by
  obtain ⟨copied, hweight, _⟩ := h.exists_copied
  have hbound := w.boundQueries_le v'.exprs
  have hmade : ((tasks.flatMap BindTask.made).map w.ofPart).sum ≤ (tasks.map w.made).sum := by
    rw [← sum_map_flatMap]
    exact sum_le_sum fun task _ => w.le_made task
  have hzero : (tasks.map w.given).sum = 0 := by
    refine sum_eq_zero fun x hx => ?_
    obtain ⟨task, htask, rfl⟩ := mem_map.mp hx
    rw [w.given_eq, w.ofItems_eq_zero hw, Nat.zero_add]
    exact sum_of_fresh fun p hp => hgiven p (mem_flatMap.mpr ⟨task, htask, hp⟩)
  have hweight := hweight w
  rw [hzero, store_of_fresh hw hfresh, w.ofItems_eq_zero hw] at hweight
  rw [map_append, sum_append]
  omega

section

variable {p : Parsed} {parameters : List Value} {b : Bound}

theorem Arena.not_isBound_of_isFresh (h : a.isFresh = true) (hx : a.expr x = .subquery q) :
    ¬q.depth.isSome = true := by
  have hfresh := isFresh_expr h x
  rw [hx] at hfresh
  rw [(Select.isFresh_iff.mp hfresh).2.2.2]
  exact Bool.false_ne_true

theorem Arena.not_boundPart_of_isFresh (h : a.isFresh = true) {part : NamedPart} :
    ¬a.BoundPart part := by
  rintro ⟨x, q, hx, hd, _⟩
  exact not_isBound_of_isFresh h hx hd

theorem Arena.filled_of_isFresh (h : a.isFresh = true) : a.Filled :=
  fun _ _ hx hd => (not_isBound_of_isFresh h hx hd).elim

theorem Arena.settled_of_isFresh (h : a.isFresh = true) : a.Settled :=
  fun _ _ hx hd => (not_isBound_of_isFresh h hx hd).elim

theorem Ledger.columns_of_isFresh (h : a.isFresh = true) : L.Columns env a := by
  intro x ref hx hres
  have hfresh := isFresh_expr h x
  rw [hx, Expr.isFresh, hres] at hfresh
  cases hfresh

namespace BindsStatement

theorem mem_named {statement : Statement} {v0 : BindView}
    (h : BindsStatement env statement b.statement tasks v0 v) (hstore : b.exprs = v.exprs)
    {part : NamedPart} :
    part ∈ b.named ↔ part ∈ tasks.flatMap BindTask.made ∨ v.exprs.BoundPart part := by
  rw [Bound.named, mem_append, mem_boundQueries, h.made, hstore]

section

variable (h : BindsStatement env p.statement b.statement tasks (BindState.initial env p parameters).view v)

include h

theorem isSome_serial (hstore : b.exprs = v.exprs) (hfresh : p.exprs.isFresh = true) :
    ∀ k ∈ b.aliases, k.serial.isSome = true := by
  intro k hk
  obtain ⟨part, hpart, hk⟩ := mem_filterMap.mp hk
  obtain ⟨_, hdone, hbound⟩ := (partRule_done env).parts h.binds.parts fun _ hp =>
    (not_boundPart_of_isFresh hfresh hp).elim
  have hpart : part.Done v.exprs := ((h.mem_named hstore).mp hpart).elim (hdone part) (hbound part)
  cases part with
  | table => cases hk; exact hpart.2.2
  | derived => cases hk; exact hpart.1.2
  | entry => cases hk

theorem nodup_serials
    (hstore : b.exprs = v.exprs) (hfresh : p.isFresh = true) : (b.aliases.map (·.serial)).Nodup := by
  obtain ⟨hstatement, hexprs⟩ := Bool.and_eq_true_iff.mp hfresh
  refine nodup_iff_count_le_one.mpr fun serial => ?_
  cases serial with
  | some n =>
    have hweight := Weights.parts_le (w := .ofSerial n) (fun _ => rfl) h.binds.parts hexprs (by
      rw [h.given]
      exact Statement.fresh_named _ hstatement)
    rw [h.made, ← hstore, Weights.taken_ofSerial v] at hweight
    rw [Bound.aliases, ← Weights.sum_ofSerial, Bound.named]
    split at hweight <;> omega
  | none =>
    rw [count_eq_zero_of_not_mem]
    · exact Nat.zero_le _
    · intro hmem
      obtain ⟨k, hk, hnone⟩ := mem_map.mp hmem
      have hsome := h.isSome_serial hstore hexprs k hk
      rw [hnone] at hsome
      cases hsome

theorem columns (henv : env.Unresolved) (hstore : b.exprs = v.exprs) (hfresh : p.exprs.isFresh = true) :
    (Ledger.naming (· ∈ b.named) b.exprs).Columns env b.exprs := by
  rw [hstore]
  refine Ledger.bindsSeq_columns (Ledger.closed_naming ..) h.binds henv
    ⟨Ledger.columns_of_isFresh hfresh, forall_mem_nil _, forall_mem_nil _⟩
    ⟨fun part hpart => (h.mem_named hstore).mpr (.inl hpart),
      fun part hpart => (h.mem_named hstore).mpr (.inr hpart), fun _ _ _ _ hn => hn⟩

theorem mem_boundQueries (hstore : b.exprs = v.exprs) (hfresh : p.exprs.isFresh = true) {id : ExprId}
    (hid : id ∈ b.statement.roots) (hx : b.exprs.Reaches id x) (hq : b.exprs.expr x = .subquery q) :
    q ∈ b.exprs.boundQueries := by
  have hcomplete := h.binds.parts.complete (filled_of_isFresh hfresh)
  rw [← hstore] at hcomplete
  have hd := hcomplete.of_reaches (h.reached hid) hx hq
  refine mem_filterMap.mpr ⟨x, ?_, ?_⟩
  · exact mem_range.mpr (lt_size_of_isSubquery (by rw [hq]; rfl))
  · exact Option.filter_eq_some_iff.mpr ⟨query?_eq_some.mpr hq, hd⟩

end

end BindsStatement

end

end SqlAnalysis
