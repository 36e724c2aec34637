import SqlAnalysis.Proofs.Catalog.Entries
import SqlAnalysis.Proofs.Catalog.Hooks

/-!
# The tables of a catalog fit together

Objects are created under several transactions at a time, some creations are refused, and the end of a
transaction may take back what was created under it long before.  Calls do not keep consistency by
itself: by its name, a table might be taken back that was made under another transaction.  So the
invariant also says that a table is taken back only by the transaction that made it (`Session.Tidy`).

* **`catalog_consistent`**: the catalog of every session is consistent.
-/

namespace SqlAnalysis

open List

variable {id space : Oid} {columns : Schema} {name who : String}

/-! ### Consistent catalogs -/

/-- The tables of a catalog fit together. -/
structure Catalog.Consistent (c : Catalog) : Prop where
  next : c.nextId.isValid = true
  /-- No two objects of any kind have the same number. -/
  distinct : ∀ {x y id}, c.lookup x = some (.number id) → c.lookup y = some (.number id) → x = y
  numbered : ∀ {x id}, c.lookup x = some (.number id) → id.isValid = true ∧ id < c.nextId
  described : ∀ {space name id}, c.lookup (.table space name) = some (.number id) →
    ∃ columns, c.lookup (.schema id) = some (.columns columns)
  owned : ∀ {id columns}, c.lookup (.schema id) = some (.columns columns) →
    ∃! key : Oid × String, c.lookup (.table key.1 key.2) = some (.number id)
  columns : ∀ {id columns}, c.lookup (.schema id) = some (.columns columns) →
    columns.map (·.id) = range' 1 columns.length

theorem Schema.map_id_number (s : Schema) : s.number.map (·.id) = range' 1 s.number.length := by
  refine ext_getElem (by simp) fun i _ _ => ?_
  simp [number, Nat.add_comm]

namespace Catalog

variable {c c' : Catalog} {x : Slot}

theorem Consistent.lookup_next (h : c.Consistent) : c.lookup x ≠ some (.number c.nextId) :=
  fun hx => Nat.lt_irrefl _ (h.numbered hx).2

theorem Consistent.schema_lt (h : c.Consistent)
    (hid : c.lookup (.schema id) = some (.columns columns)) : id < c.nextId :=
  have ⟨_, hkey, _⟩ := h.owned hid
  (h.numbered hkey).2

theorem Consistent.lookup_schema_next (h : c.Consistent) : c.lookup (.schema c.nextId) = none := by
  refine Option.eq_none_iff_forall_not_mem.mpr fun content hcontent => ?_
  obtain ⟨_, _, rfl⟩ := Option.map_eq_some_iff.mp hcontent
  exact Nat.lt_irrefl _ (h.schema_lt hcontent)

theorem PutsTable.kept {content : Content} (hputs : c.PutsTable space name columns c')
    (h : c.Consistent) (hx : c.lookup x = some content) : c'.lookup x = some content := by
  rw [hputs.lookup, if_neg, if_neg, hx]
  · rintro rfl
    cases h.lookup_schema_next.symm.trans hx
  · rintro rfl
    cases hputs.free.symm.trans hx

theorem Consistent.puts (h : c.Consistent) (hx : x.isSingle = true) (hputs : c.Puts x c') :
    c'.Consistent := by
  have hnext : c.nextId < c'.nextId := by rw [hputs.next]; exact Nat.lt_succ_self _
  have htable (space : Oid) (name : String) :
      c'.lookup (.table space name) = c.lookup (.table space name) := by
    rw [hputs.lookup, if_neg]
    rintro rfl
    cases hx
  have hschema (id : Oid) : c'.lookup (.schema id) = c.lookup (.schema id) := by
    rw [hputs.lookup, if_neg]
    rintro rfl
    cases hx
  have hold {y : Slot} {id : Oid} (hy : c'.lookup y = some (.number id)) :
      (y = x ∧ id = c.nextId) ∨ (y ≠ x ∧ c.lookup y = some (.number id)) := by
    rw [hputs.lookup] at hy
    split at hy
    · rename_i heq
      cases hy
      exact .inl ⟨heq, rfl⟩
    · rename_i hne
      exact .inr ⟨hne, hy⟩
  refine ⟨?_, fun hy hz => ?_, fun hy => ?_, fun ht => ?_, fun hs => ?_, fun hs => ?_⟩
  · rw [hputs.next]
    exact bne_iff_ne.mpr (Nat.succ_ne_zero _)
  · rcases hold hy with ⟨rfl, rfl⟩ | ⟨_, hy⟩ <;> rcases hold hz with ⟨rfl, hid⟩ | ⟨_, hz⟩
    · rfl
    · exact (h.lookup_next hz).elim
    · exact (h.lookup_next (hid ▸ hy)).elim
    · exact h.distinct hy hz
  · rcases hold hy with ⟨_, rfl⟩ | ⟨_, hy⟩
    · exact ⟨h.next, hnext⟩
    · exact ⟨(h.numbered hy).1, (h.numbered hy).2.trans hnext⟩
  · rw [htable] at ht
    rw [hschema]
    exact h.described ht
  · rw [hschema] at hs
    simp only [htable]
    exact h.owned hs
  · rw [hschema] at hs
    exact h.columns hs

theorem Consistent.putsTable (h : c.Consistent) (hputs : c.PutsTable space name columns c') :
    c'.Consistent := by
  have hnext : c.nextId < c'.nextId := by rw [hputs.next]; exact Nat.lt_succ_self _
  have hold {y : Slot} {id : Oid} (hy : c'.lookup y = some (.number id)) :
      (y = .table space name ∧ id = c.nextId) ∨ (y ≠ .table space name ∧ c.lookup y = some (.number id)) := by
    rw [hputs.lookup] at hy
    split at hy
    · rename_i heq
      cases hy
      exact .inl ⟨heq, rfl⟩
    · rename_i hne
      split at hy
      · cases hy
      · exact .inr ⟨hne, hy⟩
  have hdistinct {y z : Slot} {id : Oid} (hy : c'.lookup y = some (.number id))
      (hz : c'.lookup z = some (.number id)) : y = z := by
    rcases hold hy with ⟨rfl, rfl⟩ | ⟨_, hy⟩ <;> rcases hold hz with ⟨rfl, hid⟩ | ⟨_, hz⟩
    · rfl
    · exact (h.lookup_next hz).elim
    · exact (h.lookup_next (hid ▸ hy)).elim
    · exact h.distinct hy hz
  have hschema {id : Oid} : c'.lookup (.schema id) =
      if id = c.nextId then some (.columns columns.number) else c.lookup (.schema id) := by
    rw [hputs.lookup, if_neg (by rintro ⟨⟩)]
    simp only [Slot.schema.injEq]
  have htable {id : Oid} {columns : Schema} (hs : c'.lookup (.schema id) = some (.columns columns)) :
      ∃ key : Oid × String, c'.lookup (.table key.1 key.2) = some (.number id) := by
    rw [hschema] at hs
    split at hs
    · rename_i hid
      exact ⟨(space, name), by rw [hputs.lookup, if_pos rfl, hid]⟩
    · obtain ⟨key, hkey, _⟩ := h.owned hs
      exact ⟨key, hputs.kept h hkey⟩
  refine ⟨?_, hdistinct, fun hy => ?_, fun ht => ?_, fun hs => ?_, fun hs => ?_⟩
  · rw [hputs.next]
    exact bne_iff_ne.mpr (Nat.succ_ne_zero _)
  · rcases hold hy with ⟨_, rfl⟩ | ⟨_, hy⟩
    · exact ⟨h.next, hnext⟩
    · exact ⟨(h.numbered hy).1, (h.numbered hy).2.trans hnext⟩
  · rcases hold ht with ⟨_, rfl⟩ | ⟨_, ht⟩
    · exact ⟨_, by rw [hschema, if_pos rfl]⟩
    · rw [hschema, if_neg ((h.numbered ht).2.ne)]
      exact h.described ht
  · obtain ⟨key, hkey⟩ := htable hs
    refine ⟨key, hkey, fun key' hkey' => ?_⟩
    injection hdistinct hkey' hkey with hspace hname
    exact Prod.ext hspace hname
  · rw [hschema] at hs
    split at hs
    · cases hs
      exact Schema.map_id_number columns
    · exact h.columns hs

theorem consistent_initial : Catalog.initial.Consistent := by
  have hempty : Consistent { routines := .builtins } := by
    have hnone (x : Slot) : Catalog.lookup { routines := .builtins } x = none := by cases x <;> rfl
    refine ⟨rfl, ?_, ?_, ?_, ?_, ?_⟩
    all_goals
      intros
      simp_all
  have hdatabase : Puts { routines := .builtins } (.database defaultDatabaseName)
      { databases := [(defaultDatabaseName, 1)], routines := .builtins, nextId := 2 } :=
    ⟨rfl, rfl, fun y => by
      cases y <;> simp [lookup, Keyed.find?_cons, Keyed.find?_nil]
      grind⟩
  refine (hempty.puts rfl hdatabase).puts (x := .space 1 defaultNamespaceName) rfl ⟨rfl, rfl, fun y => ?_⟩
  cases y <;> simp [initial, lookup, Keyed.find?_cons, Keyed.find?_nil]
  grind

theorem Consistent.undo (h : c.Consistent) (change : Undo)
    (hown : ∀ {space name id}, change = .table space name id →
      c.lookup (.table space name) = some (.number id)) : (c.undo change).Consistent := by
  have hold {y : Slot} {content : Content} (hy : (c.undo change).lookup y = some content) :
      change.clears y = false ∧ c.lookup y = some content := by
    rw [lookup_undo] at hy
    split at hy
    · cases hy
    · rename_i hclears
      exact ⟨Bool.eq_false_iff.mpr hclears, hy⟩
  have hkept {y : Slot} (hy : change.clears y = false) : (c.undo change).lookup y = c.lookup y := by
    rw [lookup_undo, hy, if_neg Bool.false_ne_true]
  have hnext : (c.undo change).nextId = c.nextId := by cases change <;> rfl
  -- a table and its schema stay or go together
  have hpair {space : Oid} {name : String} {id : Oid}
      (hid : c.lookup (.table space name) = some (.number id)) :
      change.clears (.schema id) = change.clears (.table space name) := by
    cases change with
    | table =>
      have hid' := hown rfl
      rw [Bool.eq_iff_iff]
      simp only [Undo.clears, decide_eq_true_eq, Bool.and_eq_true]
      constructor
      · rintro rfl
        injection h.distinct hid hid' with hspace hname
        exact ⟨hspace, hname⟩
      · rintro ⟨rfl, rfl⟩
        injection Option.some.inj (hid.symm.trans hid')
    | _ => rfl
  refine ⟨hnext ▸ h.next, fun hy hz => h.distinct (hold hy).2 (hold hz).2, fun hy => ?_, fun ht => ?_,
    fun hs => ?_, fun hs => h.columns (hold hs).2⟩
  · rw [hnext]
    exact h.numbered (hold hy).2
  · obtain ⟨hclears, ht⟩ := hold ht
    rw [hkept ((hpair ht).trans hclears)]
    exact h.described ht
  · obtain ⟨hclears, hs⟩ := hold hs
    obtain ⟨key, hkey, hunique⟩ := h.owned hs
    refine ⟨key, ?_, fun key' hkey' => hunique key' (hold hkey').2⟩
    show (c.undo change).lookup (.table key.1 key.2) = _
    rw [hkept ((hpair hkey).symm.trans hclears)]
    exact hkey

end Catalog

/-! ### Hooks and tables -/

def Hook.table? : Hook → Option Oid
  | .undo (.table _ _ id) => some id
  | _ => none

def Hook.clears : Hook → Slot → Bool
  | .undo change, x => change.clears x
  | .announce _, _ => false

/-- A hook of a transaction takes back a table only if it is the table that was made with the hook. -/
def Catalog.Backs (c : Catalog) (hooks : List Hook) : Prop :=
  ∀ {space name id}, .undo (.table space name id) ∈ hooks →
    c.lookup (.table space name) = some (.number id)

theorem Undo.eq_table_of_clears {change : Undo} (h : change.clears (.table space name) = true) :
    ∃ id, change = .table space name id := by
  cases change with
  | table space' name' id =>
    obtain ⟨rfl, rfl⟩ : space = space' ∧ name = name' := by simpa [clears] using h
    exact ⟨id, rfl⟩
  | _ => cases h

namespace Session

variable {s s' : Session} {due : List Hook}

theorem foldl_runHook_transactions (due : List Hook) (s : Session) :
    (due.foldl runHook s).transactions = s.transactions := by
  induction due generalizing s with
  | nil => rfl
  | cons hook _ ih => exact (ih _).trans (by cases hook <;> rfl)

theorem lookup_runHook (s : Session) (hook : Hook) (x : Slot) :
    (s.runHook hook).catalog.lookup x = if hook.clears x then none else s.catalog.lookup x := by
  cases hook with
  | undo change => exact s.catalog.lookup_undo change x
  | announce => rfl

theorem lookup_foldl_runHook (due : List Hook) (s : Session) (x : Slot) :
    (due.foldl runHook s).catalog.lookup x =
      if due.any (·.clears x) then none else s.catalog.lookup x := by
  induction due generalizing s with
  | nil => rfl
  | cons hook due ih =>
    rw [foldl_cons, ih, lookup_runHook, any_cons]
    cases hook.clears x <;> cases due.any (·.clears x) <;> rfl

theorem lookup_table_foldl_runHook (due : List Hook) (hbacks : s.catalog.Backs due)
    (hid : s.catalog.lookup (.table space name) = some (.number id))
    (hother : id ∉ due.filterMap (·.table?)) :
    (due.foldl runHook s).catalog.lookup (.table space name) = some (.number id) := by
  rw [lookup_foldl_runHook, if_neg, hid]
  intro hany
  obtain ⟨hook, hhook, hclears⟩ := any_eq_true.mp hany
  cases hook with
  | announce => cases hclears
  | undo =>
    obtain ⟨_, rfl⟩ := Undo.eq_table_of_clears hclears
    cases hid.symm.trans (hbacks hhook)
    exact hother (mem_filterMap.mpr ⟨_, hhook, rfl⟩)

theorem consistent_foldl_runHook (hc : s.catalog.Consistent) (hbacks : s.catalog.Backs due)
    (honce : (due.filterMap (·.table?)).Nodup) : (due.foldl runHook s).catalog.Consistent := by
  induction due generalizing s with
  | nil => exact hc
  | cons hook due ih =>
    refine ih ?_ (fun {space name id} hmem => ?_) ?_
    · cases hook with
      | announce => exact hc
      | undo change => exact hc.undo change fun heq => hbacks (heq ▸ mem_cons_self)
    · -- the first hook takes back another table, if any
      refine lookup_table_foldl_runHook [hook]
        (fun hfirst => hbacks (mem_singleton.mp hfirst ▸ mem_cons_self))
        (hbacks (mem_cons_of_mem _ hmem)) fun hfirst => ?_
      obtain ⟨_, hhook', htable⟩ := mem_filterMap.mp hfirst
      rw [mem_singleton.mp hhook'] at htable
      rw [filterMap_cons_some htable] at honce
      exact (nodup_cons.mp honce).1 (mem_filterMap.mpr ⟨_, hmem, rfl⟩)
    · exact honce.sublist ((sublist_cons_self hook due).filterMap _)

/-! ### Sessions -/

/-- The sessions that calls lead to, as far as creations are allowed. -/
inductive Reached (allowed : Catalog → NewObject → Prop) : Session → Prop where
  | initial : Reached allowed {}
  | begin {s : Session} (who id : String) : Reached allowed s → Reached allowed (s.begin who id)
  | create {s : Session} (who : String) (k : NewObject) : Reached allowed s → allowed s.catalog k →
    Reached allowed (s.create who k.create).2
  | call {s : Session} (who : String) (x : Call) : Reached allowed s → Reached allowed (s.perform who x)

/-- The catalog of a session is consistent, and only the transaction under which a table was made
can take it back. -/
structure Tidy (s : Session) : Prop where
  consistent : s.catalog.Consistent
  onCommit : ∀ who change, .undo change ∉ (s.transaction who).onCommit
  backs : ∀ who, s.catalog.Backs (s.transaction who).onAbort
  once : ∀ who, ((s.transaction who).onAbort.filterMap (·.table?)).Nodup
  apart : ∀ {who who' id}, id ∈ (s.transaction who).onAbort.filterMap (·.table?) →
    id ∈ (s.transaction who').onAbort.filterMap (·.table?) → who = who'

@[simp] theorem transaction_setTransaction_of_ne {w : String} (h : w ≠ who) (t : Transaction) :
    (s.setTransaction who t).transaction w = s.transaction w := by
  rw [transaction, transaction, setTransaction, Keyed.find?_insert, if_neg (Ne.symm h)]

theorem perform_frame {x : Call} (hx : x.ends = false) (s : Session) (who : String) :
    (∃ n, (s.perform who x).catalog = { s.catalog with nextTemp := n }) ∧
      ∀ w, w ≠ who → (s.perform who x).transaction w = s.transaction w := by
  cases x with
  | commit | abort => cases hx
  | onCommit label | onAbort label | forbidCommit =>
    exact ⟨⟨_, rfl⟩, fun w hw => transaction_setTransaction_of_ne hw _⟩
  | plan p parameters =>
    refine ⟨?_, fun w hw => ?_⟩
    · rw [perform, plan]
      cases s.accessor with
      | error => exact ⟨_, rfl⟩
      | ok env =>
        dsimp only
        cases (SqlAnalysis.plan s.settings env p parameters).dooms <;>
          rcases (SqlAnalysis.plan s.settings env p parameters).result with fault | ⟨bound, tree⟩ | text <;>
          exact ⟨_, rfl⟩
    · rw [transaction, (perform_plan s who p parameters).2]
      cases s.dooms (.plan p parameters)
      · rfl
      · exact transaction_setTransaction_of_ne hw _

namespace Tidy

theorem table_lt (h : s.Tidy) (hid : id ∈ (s.transaction who).onAbort.filterMap (·.table?)) :
    id < s.catalog.nextId := by
  obtain ⟨hook, hhook, htable⟩ := mem_filterMap.mp hid
  cases hook with
  | announce => cases htable
  | undo change =>
    cases change with
    | table =>
      cases htable
      exact (h.consistent.numbered (h.backs who hhook)).2
    | _ => cases htable

theorem step (h : s.Tidy) (who : String) (hc : s'.catalog.Consistent)
    (hothers : ∀ w, w ≠ who → s'.transaction w = s.transaction w)
    (hbacked : ∀ w, w ≠ who → s'.catalog.Backs (s.transaction w).onAbort)
    (hcommit : ∀ change, .undo change ∉ (s'.transaction who).onCommit)
    (hbacks : s'.catalog.Backs (s'.transaction who).onAbort)
    (honce : ((s'.transaction who).onAbort.filterMap (·.table?)).Nodup)
    (hnew : ∀ id ∈ (s'.transaction who).onAbort.filterMap (·.table?),
      id ∈ (s.transaction who).onAbort.filterMap (·.table?) ∨ s.catalog.nextId ≤ id) : s'.Tidy := by
  have hcross {w : String} {id : Oid} (hw : w ≠ who)
      (hid : id ∈ (s'.transaction who).onAbort.filterMap (·.table?))
      (hid' : id ∈ (s'.transaction w).onAbort.filterMap (·.table?)) : False := by
    rw [hothers w hw] at hid'
    rcases hnew id hid with hold | hge
    · exact hw (h.apart hid' hold)
    · exact (h.table_lt hid').not_ge hge
  refine ⟨hc, fun w => ?_, fun w => ?_, fun w => ?_, fun {w w' id} hid hid' => ?_⟩
  · by_cases hw : w = who
    · exact hw ▸ hcommit
    · exact hothers w hw ▸ h.onCommit w
  · by_cases hw : w = who
    · exact hw ▸ hbacks
    · exact hothers w hw ▸ hbacked w hw
  · by_cases hw : w = who
    · exact hw ▸ honce
    · exact hothers w hw ▸ h.once w
  · by_cases hw : w = who <;> by_cases hw' : w' = who
    · exact hw.trans hw'.symm
    · exact (hcross hw' (hw ▸ hid) hid').elim
    · exact (hcross hw (hw' ▸ hid') hid).elim
    · rw [hothers w hw] at hid
      rw [hothers w' hw'] at hid'
      exact h.apart hid hid'

theorem adds (h : s.Tidy) (who : String) {c : Catalog} (hooks : List Hook) (hc : c.Consistent)
    (hkept : ∀ {x content}, s.catalog.lookup x = some content → c.lookup x = some content)
    (hbacks : c.Backs hooks) (honce : (hooks.filterMap (·.table?)).Nodup)
    (hnew : ∀ id ∈ hooks.filterMap (·.table?), id = s.catalog.nextId) :
    ({ s with catalog := c }.setTransaction who
      { s.transaction who with onAbort := (s.transaction who).onAbort ++ hooks }).Tidy := by
  refine h.step who hc (fun w hw => transaction_setTransaction_of_ne hw _)
    (fun w _ _ _ _ hmem => hkept (h.backs w hmem)) ?_ ?_ ?_ ?_ <;> rw [transaction_setTransaction]
  · exact h.onCommit who
  · intro space name id hmem
    rcases mem_append.mp hmem with hold | hfresh
    · exact hkept (h.backs who hold)
    · exact hbacks hfresh
  · rw [filterMap_append]
    refine nodup_append.mpr ⟨h.once who, honce, fun id hold id' hfresh heq => ?_⟩
    exact Nat.lt_irrefl _ (hnew id' hfresh ▸ heq ▸ h.table_lt hold)
  · intro id hmem
    rw [filterMap_append] at hmem
    rcases mem_append.mp hmem with hold | hfresh
    · exact .inl hold
    · exact .inr ((hnew id hfresh).symm.le)

theorem begin (h : s.Tidy) (who id : String) : (s.begin who id).Tidy := by
  refine h.step who h.consistent (fun w hw => transaction_setTransaction_of_ne hw _)
    (fun w _ => h.backs w) ?_ ?_ ?_ ?_ <;> rw [Session.begin, transaction_setTransaction]
  · exact fun _ => not_mem_nil
  · exact fun hmem => (not_mem_nil hmem).elim
  · exact nodup_nil
  · exact forall_mem_nil _

theorem create (h : s.Tidy) (who : String) (k : NewObject) : (s.create who k.create).2.Tidy := by
  have hcreates := k.creates s.catalog (s.transaction who)
  show ({ s with catalog := (k.create s.catalog (s.transaction who)).2.1 }.setTransaction who
    (k.create s.catalog (s.transaction who)).2.2).Tidy
  have hsame {c : Catalog} (hc : c.Consistent)
      (hold : ∀ {x content}, s.catalog.lookup x = some content → c.lookup x = some content) :
      ({ s with catalog := c }.setTransaction who (s.transaction who)).Tidy := by
    have hadds := h.adds who [] hc hold (fun hmem => (not_mem_nil hmem).elim)
      nodup_nil (forall_mem_nil _)
    rwa [append_nil] at hadds
  generalize k.create s.catalog (s.transaction who) = created at hcreates ⊢
  cases hcreates with
  | refused => exact hsame h.consistent id
  | stray _ _ hputs => exact hsame (h.consistent.puts rfl hputs) hputs.kept
  | single x change id hx _ _ hputs hclears =>
    have hnone : (Hook.undo change).table? = none := by
      cases change with
      | table space name =>
        rw [← (hclears (.table space name)).mp (by simp [Undo.clears])] at hx
        cases hx
      | _ => rfl
    refine h.adds who [.undo change] (h.consistent.puts hx hputs) hputs.kept
      (fun hmem => ?_) ?_ ?_
    · cases mem_singleton.mp hmem
      cases hnone
    · rw [filterMap_cons_none hnone]
      exact nodup_nil
    · rw [filterMap_cons_none hnone]
      exact forall_mem_nil _
  | table _ space _ name _ id hputs =>
    refine h.adds who [.undo (.table space name s.catalog.nextId)]
      (h.consistent.putsTable hputs) (hputs.kept h.consistent) (fun hmem => ?_)
      (nodup_cons.mpr ⟨not_mem_nil, nodup_nil⟩) fun id hmem => mem_singleton.mp hmem
    cases mem_singleton.mp hmem
    rw [hputs.lookup, if_pos rfl]
  | database name _ hputs hputs' =>
    have hadds := h.adds who
      [.undo (.namespace s.catalog.nextId defaultNamespaceName), .undo (.database name s.catalog.nextId)]
      ((h.consistent.puts rfl hputs).puts rfl hputs') (fun hx => hputs'.kept (hputs.kept hx))
      (fun hmem => by simp at hmem) nodup_nil (forall_mem_nil _)
    simpa [Transaction.addOnAbort] using hadds

theorem settle (h : s.Tidy) (who : String) (outcome : TransactionState) :
    (s.settle who ((s.transaction who).finish outcome)).2.Tidy := by
  unfold Transaction.finish
  split
  · have hdue : s.catalog.Backs
          (if outcome = .committed then (s.transaction who).onCommit else (s.transaction who).onAbort) ∧
        (filterMap (·.table?) (if outcome = .committed then (s.transaction who).onCommit
          else (s.transaction who).onAbort)).Nodup ∧
        ∀ id ∈ filterMap (·.table?) (if outcome = .committed then (s.transaction who).onCommit
          else (s.transaction who).onAbort),
          id ∈ (s.transaction who).onAbort.filterMap (·.table?) := by
      split
      · have hnone : (s.transaction who).onCommit.filterMap (·.table?) = [] := by
          refine filterMap_eq_nil_iff.mpr fun hook hhook => ?_
          cases hook with
          | announce => rfl
          | undo change => exact (h.onCommit who change hhook).elim
        rw [hnone]
        exact ⟨fun hmem => (h.onCommit who _ hmem).elim, nodup_nil,
          (forall_mem_nil _)⟩
      · exact ⟨h.backs who, h.once who, fun _ hid => hid⟩
    obtain ⟨hbacks, honce, hown⟩ := hdue
    rw [Session.settle]
    generalize (if outcome = .committed then (s.transaction who).onCommit
      else (s.transaction who).onAbort) = due at hbacks honce hown ⊢
    have htransaction (w : String) (t : Transaction) :
        (due.foldl runHook (s.setTransaction who t)).transaction w = (s.setTransaction who t).transaction w := by
      rw [transaction, foldl_runHook_transactions]
      rfl
    refine h.step who (consistent_foldl_runHook h.consistent hbacks honce) (fun w hw => ?_)
      (fun w hw space name id hmem => ?_) ?_ ?_ ?_ ?_
    · rw [htransaction, transaction_setTransaction_of_ne hw]
    · refine lookup_table_foldl_runHook (s := s.setTransaction who _) due hbacks (h.backs w hmem) fun hid => hw ?_
      exact h.apart (mem_filterMap.mpr ⟨_, hmem, rfl⟩) (hown id hid)
    all_goals rw [htransaction, transaction_setTransaction]
    · exact fun _ => not_mem_nil
    · exact fun hmem => (not_mem_nil hmem).elim
    · exact nodup_nil
    · exact forall_mem_nil _
  · exact h

theorem perform (h : s.Tidy) (who : String) (x : Call) : (s.perform who x).Tidy := by
  by_cases hx : x.ends = false
  · obtain ⟨_, htransaction⟩ := perform_open hx s who
    obtain ⟨⟨_, hcatalog⟩, hothers⟩ := perform_frame hx s who
    have hnone (label? : Option String) :
        (label?.toList.map Hook.announce).filterMap (·.table?) = [] := by cases label? <;> rfl
    refine h.step who ?_ hothers (fun w _ => ?_) ?_ ?_ ?_ ?_
    · rw [hcatalog]
      exact ⟨h.consistent.next, h.consistent.distinct, h.consistent.numbered, h.consistent.described,
        h.consistent.owned, h.consistent.columns⟩
    · rw [hcatalog]
      exact h.backs w
    · rw [htransaction]
      intro change hmem
      rcases mem_append.mp hmem with hold | hnew
      · exact h.onCommit who change hold
      · simp at hnew
    · rw [htransaction, hcatalog]
      intro space name id hmem
      rcases mem_append.mp hmem with hold | hnew
      · exact h.backs who hold
      · simp at hnew
    · rw [htransaction, filterMap_append, hnone, append_nil]
      exact h.once who
    · rw [htransaction, filterMap_append, hnone, append_nil]
      exact fun _ hid => .inl hid
  · cases x with
    | commit | abort => exact h.settle who _
    | _ => exact (hx rfl).elim

end Tidy

theorem Reached.tidy {allowed : Catalog → NewObject → Prop} (h : s.Reached allowed) : s.Tidy := by
  induction h with
  | initial =>
    exact ⟨Catalog.consistent_initial, fun _ _ => not_mem_nil,
      fun _ _ _ _ hmem => (not_mem_nil hmem).elim, fun _ => nodup_nil,
      fun hid => (not_mem_nil hid).elim⟩
  | begin who id _ ih => exact ih.begin who id
  | create who k _ _ ih => exact ih.create who k
  | call who x _ ih => exact ih.perform who x

end Session

/-- The tables of the catalog fit together after every sequence of calls, whatever databases objects are
created in. -/
theorem catalog_consistent {allowed : Catalog → NewObject → Prop} {s : Session} (h : s.Reached allowed) :
    s.catalog.Consistent := h.tidy.consistent

/-- Two transactions at work: one creates a database and a table in it, the other a table elsewhere. -/
def twoWriters : Session :=
  let s := (({} : Session).create "a" (NewObject.database "d").create).2
  let s := (s.create "b" (NewObject.table 1 { name := "t" } [.declare "x" .integer]).create).2
  (s.create "a" (NewObject.table 3 { name := "t" } []).create).2

def twoWritersDone : Session := (twoWriters.perform "a" .abort).perform "b" .commit

theorem twoWritersDone_consistent : (twoWritersDone.catalog.lookup (.database "d")).isNone = true ∧
    (twoWritersDone.catalog.lookup (.table 2 "t")).isSome = true ∧ twoWritersDone.catalog.Consistent := by
  have hreached : twoWritersDone.Reached fun _ _ => True :=
    .call "b" .commit (.call "a" .abort (.create "a" (.table 3 { name := "t" } [])
      (.create "b" (.table 1 { name := "t" } [.declare "x" .integer])
        (.create "a" (.database "d") .initial trivial) trivial) trivial))
  have hfacts : (twoWritersDone.catalog.lookup (.database "d")).isNone = true ∧
      (twoWritersDone.catalog.lookup (.table 2 "t")).isSome = true := by decide +kernel
  exact ⟨hfacts.1, hfacts.2, catalog_consistent hreached⟩

end SqlAnalysis
