import SqlAnalysis.Proofs.Catalog.Consistency

/-!
# What an abort takes back

Several transactions create objects in turn.  When one of them aborts, the catalog has what it had
before and what the others made.

* **`Revertible`**, **`Revertible.create`**: what can be taken back, and that one more creation keeps it so.
* **`abort_undoes_own`**: an abort takes back just what was made under the transaction.
-/

namespace SqlAnalysis

open List

/-- The object is not asked for in a database whose number was not given out yet. -/
def NewObject.Known (c : Catalog) (k : NewObject) : Prop := ∀ d ∈ k.database?, d < c.nextId

namespace Catalog

variable {c c' : Catalog}

/-- All namespaces are in databases whose number was given out. -/
def Rooted (c : Catalog) : Prop := ∀ ⦃d n⦄, c.lookup (.space d n) ≠ none → d < c.nextId

def Gains (c c' : Catalog) (x : Slot) (content : Content) : Prop :=
  c.lookup x = none ∧ c'.lookup x = some content

theorem Puts.gains_iff {x y : Slot} {content : Content} (h : c.Puts x c') :
    c.Gains c' y content ↔ y = x ∧ content = .number c.nextId := by
  rw [Gains, h.lookup]
  constructor
  · rintro ⟨hnone, hsome⟩
    split at hsome
    · rename_i heq
      exact ⟨heq, (Option.some.inj hsome).symm⟩
    · rw [hnone] at hsome
      cases hsome
  · rintro ⟨rfl, rfl⟩
    exact ⟨h.free, if_pos rfl⟩

end Catalog

/-- What a creation adds to a catalog, with the hooks that take it back.  Hooks may also be about the
namespaces of a database that is added. -/
structure Adds (c : Catalog) (k : NewObject) (created : Bool) (c' : Catalog) (hooks : List Hook) :
    Prop where
  rooted : c'.Rooted
  kept : ∀ {x content}, c.lookup x = some content → c'.lookup x = some content
  taken : ∀ {x content}, c.Gains c' x content → hooks.any (·.clears x) = true
  only : ∀ {x}, hooks.any (·.clears x) = true → (∃ content, c.Gains c' x content) ∨
    ∃ d n owner, x = .space d n ∧ c.Gains c' (.database owner) (.number d)
  space : ∀ {d n content}, c.Gains c' (.space d n) content →
    (k = .space d n ∧ created = true) ∨ ∃ owner, c.Gains c' (.database owner) (.number d)
  database : ∀ {owner d}, c.Gains c' (.database owner) (.number d) → c.nextId ≤ d

namespace Adds

variable {c c' : Catalog} {k : NewObject}

theorem none (hrooted : c.Rooted) : Adds c k false c [] := by
  have hnone {x : Slot} {content : Content} (h : c.Gains c x content) : False := by
    cases h.1.symm.trans h.2
  exact ⟨hrooted, id, fun h => (hnone h).elim, fun h => (Bool.false_ne_true h).elim,
    fun h => (hnone h).elim, fun h => (hnone h).elim⟩

theorem single {x : Slot} {change : Undo} (hputs : c.Puts x c') (hrooted : c.Rooted) (hknown : k.Known c)
    (hspace : ∀ d n, x = .space d n → k = .space d n) (hdatabase : ∀ n, x ≠ .database n)
    (hclears : ∀ y, change.clears y = true ↔ y = x) : Adds c k true c' [.undo change] := by
  have hany (y : Slot) : [Hook.undo change].any (·.clears y) = true ↔ y = x := by
    rw [any_cons, any_nil, Bool.or_false]
    exact hclears y
  refine ⟨fun d n hused => ?_, hputs.kept, fun h => (hany _).mpr (hputs.gains_iff.mp h).1, fun h => ?_,
    fun h => .inl ⟨hspace _ _ (hputs.gains_iff.mp h).1.symm, rfl⟩,
    fun h => (hdatabase _ (hputs.gains_iff.mp h).1.symm).elim⟩
  · rw [hputs.lookup] at hused
    rw [hputs.next]
    split at hused
    · rename_i heq
      rw [hspace d n heq.symm] at hknown
      exact (hknown d rfl).trans (Nat.lt_succ_self _)
    · exact (hrooted hused).trans (Nat.lt_succ_self _)
  · exact .inl ⟨_, hputs.gains_iff.mpr ⟨(hany _).mp h, rfl⟩⟩

theorem table {space : Oid} {name : String} {columns : Schema}
    (hputs : c.PutsTable space name columns c') (hc : c.Consistent) (hrooted : c.Rooted) :
    Adds c k true c' [.undo (.table space name c.nextId)] := by
  have hgains {x : Slot} {content : Content} (h : c.Gains c' x content) :
      x = .table space name ∨ x = .schema c.nextId := by
    obtain ⟨hfree, hsome⟩ := h
    rw [hputs.lookup] at hsome
    split at hsome
    · exact .inl ‹_›
    · split at hsome
      · exact .inr ‹_›
      · cases hfree.symm.trans hsome
  refine ⟨fun d n hused => ?_, hputs.kept hc, fun h => ?_, fun {x} h => .inl ?_,
    fun h => (hgains h).elim nofun nofun, fun h => (hgains h).elim nofun nofun⟩
  · rw [hputs.lookup, if_neg (by rintro ⟨⟩), if_neg (by rintro ⟨⟩)] at hused
    rw [hputs.next]
    exact (hrooted hused).trans (Nat.lt_succ_self _)
  · rcases hgains h with rfl | rfl <;> simp [Hook.clears, Undo.clears]
  · rw [any_cons, any_nil, Bool.or_false] at h
    cases x with
    | table space' name' =>
      obtain ⟨rfl, rfl⟩ : space' = space ∧ name' = name := by simpa [Hook.clears, Undo.clears] using h
      exact ⟨_, hputs.free, by rw [hputs.lookup, if_pos rfl]⟩
    | schema id' =>
      obtain rfl : id' = c.nextId := by simpa [Hook.clears, Undo.clears] using h
      exact ⟨_, hc.lookup_schema_next, by rw [hputs.lookup, if_neg (by rintro ⟨⟩), if_pos rfl]⟩
    | _ => cases h

theorem newDatabase {c1 c2 : Catalog} {name : String} (hputs : c.Puts (.database name) c1)
    (hputs' : c1.Puts (.space c.nextId defaultNamespaceName) c2) (hrooted : c.Rooted) :
    Adds c k true c2
      [.undo (.namespace c.nextId defaultNamespaceName), .undo (.database name c.nextId)] := by
  have hgains {x : Slot} {content : Content} (h : c.Gains c2 x content) :
      x = .database name ∧ content = .number c.nextId ∨ x = .space c.nextId defaultNamespaceName := by
    by_cases hx : c1.lookup x = Option.none
    · exact .inr (hputs'.gains_iff.mp ⟨hx, h.2⟩).1
    · obtain ⟨_, hcontent'⟩ := Option.ne_none_iff_exists'.mp hx
      obtain ⟨rfl, rfl⟩ := hputs.gains_iff.mp ⟨h.1, hcontent'⟩
      exact .inl ⟨rfl, Option.some.inj (h.2.symm.trans (hputs'.kept hcontent'))⟩
  have hdatabase : c.Gains c2 (.database name) (.number c.nextId) :=
    ⟨hputs.free, hputs'.kept (by rw [hputs.lookup, if_pos rfl])⟩
  refine ⟨fun d n hused => ?_, fun hx => hputs'.kept (hputs.kept hx), fun h => ?_, fun {x} h => ?_,
    fun h => ?_, fun h => ?_⟩
  · have hnext : c.nextId < c2.nextId := by
      rw [hputs'.next, hputs.next]
      exact Nat.lt_succ_of_lt (Nat.lt_succ_self _)
    rw [hputs'.lookup] at hused
    split at hused
    · rename_i heq
      cases heq
      exact hnext
    · rw [hputs.lookup, if_neg (by rintro ⟨⟩)] at hused
      exact (hrooted hused).trans hnext
  · rcases hgains h with ⟨rfl, _⟩ | rfl <;> simp [Hook.clears, Undo.clears]
  · cases x with
    | database owner =>
      obtain rfl : owner = name := by simpa [Hook.clears, Undo.clears] using h
      exact .inl ⟨_, hdatabase⟩
    | space d n =>
      obtain rfl : d = c.nextId := by
        simp only [Hook.clears, Undo.clears, any_cons, any_nil, Bool.or_eq_true,
          Bool.and_eq_true, decide_eq_true_eq, Bool.false_eq_true, or_false] at h
        exact h.elim (·.1) fun h => h
      exact .inr ⟨_, n, name, rfl, hdatabase⟩
    | _ => cases h
  · rcases hgains h with ⟨heq, _⟩ | heq
    · cases heq
    · cases heq
      exact .inr ⟨name, hdatabase⟩
  · rcases hgains h with ⟨_, heq⟩ | heq
    · cases heq
      exact le_rfl
    · cases heq

end Adds

theorem Creates.adds {c : Catalog} {t : Transaction} {k : NewObject} {created : Catalog.Created}
    (h : Creates c t k created) (hc : c.Consistent) (hrooted : c.Rooted) (hknown : k.Known c) :
    ∃ hooks, created.2.2 = { t with onAbort := t.onAbort ++ hooks } ∧
      Adds c k created.1.isOk created.2.1 hooks := by
  cases h with
  | refused => exact ⟨[], by rw [append_nil], .none hrooted⟩
  | stray _ _ hputs hused =>
    -- no namespace can be in the new database yet
    refine (Nat.lt_irrefl c.nextId (@hrooted c.nextId defaultNamespaceName ?_)).elim
    rwa [hputs.lookup, if_neg (by rintro ⟨⟩)] at hused
  | single _ _ _ _ hspace hdatabase hputs hclears =>
    exact ⟨_, rfl, .single hputs hrooted hknown hspace hdatabase hclears⟩
  | table _ _ _ _ _ _ hputs => exact ⟨_, rfl, .table hputs hc hrooted⟩
  | database _ _ hputs hputs' =>
    exact ⟨_, by simp [Transaction.addOnAbort], .newDatabase hputs hputs' hrooted⟩

/-! ### Several transactions -/

namespace Session

variable {s : Session}

theorem foldl_runHook_nextId (due : List Hook) (s : Session) :
    (due.foldl runHook s).catalog.nextId = s.catalog.nextId := by
  induction due generalizing s with
  | nil => rfl
  | cons hook _ ih =>
    rw [foldl_cons, ih]
    cases hook with
    | announce => rfl
    | undo change => cases change <;> rfl

theorem hooks_create {who : String} {k : NewObject} {hooks : List Hook}
    (h : (k.create s.catalog (s.transaction who)).2.2 =
      { s.transaction who with onAbort := (s.transaction who).onAbort ++ hooks }) (w : String) :
    ((s.create who k.create).2.transaction w).state = (s.transaction w).state ∧
      ∀ x, ((s.create who k.create).2.transaction w).onAbort.any (·.clears x) = true ↔
        (s.transaction w).onAbort.any (·.clears x) = true ∨ w = who ∧ hooks.any (·.clears x) = true := by
  by_cases hw : w = who
  · have hown : (s.create who k.create).2.transaction who =
        { s.transaction who with onAbort := (s.transaction who).onAbort ++ hooks } := by
      rw [← h]
      exact transaction_setTransaction ..
    rw [hw, hown]
    refine ⟨rfl, fun x => ?_⟩
    rw [any_append, Bool.or_eq_true]
    exact or_congr_right (and_iff_right rfl).symm
  · have hother : (s.create who k.create).2.transaction w = s.transaction w :=
      transaction_setTransaction_of_ne hw _
    rw [hother]
    exact ⟨rfl, fun x => (or_iff_left fun h => hw h.1).symm⟩

theorem Reached.rooted (h : s.Reached fun c k => k.Known c) : s.catalog.Rooted := by
  have hends {s : Session} {who : String} (hrooted : s.catalog.Rooted) (outcome : TransactionState) :
      (s.settle who ((s.transaction who).finish outcome)).2.catalog.Rooted := by
    unfold Transaction.finish
    split
    · intro d n hused
      rw [Session.settle, foldl_runHook_nextId]
      rw [Session.settle, lookup_foldl_runHook, ne_eq, ite_eq_left_iff, Classical.not_imp] at hused
      exact hrooted hused.2
    · exact hrooted
  induction h with
  | initial =>
    intro d n hused
    cases hfind : Catalog.initial.namespaces.find? (d, n) with
    | none =>
      refine (hused ?_).elim
      show (Catalog.initial.namespaces.find? (d, n)).map Content.number = none
      rw [hfind]
      rfl
    | some id =>
      rw [Catalog.initial, Keyed.find?_cons] at hfind
      split at hfind
      · rename_i heq
        cases heq
        exact (by decide : (1 : Nat) < 3)
      · cases hfind
  | begin _ _ _ ih => exact ih
  | @create s who k hreached hknown ih =>
    obtain ⟨_, _, hadds⟩ :=
      (k.creates s.catalog (s.transaction who)).adds (hreached.tidy.consistent) ih hknown
    exact hadds.rooted
  | @call s who x _ ih =>
    by_cases hx : x.ends = false
    · obtain ⟨⟨n, hcatalog⟩, _⟩ := perform_frame hx s who
      rw [hcatalog]
      exact ih
    · cases x with
      | commit | abort => exact hends ih _
      | _ => exact (hx rfl).elim

end Session

/-- Creations under several transactions from a session on, with the session they lead to and the entries
that each transaction made.  The others create no namespace in a database that the first one made. -/
inductive Interleaves (s : Session) (first : String) :
    Session → (String → Slot → Content → Prop) → Prop where
  | start : Interleaves s first s fun _ _ _ => False
  | create {s' : Session} {made : String → Slot → Content → Prop} (who : String) (k : NewObject) :
    Interleaves s first s' made → k.Known s'.catalog →
    (∀ {d n owner}, who ≠ first → k = .space d n → (s'.create who k.create).1.isOk = true →
      ¬made first (.database owner) (.number d)) →
    Interleaves s first (s'.create who k.create).2 fun w x content =>
      made w x content ∨ w = who ∧ s'.catalog.Gains (s'.create who k.create).2.catalog x content

/-- What is known of the transaction that will abort while objects are created. -/
structure Revertible (s : Session) (first : String) (s' : Session) (made : String → Slot → Content → Prop) :
    Prop where
  reached : s'.Reached fun c k => k.Known c
  active : (s'.transaction first).state = .active
  entry : ∀ {x content}, s'.catalog.lookup x = some content ↔
    s.catalog.lookup x = some content ∨ ∃ who, made who x content
  /-- No entry was made twice. -/
  fresh : ∀ {who x content}, made who x content → s.catalog.lookup x = none
  maker : ∀ {who who' x content content'}, made who x content → made who' x content' → who = who'
  /-- The hooks of the transaction are about what it made, and about the namespaces of its databases. -/
  taken : ∀ {x content}, made first x content → (s'.transaction first).onAbort.any (·.clears x) = true
  only : ∀ {x}, (s'.transaction first).onAbort.any (·.clears x) = true → (∃ content, made first x content) ∨
    ∃ d n owner, x = .space d n ∧ made first (.database owner) (.number d)
  inside : ∀ {d n owner content}, made first (.database owner) (.number d) →
    s'.catalog.lookup (.space d n) = some content → made first (.space d n) content

namespace Revertible

variable {s s' : Session} {first : String} {made : String → Slot → Content → Prop}

theorem start (hs : s.Reached fun c k => k.Known c) (hactive : (s.transaction first).state = .active)
    (hfresh : ∀ change, .undo change ∉ (s.transaction first).onAbort) :
    Revertible s first s fun _ _ _ => False := by
  have hnone (x : Slot) : ¬(s.transaction first).onAbort.any (·.clears x) = true := by
    intro hany
    obtain ⟨hook, hhook, hclears⟩ := any_eq_true.mp hany
    cases hook with
    | announce => cases hclears
    | undo change => exact hfresh change hhook
  exact ⟨hs, hactive, ⟨.inl, fun h => h.elim id fun ⟨_, h⟩ => h.elim⟩, False.elim,
    fun h => h.elim, False.elim, fun h => (hnone _ h).elim, fun h => h.elim⟩

theorem create (h : Revertible s first s' made) (who : String) (k : NewObject) (hknown : k.Known s'.catalog)
    (hapart : ∀ {d n owner}, who ≠ first → k = .space d n → (s'.create who k.create).1.isOk = true →
      ¬made first (.database owner) (.number d)) :
    Revertible s first (s'.create who k.create).2 fun w x content =>
      made w x content ∨ w = who ∧ s'.catalog.Gains (s'.create who k.create).2.catalog x content := by
  have hc := h.reached.tidy.consistent
  obtain ⟨_, htransaction, hadds⟩ :=
    (k.creates s'.catalog (s'.transaction who)).adds hc h.reached.rooted hknown
  obtain ⟨hstate, hany⟩ := Session.hooks_create htransaction first
  have hgained {x : Slot} {content : Content}
      (hx : s'.catalog.Gains (s'.create who k.create).2.catalog x content) : ¬∃ w content, made w x content :=
    fun ⟨w, _, hmade⟩ => by cases hx.1.symm.trans (h.entry.mpr (.inr ⟨w, hmade⟩))
  refine ⟨.create who k h.reached hknown, hstate.trans h.active, fun {x content} => ⟨fun hx => ?_, ?_⟩,
    ?_, ?_, ?_, fun {x} hclears => ?_, ?_⟩
  · cases hold : s'.catalog.lookup x with
    | none => exact .inr ⟨who, .inr ⟨rfl, hold, hx⟩⟩
    | some =>
      cases hx.symm.trans (hadds.kept hold)
      exact (h.entry.mp hold).imp_right fun ⟨w, hmade⟩ => ⟨w, .inl hmade⟩
  · rintro (hx | ⟨w, hmade | ⟨_, hx⟩⟩)
    · exact hadds.kept (h.entry.mpr (.inl hx))
    · exact hadds.kept (h.entry.mpr (.inr ⟨w, hmade⟩))
    · exact hx.2
  · rintro w x content (hmade | ⟨_, hx⟩)
    · exact h.fresh hmade
    · refine Option.eq_none_iff_forall_not_mem.mpr fun content' hcontent' => ?_
      cases hx.1.symm.trans (h.entry.mpr (.inl hcontent'))
  · rintro w w' x content content' (hmade | ⟨rfl, hx⟩) (hmade' | ⟨rfl, hx'⟩)
    · exact h.maker hmade hmade'
    · exact (hgained hx' ⟨_, _, hmade⟩).elim
    · exact (hgained hx ⟨_, _, hmade'⟩).elim
    · rfl
  · rintro x content (hmade | ⟨hwho, hx⟩)
    · exact (hany x).mpr (.inl (h.taken hmade))
    · exact (hany x).mpr (.inr ⟨hwho, hadds.taken hx⟩)
  · rcases (hany x).mp hclears with hold | ⟨hwho, hnew⟩
    · rcases h.only hold with ⟨content, hmade⟩ | ⟨d, n, owner, hx, hmade⟩
      · exact .inl ⟨content, .inl hmade⟩
      · exact .inr ⟨d, n, owner, hx, .inl hmade⟩
    · rcases hadds.only hnew with ⟨content, hgain⟩ | ⟨d, n, owner, hx, hgain⟩
      · exact .inl ⟨content, .inr ⟨hwho, hgain⟩⟩
      · exact .inr ⟨d, n, owner, hx, .inr ⟨hwho, hgain⟩⟩
  · intro d n owner content hdatabase hspace
    cases hold : s'.catalog.lookup (.space d n) with
    | some =>
      cases hspace.symm.trans (hadds.kept hold)
      rcases hdatabase with hmade | ⟨_, hgain⟩
      · exact .inl (h.inside hmade hold)
      · -- the database is new, so nothing can be in it
        refine ((hadds.database hgain).not_gt (h.reached.rooted (n := n) ?_)).elim
        rw [hold]
        exact Option.some_ne_none _
    | none =>
      by_cases heq : first = who
      · exact .inr ⟨heq, hold, hspace⟩
      · rcases hdatabase with hmade | ⟨hwho, _⟩
        · rcases hadds.space ⟨hold, hspace⟩ with ⟨hk, hok⟩ | ⟨owner', hgain⟩
          · exact (hapart (Ne.symm heq) hk hok hmade).elim
          · exact ((hadds.database hgain).not_gt
              (hc.numbered (h.entry.mpr (.inr ⟨first, hmade⟩))).2).elim
        · exact (heq hwho).elim

end Revertible

theorem Interleaves.revertible {s s' : Session} {first : String} {made : String → Slot → Content → Prop}
    (h : Interleaves s first s' made) (hs : s.Reached fun c k => k.Known c)
    (hactive : (s.transaction first).state = .active)
    (hfresh : ∀ change, .undo change ∉ (s.transaction first).onAbort) : Revertible s first s' made := by
  induction h with
  | start => exact .start hs hactive hfresh
  | create who k _ hknown hapart ih => exact ih.create who k hknown hapart

/-- An abort takes back what was made under its transaction and nothing else: the catalog has the entries
that it had before, and those that were made under other transactions. -/
theorem abort_undoes_own {s s' : Session} {first : String} {made : String → Slot → Content → Prop}
    (hs : s.Reached fun c k => k.Known c) (hactive : (s.transaction first).state = .active)
    (hfresh : ∀ change, .undo change ∉ (s.transaction first).onAbort)
    (h : Interleaves s first s' made) :
    (s'.abort first).1.isOk = true ∧ ∀ x content,
      (s'.abort first).2.catalog.lookup x = some content ↔
        s.catalog.lookup x = some content ∨ ∃ who, who ≠ first ∧ made who x content := by
  have hready := h.revertible hs hactive hfresh
  rw [Session.abort, Transaction.abort, Transaction.finish, if_pos hready.active, Session.settle]
  refine ⟨rfl, fun x content => ?_⟩
  rw [Session.lookup_foldl_runHook, show (if TransactionState.aborted = .committed then
    (s'.transaction first).onCommit else (s'.transaction first).onAbort) = _ from if_neg (by decide)]
  show (if _ then none else s'.catalog.lookup x) = some content ↔ _
  split
  · rename_i hany
    refine ⟨fun hx => (by cases hx), fun hx => ?_⟩
    -- whatever else is in a slot that is emptied was made under the transaction
    have hother : ¬made first x content := fun hmade => by
      rcases hx with hx | ⟨who, hne, hmade'⟩
      · cases (hready.fresh hmade).symm.trans hx
      · exact hne (hready.maker hmade' hmade)
    have hlookup := hready.entry.mpr (hx.imp_right (Exists.imp fun _ => And.right))
    rcases hready.only hany with ⟨content', hmade⟩ | ⟨d, n, owner, rfl, hmade⟩
    · cases hlookup.symm.trans (hready.entry.mpr (.inr ⟨first, hmade⟩))
      exact (hother hmade).elim
    · exact (hother (hready.inside hmade hlookup)).elim
  · rename_i hany
    rw [hready.entry]
    refine or_congr_right (exists_congr fun who => ⟨fun hmade => ⟨?_, hmade⟩, And.right⟩)
    rintro rfl
    exact hany (hready.taken hmade)

theorem twoWriters_undone : ∃ made, Interleaves {} "a" twoWriters made ∧
    (twoWriters.abort "a").1.isOk = true ∧ ∀ x content,
      (twoWriters.abort "a").2.catalog.lookup x = some content ↔
        Catalog.initial.lookup x = some content ∨ ∃ who, who ≠ "a" ∧ made who x content := by
  have hwork := Interleaves.create "a" (.table 3 { name := "t" } [])
    (.create "b" (.table 1 { name := "t" } [.declare "x" .integer])
      (.create "a" (.database "d") (@Interleaves.start {} "a") (fun _ h => by cases h) fun h => (h rfl).elim)
      (fun _ h => Option.mem_some.mp h ▸ by decide +kernel) fun _ h => by cases h)
    (fun _ h => Option.mem_some.mp h ▸ by decide +kernel) fun h => (h rfl).elim
  exact ⟨_, hwork, abort_undoes_own .initial rfl (fun _ => not_mem_nil) hwork⟩

end SqlAnalysis
