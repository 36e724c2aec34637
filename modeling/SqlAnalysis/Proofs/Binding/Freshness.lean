import SqlAnalysis.Proofs.Binding.Registration
import SqlAnalysis.Proofs.Binding.StoreSteps

/-!
# Expressions that wait to be bound

While one part of a statement is bound, the other parts stay fresh: they share no node with it.

* **`Binds.keepsFresh`**: a binding leaves alone what shares no node with its parts.
-/

namespace SqlAnalysis

open List

variable {env : Accessor} {K ids : List ExprId} {a : Arena} {c : ExprId}

/-! ### Fresh expressions -/

/-- Nothing in the expressions is bound, and no node is used twice. -/
structure Arena.Fresh (a : Arena) (ids K : List ExprId) : Prop where
  uses : a.Uses ids K
  fresh : a.FreshOn K
  nodup : K.Nodup

namespace Arena.Fresh

variable {a' : Arena} {ids' : List ExprId}

theorem split (h : a.Fresh (ids ++ ids') K) :
    ∃ K1 K2, K = K1 ++ K2 ∧ a.Fresh ids K1 ∧ a.Fresh ids' K2 ∧ K1.Disjoint K2 := by
  obtain ⟨K1, K2, rfl, h1, h2⟩ := h.uses.split
  obtain ⟨hfresh1, hfresh2⟩ := forall_mem_append.mp h.fresh
  obtain ⟨hnodup1, hnodup2, hdisjoint⟩ := nodup_append'.mp h.nodup
  exact ⟨K1, K2, rfl, ⟨h1, hfresh1, hnodup1⟩, ⟨h2, hfresh2, hnodup2⟩, hdisjoint⟩

theorem congr (h : a.Fresh ids K) (hsize : a.size ≤ a'.size)
    (hexpr : ∀ x ∈ K, a'.expr x = a.expr x) : a'.Fresh ids K :=
  ⟨h.uses.congr hsize hexpr, fun x hx => by rw [hexpr x hx]; exact h.fresh x hx, h.nodup⟩

theorem regions (h : a.Fresh ids K) : ∃ f : ExprId → List ExprId, K = ids.flatMap f ∧
    (∀ c ∈ ids, a.Fresh [c] (f c)) ∧
    ∀ c ∈ ids, ∀ c' ∈ ids, c' ≠ c → (f c').Disjoint (f c) := by
  induction ids generalizing K with
  | nil =>
    cases h.uses
    exact ⟨fun _ => [], rfl, forall_mem_nil _,
      (forall_mem_nil _)⟩
  | cons id ids ih =>
    obtain ⟨K1, _, rfl, h1, h2, hdisjoint⟩ := split (show a.Fresh ([id] ++ ids) K from h)
    obtain ⟨f, rfl, hfresh, hapart⟩ := ih h2
    have hid : id ∉ ids := fun hmem =>
      hdisjoint (h1.uses.mem (mem_singleton_self _)) (h2.uses.mem hmem)
    have hnew : Function.update f id K1 id = K1 := Function.update_self ..
    have hold : ∀ c ∈ ids, Function.update f id K1 c = f c := fun c hc =>
      Function.update_of_ne (ne_of_mem_of_not_mem hc hid) ..
    have hpart : ∀ c ∈ ids, f c ⊆ ids.flatMap f := fun c hc x hx => mem_flatMap.mpr ⟨c, hc, hx⟩
    refine ⟨Function.update f id K1, ?_, ?_, ?_⟩
    · rw [flatMap_cons, hnew, flatMap_congr hold]
    · refine forall_mem_cons.mpr ⟨by rwa [hnew], fun c hc => ?_⟩
      rw [hold c hc]
      exact hfresh c hc
    · intro c hc c' hc' hne
      rcases mem_cons.mp hc with rfl | hmem
      · have hmem' := (mem_cons.mp hc').resolve_left hne
        rw [hnew, hold c' hmem']
        exact disjoint_of_subset_left (hpart c' hmem') hdisjoint.symm
      · rw [hold c hmem]
        rcases mem_cons.mp hc' with rfl | hmem'
        · rw [hnew]
          exact disjoint_of_subset_right (hpart c hmem) hdisjoint
        · rw [hold c' hmem']
          exact hapart c hmem c' hmem' hne

end Arena.Fresh

theorem Binds.keepsFresh {task : BindTask} {v v' : BindView} (h : Binds env task v v')
    (huses : v.exprs.Uses task.mentioned K) {K' : List ExprId} (hdisjoint : K.Disjoint K')
    (hfresh : v.exprs.Fresh ids K') : v'.exprs.Fresh ids K' := by
  obtain ⟨hconfined, _⟩ := h.confined huses.encloses fun x hx => .inl (huses.mem hx)
  refine hfresh.congr hconfined.size_le fun x hx => hconfined.kept x fun hS => ?_
  rcases hS with hS | hS
  · exact hdisjoint hS hx
  · exact absurd (hfresh.uses.lt_size hx) (Nat.not_lt.mpr hS)

/-! ### Slots -/

/-- Expressions `cs`, each with a region `f` among the first `n` nodes.  Those in `P` are fresh, the
others are bound; nodes after the first `n` are columns.  Different expressions have different
regions unless both are bound. -/
structure Slots (env : Accessor) (a : Arena) (R : Registry) (Γ : List (List ScopeTable)) (Δ : EntryMap)
    (n : Nat) (f : ExprId → List ExprId) (P : ExprId → Prop) (cs : List ExprId) : Prop where
  size_le : n ≤ a.size
  columns : ∀ x, n ≤ x → x < a.size → (a.expr x).column?.isSome = true
  below : ∀ c ∈ cs, ∀ x ∈ f c, x < n
  closed : ∀ c ∈ cs, ∀ x ∈ f c, ∀ y ∈ (a.expr x).parts, y ∈ f c ∨ n ≤ y
  mem : ∀ c ∈ cs, c ∈ f c ∨ n ≤ c
  fresh : ∀ c ∈ cs, P c → a.Fresh [c] (f c)
  bound : ∀ c ∈ cs, ¬P c → ∃ K, K.Sublist (f c) ∧ Means env a R Γ Δ (.expr c) K
  apart : ∀ c ∈ cs, ∀ c' ∈ cs, c' ≠ c → (f c').Disjoint (f c) ∨ f c' = f c ∧ ¬P c ∧ ¬P c'

theorem Arena.Fresh.slots (h : a.Fresh ids K) (env : Accessor) (R : Registry)
    (Γ : List (List ScopeTable)) (Δ : EntryMap) :
    ∃ f, K = ids.flatMap f ∧ Slots env a R Γ Δ a.size f (fun _ => True) ids := by
  obtain ⟨f, hK, hfresh, hapart⟩ := h.regions
  refine ⟨f, hK, le_rfl, fun x hx hlt => absurd hlt (Nat.not_lt.mpr hx),
    fun c hc x hx => (hfresh c hc).uses.lt_size hx,
    fun c hc x hx y hy => .inl ((hfresh c hc).uses.parts hx hy),
    fun c hc => .inl ((hfresh c hc).uses.mem (mem_singleton_self _)),
    fun c hc _ => hfresh c hc, fun c _ h => absurd trivial h,
    fun c hc c' hc' hne => .inl (hapart c hc c' hc' hne)⟩

theorem Arena.Fresh.slotsBeside {R : Registry} {Γ : List (List ScopeTable)} {Δ : EntryMap} {n : Nat}
    {bound region : List ExprId} (h : a.Fresh ids K) (hn : n ≤ a.size)
    (hcolumns : ∀ x, n ≤ x → x < a.size → (a.expr x).column?.isSome = true) (hK : ∀ x ∈ K, x < n)
    (hbelow : ∀ x ∈ region, x < n)
    (hclosed : ∀ x ∈ region, ∀ y ∈ (a.expr x).parts, y ∈ region ∨ n ≤ y)
    (hmem : ∀ c ∈ bound, c ∈ region ∨ n ≤ c) (hdisjoint : region.Disjoint K)
    (hmeans : ∀ c ∈ bound, ∃ K', K'.Sublist region ∧ Means env a R Γ Δ (.expr c) K') :
    ∃ f, K = ids.flatMap f ∧ Slots env a R Γ Δ n f (· ∉ bound) (ids ++ bound) := by
  obtain ⟨f, rfl, hfresh, hapart⟩ := h.regions
  have hpart : ∀ c ∈ ids, ∀ x ∈ f c, x ∈ ids.flatMap f := fun c hc x hx => mem_flatMap.mpr ⟨c, hc, hx⟩
  have hin : ∀ c ∈ ids, c ∈ f c := fun c hc => (hfresh c hc).uses.mem (mem_singleton_self _)
  have hnot : ∀ c ∈ bound, c ∉ ids := by
    intro c hc hid
    have hcK := hpart c hid c (hin c hid)
    exact (hmem c hc).elim (fun hr => hdisjoint hr hcK) fun hle => Nat.not_lt.mpr hle (hK c hcK)
  have hold : ∀ c ∈ ids, (if c ∈ ids then f c else region) = f c := fun c hc => if_pos hc
  have hnew : ∀ c ∈ bound, (if c ∈ ids then f c else region) = region := fun c hc => if_neg (hnot c hc)
  have hout : ∀ c ∈ ids, c ∉ bound := fun c hc hb => hnot c hb hc
  have happly {P : ExprId → List ExprId → Prop} (hids : ∀ c ∈ ids, P c (f c))
      (hbound : ∀ c ∈ bound, P c region) :
      ∀ c ∈ ids ++ bound, P c (if c ∈ ids then f c else region) :=
    forall_mem_append.mpr ⟨fun c hc => (hold c hc).symm ▸ hids c hc,
      fun c hc => (hnew c hc).symm ▸ hbound c hc⟩
  refine ⟨fun c => if c ∈ ids then f c else region, ?_, hn, hcolumns, ?_, ?_, ?_, ?_, ?_, ?_⟩
  · exact (flatMap_congr hold).symm
  · exact happly (P := fun _ r => ∀ x ∈ r, x < n) (fun c hc x hx => hK x (hpart c hc x hx))
      fun _ _ => hbelow
  · exact happly (P := fun _ r => ∀ x ∈ r, ∀ y ∈ (a.expr x).parts, y ∈ r ∨ n ≤ y)
      (fun c hc x hx y hy => .inl ((hfresh c hc).uses.parts hx hy)) fun _ _ => hclosed
  · exact happly (P := fun c r => c ∈ r ∨ n ≤ c) (fun c hc => .inl (hin c hc)) hmem
  · exact happly (P := fun c r => c ∉ bound → a.Fresh [c] r) (fun c hc _ => hfresh c hc)
      fun c hc h => absurd hc h
  · exact happly (P := fun c r => ¬c ∉ bound → ∃ K', K'.Sublist r ∧ Means env a R Γ Δ (.expr c) K')
      (fun c hc h => absurd (hout c hc) h) fun c hc _ => hmeans c hc
  · intro c hc c' hc' hne
    rcases mem_append.mp hc with hc | hc <;> rcases mem_append.mp hc' with hc' | hc'
    · rw [hold c hc, hold c' hc']
      exact .inl (hapart c hc c' hc' hne)
    · rw [hold c hc, hnew c' hc']
      exact .inl fun x hx hx' => hdisjoint hx (hpart c hc x hx')
    · rw [hnew c hc, hold c' hc']
      exact .inl fun x hx hx' => hdisjoint hx' (hpart c' hc' x hx)
    · rw [hnew c hc, hnew c' hc']
      exact .inr ⟨rfl, not_not_intro hc, not_not_intro hc'⟩

namespace Slots

variable {a' : Arena} {R R' : Registry} {Γ : List (List ScopeTable)} {Δ : EntryMap} {n : Nat}
  {f : ExprId → List ExprId} {P : ExprId → Prop} {cs : List ExprId}

section

variable (h : Slots env a R Γ Δ n f P cs)

include h

theorem congr {P' : ExprId → Prop} (hP : ∀ c ∈ cs, P' c ↔ P c) :
    Slots env a R Γ Δ n f P' cs := by
  refine ⟨h.size_le, h.columns, h.below, h.closed, h.mem, fun c hc hp => h.fresh c hc ((hP c hc).mp hp),
    fun c hc hp => h.bound c hc fun h => hp ((hP c hc).mpr h), fun c hc c' hc' hne => ?_⟩
  rw [hP c hc, hP c' hc']
  exact h.apart c hc c' hc' hne

theorem parts_of_le {x : ExprId} (hx : n ≤ x) :
    (a.expr x).parts = [] := by
  by_cases hlt : x < a.size
  · have hcolumn := h.columns x hx hlt
    cases he : a.expr x with
    | column => rfl
    | _ => rw [he] at hcolumn; cases hcolumn
  · rw [Arena.expr_of_size_le (Nat.le_of_not_lt hlt)]
    rfl

theorem encloses (hc : c ∈ cs) :
    a.Encloses fun x => x ∈ f c ∨ n ≤ x := by
  refine ⟨fun x hx y hy => ?_, fun x hx => .inr (h.size_le.trans hx)⟩
  rcases hx with hx | hx
  · exact h.closed c hc x hx y hy
  · rw [h.parts_of_le hx] at hy
    cases hy

theorem columns_of_step (ha : Reshapes a a') (hadds : AddsColumns a a') :
    ∀ x, n ≤ x → x < a'.size → (a'.expr x).column?.isSome = true := by
  intro x hx hlt
  by_cases hx' : x < a.size
  · rw [(ha.kind x hx').isSome_column?]
    exact h.columns x hx hx'
  · exact hadds x (Nat.le_of_not_lt hx') hlt

theorem keep (hR : R.Extends R') (ha : Evolves a a')
    (hadds : AddsColumns a a') (hexpr : ∀ c ∈ cs, ∀ x ∈ f c, a'.expr x = a.expr x) :
    Slots env a' R' Γ Δ n f P cs := by
  refine ⟨h.size_le.trans ha.size_le, h.columns_of_step ha.toReshapes hadds, h.below, ?_, h.mem,
    fun c hc hP => (h.fresh c hc hP).congr ha.size_le (hexpr c hc), fun c hc hP => ?_, h.apart⟩
  · intro c hc x hx y hy
    rw [hexpr c hc x hx] at hy
    exact h.closed c hc x hx y hy
  · obtain ⟨_, hsub, hmeans⟩ := h.bound c hc hP
    obtain ⟨K', hsub', hmeans⟩ := hmeans.mono hR (.refl Γ) ha
    exact ⟨K', hsub'.trans hsub, hmeans⟩

theorem visit (hR : R.Extends R') (ha : Evolves a a')
    (hadds : AddsColumns a a') (hc : c ∈ cs) (hconfined : Confined (fun x => x ∈ f c ∨ n ≤ x) a a')
    (hbound : ∃ K, K.Sublist (f c) ∧ Means env a' R' Γ Δ (.expr c) K) :
    Slots env a' R' Γ Δ n f (fun x => P x ∧ x ≠ c) cs := by
  -- what is in another region is not touched
  have hkept : ∀ c' ∈ cs, (f c').Disjoint (f c) → ∀ x ∈ f c', a'.expr x = a.expr x := by
    intro c' hc' hdisjoint x hx
    refine hconfined.kept x fun hS => ?_
    rcases hS with hS | hS
    · exact hdisjoint hx hS
    · exact absurd (h.below c' hc' x hx) (Nat.not_lt.mpr hS)
  refine ⟨h.size_le.trans ha.size_le, h.columns_of_step ha.toReshapes hadds, h.below, ?_, h.mem,
    ?_, ?_, ?_⟩
  · intro c' hc' x hx y hy
    by_cases hne : c' = c
    · subst hne
      exact hconfined.closed x (.inl hx) y hy
    · rcases h.apart c hc c' hc' hne with hdisjoint | ⟨heq, _⟩
      · rw [hkept c' hc' hdisjoint x hx] at hy
        exact h.closed c' hc' x hx y hy
      · rw [heq] at hx ⊢
        exact hconfined.closed x (.inl hx) y hy
  · rintro c' hc' ⟨hP, hne⟩
    rcases h.apart c hc c' hc' hne with hdisjoint | ⟨_, _, hno⟩
    · exact (h.fresh c' hc' hP).congr ha.size_le (hkept c' hc' hdisjoint)
    · exact absurd hP hno
  · intro c' hc' hP
    by_cases hne : c' = c
    · subst hne
      exact hbound
    · obtain ⟨_, hsub, hmeans⟩ := h.bound c' hc' fun h => hP ⟨h, hne⟩
      obtain ⟨K', hsub', hmeans⟩ := hmeans.mono hR (.refl Γ) ha
      exact ⟨K', hsub'.trans hsub, hmeans⟩
  · intro c1 hc1 c2 hc2 hne
    exact (h.apart c1 hc1 c2 hc2 hne).imp_right fun ⟨heq, h1, h2⟩ =>
      ⟨heq, fun h => h1 h.1, fun h => h2 h.1⟩

theorem exprs (hids : ∀ id ∈ ids, id ∈ cs ∧ ¬P id) :
    ∃ K, K.Sublist (ids.flatMap f) ∧ Means env a R Γ Δ (.exprs ids) K := by
  induction ids with
  | nil => exact ⟨[], .refl _, .exprsNil⟩
  | cons id _ ih =>
    obtain ⟨hid, hids⟩ := forall_mem_cons.mp hids
    obtain ⟨K, hsub, hmeans⟩ := h.bound id hid.1 hid.2
    obtain ⟨K', hsub', hmeans'⟩ := ih hids
    exact ⟨K ++ K', hsub.append hsub', .exprsCons hmeans hmeans'⟩

end

end Slots

end SqlAnalysis
