import SqlAnalysis.Proofs.Expr.Refinement

/-!
# How computations end

A computation over a well-formed store ends well if it gives a result or refuses the statement, and
the store it leaves refines the one it found.  It never meets a number without a node, nor does it run
in a circle.

* **`EndsWell.bind`**, **`endsWell_mapM`**, ...: one lemma for each construct.
-/

namespace SqlAnalysis

variable {σ α β : Type} {store : σ → Arena}

/-- The result has the property `Q` or is a refusal, and the store refines the given one. -/
def EndsFrom (store : σ → Arena) (a : Arena) (Q : α → Arena → Prop) :
    EStateM.Result Fault σ α → Prop
  | .ok r s => a.Refines (store s) ∧ Q r (store s)
  | .error e s => a.Refines (store s) ∧ ∃ d, e = .refused d

/-- The computation gives a result with the property `Q`, or refuses; the store is refined. -/
def EndsWell (store : σ → Arena) (act : EStateM Fault σ α) (Q : α → Arena → Prop) (s : σ) : Prop :=
  EndsFrom store (store s) Q (act s)

variable {act : EStateM Fault σ α} {Q : α → Arena → Prop} {s : σ}

theorem EndsWell.of_ok {r : α} {s' : σ} (h : act s = .ok r s') (hs : (store s).Refines (store s'))
    (hQ : Q r (store s')) : EndsWell store act Q s := by
  unfold EndsWell
  rw [h]
  exact ⟨hs, hQ⟩

theorem EndsWell.ok {r : α} {s' : σ} (h : EndsWell store act Q s) (hrun : act s = .ok r s') :
    (store s).Refines (store s') ∧ Q r (store s') := by
  unfold EndsWell at h
  rw [hrun] at h
  exact h

theorem EndsWell.error {e : Fault} {s' : σ} (h : EndsWell store act Q s)
    (hrun : act s = .error e s') : (store s).Refines (store s') ∧ ∃ d, e = .refused d := by
  unfold EndsWell at h
  rw [hrun] at h
  exact h

theorem EndsWell.imp {R : α → Arena → Prop} (h : EndsWell store act Q s)
    (hQ : ∀ {r a'}, (store s).Refines a' → Q r a' → R r a') : EndsWell store act R s := by
  cases hrun : act s with
  | ok =>
    obtain ⟨hs, hr⟩ := h.ok hrun
    exact .of_ok hrun hs (hQ hs hr)
  | error =>
    unfold EndsWell
    rw [hrun]
    exact h.error hrun

theorem EndsWell.of_run {other : EStateM Fault σ α} (h : EndsWell store other Q s)
    (hrun : act s = other s) : EndsWell store act Q s := by
  unfold EndsWell
  rw [hrun]
  exact h

theorem endsWell_pure {r : α} (hQ : Q r (store s)) : EndsWell store (pure r) Q s :=
  .of_ok rfl (.refl _) hQ

theorem endsWell_refused (d : Diagnostic) : EndsWell store (throw (.refused d)) Q s :=
  ⟨.refl _, d, rfl⟩

theorem endsWell_refused_bind {f : α → EStateM Fault σ β} {R : β → Arena → Prop} (d : Diagnostic) :
    EndsWell store (throw (.refused d) >>= f) R s :=
  ⟨.refl _, d, rfl⟩

theorem EndsWell.bind_from {f : α → EStateM Fault σ β} {R : β → Arena → Prop}
    (h : EndsWell store act Q s)
    (hf : ∀ {r s'}, act s = .ok r s' → (store s).Refines (store s') → Q r (store s') →
      EndsFrom store (store s) R (f r s')) :
    EndsWell store (act >>= f) R s := by
  show EndsFrom store (store s) R (EStateM.bind act f s)
  unfold EStateM.bind
  cases hrun : act s with
  | ok =>
    obtain ⟨hrefines, hr⟩ := h.ok hrun
    exact hf hrun hrefines hr
  | error => exact h.error hrun

theorem EndsWell.bind {f : α → EStateM Fault σ β} {R : β → Arena → Prop}
    (hs : (store s).WellFormed) (h : EndsWell store act Q s)
    (hf : ∀ {r s'}, act s = .ok r s' → (store s').WellFormed → (store s).Refines (store s') →
      Q r (store s') → EndsWell store (f r) R s') :
    EndsWell store (act >>= f) R s := by
  refine h.bind_from fun {r s'} hrun hrefines hr => ?_
  have hrest := hf hrun (hrefines.wellFormed hs) hrefines hr
  cases hrun' : f r s' with
  | ok =>
    obtain ⟨hrefines', hr'⟩ := hrest.ok hrun'
    exact ⟨hrefines.trans hrefines' hs, hr'⟩
  | error =>
    obtain ⟨hrefines', he⟩ := hrest.error hrun'
    exact ⟨hrefines.trans hrefines' hs, he⟩

theorem endsWell_ite {c : Prop} [Decidable c] {other : EStateM Fault σ α}
    (h : c → EndsWell store act Q s) (h' : ¬c → EndsWell store other Q s) :
    EndsWell store (if c then act else other) Q s := by
  by_cases hc : c
  · rw [if_pos hc]
    exact h hc
  · rw [if_neg hc]
    exact h' hc

theorem endsWell_mapM {f : α → EStateM Fault σ β} (R : α → β → Arena → Prop)
    (hR : ∀ {x y a a'}, R x y a → a.Refines a' → R x y a') {xs : List α} (hs : (store s).WellFormed)
    (hf : ∀ x ∈ xs, ∀ {s'}, (store s').WellFormed → (store s).Refines (store s') →
      EndsWell store (f x) (R x) s') :
    EndsWell store (xs.mapM f) (fun ys a => List.Forall₂ (R · · a) xs ys) s := by
  induction xs generalizing s with
  | nil =>
    rw [List.mapM_nil]
    exact endsWell_pure .nil
  | cons x xs ih =>
    rw [List.mapM_cons]
    refine .bind hs (hf x List.mem_cons_self hs (.refl _)) fun {y s1} _ hs1 hr1 hy => ?_
    have hrest : EndsWell store (xs.mapM f) (fun ys a => List.Forall₂ (R · · a) xs ys) s1 :=
      ih hs1 fun x hx _ hs' hr' => hf x (List.mem_cons_of_mem _ hx) hs' (hr1.trans hr' hs)
    refine .bind hs1 hrest fun {ys s2} _ _ hr2 hys => endsWell_pure ?_
    exact .cons (hR hy hr2) hys

theorem endsWell_mapM_each {f : α → EStateM Fault σ β} (T : β → Arena → Prop)
    (hT : ∀ {y a a'}, T y a → a.Refines a' → T y a') {xs : List α} (hs : (store s).WellFormed)
    (hf : ∀ x ∈ xs, ∀ {s'}, (store s').WellFormed → (store s).Refines (store s') →
      EndsWell store (f x) T s') :
    EndsWell store (xs.mapM f) (fun ys a => ∀ y ∈ ys, T y a) s := by
  refine (endsWell_mapM (fun _ => T) hT hs hf).imp fun _ hys => ?_
  induction hys with
  | nil => exact fun _ hy => absurd hy List.not_mem_nil
  | cons hy _ ih => exact List.forall_mem_cons.mpr ⟨hy, ih fun x hx => hf x (.tail _ hx)⟩

end SqlAnalysis
