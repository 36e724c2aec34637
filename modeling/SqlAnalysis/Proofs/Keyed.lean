import Mathlib.Data.List.Nodup
import SqlAnalysis.Keyed

/-!
# Keyed tables and lists

What the development needs of tables under keys and of lists beyond the library: where the entries of
a table are after insertions, and which element of a list has a value that no other one has.  The keys of
a table need not be different for most of it; where they must be, a lemma says so.

* **`Keyed.find?_foldl_insert`**: a table that is inserted into another one hides its entries.
* **`eq_of_nodup_filterMap`**: a value of a list without repetitions comes from one element.
-/

namespace SqlAnalysis

open List

/-! ### Tables -/

namespace Keyed

variable {κ α : Type} [DecidableEq κ] {t : Keyed κ α} {k : κ} {v : α}

theorem find?_eq_none_of_not_mem (h : k ∉ t.keys) : t.find? k = none := by
  induction t with
  | nil => rfl
  | cons e t ih =>
    obtain ⟨_, _⟩ := e
    rw [keys, map_cons, mem_cons, not_or] at h
    rw [find?_cons, if_neg (Ne.symm h.1)]
    exact ih h.2

theorem keys_insert (t : Keyed κ α) (k : κ) (v : α) :
    (t.insert k v).keys = if k ∈ t.keys then t.keys else t.keys ++ [k] := by
  induction t with
  | nil => simp [insert, keys]
  | cons e t ih =>
    obtain ⟨k', _⟩ := e
    unfold keys at ih
    by_cases h : k' = k
    · simp [insert, keys, h]
    · simp only [insert, if_neg h, keys, map_cons, ih, mem_cons, Ne.symm h, false_or]
      split <;> rfl

theorem nodup_keys_insert (h : t.keys.Nodup) (k : κ) (v : α) :
    (t.insert k v).keys.Nodup := by
  rw [keys_insert]
  split
  · exact h
  · rename_i hk
    rw [nodup_append]
    refine ⟨h, nodup_singleton _, fun x hx y hy => ?_⟩
    rw [mem_singleton] at hy
    subst hy
    exact fun heq => hk (heq ▸ hx)

theorem find?_foldl_insert (h : t.keys.Nodup) (base : Keyed κ α) (k : κ) :
    (t.foldl (fun known e => Keyed.insert known e.1 e.2) base).find? k =
      (t.find? k).or (base.find? k) := by
  induction t generalizing base with
  | nil => rfl
  | cons e t ih =>
    obtain ⟨k', _⟩ := e
    obtain ⟨hk', h⟩ := nodup_cons.mp h
    rw [foldl_cons, ih h, find?_insert, find?_cons]
    by_cases hk : k' = k
    · subst hk
      rw [if_pos rfl, if_pos rfl, find?_eq_none_of_not_mem hk']
      rfl
    · rw [if_neg hk, if_neg hk]

theorem insert_of_not_mem (h : k ∉ t.keys) (v : α) : t.insert k v = t ++ [(k, v)] := by
  induction t with
  | nil => rfl
  | cons e t ih =>
    rw [keys, map_cons, mem_cons, not_or] at h
    rw [insert, if_neg (Ne.symm h.1), ih h.2, cons_append]

theorem not_mem_keys_of_not_has (h : ¬t.has k = true) : k ∉ t.keys := by
  induction t with
  | nil => exact not_mem_nil
  | cons e t ih =>
    rw [has, find?_cons] at h
    split at h
    · exact (h rfl).elim
    · rename_i hne
      rw [keys, map_cons, mem_cons, not_or]
      exact ⟨Ne.symm hne, ih h⟩

theorem insert_of_find? (h : t.find? k = some v) : t.insert k v = t := by
  induction t with
  | nil => cases h
  | cons e t ih =>
    obtain ⟨_, _⟩ := e
    rw [find?_cons] at h
    rw [insert]
    split at h
    · rename_i hk
      cases h
      exact if_pos hk
    · rename_i hk
      rw [if_neg hk, ih h]

@[simp] theorem has_insert (t : Keyed κ α) (k j : κ) (v : α) :
    (t.insert k v).has j = (decide (k = j) || t.has j) := by
  by_cases h : k = j <;> simp [has, find?_insert, h]

theorem find?_filter (t : Keyed κ α) (p : κ → Bool) (k : κ) :
    find? (t.filter fun e => p e.1) k = if p k then t.find? k else none := by
  induction t with
  | nil => cases p k <;> rfl
  | cons e t ih =>
    obtain ⟨k', v⟩ := e
    by_cases hk : k' = k
    · subst hk
      cases hp : p k' <;> simp [hp, find?_cons, ih]
    · cases hp : p k' <;> simp [hp, find?_cons, hk, ih]

theorem mem_of_find? (h : t.find? k = some v) : (k, v) ∈ t := by
  obtain ⟨⟨k', _⟩, he, rfl⟩ := Option.map_eq_some_iff.mp h
  have hk : k' = k := by simpa using find?_some he
  rw [← hk]
  exact mem_of_find?_eq_some he

theorem mem_insert {e : κ × α} (h : e ∈ t.insert k v) :
    e ∈ t ∨ e = (k, v) := by
  induction t with
  | nil => exact .inr (mem_singleton.mp h)
  | cons e' t ih =>
    obtain ⟨_, _⟩ := e'
    rw [insert] at h
    split at h
    · rename_i hk
      rcases mem_cons.mp h with rfl | h
      · exact .inr (by rw [hk])
      · exact .inl (mem_cons_of_mem _ h)
    · rcases mem_cons.mp h with rfl | h
      · exact .inl mem_cons_self
      · exact (ih h).imp_left (mem_cons_of_mem _)

theorem mem_foldl_insert {base : Keyed κ α} {e : κ × α}
    (h : e ∈ t.foldl (fun known e => Keyed.insert known e.1 e.2) base) : e ∈ t ∨ e ∈ base := by
  induction t generalizing base with
  | nil => exact .inr h
  | cons _ _ ih =>
    rcases ih h with h | h
    · exact .inl (mem_cons_of_mem _ h)
    · rcases mem_insert h with h | rfl
      · exact .inr h
      · exact .inl mem_cons_self

end Keyed

/-! ### Lists -/

theorem find?_of_nodup {α : Type} {f : α → String} {l : List α} {x : α} (h : (l.map f).Nodup)
    (hx : x ∈ l) : l.find? (f · == f x) = some x := by
  induction l with
  | nil => cases hx
  | cons y l ih =>
    obtain ⟨hy, hl⟩ := nodup_cons.mp h
    rcases mem_cons.mp hx with rfl | hx
    · simp
    · have hne : f y ≠ f x := fun he => hy (he ▸ mem_map_of_mem hx)
      rw [find?_cons_of_neg (by simpa using hne)]
      exact ih hl hx

theorem eq_of_nodup_filterMap {α β : Type} {f : α → Option β} {l : List α} (h : (l.filterMap f).Nodup)
    {x y : α} {z : β} (hx : x ∈ l) (hy : y ∈ l) (hxz : f x = some z) (hyz : f y = some z) : x = y := by
  induction l with
  | nil => cases hx
  | cons w l ih =>
    have hother : ∀ {u : α}, u ∈ l → f u = some z → f w ≠ some z := by
      intro u hu huz hwz
      rw [filterMap_cons, hwz] at h
      exact (nodup_cons.mp h).1 (mem_filterMap.mpr ⟨u, hu, huz⟩)
    rcases mem_cons.mp hx with rfl | hx'
    · rcases mem_cons.mp hy with rfl | hy'
      · rfl
      · exact absurd hxz (hother hy' hyz)
    · rcases mem_cons.mp hy with rfl | hy'
      · exact absurd hyz (hother hx' hxz)
      · exact ih (h.sublist ((sublist_cons_self w l).filterMap f)) hx' hy'

end SqlAnalysis
