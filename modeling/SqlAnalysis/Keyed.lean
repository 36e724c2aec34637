/-!
# Keyed tables

Entries under distinct keys, in the order in which they were added.

* **`Keyed.find?`**: the entry under a key.
* **`Keyed.insert`**: a new entry at the end, or a new value in the place of the old one.
* **`Keyed.erase`**: the table without a key.
-/

namespace SqlAnalysis

abbrev Keyed (κ α : Type) := List (κ × α)

namespace Keyed

variable {κ α : Type} [DecidableEq κ]

def find? (t : Keyed κ α) (k : κ) : Option α := (List.find? (fun e => e.1 = k) t).map (·.2)

def has (t : Keyed κ α) (k : κ) : Bool := (t.find? k).isSome

def insert : Keyed κ α → κ → α → Keyed κ α
  | [], k, v => [(k, v)]
  | (k', v') :: rest, k, v => if k' = k then (k', v) :: rest else (k', v') :: insert rest k v

def erase (t : Keyed κ α) (k : κ) : Keyed κ α := t.filter fun e => e.1 ≠ k

def keys (t : Keyed κ α) : List κ := t.map (·.1)

@[simp] theorem find?_nil (k : κ) : Keyed.find? ([] : Keyed κ α) k = none := rfl

theorem find?_cons (k' k : κ) (v : α) (t : Keyed κ α) :
    Keyed.find? ((k', v) :: t) k = if k' = k then some v else Keyed.find? t k := by
  unfold Keyed.find?
  by_cases h : k' = k <;> simp [h]

/-- Looking up after an insertion: the new value under its key, the old ones elsewhere. -/
@[simp] theorem find?_insert (t : Keyed κ α) (k j : κ) (v : α) :
    (t.insert k v).find? j = if k = j then some v else t.find? j := by
  induction t with
  | nil => simp [insert, find?_cons, find?_nil]
  | cons e t ih =>
    obtain ⟨k', v'⟩ := e
    by_cases h : k' = k
    · subst h
      simp only [insert, if_true, find?_cons]
      split <;> rfl
    · simp only [insert, if_neg h, find?_cons, ih]
      by_cases hj : k' = j
      · subst hj
        simp [Ne.symm h]
      · simp [hj]

/-- Looking up after an erasure: nothing under the key, the old values elsewhere. -/
@[simp] theorem find?_erase (t : Keyed κ α) (k j : κ) :
    (t.erase k).find? j = if k = j then none else t.find? j := by
  induction t with
  | nil => simp [erase, find?_nil]
  | cons e t ih =>
    obtain ⟨k', v'⟩ := e
    unfold erase at ih ⊢
    by_cases h : k' = k
    · subst h
      simp only [List.filter_cons, ne_eq, not_true_eq_false, decide_false, Bool.false_eq_true,
        if_false, ih, find?_cons]
      split <;> simp_all
    · simp only [List.filter_cons, ne_eq, h, not_false_eq_true, decide_true, if_true,
        find?_cons, ih]
      by_cases hj : k' = j
      · subst hj
        simp [Ne.symm h]
      · simp [hj]

end Keyed

end SqlAnalysis
