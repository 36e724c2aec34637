import SqlAnalysis.Proofs.Binding.Registration
import SqlAnalysis.Proofs.Plan.Derivation

/-!
# WITH entries in force

Names in FROM are looked up twice: when a statement is bound, among the entries that the scopes show,
and when its plan is built, among the entries in force there.

* **`Matches.extended`**: a WITH list keeps the two in step.
-/

namespace SqlAnalysis

variable {n : Nat} {ctes after : List VisibleCte} {own : List String} {Δ : EntryMap}
  {v : VisibleCte} {c : Cte}
  {cs : List Cte}

def VisibleCte.serials (v : VisibleCte) : List (Option Nat) := v.columns.map (·.knownAs.serial)

/-- The entries in force while a plan is built, and those that names were bound by.  All of them have
numbers below `n`; an entry in whose base case the names stand has numbers of its own. -/
structure Matches (n : Nat) (ctes : List VisibleCte) (own : List String) (Δ : EntryMap) : Prop where
  others : ∀ name, name ∉ own → (ctes.find? (·.name == name)).map (·.serials) = Δ name
  inside : ∀ name ∈ own, ∃ v, ctes.find? (·.name == name) = some v ∧ ∀ serial ∈ v.serials,
    ∃ m, serial = some m ∧ m < n ∧ ∀ serials, Δ name = some serials → serial ∉ serials
  below : Δ.Below n

theorem matches_nil (n : Nat) : Matches n [] [] fun _ => none :=
  ⟨fun _ _ => rfl, List.forall_mem_nil _, fun _ _ h => by cases h⟩

/-- A WITH entry has the same numbers in both. -/
structure VisibleCte.Shows (n : Nat) (v : VisibleCte) (c : Cte) : Prop where
  name : v.name = c.name
  serials : v.serials = c.columns.map (·.serial)
  below : ∀ serial ∈ c.columns.map (·.serial), ∃ m, serial = some m ∧ m < n

/-- The entries in force after a WITH list. -/
inductive Extended (n : Nat) : List VisibleCte → List Cte → List VisibleCte → Prop where
  | nil {ctes : List VisibleCte} : Extended n ctes [] ctes
  | cons {ctes after : List VisibleCte} {v : VisibleCte} {c : Cte} {cs : List Cte} :
    v.Shows n c → Extended n (v :: ctes) cs after → Extended n ctes (c :: cs) after

theorem visibleCte_shows {s s' : LowerState} (h : visibleCte c s = .ok v s')
    (hlen : c.columns.length = c.query.items.length) (hc : c.Numbered Δ n) : v.Shows n c := by
  obtain ⟨rfl, _⟩ := visibleCte_run h
  refine ⟨rfl, ?_, fun serial hs => (hc serial hs).imp fun _ h => ⟨h.1, h.2.1⟩⟩
  rw [VisibleCte.serials, List.map_map]
  show (c.columns.zip c.query.items).map ((·.serial) ∘ Prod.fst) = _
  rw [← List.map_map, List.map_fst_zip (hlen.le)]

namespace Matches

theorem find?_cons (v : VisibleCte) (ctes : List VisibleCte) (name : String) :
    (v :: ctes).find? (·.name == name) =
      if v.name = name then some v else ctes.find? (·.name == name) := by
  rw [List.find?_cons]
  by_cases h : v.name = name
  · rw [if_pos h, beq_iff_eq.mpr h]
  · rw [if_neg h, beq_eq_false_iff_ne.mpr h]

theorem define (h : Matches n ctes own Δ) (hv : v.Shows n c) :
    Matches n (v :: ctes) (own.filter (· ≠ c.name)) (c.define Δ) := by
  refine ⟨fun name hname => ?_, fun name hname => ?_, fun name serials hs serial hserial => ?_⟩
  · rw [find?_cons, Cte.define, hv.name]
    by_cases heq : name = c.name
    · rw [if_pos heq, if_pos heq.symm, Option.map_some, hv.serials]
    · rw [if_neg heq, if_neg (Ne.symm heq)]
      refine h.others name fun hmem => hname (List.mem_filter.mpr ⟨hmem, ?_⟩)
      exact decide_eq_true heq
  · obtain ⟨hmem, hne⟩ := List.mem_filter.mp hname
    have hne := of_decide_eq_true hne
    rw [find?_cons, Cte.define, hv.name, if_neg (Ne.symm hne), if_neg hne]
    exact h.inside name hmem
  · rw [Cte.define] at hs
    split at hs
    · cases hs
      exact hv.below serial hserial
    · exact h.below name serials hs serial hserial

theorem recursive (h : Matches n ctes own Δ) (hv : v.Shows n c) (hc : c.Numbered Δ n) :
    Matches n (v :: ctes) (c.name :: own) Δ := by
  refine ⟨fun name hname => ?_, fun name hname => ?_, h.below⟩
  · obtain ⟨hne, hname⟩ := not_or.mp (fun h => hname (List.mem_cons.mpr h))
    rw [find?_cons, hv.name, if_neg (Ne.symm hne)]
    exact h.others name hname
  · by_cases heq : name = c.name
    · subst heq
      refine ⟨v, by rw [find?_cons, if_pos hv.name], fun serial hserial => ?_⟩
      rw [hv.serials] at hserial
      obtain ⟨m, hm, hlt, hnew⟩ := hc serial hserial
      exact ⟨m, hm, hlt, fun serials hs => hm ▸ hnew _ serials hs⟩
    · rw [find?_cons, hv.name, if_neg (Ne.symm heq)]
      exact h.inside name ((List.mem_cons.mp hname).resolve_left heq)

theorem namesBeside_cons (own : List String) (c : Cte) (cs : List Cte) :
    namesBeside own (c :: cs) = namesBeside (own.filter (· ≠ c.name)) cs := by
  unfold namesBeside
  rw [List.filter_filter]
  refine List.filter_congr fun name _ => ?_
  rw [List.all_cons, Bool.and_comm]
  congr 1
  by_cases h : name = c.name
  · simp [h]
  · simp [h, Ne.symm h]

theorem extended (h : Matches n ctes own Δ) (he : Extended n ctes cs after) :
    Matches n after (namesBeside own cs) (Cte.defineAll cs Δ) := by
  induction he generalizing own Δ with
  | nil =>
    have hall : namesBeside own [] = own := List.filter_eq_self.mpr fun _ _ => rfl
    rwa [hall]
  | cons hv _ ih =>
    rw [namesBeside_cons]
    exact ih (h.define hv)

end Matches

end SqlAnalysis
