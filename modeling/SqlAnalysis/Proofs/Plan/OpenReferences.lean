import SqlAnalysis.Proofs.Plan.Traversal

/-!
# The open reference that is filled

An operator of a plan is found by the numbers of the inputs on the way to it.  Operators before their
inputs and inputs from left to right is the lexical order of these ways.

* **`attachCte_fills_first`**: attaching a plan changes exactly the first open reference of the name, and
  without one it changes nothing.
-/

namespace SqlAnalysis

open List

variable {p p' body : Plan} {scan : CteScan} {name : String} {way : List Nat}

namespace Plan

def at? (p : Plan) : List Nat → Option Plan
  | [] => some p
  | i :: way => p.children[i]?.bind (·.at? way)

/-- The plan with another one at the end of a way. -/
def replaceAt (new p : Plan) : List Nat → Plan
  | [] => new
  | i :: way => p.withChildren (p.children.modify i (replaceAt new · way))

/-- The way leads to an open reference of the name. -/
def OpenAt (p : Plan) (name : String) (way : List Nat) (scan : CteScan) : Prop :=
  p.at? way = some (.cteScan scan) ∧ scan.cte = name

/-- No open reference of the name comes earlier. -/
def FirstOpenAt (p : Plan) (name : String) (way : List Nat) (scan : CteScan) : Prop :=
  p.OpenAt name way scan ∧ ∀ way' < way, ∀ scan', ¬p.OpenAt name way' scan'

theorem openAt_cons {i : Nat} : p.OpenAt name (i :: way) scan ↔
    ∃ c, p.children[i]? = some c ∧ c.OpenAt name way scan := by
  simp only [OpenAt, at?, Option.bind_eq_some_iff, ← exists_and_right, and_assoc]

theorem not_openAt_of_attachCte (h : p.attachCte name body = none) (way : List Nat) (scan : CteScan) :
    ¬p.OpenAt name way scan := by
  induction way generalizing p with
  | nil =>
    rintro ⟨hat, hname⟩
    cases hat
    simp [attachCte, hname] at h
  | cons _ _ ih =>
    rw [openAt_cons]
    rintro ⟨c, hc, hopen⟩
    rcases attachCte_eq name body p with ⟨_, rfl⟩ | ⟨-, heq⟩
    · cases hc
    · rw [heq, Option.map_eq_none_iff, attachFirst_eq_none] at h
      exact ih (h c (mem_of_getElem? hc)) hopen

theorem firstOpenAt_of_attachCte (h : p.attachCte name body = some p') :
    ∃ way scan, p.FirstOpenAt name way scan ∧ p' = replaceAt (.cteBody scan body) p way := by
  induction p using induction_children generalizing p' with | h p ih =>
  rcases attachCte_eq name body p with ⟨scan, rfl⟩ | ⟨hscan, heq⟩
  · simp only [attachCte, Option.ite_none_right_eq_some, Option.some.injEq] at h
    obtain ⟨hname, rfl⟩ := h
    exact ⟨[], scan, ⟨⟨rfl, hname⟩, fun _ hlt => (not_lt_nil _ hlt).elim⟩, rfl⟩
  · rw [heq, Option.map_eq_some_iff] at h
    obtain ⟨_, hattach, rfl⟩ := h
    obtain ⟨before, c, _, after, hcs, rfl, hc, hnone⟩ := attachFirst_eq_some hattach
    obtain ⟨way, scan, ⟨hopen, hfirst⟩, rfl⟩ := ih c (by simp [hcs]) hc
    refine ⟨before.length :: way, scan, ⟨openAt_cons.mpr ⟨c, by simp [hcs], hopen⟩, ?_⟩,
      by simp [replaceAt, hcs, modify_eq_take_cons_drop]⟩
    intro way' hlt scan' hopen'
    cases way' with
    | nil =>
      -- the operator itself, which is no open reference
      cases hopen'.1
      cases hscan
    | cons j way' =>
      obtain ⟨d, hd, hopen'⟩ := openAt_cons.mp hopen'
      rw [hcs] at hd
      rcases cons_lt_cons_iff.mp hlt with hj | ⟨rfl, hless⟩
      · -- an input to the left, where nothing could be attached
        rw [getElem?_append_left hj] at hd
        exact not_openAt_of_attachCte (hnone d (mem_of_getElem? hd)) way' scan' hopen'
      · rw [getElem?_append_right (Nat.le_refl _), Nat.sub_self, getElem?_cons_zero] at hd
        cases hd
        exact hfirst way' hless scan' hopen'

end Plan

/-- **Attaching a plan fills the first open reference.**  If a plan has an open reference of the name,
then attaching a body succeeds, and the result is the plan with the body under the first such reference,
operators before their inputs and inputs from left to right, also in bodies attached before.  Otherwise the
body is not attached. -/
theorem attachCte_fills_first (p : Plan) (name : String) (body : Plan) :
    ((∃ way scan, p.OpenAt name way scan) → ∃ way scan, p.FirstOpenAt name way scan ∧
      p.attachCte name body = some (.replaceAt (.cteBody scan body) p way)) ∧
    ((¬∃ way scan, p.OpenAt name way scan) → p.attachCte name body = none) := by
  cases h : p.attachCte name body with
  | none =>
    refine ⟨?_, fun _ => rfl⟩
    rintro ⟨way, scan, hopen⟩
    exact (Plan.not_openAt_of_attachCte h way scan hopen).elim
  | some p' =>
    obtain ⟨way, scan, hfirst, rfl⟩ := Plan.firstOpenAt_of_attachCte h
    exact ⟨fun _ => ⟨way, scan, hfirst, rfl⟩, fun hnone => (hnone ⟨way, scan, hfirst.1⟩).elim⟩

end SqlAnalysis
