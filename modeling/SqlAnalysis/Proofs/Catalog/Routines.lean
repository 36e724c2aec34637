import Mathlib.Data.List.Forall2
import Mathlib.Data.List.Induction
import SqlAnalysis.Routine

/-!
# The overload that a call means

Functions are registered one after the other, and overloads of one name differ in their parameters.

* **`Routines.resolve?_eq_some_iff`**: a call means the earliest overload that takes exactly its
  arguments, and only without one the earliest that they convert to.
* **`overloads_resolve_stably`**: what follows for every history of registrations, and what one more
  registration can change.
-/

namespace SqlAnalysis

open List Text

variable {r : Routines} {f new : Routine} {name : String} {args : List SqlType}

/-- The overload has the name and exactly these parameters. -/
def Routine.Exact (name : String) (args : List SqlType) (f : Routine) : Prop :=
  f.name = lowercase name ∧ f.parameters = args

/-- The overload has the name and as many parameters, and each argument converts to its own unasked. -/
def Routine.Casts (name : String) (args : List SqlType) (f : Routine) : Prop :=
  f.name = lowercase name ∧ Forall₂ (fun arg param => arg.implicitlyCasts param = true) args f.parameters

theorem Routine.Exact.casts (h : f.Exact name args) : f.Casts name args := by
  refine ⟨h.1, ?_⟩
  rw [h.2]
  exact forall₂_same.mpr fun t _ => by simp [SqlType.implicitlyCasts]

/-- What is given when an overload is registered. -/
structure Signature where
  name : String
  parameters : List SqlType
  returns : SqlType

namespace Routines

theorem accepts_iff {parameters : List SqlType} :
    accepts parameters args = true ↔
      Forall₂ (fun arg param => arg.implicitlyCasts param = true) args parameters := by
  rw [forall₂_iff_zip, accepts, Bool.and_eq_true, beq_iff_eq, all_eq_true, eq_comm]
  exact and_congr_right fun _ => ⟨fun h a b hab => h (a, b) hab, fun h x hx => h hx⟩

/-! ### The search -/

/-- The first overload with a property. -/
def Earliest (r : Routines) (P : Routine → Prop) (f : Routine) : Prop :=
  P f ∧ ∃ before after, r.overloads = before ++ f :: after ∧ ∀ g ∈ before, ¬P g

/-- The overload is what the call means. -/
def Means (r : Routines) (name : String) (args : List SqlType) (f : Routine) : Prop :=
  r.Earliest (·.Exact name args) f ∨
    (∀ g ∈ r.overloads, ¬g.Exact name args) ∧ r.Earliest (·.Casts name args) f

theorem find?_named {P : Routine → Prop} {p : Routine → Bool}
    (hp : ∀ f, P f ↔ f.name = lowercase name ∧ p f = true) :
    (∀ f, (r.named name).find? p = some f ↔ r.Earliest P f) ∧
      ((r.named name).find? p = none ↔ ∀ f ∈ r.overloads, ¬P f) := by
  classical
  have hsearch : (r.named name).find? p = r.overloads.find? fun f => decide (P f) := by
    simp [named, find?_filter, hp]
  rw [hsearch]
  exact ⟨fun f => by simp [find?_eq_some_iff_append, Earliest], by simp⟩

theorem find?_exact : (∀ f, (r.named name).find? (·.parameters == args) = some f ↔
      r.Earliest (·.Exact name args) f) ∧
    ((r.named name).find? (·.parameters == args) = none ↔ ∀ f ∈ r.overloads, ¬f.Exact name args) :=
  find?_named fun f => by rw [beq_iff_eq]; rfl

theorem find?_casts : (∀ f, (r.named name).find? (fun f => accepts f.parameters args) = some f ↔
      r.Earliest (·.Casts name args) f) ∧
    ((r.named name).find? (fun f => accepts f.parameters args) = none ↔
      ∀ f ∈ r.overloads, ¬f.Casts name args) :=
  find?_named fun f => by rw [accepts_iff]; rfl

theorem resolve?_eq_some_iff : r.resolve? name args = some f ↔ r.Means name args f := by
  rw [resolve?, Option.or_eq_some_iff, find?_exact.1, find?_exact.2, find?_casts.1, Means]

theorem resolve?_eq_none_iff :
    r.resolve? name args = none ↔ ∀ f ∈ r.overloads, ¬f.Casts name args := by
  rw [resolve?, Option.or_eq_none_iff, find?_exact.2, find?_casts.2]
  exact ⟨And.right, fun h => ⟨fun f hf hexact => h f hf hexact.casts, h⟩⟩

/-! ### One more overload -/

theorem Earliest.append {r' : Routines} {P : Routine → Prop} (h : r.Earliest P f)
    (hr : r'.overloads = r.overloads ++ [new]) : r'.Earliest P f := by
  obtain ⟨hf, before, after, hsplit, hbefore⟩ := h
  exact ⟨hf, before, after ++ [new], by rw [hr, hsplit, append_assoc, cons_append], hbefore⟩

theorem Earliest.last {r' : Routines} {P : Routine → Prop} (h : ∀ g ∈ r.overloads, ¬P g) (hnew : P new)
    (hr : r'.overloads = r.overloads ++ [new]) : r'.Earliest P new :=
  ⟨hnew, r.overloads, [], hr, h⟩

theorem Means.append {r' : Routines} (h : r.Means name args f)
    (hr : r'.overloads = r.overloads ++ [new]) :
    r'.Means name args f ∨ ¬f.Exact name args ∧ new.Exact name args ∧ r'.Means name args new := by
  rcases h with hexact | ⟨hnone, hcasts⟩
  · exact .inl (.inl (hexact.append hr))
  · by_cases hnew : new.Exact name args
    · obtain ⟨-, before, after, hsplit, -⟩ := hcasts
      exact .inr ⟨hnone f (by simp [hsplit]), hnew, .inl (.last hnone hnew hr)⟩
    · refine .inl (.inr ⟨fun g hg => ?_, hcasts.append hr⟩)
      rcases mem_append.mp (hr ▸ hg) with hg | hg
      · exact hnone g hg
      · exact mem_singleton.mp hg ▸ hnew

/-! ### Histories -/

/-- The overloads after a history of registrations. -/
def ofHistory (history : List Signature) : Routines :=
  history.foldl (fun r s => (r.register s.name s.parameters s.returns).2) {}

theorem ofHistory_append (history : List Signature) (s : Signature) :
    ofHistory (history ++ [s]) = ((ofHistory history).register s.name s.parameters s.returns).2 := by
  rw [ofHistory, foldl_append]
  rfl

theorem ofHistory_eq (history : List Signature) :
    ofHistory history = ⟨history.mapIdx fun i s => ⟨i + 1, lowercase s.name, s.parameters, s.returns⟩,
      history.length + 1⟩ := by
  induction history using reverseRecOn with
  | nil => rfl
  | append_singleton history s ih =>
    rw [ofHistory_append, ih]
    simp [register]

theorem procIds_ofHistory (history : List Signature) :
    ((ofHistory history).overloads.map (·.procId)).Pairwise (· < ·) := by
  rw [ofHistory_eq, pairwise_iff_getElem]
  intro i j _ _ hij
  simpa using hij

/-- Numbers of 32 bits are enough for the registrations of a history that is not longer than they reach. -/
theorem procId_lt {history : List Signature} (h : history.length < 4294967296)
    (hf : f ∈ (ofHistory history).overloads) : f.procId < 4294967296 := by
  rw [ofHistory_eq] at hf
  obtain ⟨i, hi, rfl⟩ := mem_mapIdx.mp hf
  exact Nat.lt_of_le_of_lt hi h

end Routines

open Routines

/-- **Overloads resolve by one rule, and adding one is safe.**  After any history of registrations a call
means the earliest overload of its name with exactly its arguments, otherwise the earliest that all
arguments convert to, and it is refused exactly without one.  The numbers grow with every registration,
as long as they fit (`Routines.procId_lt`).
One more overload leaves a call that found its exact match, and changes the meaning of another only to the
new overload and only if this one is an exact match. -/
theorem overloads_resolve_stably (history : List Signature) (name : String) (args : List SqlType) :
    (ofHistory history).overloads.map (fun f => (f.name, f.parameters, f.returns)) =
      history.map (fun s => (lowercase s.name, s.parameters, s.returns)) ∧
    ((ofHistory history).overloads.map (·.procId)).Pairwise (· < ·) ∧
    (∀ f, (ofHistory history).resolve? name args = some f ↔ (ofHistory history).Means name args f) ∧
    ((ofHistory history).resolve? name args = none ↔
      ∀ f ∈ (ofHistory history).overloads, ¬f.Exact name args ∧ ¬f.Casts name args) ∧
    ∀ s : Signature, ∃ new,
      (ofHistory (history ++ [s])).overloads = (ofHistory history).overloads ++ [new] ∧
      new = ⟨((ofHistory history).register s.name s.parameters s.returns).1, lowercase s.name,
        s.parameters, s.returns⟩ ∧
      ∀ f, (ofHistory history).resolve? name args = some f →
        (f.Exact name args → (ofHistory (history ++ [s])).resolve? name args = some f) ∧
        ((ofHistory (history ++ [s])).resolve? name args ≠ some f →
          new.Exact name args ∧ (ofHistory (history ++ [s])).resolve? name args = some new) := by
  refine ⟨?_, procIds_ofHistory history, fun f => resolve?_eq_some_iff, ?_, fun s => ?_⟩
  · rw [ofHistory_eq]
    exact ext_getElem (by simp) fun i _ _ => by simp
  · rw [resolve?_eq_none_iff]
    exact forall₂_congr fun f _ => ⟨fun h => ⟨fun hexact => h hexact.casts, h⟩, And.right⟩
  · have hnew : (ofHistory (history ++ [s])).overloads = (ofHistory history).overloads ++ [_] :=
      congrArg overloads (ofHistory_append history s)
    refine ⟨_, hnew, rfl, fun f hf => ?_⟩
    simp only [resolve?_eq_some_iff, ne_eq] at hf ⊢
    rcases hf.append hnew with hkept | ⟨hcasts, hexact, hmeans⟩
    · exact ⟨fun _ => hkept, fun hchanged => (hchanged hkept).elim⟩
    · exact ⟨fun h => (hcasts h).elim, fun _ => ⟨hexact, hmeans⟩⟩

end SqlAnalysis
