import Mathlib.Data.List.Perm.Basic
import Mathlib.Order.Lattice
import SqlAnalysis.Binding.Expression

/-!
# Common types

The types are ordered: no type is below all others, texts are below dates and these below timestamps,
and numbers are ordered by their rank, decimals among themselves by precision and scale.  The common type
of two types is their least upper bound, so the order and the grouping of operands do not matter.

* **`SqlType.common?_within_iff`**: what is above a common type is above both types.
* **`common_types_orderFree`**: the common type of a list is the same for all orders and groupings, and a
  CASE has it as its type.
-/

namespace SqlAnalysis

open List

variable {a b m t u : SqlType} {types : List SqlType}

/-! ### The order of types -/

namespace SqlType

def family : SqlType → Nat
  | .invalid => 0
  | .boolean => 1
  | .varchar | .date | .timestamp => 2
  | _ => 3

def level : SqlType → Nat
  | .date => 1
  | .timestamp => 2
  | t => t.numericRank

def digits : SqlType → Nat × Nat
  | .decimal p s => (p, s)
  | _ => (0, 0)

@[simp] theorem family_decimal (p s : Nat) : (decimal p s).family = 3 := rfl

@[simp] theorem level_decimal (p s : Nat) : (decimal p s).level = 4 := rfl

@[simp] theorem digits_decimal (p s : Nat) : (decimal p s).digits = (p, s) := rfl

/-- The second type can take the place of the first in a common type. -/
def Within (a b : SqlType) : Prop :=
  a = .invalid ∨ a.family = b.family ∧ (a.level < b.level ∨ a.level = b.level ∧ a.digits ≤ b.digits)

theorem Within.refl (t : SqlType) : t.Within t := .inr ⟨rfl, .inr ⟨rfl, le_rfl⟩⟩

theorem eq_or_decimal_of_level (hfamily : a.family = b.family) (hlevel : a.level = b.level) :
    a = b ∨ ∃ p s q t, a = .decimal p s ∧ b = .decimal q t := by
  cases a <;> cases b <;> simp_all [family, level, numericRank]

theorem common?_self (t : SqlType) : t.common? t = some t := if_pos rfl

theorem invalid_common? (t : SqlType) : invalid.common? t = some t := by
  cases t <;> rfl

theorem common?_invalid (t : SqlType) : t.common? .invalid = some t := by
  cases t <;> rfl

theorem common?_of_family (ha : a ≠ .invalid) (hb : b ≠ .invalid) (h : a.family ≠ b.family) :
    a.common? b = none := by
  cases a <;> cases b <;> first | rfl | contradiction

theorem common?_of_lt (hfamily : a.family = b.family) (h : a.level < b.level) :
    a.common? b = some b ∧ b.common? a = some b := by
  cases a <;> cases b <;> simp_all [family, level, numericRank] <;> exact ⟨rfl, rfl⟩

theorem common?_decimal (p s q t : Nat) :
    (decimal p s).common? (.decimal q t) = some (.decimal (max p q) (max s t)) := by
  by_cases h : decimal p s = .decimal q t
  · obtain ⟨rfl, rfl⟩ := decimal.inj h
    rw [common?_self, max_self, max_self]
  · exact if_neg h

theorem Within.of_lt (hfamily : a.family = b.family) (h : a.level < b.level) (hu : b.Within u) :
    a.Within u := by
  rcases hu with rfl | ⟨hfamily', hlevel⟩
  · exact absurd h (Nat.not_lt_zero _)
  · exact .inr ⟨hfamily.trans hfamily', .inl (by omega)⟩

theorem common?_within_iff : (∃ m, a.common? b = some m ∧ m.Within u) ↔ a.Within u ∧ b.Within u := by
  by_cases ha : a = .invalid
  · rw [ha, invalid_common?]
    simp [Within]
  by_cases hb : b = .invalid
  · rw [hb, common?_invalid]
    simp [Within]
  by_cases hfamily : a.family = b.family
  · rcases Nat.lt_trichotomy a.level b.level with hlt | heq | hgt
    · rw [(common?_of_lt hfamily hlt).1]
      simpa using Within.of_lt hfamily hlt
    · rcases eq_or_decimal_of_level hfamily heq with rfl | ⟨p, s, q, t, rfl, rfl⟩
      · simp [common?_self]
      · rw [common?_decimal]
        simp [Within, Prod.le_def]
        omega
    · rw [(common?_of_lt hfamily.symm hgt).2]
      simpa using Within.of_lt hfamily.symm hgt
  · rw [common?_of_family ha hb hfamily]
    refine iff_of_false (by simp) fun ⟨hau, hbu⟩ => hfamily ?_
    exact (hau.resolve_left ha).1.trans (hbu.resolve_left hb).1.symm

theorem Within.antisymm (h : a.Within b) (h' : b.Within a) : a = b := by
  by_cases ha : a = .invalid
  · cases b <;> simp_all [Within, family]
  · have hb : b ≠ .invalid := by
      rintro rfl
      cases a <;> simp_all [Within, family]
    obtain ⟨hfamily, hlevel⟩ := h.resolve_left ha
    obtain ⟨_, hlevel'⟩ := h'.resolve_left hb
    rcases eq_or_decimal_of_level hfamily (by omega) with rfl | ⟨p, s, q, t, rfl, rfl⟩
    · rfl
    · simp only [level_decimal, digits_decimal, Prod.le_def] at hlevel hlevel'
      rw [show p = q by omega, show s = t by omega]

theorem eq_of_within_iff {found found' : Option SqlType}
    (h : ∀ u, (∃ m, found = some m ∧ m.Within u) ↔ ∃ m, found' = some m ∧ m.Within u) :
    found = found' := by
  cases hfound : found with
  | none =>
    cases hfound' : found' with
    | none => rfl
    | some m' =>
      obtain ⟨m, hm, _⟩ := (h m').mpr ⟨m', hfound', .refl m'⟩
      cases hfound.symm.trans hm
  | some m =>
    obtain ⟨m', hm', hle⟩ := (h m).mp ⟨m, hfound, .refl m⟩
    obtain ⟨m'', hm'', hle'⟩ := (h m').mpr ⟨m', hm', .refl m'⟩
    cases hfound.symm.trans hm''
    rw [hm', hle.antisymm hle']

end SqlType

/-! ### Lists of operands -/

/-- The common type of a list of types, taken from left to right. -/
def commonOf (types : List SqlType) : Option SqlType := types.foldlM SqlType.common? .invalid

/-- A way to put brackets around operands. -/
inductive Bracketing where
  | operand (t : SqlType)
  | pair (left right : Bracketing)

namespace Bracketing

def operands : Bracketing → List SqlType
  | operand t => [t]
  | pair left right => left.operands ++ right.operands

/-- The common type in the order that the brackets give. -/
def common? : Bracketing → Option SqlType
  | operand t => some t
  | pair left right => do (← left.common?).common? (← right.common?)

theorem common?_within_iff (g : Bracketing) :
    (∃ m, g.common? = some m ∧ m.Within u) ↔ ∀ t ∈ g.operands, t.Within u := by
  induction g with
  | operand t => simp [common?, operands]
  | pair left right ihl ihr =>
    simp only [operands, mem_append, or_imp, forall_and, ← ihl, ← ihr]
    cases hl : left.common? <;> cases hr : right.common? <;>
      simp [common?, hl, hr, SqlType.common?_within_iff]

end Bracketing

theorem foldlM_within_iff :
    (∃ m, types.foldlM SqlType.common? a = some m ∧ m.Within u) ↔ a.Within u ∧ ∀ t ∈ types, t.Within u := by
  induction types generalizing a with
  | nil => simp
  | cons t types ih =>
    simp only [foldlM_cons, forall_mem_cons, ← and_assoc, ← SqlType.common?_within_iff]
    cases a.common? t with
    | none => simp
    | some m => simp [ih]

theorem commonOf_within_iff : (∃ m, commonOf types = some m ∧ m.Within u) ↔ ∀ t ∈ types, t.Within u :=
  foldlM_within_iff.trans (and_iff_right (.inl rfl))

theorem caseType_eq_ok_iff : caseType a types = .ok t ↔ types.foldlM SqlType.common? a = some t := by
  induction types generalizing a with
  | nil => simp [caseType]
  | cons u types ih =>
    rw [caseType, foldlM_cons]
    cases a.common? u with
    | none => simp
    | some m => exact ih

/-- **The common type of a list does not depend on the order or the grouping of its types.**  Taking a
common type is commutative, associative and idempotent, no type is its unit, and a failure absorbs
everything.  Any grouping of any arrangement of a list fails like the pass from left to right, or gives
the same type, and this is the type of a CASE with results of these types in any order. -/
theorem common_types_orderFree :
    (∀ a b c : SqlType, a.common? b = b.common? a ∧ a.common? a = some a ∧
      SqlType.invalid.common? a = some a ∧
      (a.common? b).bind (·.common? c) = (b.common? c).bind a.common?) ∧
    ∀ types : List SqlType,
      (∀ g : Bracketing, g.operands.Perm types → g.common? = commonOf types) ∧
      ∀ types', types'.Perm types → commonOf types' = commonOf types ∧
        ∀ t, caseType .invalid types' = .ok t ↔ commonOf types = some t := by
  have hperm {l l' : List SqlType} (h : l.Perm l') : commonOf l = commonOf l' :=
    SqlType.eq_of_within_iff fun u => by simp only [commonOf_within_iff, h.mem_iff]
  have hgroup (g : Bracketing) {l : List SqlType} (h : g.operands.Perm l) : g.common? = commonOf l :=
    SqlType.eq_of_within_iff fun u => by simp only [g.common?_within_iff, commonOf_within_iff, h.mem_iff]
  refine ⟨fun a b c => ⟨?_, SqlType.common?_self a, SqlType.invalid_common? a, ?_⟩, fun types =>
    ⟨fun g hg => hgroup g hg, fun types' h => ⟨hperm h, fun t => ?_⟩⟩⟩
  · exact SqlType.eq_of_within_iff fun u => by
      rw [SqlType.common?_within_iff, SqlType.common?_within_iff, and_comm]
  · have hleft := hgroup (.pair (.pair (.operand a) (.operand b)) (.operand c)) (.refl _)
    have hright := hgroup (.pair (.operand a) (.pair (.operand b) (.operand c))) (.refl _)
    simpa [Bracketing.common?] using hleft.trans hright.symm
  · rw [caseType_eq_ok_iff, ← hperm h]
    rfl

theorem mixedNumbers_orderFree :
    Bracketing.common? (.pair (.operand (.decimal 8 4)) (.pair (.operand .bigInt) (.operand (.decimal 10 2)))) =
      commonOf [.decimal 10 2, .decimal 8 4, .bigInt] ∧
    caseType .invalid [.bigInt, .decimal 8 4, .decimal 10 2] = .ok (.decimal 10 4) := by
  have h := common_types_orderFree.2 [.decimal 10 2, .decimal 8 4, .bigInt]
  exact ⟨h.1 _ (by decide), ((h.2 [.bigInt, .decimal 8 4, .decimal 10 2] (by decide)).2 _).mpr rfl⟩

end SqlAnalysis
