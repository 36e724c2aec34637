import Mathlib.Algebra.Order.Field.Basic
import Mathlib.Data.Rat.Cast.Order
import Mathlib.Tactic.NormNum
import SqlAnalysis.Proofs.Value.CommonTypes
import SqlAnalysis.Proofs.Value.Numerals

/-!
# The numbers that literals denote

A decimal type has room for numbers below a power of ten.  Promotion compares with that power except where
28 digits stand in front of the point, and the common type of two numbers may have less room than either.

* **`promoted_decimals_fit_iff`**: a literal promoted to a decimal type has no more places and digits than
  the type, except for 29 digits in `DECIMAL(28,0)`.
* **`widening_exact_iff`**: conversion to the common type of two numbers never changes a number, and
  succeeds exactly if the common type has room.
-/

namespace SqlAnalysis

variable {d r : Decimal} {v w : Value} {a b m t : SqlType} {n p s : Nat} {x : ℚ}

/-! ### Decimals as numbers -/

namespace Decimal

/-- The number that a decimal denotes. -/
def toRat (d : Decimal) : ℚ := (if d.negative then -(d.mantissa : ℚ) else d.mantissa) / 10 ^ d.places

theorem abs_toRat (d : Decimal) : |d.toRat| = d.mantissa / 10 ^ d.places := by
  have hunit : (0 : ℚ) < 10 ^ d.places := pow_pos (by decide) _
  rw [toRat, abs_div, abs_of_pos hunit]
  split
  · rw [abs_neg, Nat.abs_cast]
  · rw [Nat.abs_cast]

theorem abs_toRat_lt_iff : |d.toRat| < 10 ^ n ↔ d.whole < tenTo n := by
  have hunit : (0 : ℚ) < 10 ^ d.places := pow_pos (by decide) _
  rw [abs_toRat, div_lt_iff₀ hunit, whole, Nat.div_lt_iff_lt_mul (tenTo_pos _)]
  show _ ↔ d.mantissa < 10 ^ n * 10 ^ d.places
  exact_mod_cast Iff.rfl

theorem digitCount_le_add (h : |d.toRat| < 10 ^ n) : d.digitCount ≤ max (n + d.places) 1 := by
  refine (Nat.length_toDigits_le_iff (by decide) (by omega)).mpr ?_
  have hmantissa := (Nat.div_lt_iff_lt_mul (tenTo_pos _)).mp (abs_toRat_lt_iff.mp h)
  refine hmantissa.trans_le ?_
  show 10 ^ _ * 10 ^ _ ≤ 10 ^ _
  rw [← Nat.pow_add]
  exact Nat.pow_le_pow_right (by decide) (by omega)

theorem toRat_of_ofInt? {k : Int} (h : ofInt? k = some d) : d.toRat = k ∧ d.places = 0 := by
  unfold ofInt? ofParts? at h
  split at h
  · cases h
    refine ⟨?_, rfl⟩
    simp only [toRat, decide_eq_true_eq, pow_zero, div_one]
    split
    · rw [show k = -(k.natAbs : Int) by omega]
      simp
    · rw [show k = (k.natAbs : Int) by omega]
      simp
  · cases h

end Decimal

/-- Promotion to the type accepts numbers of the size.  A decimal type has room for the digits in front of
its point, and from 28 of them on for all numbers. -/
def SqlType.HasRoom (t : SqlType) (x : ℚ) : Prop :=
  ∀ p s, t = .decimal p s → p - s < maxDecimalPrecision → |x| < 10 ^ (p - s)

theorem SqlType.hasRoom_decimal_iff :
    (SqlType.decimal p s).HasRoom x ↔ (p - s < maxDecimalPrecision → |x| < 10 ^ (p - s)) := by
  refine ⟨fun h => h p s rfl, fun h q u hqu => ?_⟩
  cases hqu
  exact h

theorem Decimal.fit?_eq_some_iff_hasRoom :
    d.fit? p s = some r ↔ r = d.roundPlaces s ∧ (SqlType.decimal p s).HasRoom r.toRat := by
  rw [fit?_eq_some_iff, SqlType.hasRoom_decimal_iff, abs_toRat_lt_iff]

theorem SqlType.hasRoom_sqlType (d : Decimal) : (Value.decimal d).sqlType.HasRoom d.toRat :=
  hasRoom_decimal_iff.mpr fun _ => Decimal.abs_toRat_lt_iff.mpr d.whole_lt_tenTo

theorem Value.exists_decimal_of_promote (h : v.promote (.decimal p s) = .ok w) (hw : w.isNull = false) :
    ∃ d, w = .decimal d ∧ d.places ≤ s ∧ (SqlType.decimal p s).HasRoom d.toRat := by
  unfold promote at h
  split at h
  · rename_i hkept
    cases h
    have htype : v.sqlType = .decimal p s := by simpa [SqlType.isValid, hw] using hkept
    cases v with
    | decimal d => exact ⟨d, rfl, (SqlType.decimal.inj htype).2.le, htype ▸ SqlType.hasRoom_sqlType d⟩
    | integral width => cases width <;> cases htype
    | _ => cases htype
  · obtain ⟨e, r, _, hfit, rfl⟩ := convert_decimal_iff.mp h
    obtain ⟨rfl, hroom⟩ := Decimal.fit?_eq_some_iff_hasRoom.mp hfit
    exact ⟨_, rfl, e.places_roundPlaces_le s, hroom⟩

/-- **A literal promoted to a decimal type has the places and digits of the type**, except in
`DECIMAL(28,0)`: there it is not compared with 28 digits, and 29 digits pass. -/
theorem promoted_decimals_fit_iff (ht : SqlType.decimal? p s = .ok t) (h : v.promote t = .ok w)
    (hw : w.isNull = false) :
    ∃ d q, w = .decimal d ∧ w.sqlType = .decimal q d.places ∧ d.places ≤ s ∧
      (q ≤ p ∧ |d.toRat| < 10 ^ (p - s) ↔ (p = 28 ∧ s = 0 → |d.toRat| < 10 ^ 28)) := by
  unfold SqlType.decimal? at ht
  split at ht
  · cases ht
  split at ht
  · cases ht
  rename_i hprecision hscale
  cases ht
  simp only [Bool.or_eq_true, decide_eq_true_eq, not_or] at hprecision
  unfold maxDecimalPrecision at hprecision
  obtain ⟨d, rfl, hplaces, hroom⟩ := Value.exists_decimal_of_promote h hw
  refine ⟨d, _, rfl, rfl, hplaces, ?_, fun hsmall => ?_⟩
  · rintro ⟨_, hsmall⟩ ⟨rfl, rfl⟩
    exact hsmall
  · have hlt : |d.toRat| < 10 ^ (p - s) := by
      by_cases hlimit : p - s < maxDecimalPrecision
      · exact SqlType.hasRoom_decimal_iff.mp hroom hlimit
      · unfold maxDecimalPrecision at hlimit
        obtain ⟨rfl, rfl⟩ : p = 28 ∧ s = 0 := by omega
        exact hsmall ⟨rfl, rfl⟩
    have hdigits := Decimal.digitCount_le_add hlt
    exact ⟨by omega, hlt⟩

def promotedType (text : String) (p s : Nat) : Option SqlType :=
  ((Value.varchar text).promote (.decimal p s)).toOption.map Value.sqlType

theorem promotedType_facts : promotedType "99.995" 5 2 = some (.decimal 5 2) ∧
    promotedType "1e28" 28 0 = some (.decimal 29 0) := by
  decide +kernel

theorem exists_of_promotedType {text : String} (h : promotedType text p s = some t) :
    ∃ w, (Value.varchar text).promote (.decimal p s) = .ok w ∧ w.sqlType = t := by
  unfold promotedType at h
  cases hw : (Value.varchar text).promote (.decimal p s) with
  | error e => rw [hw] at h; cases h
  | ok w => rw [hw] at h; exact ⟨w, rfl, Option.some.inj h⟩

/-- Rounding carries into a new digit, for which there is room. -/
theorem carriedDecimal_fits :
    ∃ w d, (Value.varchar "99.995").promote (.decimal 5 2) = .ok w ∧ w = .decimal d ∧
      |d.toRat| < 10 ^ (5 - 2) := by
  obtain ⟨w, hw, htype⟩ := exists_of_promotedType promotedType_facts.1
  have hnull : w.isNull = false := by
    cases w with
    | null => cases htype
    | _ => rfl
  obtain ⟨d, _, hd, _, _, hfits⟩ := promoted_decimals_fit_iff (p := 5) (s := 2) rfl hw hnull
  exact ⟨w, d, hw, hd, (hfits.mpr (by simp)).2⟩

theorem wideDecimal_misfits :
    SqlType.decimal? 28 0 = .ok (.decimal 28 0) ∧
      ∃ w, (Value.varchar "1e28").promote (.decimal 28 0) = .ok w ∧ w.sqlType = .decimal 29 0 :=
  ⟨rfl, exists_of_promotedType promotedType_facts.2⟩

/-! ### Conversion to a common type -/

/-- The number that a whole number or a decimal denotes. -/
def Value.number? : Value → Option ℚ
  | .integral _ n _ => some n
  | .decimal d => some d.toRat
  | _ => none

theorem IntWidth.holds_of_level {width width' : IntWidth} {k : Int}
    (h : width.sqlType.level ≤ width'.sqlType.level) (hk : width.holds k = true) :
    width'.holds k = true := by
  simp only [holds, Bool.and_eq_true, decide_eq_true_eq] at hk ⊢
  have hbound : width.bound ≤ width'.bound := by
    cases width <;> cases width' <;> first | decide | exact absurd h (by decide)
  omega

namespace SqlType

theorem width_or_decimal (hfamily : m.family = 3) (hlevel : m.level ≤ 4) :
    (∃ width : IntWidth, m = width.sqlType) ∨ ∃ p s, m = .decimal p s := by
  cases m with
  | tinyInt => exact .inl ⟨.tiny, rfl⟩
  | smallInt => exact .inl ⟨.small, rfl⟩
  | integer => exact .inl ⟨.regular, rfl⟩
  | bigInt => exact .inl ⟨.big, rfl⟩
  | decimal p s => exact .inr ⟨p, s, rfl⟩
  | double => exact absurd hlevel (by decide)
  | _ => cases hfamily

theorem within_decimal (ha : a.isNumeric = true) (hdouble : a ≠ .double) (hdigits : a.digits ≤ (p, s)) :
    a.Within (.decimal p s) := by
  cases a with
  | decimal => exact .inr ⟨rfl, .inr ⟨rfl, hdigits⟩⟩
  | tinyInt | smallInt | integer | bigInt => exact .inr ⟨rfl, .inl (by simp [level, numericRank])⟩
  | double => exact absurd rfl hdouble
  | _ => cases ha

theorem common?_number (ha : a.isNumeric = true) (hb : b.isNumeric = true) (ha' : a ≠ .double)
    (hb' : b ≠ .double) (hm : a.common? b = some m) :
    (∃ width : IntWidth, m = width.sqlType) ∨ ∃ p s, m = .decimal p s := by
  have hau := within_decimal ha ha' (le_sup_left : _ ≤ a.digits ⊔ b.digits)
  have hbu := within_decimal hb hb' (le_sup_right : _ ≤ a.digits ⊔ b.digits)
  obtain ⟨_, hm', hmu⟩ := common?_within_iff.mpr ⟨hau, hbu⟩
  cases hm.symm.trans hm'
  have ham := (common?_within_iff.mp ⟨m, hm, .refl m⟩).1
  rcases hmu with rfl | ⟨hfamily, hlevel⟩
  · cases ham.antisymm (.inl rfl)
    cases ha
  · rw [level_decimal] at hlevel
    exact width_or_decimal hfamily (by omega)

end SqlType

theorem Value.promote_decimal_iff (hd : v.asDecimal? = some d) (hplaces : d.places ≤ s) :
    v.promote (.decimal p s) = .ok w ↔ w = .decimal d ∧ (SqlType.decimal p s).HasRoom d.toRat := by
  by_cases hself : v.sqlType = .decimal p s
  · rw [promote_of_sqlType hself, ← hself]
    cases v with
    | decimal =>
      cases hd
      simp [SqlType.hasRoom_sqlType, eq_comm]
    | integral width => cases width <;> cases hself
    | _ => cases hself
  · have hnull : v.isNull = false := by
      cases v with
      | null => cases hd
      | _ => rfl
    rw [promote_eq_convert hnull rfl hself, convert_decimal_iff]
    simp [hd, Decimal.fit?_eq_some_iff_hasRoom, Decimal.roundPlaces_of_le hplaces, and_comm]

/-- **Conversion to a common type keeps numbers.**  A number whose type is one of two types without
doubles is never changed by promotion to their common type, and the promotion succeeds exactly if the
common type has room for the number. -/
theorem widening_exact_iff (ha : a.isNumeric = true) (hb : b.isNumeric = true) (ha' : a ≠ .double)
    (hb' : b ≠ .double) (hm : a.common? b = some m) (hv : v.sqlType = a ∨ v.sqlType = b) :
    ∃ x, v.number? = some x ∧ (∀ w, v.promote m = .ok w → w.number? = some x) ∧
      ((∃ w, v.promote m = .ok w) ↔ m.HasRoom x) := by
  obtain ⟨ham, hbm⟩ := SqlType.common?_within_iff.mp ⟨m, hm, .refl m⟩
  have hnumber : v.sqlType.isNumeric = true ∧ v.sqlType ≠ .double ∧ v.sqlType.Within m := by
    rcases hv with hv | hv <;> rw [hv]
    exacts [⟨ha, ha', ham⟩, ⟨hb, hb', hbm⟩]
  obtain ⟨hnumeric, hdouble, hwithin⟩ := hnumber
  have hlevel : v.sqlType.level ≤ m.level := by
    rcases hwithin with h | ⟨_, h⟩
    · rw [h] at hnumeric
      cases hnumeric
    · omega
  rcases SqlType.common?_number ha hb ha' hb' hm with ⟨width', rfl⟩ | ⟨p, s, rfl⟩
  · cases v with
    | integral width k fits =>
      have hk := IntWidth.holds_of_level hlevel fits
      have hpromote : (Value.integral width k fits).promote width'.sqlType = .ok (.integral width' k hk) :=
        Value.promote_integral (by rw [Value.ofIntAs?_width, Value.ofInt?_of_holds hk]; rfl)
      rw [hpromote]
      refine ⟨k, rfl, fun w hw => by cases hw; rfl, iff_of_true ⟨_, rfl⟩ fun p s hps => ?_⟩
      cases width' <;> cases hps
    | decimal =>
      have hlt : width'.sqlType.level < 4 := by cases width' <;> decide
      exact absurd hlevel (hlt.not_ge)
    | double => exact absurd rfl hdouble
    | _ => cases hnumeric
  · obtain ⟨d, hd, hplaces, hx⟩ : ∃ d, v.asDecimal? = some d ∧ d.places ≤ s ∧ v.number? = some d.toRat := by
      cases v with
      | integral width k fits =>
        have hbig : IntWidth.big.holds k = true :=
          IntWidth.holds_of_level (by cases width <;> decide) fits
        obtain ⟨d, _, hd⟩ := Decimal.read?_intDigits hbig
        obtain ⟨hx, hplaces⟩ := Decimal.toRat_of_ofInt? hd
        exact ⟨d, hd, hplaces.symm ▸ Nat.zero_le s, congrArg some hx.symm⟩
      | decimal d =>
        refine ⟨d, rfl, ?_, rfl⟩
        rcases hwithin with h | ⟨_, h | ⟨_, h⟩⟩
        · cases h
        · exact absurd h (Nat.lt_irrefl 4)
        · exact h.2
      | double => exact absurd rfl hdouble
      | _ => cases hnumeric
    refine ⟨d.toRat, hx, fun w hw => ?_, ?_⟩
    · rw [((Value.promote_decimal_iff hd hplaces).mp hw).1]
      rfl
    · simp [Value.promote_decimal_iff hd hplaces]

theorem thousand_widens : ∃ v w : Value, v.sqlType = .integer ∧ v.asInt? = some 1000 ∧
    v.promote (.decimal 10 2) = .ok w ∧ w.number? = some 1000 := by
  obtain ⟨x, hx, hsame, hroom⟩ := widening_exact_iff (a := .integer) (b := .decimal 10 2)
    (m := .decimal 10 2) (v := .integral .regular 1000 rfl) rfl rfl (by decide) (by decide) rfl (.inl rfl)
  cases hx
  obtain ⟨w, hw⟩ := hroom.mpr (SqlType.hasRoom_decimal_iff.mpr fun _ => by norm_num)
  exact ⟨_, w, rfl, rfl, hw, hsame w hw⟩

theorem thousand_refused : SqlType.integer.common? (.decimal 2 1) = some (.decimal 2 1) ∧
    ∃ v : Value, v.sqlType = .integer ∧ v.asInt? = some 1000 ∧
      v.promote (.decimal 2 1) = .error (Value.outOfRange "1000" (.decimal 2 1)) := by
  refine ⟨rfl, .integral .regular 1000 rfl, rfl, rfl, ?_⟩
  rfl

end SqlAnalysis
