import SqlAnalysis.Value.Promotion

/-!
# Promoted literals

A literal that was promoted to a type is at rest there: promoting it once more changes nothing.

* **`Decimal.roundPlaces_roundPlaces`**: rounding to a number of places is idempotent.
* **`Value.convert_decimal_iff`**: a conversion to a decimal type goes through one decimal.
* **`Value.promote_promote`**: promoting to a type is idempotent.
* **`Value.promote_sqlType`**: the natural type of a promoted literal leads to the same literal.
-/

namespace SqlAnalysis

open Text

variable {d r : Decimal} {n precision scale : Nat} {refusal : Diagnostic}

/-! ### Decimals -/

namespace Decimal

theorem roundPlaces_of_le (h : d.places ≤ n) : d.roundPlaces n = d := by
  unfold roundPlaces
  rw [dif_pos h]

theorem places_roundPlaces_of_lt (h : n < d.places) : (d.roundPlaces n).places = n := by
  unfold roundPlaces
  rw [dif_neg (Nat.not_le_of_lt h)]

theorem places_roundPlaces_le (d : Decimal) (n : Nat) : (d.roundPlaces n).places ≤ n := by
  rcases Nat.lt_or_ge n d.places with h | h
  · exact Nat.le_of_eq (places_roundPlaces_of_lt h)
  · rw [roundPlaces_of_le h]
    exact h

theorem roundPlaces_roundPlaces (d : Decimal) (n : Nat) :
    (d.roundPlaces n).roundPlaces n = d.roundPlaces n :=
  roundPlaces_of_le (d.places_roundPlaces_le n)

theorem roundPlaces_places (d : Decimal) (n : Nat) :
    d.roundPlaces (d.roundPlaces n).places = d.roundPlaces n := by
  rcases Nat.lt_or_ge n d.places with h | h
  · rw [places_roundPlaces_of_lt h]
  · rw [roundPlaces_of_le h, roundPlaces_of_le (Nat.le_refl _)]

theorem mantissa_lt_tenTo (d : Decimal) : d.mantissa < tenTo d.digitCount :=
  (Nat.length_toDigits_le_iff (by decide) Nat.length_toDigits_pos).mp (Nat.le_refl _)

theorem whole_lt_tenTo (d : Decimal) :
    d.whole < tenTo (max (max d.digitCount d.places) 1 - d.places) := by
  have hroom : tenTo d.digitCount ≤
      tenTo (max (max d.digitCount d.places) 1 - d.places) * tenTo d.places := by
    show 10 ^ _ ≤ 10 ^ _ * 10 ^ _
    rw [← Nat.pow_add]
    exact Nat.pow_le_pow_right (by decide) (by omega)
  refine (Nat.div_lt_iff_lt_mul (tenTo_pos _)).mpr ?_
  exact Nat.lt_of_lt_of_le d.mantissa_lt_tenTo hroom

theorem fit?_eq_some_iff :
    d.fit? precision scale = some r ↔ r = d.roundPlaces scale ∧
      (precision - scale < maxDecimalPrecision → r.whole < tenTo (precision - scale)) := by
  unfold fit?
  dsimp only
  split
  · rename_i hlarge
    simp only [Bool.and_eq_true, decide_eq_true_eq] at hlarge
    refine ⟨nofun, fun ⟨hr, hroom⟩ => ?_⟩
    rw [hr] at hroom
    exact absurd (hroom hlarge.1) (Nat.not_lt_of_le hlarge.2)
  · rename_i hsmall
    simp only [Bool.and_eq_true, decide_eq_true_eq, not_and, Nat.not_le] at hsmall
    refine ⟨fun h => ?_, fun ⟨hr, _⟩ => by rw [hr]⟩
    cases h
    exact ⟨rfl, hsmall⟩

theorem fit?_fit? (h : d.fit? precision scale = some r) : r.fit? precision scale = some r := by
  obtain ⟨rfl, hroom⟩ := fit?_eq_some_iff.mp h
  exact fit?_eq_some_iff.mpr ⟨(d.roundPlaces_roundPlaces scale).symm, hroom⟩

theorem fit?_natural (h : d.fit? precision scale = some r) :
    d.fit? (max (max r.digitCount r.places) 1) r.places = some r := by
  obtain ⟨rfl, _⟩ := fit?_eq_some_iff.mp h
  exact fit?_eq_some_iff.mpr ⟨(d.roundPlaces_places scale).symm, fun _ => whole_lt_tenTo _⟩

end Decimal

/-! ### Literals -/

namespace Value

variable {v w : Value} {t : SqlType}

def asDecimal? : Value → Option Decimal
  | .integral _ n _ => Decimal.ofInt? n
  | .double x => Decimal.ofDouble? x
  | .decimal d => some d
  | .varchar s => Decimal.read? (trim s.toList)
  | _ => none

theorem orRefuse_ok {found : Option Value} : orRefuse found refusal = .ok w ↔ found = some w := by
  cases found <;> simp [orRefuse]

theorem ofDecimal?_eq_some {d : Option Decimal} :
    ofDecimal? d precision scale = some w ↔
      ∃ e r, d = some e ∧ e.fit? precision scale = some r ∧ w = .decimal r := by
  unfold ofDecimal?
  rw [Option.map_eq_some_iff]
  constructor
  · rintro ⟨r, hr, rfl⟩
    obtain ⟨e, he, hfit⟩ := Option.bind_eq_some_iff.mp hr
    exact ⟨e, r, he, hfit, rfl⟩
  · rintro ⟨e, r, rfl, hfit, rfl⟩
    exact ⟨r, hfit, rfl⟩

theorem convert_decimal_iff :
    v.convert (.decimal precision scale) = .ok w ↔
      ∃ d r, v.asDecimal? = some d ∧ d.fit? precision scale = some r ∧ w = .decimal r := by
  rw [← ofDecimal?_eq_some]
  cases v with
  | integral | double | decimal => exact orRefuse_ok
  | varchar s =>
    show ofText s (.decimal precision scale) = .ok w ↔
      ofDecimal? (Decimal.read? (trim s.toList)) precision scale = some w
    unfold ofText
    dsimp only
    cases Decimal.read? (trim s.toList) with
    | none => simp [ofDecimal?]
    | some => exact orRefuse_ok
  | _ => simp [convert, asDecimal?, ofDecimal?]

theorem sqlType_of_ofInt? {width : IntWidth} {n : Int} (h : ofInt? width n = some w) :
    w.sqlType = width.sqlType := by
  unfold ofInt? at h
  split at h
  · cases h
    rfl
  · cases h

theorem sqlType_of_ofIntAs? {n : Int} (ht : ∀ p s, t ≠ .decimal p s)
    (h : (ofIntAs? n t).getD (.error refusal) = .ok w) : w.sqlType = t := by
  cases t with
  | tinyInt | smallInt | integer | bigInt => exact sqlType_of_ofInt? (orRefuse_ok.mp h)
  | double | varchar =>
    cases h
    rfl
  | decimal p s => exact absurd rfl (ht p s)
  | _ => cases h

theorem sqlType_of_ofText {s : String} (ht : ∀ p s, t ≠ .decimal p s) (h : ofText s t = .ok w) :
    w.sqlType = t := by
  cases t with
  | date | timestamp | double | boolean =>
    obtain ⟨_, _, rfl⟩ := Option.map_eq_some_iff.mp (orRefuse_ok.mp h)
    rfl
  | tinyInt | smallInt | integer | bigInt =>
    unfold ofText at h
    dsimp only at h
    split at h
    · cases h
    · exact sqlType_of_ofIntAs? ht h
  | decimal p s => exact absurd rfl (ht p s)
  | _ => cases h

theorem sqlType_of_convert (ht : ∀ p s, t ≠ .decimal p s) (h : v.convert t = .ok w) :
    w.sqlType = t := by
  unfold convert at h
  split at h
  · exact sqlType_of_ofIntAs? ht h
  · exact absurd rfl (ht _ _)
  · cases h
    rfl
  · exact absurd rfl (ht _ _)
  · cases h
    rfl
  · exact sqlType_of_ofText ht h
  · cases h

theorem promote_of_sqlType (h : v.sqlType = t) : v.promote t = .ok v := by
  unfold promote
  rw [if_pos (by simp [h])]

theorem promote_invalid (v : Value) : v.promote .invalid = .ok v := rfl

theorem promote_eq_convert (hv : v.isNull = false) (ht : t.isValid = true) (hne : v.sqlType ≠ t) :
    v.promote t = v.convert t := by
  unfold promote
  rw [if_neg (by simp [hv, ht, hne])]

theorem promote_cases (h : v.promote t = .ok w) : w = v ∨ v.convert t = .ok w := by
  unfold promote at h
  split at h
  · cases h
    exact .inl rfl
  · exact .inr h

theorem convert_cases (h : v.convert t = .ok w) :
    (∃ precision scale d r, t = .decimal precision scale ∧ v.asDecimal? = some d ∧
      d.fit? precision scale = some r ∧ w = .decimal r) ∨ w.sqlType = t := by
  by_cases ht : ∃ p s, t = .decimal p s
  · obtain ⟨p, s, rfl⟩ := ht
    obtain ⟨d, r, hd, hr, rfl⟩ := convert_decimal_iff.mp h
    exact .inl ⟨p, s, d, r, rfl, hd, hr, rfl⟩
  · exact .inr (sqlType_of_convert (fun p s hps => ht ⟨p, s, hps⟩) h)

theorem promote_promote (h : v.promote t = .ok w) : w.promote t = .ok w := by
  rcases promote_cases h with rfl | hconvert
  · exact h
  · rcases convert_cases hconvert with ⟨p, s, d, r, rfl, _, hr, rfl⟩ | htype
    · by_cases hself : (Value.decimal r).sqlType = .decimal p s
      · exact promote_of_sqlType hself
      · rw [promote_eq_convert rfl rfl hself]
        exact convert_decimal_iff.mpr ⟨r, r, rfl, Decimal.fit?_fit? hr, rfl⟩
    · exact promote_of_sqlType htype

theorem promote_sqlType (h : v.promote t = .ok w) : v.promote w.sqlType = .ok w := by
  rcases promote_cases h with rfl | hconvert
  · exact promote_of_sqlType rfl
  · rcases convert_cases hconvert with ⟨p, s, d, r, rfl, hd, hr, rfl⟩ | htype
    · have hnatural := convert_decimal_iff.mpr ⟨d, r, hd, Decimal.fit?_natural hr, rfl⟩
      by_cases hself : v.sqlType = (Value.decimal r).sqlType
      · -- only a decimal has a decimal type, and with as many places as `r` it was not rounded
        cases v with
        | decimal =>
          cases hd
          obtain ⟨hround, _⟩ := Decimal.fit?_eq_some_iff.mp hr
          have hplaces : d.places = r.places := (SqlType.decimal.inj hself).2
          have hle : d.places ≤ s := by
            rw [hplaces, hround]
            exact d.places_roundPlaces_le s
          rw [promote_of_sqlType hself, hround, Decimal.roundPlaces_of_le hle]
        | integral width => cases width <;> cases hself
        | _ => cases hself
      · have hv : v.isNull = false := by
          cases v with
          | null => cases hd
          | _ => rfl
        rw [promote_eq_convert hv rfl hself]
        exact hnatural
    · rw [htype]
      exact h

end Value

end SqlAnalysis
