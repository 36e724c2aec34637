import SqlAnalysis.Proofs.Value.Promotion

/-!
# Whole numbers and their texts

A whole number and its text denote the same, so a literal that goes through texts and widths with room for
the number is promoted like the number itself.

* **`readInt?_intDigits`**, **`Decimal.read?_intDigits`**: both ways to read a number undo its text.
* **`Value.Spells.promote_eq`**: such a literal is promoted as the number is.
* **`numbers_promote_as_texts`**: the way through texts and other widths does not change a promotion.
-/

namespace SqlAnalysis

open Text List

variable {n : Int} {k m : Nat} {v w : Value} {t u : SqlType} {c : Char} {cs : List Char}

/-! ### Reading numerals -/

namespace Text

theorem isDigit_of_mem_natDigits (h : c ∈ natDigits k) : c.isDigit = true :=
  Nat.isDigit_of_mem_toDigits (by decide) (by decide) h

theorem natDigits_eq_cons (k : Nat) : ∃ c cs, natDigits k = c :: cs ∧ c.isDigit = true := by
  cases h : natDigits k with
  | nil => exact absurd h Nat.toDigits_ne_nil
  | cons c cs => exact ⟨c, cs, rfl, isDigit_of_mem_natDigits (h ▸ mem_cons_self)⟩

theorem splitSign_intDigits (n : Int) :
    splitSign (intDigits n) = (decide (n < 0), natDigits n.natAbs) := by
  unfold intDigits
  split
  · rename_i hneg
    simp [splitSign, hneg]
  · rename_i hneg
    obtain ⟨c, cs, hcs, hc⟩ := natDigits_eq_cons n.natAbs
    rw [hcs]
    unfold splitSign
    split
    · rename_i heq
      cases heq
      exact absurd hc (by decide)
    · rename_i heq
      cases heq
      exact absurd hc (by decide)
    · simp [hneg]

theorem readNat?_natDigits (k : Nat) : readNat? (natDigits k) = some k := by
  have hall : (natDigits k).all Char.isDigit = true := all_eq_true.mpr fun _ => isDigit_of_mem_natDigits
  have hsome : (natDigits k).isEmpty = false := isEmpty_eq_false_iff.mpr Nat.toDigits_ne_nil
  rw [readNat?, hall, hsome, if_neg (by decide)]
  exact congrArg some Nat.ofDigitChars_ten_toDigits

theorem readInt?_intDigits (n : Int) : readInt? (intDigits n) = some n := by
  rw [readInt?, splitSign_intDigits]
  simp only [readNat?_natDigits, decide_eq_true_eq]
  refine congrArg some ?_
  dsimp only
  split <;> omega

theorem isBlank_of_isDigit (h : c.isDigit = true) : isBlank c = false := by
  simp only [Char.isDigit, Bool.and_eq_true, decide_eq_true_eq, UInt32.le_iff_toNat_le, ge_iff_le] at h
  have hlow : 48 ≤ c.toNat := h.1
  have hhigh : c.toNat ≤ 57 := h.2
  simp [isBlank, blankCodes]
  omega

theorem isBlank_of_mem_intDigits (h : c ∈ intDigits n) : isBlank c = false := by
  unfold intDigits at h
  split at h
  · rcases mem_cons.mp h with rfl | h
    · decide
    · exact isBlank_of_isDigit (isDigit_of_mem_natDigits h)
  · exact isBlank_of_isDigit (isDigit_of_mem_natDigits h)

theorem trimLeft_of_forall (h : ∀ c ∈ cs, isBlank c = false) : trimLeft cs = cs := by
  cases cs with
  | nil => rfl
  | cons c cs => exact dropWhile_cons_of_neg (by simp [h c mem_cons_self])

theorem trim_intText (n : Int) : trim (intText n).toList = intDigits n := by
  have hlist : (intText n).toList = intDigits n := String.toList_ofList
  rw [hlist, trim, trimLeft_of_forall fun _ => isBlank_of_mem_intDigits,
    trimLeft_of_forall fun _ hc => isBlank_of_mem_intDigits (mem_reverse.mp hc), reverse_reverse]

end Text

namespace Decimal

theorem le_foldl_digits (cs : List Char) (m : Nat) :
    m ≤ cs.foldl (fun m c => 10 * m + digitValue c) m := by
  induction cs generalizing m with
  | nil => exact Nat.le_refl _
  | cons c cs ih => exact Nat.le_trans (by omega) (ih (10 * m + digitValue c))

theorem readPlainFrom?_digits (negative seen : Bool) (hdigits : ∀ c ∈ cs, c.isDigit = true)
    (hseen : seen = true ∨ cs ≠ []) (hlt : cs.foldl (fun m c => 10 * m + digitValue c) m < bound) :
    readPlainFrom? negative cs m 0 false seen =
      ofUnsignedZero? negative (cs.foldl (fun m c => 10 * m + digitValue c) m) 0 := by
  induction cs generalizing m seen with
  | nil => simp [readPlainFrom?, hseen.resolve_right (not_not_intro rfl)]
  | cons c cs ih =>
    obtain ⟨hc, hcs⟩ := forall_mem_cons.mp hdigits
    have hnext : 10 * m + digitValue c < bound := Nat.lt_of_le_of_lt (le_foldl_digits cs _) hlt
    simp only [readPlainFrom?, Bool.false_and, Bool.false_eq_true, if_false, hc, if_true, hnext]
    exact ih true hcs (.inl rfl) hlt

theorem read?_intDigits (hn : IntWidth.big.holds n = true) :
    ∃ d, read? (intDigits n) = some d ∧ ofInt? n = some d := by
  have h : n.natAbs < bound := by
    have hlow : -9223372036854775808 ≤ n := of_decide_eq_true (Bool.and_eq_true_iff.mp hn).1
    have hhigh : n < 9223372036854775808 := of_decide_eq_true (Bool.and_eq_true_iff.mp hn).2
    unfold bound
    omega
  have hvalue : (natDigits n.natAbs).foldl (fun m c => 10 * m + digitValue c) 0 = n.natAbs :=
    Nat.ofDigitChars_ten_toDigits
  have hread := readPlainFrom?_digits (decide (n < 0)) false (fun _ => isDigit_of_mem_natDigits)
    (.inr Nat.toDigits_ne_nil) (hvalue.symm ▸ h)
  have hsign : (decide (n < 0) && n.natAbs != 0) = decide (n < 0) := by
    by_cases hneg : n < 0
    · simp [hneg]
      omega
    · simp [hneg]
  rw [hvalue, ofUnsignedZero?, hsign] at hread
  have hfits : ofInt? n = some ⟨decide (n < 0), n.natAbs, 0, h, by decide⟩ := dif_pos ⟨h, by decide⟩
  refine ⟨_, ?_, hfits⟩
  rw [read?, readPlain?, splitSign_intDigits]
  dsimp only
  rw [hread, show ofParts? (decide (n < 0)) n.natAbs 0 = _ from hfits, Option.some_or]

end Decimal

/-! ### Promotion -/

/-- The type keeps the number as it is: it is the type of texts or of a width with room for the number. -/
def SqlType.Carries (t : SqlType) (n : Int) : Prop :=
  t = .varchar ∨ ∃ width : IntWidth, t = width.sqlType ∧ width.holds n = true

namespace Value

/-- The literal is the whole number, in some width, or its text. -/
inductive Spells (n : Int) : Value → Prop where
  | number (width : IntWidth) (fits : width.holds n = true) : Spells n (.integral width n fits)
  | text : Spells n (.varchar (intText n))

theorem ofIntAs?_width (width : IntWidth) (n : Int) :
    ofIntAs? n width.sqlType = some (orRefuse (ofInt? width n) (outOfRange (intText n) width.sqlType)) := by
  cases width <;> rfl

theorem ofInt?_of_holds {width : IntWidth} (h : width.holds n = true) :
    ofInt? width n = some (.integral width n h) := dif_pos h

theorem promote_integral {width : IntWidth} {fits : width.holds n = true} {r : Except Diagnostic Value}
    (hr : ofIntAs? n t = some r) : (Value.integral width n fits).promote t = r := by
  by_cases hself : width.sqlType = t
  · subst hself
    rw [ofIntAs?_width, ofInt?_of_holds fits] at hr
    cases hr
    exact promote_of_sqlType rfl
  · have hvalid : t.isValid = true := by
      cases t with
      | invalid => cases hr
      | _ => rfl
    have hconvert := promote_eq_convert (v := .integral width n fits) rfl hvalid hself
    rw [hconvert, convert, hr, Option.getD_some]

theorem Spells.promote_eq (hn : IntWidth.big.holds n = true) (hv : v.Spells n) (ht : t ≠ .double)
    {r : Except Diagnostic Value} (hr : ofIntAs? n t = some r) : v.promote t = r := by
  cases hv with
  | number => exact promote_integral hr
  | text =>
    have htext {t : SqlType} (ht : t.isValid = true) (hne : SqlType.varchar ≠ t) :
        (Value.varchar (intText n)).promote t = ofText (intText n) t :=
      promote_eq_convert (v := .varchar (intText n)) rfl ht hne
    have hread : readInt64? (intDigits n) = some n := by
      rw [readInt64?, readInt?_intDigits, Option.filter_some, if_pos hn]
    cases t with
    | varchar =>
      cases hr
      rfl
    | tinyInt | smallInt | integer | bigInt =>
      rw [htext rfl (by decide)]
      simp only [ofText, trim_intText, hread, hr, Option.getD_some]
    | decimal p s =>
      obtain ⟨d, hd, hof⟩ := Decimal.read?_intDigits hn
      rw [htext rfl (by simp)]
      simp only [ofIntAs?, hof, Option.some.injEq] at hr
      simp only [ofText, trim_intText, hd, hr]
    | double => exact absurd rfl ht
    | _ => cases hr

theorem Spells.step (hn : IntWidth.big.holds n = true) (hv : v.Spells n) (hu : u.Carries n) :
    ∃ w, v.promote u = .ok w ∧ w.Spells n := by
  rcases hu with rfl | ⟨width, rfl, hwidth⟩
  · exact ⟨.varchar (intText n), hv.promote_eq hn (by decide) rfl, .text⟩
  · refine ⟨_, hv.promote_eq hn ?_ ?_, .number width hwidth⟩
    · cases width <;> decide
    · rw [ofIntAs?_width, ofInt?_of_holds hwidth]
      rfl

theorem Spells.path (hn : IntWidth.big.holds n = true) (hv : v.Spells n) {path : List SqlType}
    (hpath : ∀ u ∈ path, u.Carries n) : ∃ w, path.foldlM promote v = .ok w ∧ w.Spells n := by
  induction path generalizing v with
  | nil => exact ⟨v, rfl, hv⟩
  | cons u path ih =>
    obtain ⟨hu, hrest⟩ := forall_mem_cons.mp hpath
    obtain ⟨w, hw, hspells⟩ := hv.step hn hu
    rw [foldlM_cons, hw]
    exact ih hspells hrest

end Value

/-- **Whole numbers and their texts are promoted alike.**  A 64-bit number of any width that goes through
texts and through widths with room for it, in any order, is promoted to a width or to a decimal type with
the outcome, value or refusal, of the number as BIGINT.  For a width there is a value exactly if the width
has room for the number, and it is the number. -/
theorem numbers_promote_as_texts (hn : IntWidth.big.holds n = true) (hv : v.asInt? = some n)
    (ht : (∃ width : IntWidth, t = width.sqlType) ∨ ∃ p s, t = .decimal p s) :
    (∀ path : List SqlType, (∀ u ∈ path, u.Carries n) →
      (do (← path.foldlM Value.promote v).promote t) = (Value.integral .big n hn).promote t) ∧
    ∀ width : IntWidth, t = width.sqlType →
      ((∃ w, (Value.integral .big n hn).promote t = .ok w) ↔ width.holds n = true) ∧
      ∀ w, (Value.integral .big n hn).promote t = .ok w → w.asInt? = some n := by
  have hdouble : t ≠ .double := by
    rintro rfl
    rcases ht with ⟨width, ht⟩ | ⟨_, _, ht⟩
    · cases width <;> cases ht
    · cases ht
  obtain ⟨r, hr⟩ : ∃ r, Value.ofIntAs? n t = some r := by
    rcases ht with ⟨width, rfl⟩ | ⟨p, s, rfl⟩
    · exact ⟨_, Value.ofIntAs?_width width n⟩
    · exact ⟨_, rfl⟩
  have hspells : v.Spells n := by
    cases v with
    | integral width => cases hv; exact .number width _
    | _ => cases hv
  rw [Value.promote_integral hr]
  refine ⟨fun path hpath => ?_, fun width hwidth => ?_⟩
  · obtain ⟨w, hw, hspells⟩ := hspells.path hn hpath
    rw [hw]
    exact hspells.promote_eq hn hdouble hr
  · subst hwidth
    rw [Value.ofIntAs?_width] at hr
    cases hr
    simp only [Value.orRefuse_ok, Value.ofInt?]
    by_cases hholds : width.holds n = true
    · simp [hholds, Value.asInt?]
    · simp [hholds]

theorem leastNumber_promotes_as_text :
    ∃ hn : IntWidth.big.holds (-9223372036854775808) = true, ∀ p s,
      (do (← [SqlType.varchar].foldlM Value.promote (.integral .big _ hn)).promote (.decimal p s)) =
        (Value.integral .big _ hn).promote (.decimal p s) := by
  refine ⟨by decide, fun p s => ?_⟩
  refine (numbers_promote_as_texts (by decide) rfl (.inr ⟨p, s, rfl⟩)).1 [.varchar] ?_
  exact forall_mem_singleton.mpr (.inl rfl)

end SqlAnalysis
