import SqlAnalysis.Binding.Query

/-!
# Lower-casing twice

* **`lowerChar_of_mem`**: the characters of a lower-case text are their own lower-case text.
* **`lowercase_lowercase`**: lower-casing a text twice is lower-casing it once.
-/

namespace SqlAnalysis

open List

variable {r : CaseRun} {code partner : Nat} {c d : Char}

namespace Text

/-! ### Runs -/

/-- The partners of the run `r` are no members of the run `s`: they lie before it, behind it, or
between its members. -/
def CaseRun.avoids (r s : CaseRun) : Bool :=
  Nat.blt (r.partner + (r.last - r.first)) s.first || Nat.blt s.last r.partner ||
    (Nat.beq ((if r.first = r.last then 0 else r.step) % s.step) 0 &&
      !Nat.beq (r.partner % s.step) (s.first % s.step))

/-- The dot above a letter, both small sigmas and the lower-case texts of the first characters. -/
def fixedChars : List Char :=
  Char.ofNat 0x307 :: 'ς' :: 'σ' :: (range 0x80).flatMap fun n => lowerChar (Char.ofNat n)

theorem lowerRuns_facts : (lowerRuns.all (fun r => lowerRuns.all r.avoids &&
    r.avoids ⟨0x41, 0x5A, 1, 0⟩ && r.avoids ⟨0x130, 0x130, 1, 0⟩ && r.avoids ⟨0x3A3, 0x3A3, 1, 0⟩) &&
      fixedChars.all fun c => lowerChar c == [c] && c != 'Σ') = true := by
  decide +kernel

theorem CaseRun.partnerOf?_eq_none {s : CaseRun} (h : r.avoids s = true)
    (hcode : r.partnerOf? code = some partner) : s.partnerOf? partner = none := by
  unfold partnerOf? at hcode ⊢
  split at hcode
  · rename_i hr
    obtain ⟨hfirst, hlast, hstep⟩ := hr
    cases hcode
    refine if_neg fun hs => ?_
    obtain ⟨hfirst', hlast', hstep'⟩ := hs
    simp only [avoids, Bool.or_eq_true, Bool.and_eq_true, Bool.not_eq_true', Nat.blt_eq,
      Nat.beq_eq] at h
    rcases h with (h | h) | ⟨hdvd, hne⟩
    · omega
    · omega
    · -- all partners leave the same rest as the first one
      have hrest : (code - r.first) % s.step = 0 := by
        by_cases hone : r.first = r.last
        · have : code - r.first = 0 := by omega
          rw [this, Nat.zero_mod]
        · rw [if_neg hone] at hdvd
          exact Nat.mod_eq_zero_of_dvd
            (Nat.dvd_trans (Nat.dvd_of_mod_eq_zero hdvd) (Nat.dvd_of_mod_eq_zero hstep))
      have hpartner : (r.partner + (code - r.first)) % s.step = r.partner % s.step := by
        rw [Nat.add_mod, hrest, Nat.add_zero, Nat.mod_mod]
      have hmember : (r.partner + (code - r.first)) % s.step = s.first % s.step := by
        obtain ⟨k, hk⟩ := Nat.dvd_of_mod_eq_zero hstep'
        rw [show r.partner + (code - r.first) = s.first + s.step * k by omega,
          Nat.add_mul_mod_self_left]
      exact Nat.ne_of_beq_eq_false hne (hpartner.symm.trans hmember)
  · cases hcode

/-! ### Characters -/

theorem lowerChar_of_no_run (h : ∀ r ∈ lowerRuns, r.partnerOf? c.toNat = none)
    (hupper : ¬(0x41 ≤ c.toNat ∧ c.toNat ≤ 0x5A)) (hdotted : c.toNat ≠ 0x130) :
    lowerChar c = [c] := by
  unfold lowerChar
  split
  · have hnot : ¬(c.val ≥ 65 ∧ c.val ≤ 90) := fun hc =>
      hupper ⟨UInt32.le_iff_toNat_le.mp hc.1, UInt32.le_iff_toNat_le.mp hc.2⟩
    have hsame : c.toLower = c := dif_neg hnot
    rw [hsame]
  · rw [findSome?_eq_none_iff.mpr h]
    rfl

/-- A character that is its own lower-case text, also at the end of a word. -/
def IsLower (c : Char) : Prop := lowerChar c = [c] ∧ c ≠ 'Σ'

theorem isLower_partner (hr : r ∈ lowerRuns) (h : r.partnerOf? code = some partner) :
    IsLower (Char.ofNat partner) := by
  have havoids := all_eq_true.mp (Bool.and_eq_true_iff.mp lowerRuns_facts).1 r hr
  simp only [Bool.and_eq_true] at havoids
  have hruns : ∀ s ∈ lowerRuns, s.partnerOf? partner = none := fun s hs =>
    CaseRun.partnerOf?_eq_none (all_eq_true.mp havoids.1.1.1 s hs) h
  have hupper := CaseRun.partnerOf?_eq_none havoids.1.1.2 h
  have hdotted := CaseRun.partnerOf?_eq_none havoids.1.2 h
  have hsigma := CaseRun.partnerOf?_eq_none havoids.2 h
  simp only [CaseRun.partnerOf?, Nat.mod_one, and_true, ite_eq_right_iff, reduceCtorEq,
    imp_false] at hupper hdotted hsigma
  -- a number that is no code point stands for the character with number 0
  by_cases hvalid : partner.isValidChar
  · have hcode : (Char.ofNat partner).toNat = partner := by
      rw [Char.ofNat, dif_pos hvalid]
      rfl
    refine ⟨lowerChar_of_no_run (by rw [hcode]; exact hruns) (by rw [hcode]; exact hupper)
      fun heq => ?_, fun heq => ?_⟩
    · rw [hcode] at heq
      exact hdotted ⟨Nat.le_of_eq heq.symm, Nat.le_of_eq heq⟩
    · rw [heq] at hcode
      exact hsigma ⟨Nat.le_of_eq hcode, Nat.le_of_eq hcode.symm⟩
  · have hzero : Char.ofNat partner = Char.ofNat 0 := by
      rw [Char.ofNat, dif_neg hvalid]
      rfl
    rw [hzero]
    exact ⟨by decide, by decide⟩

theorem isLower_of_mem_fixedChars (h : c ∈ fixedChars) : IsLower c := by
  simpa [IsLower] using all_eq_true.mp (Bool.and_eq_true_iff.mp lowerRuns_facts).2 c h

theorem isLower_of_mem (hc : c ≠ 'Σ') (hd : d ∈ lowerChar c) : IsLower d := by
  by_cases hascii : c.toNat < 0x80
  · refine isLower_of_mem_fixedChars ?_
    have hmem : d ∈ (range 0x80).flatMap fun n => lowerChar (Char.ofNat n) :=
      mem_flatMap.mpr ⟨c.toNat, mem_range.mpr hascii, by rwa [Char.ofNat_toNat]⟩
    simp [fixedChars, hmem]
  · by_cases hdotted : c.toNat = 0x130
    · rw [lowerChar, if_neg hascii, if_pos hdotted] at hd
      rcases mem_cons.mp hd with rfl | hd
      · exact ⟨by decide, by decide⟩
      · obtain rfl := mem_singleton.mp hd
        exact isLower_of_mem_fixedChars mem_cons_self
    · rw [lowerChar, if_neg hascii, if_neg hdotted, mem_singleton] at hd
      cases hrun : lowerRuns.findSome? (·.partnerOf? c.toNat) with
      | none =>
        rw [hrun] at hd
        subst hd
        exact ⟨lowerChar_of_no_run (findSome?_eq_none_iff.mp hrun) (by omega) hdotted, hc⟩
      | some =>
        rw [hrun] at hd
        subst hd
        obtain ⟨r, hr, hpartner⟩ := exists_of_findSome?_eq_some hrun
        exact isLower_partner hr hpartner

/-! ### Texts -/

theorem isLower_of_mem_lowerAfter (before cs : List Char) (hd : d ∈ lowerAfter before cs) :
    IsLower d := by
  induction cs generalizing before with
  | nil => cases hd
  | cons c after ih =>
    rw [lowerAfter, mem_append] at hd
    rcases hd with hd | hd
    · split at hd
      · rw [mem_singleton, lowerSigma] at hd
        subst hd
        split
        · exact isLower_of_mem_fixedChars (by simp [fixedChars])
        · exact isLower_of_mem_fixedChars (by simp [fixedChars])
      · rename_i hc
        exact isLower_of_mem hc hd
    · exact ih _ hd

theorem lowerAfter_of_isLower (before cs : List Char) (h : ∀ c ∈ cs, IsLower c) :
    lowerAfter before cs = cs := by
  induction cs generalizing before with
  | nil => rfl
  | cons c _ ih =>
    obtain ⟨hlower, hsigma⟩ := h c mem_cons_self
    rw [lowerAfter, if_neg hsigma, hlower, ih _ fun d hd => h d (mem_cons_of_mem _ hd)]
    rfl

@[simp] theorem lowercase_lowercase (s : String) : lowercase (lowercase s) = lowercase s := by
  have hlower : lowerAfter [] (lowercase s).toList = (lowercase s).toList := by
    refine lowerAfter_of_isLower _ _ fun c hc => ?_
    rw [lowercase, String.toList_ofList] at hc
    exact isLower_of_mem_lowerAfter _ _ hc
  rw [lowercase, hlower, String.ofList_toList]

end Text

@[simp] theorem ObjectName.normalize_normalize (n : ObjectName) :
    n.normalize.normalize = n.normalize := by
  cases n with
  | mk database schema name =>
    cases database <;> cases schema <;> simp [normalize]

end SqlAnalysis
