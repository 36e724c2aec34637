import SqlAnalysis.Proofs.Binding.Overloads
import SqlAnalysis.Proofs.Value.CommonTypes

/-!
# The results of a CASE

The type of a CASE is found by going through the types of its results; afterwards the literals among
the results are converted to it, and the others stay as they are.

* **`caseType_within`**: the types of all results are below the type of the CASE.
* **`case_results_fit_iff`**: a literal result has the type of the CASE, and any other result converts to
  it unless it is a text among dates or timestamps.
-/

namespace SqlAnalysis

open BindM hiding typeOf setType
open List Arena

variable {a b t u found : SqlType} {types : List SqlType} {env : Accessor} {n : Nat} {id c : ExprId}
  {ids : List ExprId} {s s' s'' : BindState} {w : Unit}

theorem SqlType.Within.implicitlyCasts_iff (h : a.Within b) :
    a.implicitlyCasts b = true ↔ ¬(a = .varchar ∧ b.isTemporal = true) := by
  cases a <;> cases b <;>
    simp_all [Within, family, level, numericRank, implicitlyCasts, widens, isTemporal]

theorem caseType_within (h : caseType found types = .ok t) : found.Within t ∧ ∀ u ∈ types, u.Within t :=
  foldlM_within_iff.mp ⟨t, caseType_eq_ok_iff.mp h, .refl t⟩

/-! ### Conversion of literals -/

/-- Some literals have got the type, and all other nodes are as they were. -/
def BindState.Adopts (t : SqlType) (s s' : BindState) : Prop :=
  ∀ x, s'.exprs.node x = s.exprs.node x ∨ (s'.exprs.expr x).isLiteral = true ∧ s'.exprs.typeOf x = t

theorem BindState.Adopts.trans (h : s.Adopts t s') (h' : s'.Adopts t s'') : s.Adopts t s'' := by
  intro x
  rcases h' x with hx | hx
  · rw [expr, typeOf, hx]
    exact h x
  · exact .inr hx

theorem convertLiteral_adopts (ht : t = .invalid → s.exprs.typeOf c = .invalid)
    (h : convertLiteral (recurTo env n) t c s = .ok w s') :
    s.Adopts t s' ∧ ((s'.exprs.expr c).isLiteral = true → s'.exprs.typeOf c = t) := by
  simp only [convertLiteral, run_bind, run_isLiteral, run_typeOf] at h
  obtain ⟨_, _, ⟨rfl, rfl⟩, _, _, ⟨rfl, rfl⟩, h⟩ := h
  split at h
  · rename_i hliteral
    obtain ⟨hliteral, hne⟩ := Bool.and_eq_true_iff.mp hliteral
    simp only [run_bind, run_expect] at h
    obtain ⟨_, _, rfl, h⟩ := h
    obtain ⟨hkept, _, hstill, htype⟩ := bindExpr_literal h hliteral
    have hexpected : (s.expectations.expect c t).expectedOf c = t := by simp
    have hvalid : t.isValid = true := bne_iff_ne.mpr fun h => bne_iff_ne.mp hne ((ht h).trans h.symm)
    have htype : s'.exprs.typeOf c = t := (htype (hexpected.symm ▸ hvalid)).trans hexpected
    refine ⟨fun x => ?_, fun _ => htype⟩
    by_cases hx : x = c
    · subst hx
      exact .inr ⟨hstill, htype⟩
    · exact .inl (hkept x hx)
  · rename_i hnot
    obtain ⟨_, rfl⟩ := run_pure.mp h
    refine ⟨fun _ => .inl rfl, fun hl => ?_⟩
    rw [hl, Bool.true_and, bne_iff_ne, not_not] at hnot
    exact hnot

theorem convertAll_adopts (ht : t = .invalid → ∀ c ∈ ids, s.exprs.typeOf c = .invalid)
    (h : ids.forM (convertLiteral (recurTo env n) t) s = .ok w s') :
    s.Adopts t s' ∧ ∀ c ∈ ids, (s'.exprs.expr c).isLiteral = true → s'.exprs.typeOf c = t := by
  induction ids generalizing s with
  | nil =>
    obtain rfl := run_forM_nil.mp h
    exact ⟨fun _ => .inl rfl, nofun⟩
  | cons c ids ih =>
    obtain ⟨_, hfirst, hrest⟩ := run_forM_cons.mp h
    obtain ⟨hstep, hc⟩ := convertLiteral_adopts (fun h => ht h c mem_cons_self) hfirst
    have htypes (h : t = .invalid) : ∀ y ∈ ids, (BindState.exprs _).typeOf y = .invalid := fun y hy => by
      rcases hstep y with hx | hx
      · rw [typeOf, hx]
        exact ht h y (mem_cons_of_mem _ hy)
      · exact hx.2.trans h
    obtain ⟨hmore, hids⟩ := ih htypes hrest
    refine ⟨hstep.trans hmore, forall_mem_cons.mpr ⟨fun hliteral => ?_, hids⟩⟩
    rcases hmore c with hx | hx
    · rw [expr, hx] at hliteral
      rw [typeOf, hx]
      exact hc hliteral
    · exact hx.2

/-- **The results of a bound CASE have its type or convert to it, texts apart.**  A literal among the
results has exactly the type of the CASE.  Any other result converts to it by itself, unless it is a text
and the CASE gives dates or timestamps. -/
theorem case_results_fit_iff {branches : List (ExprId × ExprId)} {otherwise : Option ExprId}
    (hcase : s.exprs.expr id = .case branches otherwise) (h : bindExpr env n id s = .ok () s') :
    ∀ r ∈ branches.map (·.2) ++ otherwise.toList,
      ((s'.exprs.expr r).isLiteral = true → s'.exprs.typeOf r = s'.exprs.typeOf id) ∧
      ((s'.exprs.typeOf r).implicitlyCasts (s'.exprs.typeOf id) = true ↔
        ¬(s'.exprs.typeOf r = .varchar ∧ (s'.exprs.typeOf id).isTemporal = true)) := by
  have hlt : id < s'.exprs.size := by
    refine Nat.lt_of_lt_of_le (Nat.lt_of_not_le fun hge => ?_)
      (((recurTo_derived n).expr h).progress trivial).1.size_le
    cases (expr_of_size_le hge).symm.trans hcase
  cases n with
  | zero => cases h
  | succ n =>
    simp only [bindExpr, bindExprWith, run_bind, run_getNode] at h
    obtain ⟨_, _, ⟨hnode, rfl⟩, h⟩ := h
    rw [expr, node_of_node? hnode] at hcase
    simp only [hcase, bindCase, run_bind, run_ofExcept, run_setType, run_checkExpected] at h
    obtain ⟨_, _, _, _, s2, _, _, _, htypes, t, _, ⟨ht, rfl⟩, _, s3, hconvert, _, _, rfl, _, rfl⟩ := h
    cases (run_mapM_typeOf _ s2).symm.trans htypes
    have hwithin := (caseType_within ht).2
    have hid : (s3.exprs.setType id t).typeOf id = t :=
      typeOf_setType_self (Nat.lt_of_lt_of_eq hlt (size_update _ _))
    have hnone (h : t = .invalid) : ∀ c ∈ branches.map (·.2) ++ otherwise.toList,
        s2.exprs.typeOf c = .invalid :=
      fun c hc => (h ▸ hwithin _ (mem_map_of_mem hc)).antisymm (.inl rfl)
    obtain ⟨hadopts, hliterals⟩ := convertAll_adopts hnone hconvert
    intro r hr
    have hfits : (s3.exprs.typeOf r).Within t := by
      rcases hadopts r with hx | hx
      · rw [typeOf, hx]
        exact hwithin _ (mem_map_of_mem hr)
      · rw [hx.2]
        exact .refl t
    by_cases hrid : r = id
    · subst hrid
      refine ⟨fun _ => rfl, ?_⟩
      rw [hid]
      exact (SqlType.Within.refl t).implicitlyCasts_iff
    · have hkept : (s3.exprs.setType id t).node r = s3.exprs.node r := node_update_of_ne _ hrid
      rw [hid, expr, typeOf, hkept]
      exact ⟨hliterals r hr, hfits.implicitlyCasts_iff⟩

/-- `CASE WHEN TRUE THEN first ELSE CAST(NULL AS DATE) END` -/
def datedCase (first : Expr) : BindState where
  exprs := .ofExprs [.constant (.boolean true), first, .cast .date 3,
    .constant .null, .case [(0, 1)] (some 2), .constant .null]
  expectations := {}
  parameters := []
  nextTemp := 0

def datedCaseTypes (first : Expr) : Option (SqlType × SqlType) :=
  match bindExpr .initial 3 4 (datedCase first) with
  | .ok _ s' => some (s'.exprs.typeOf 1, s'.exprs.typeOf 4)
  | .error .. => none

theorem datedCaseTypes_eq : datedCaseTypes (.constant (.varchar "2024-02-29")) = some (.date, .date) ∧
    datedCaseTypes (.cast .varchar 5) = some (.varchar, .date) := by
  decide +kernel

theorem bindExpr_of_datedCaseTypes {first : Expr} (h : datedCaseTypes first = some (t, u)) :
    ∃ s', bindExpr .initial 3 4 (datedCase first) = .ok () s' ∧ s'.exprs.typeOf 1 = t ∧
      s'.exprs.typeOf 4 = u := by
  unfold datedCaseTypes at h
  split at h
  · cases h
    exact ⟨_, ‹_›, rfl, rfl⟩
  · cases h

theorem literalText_fits :
    ∃ s', bindExpr .initial 3 4 (datedCase (.constant (.varchar "2024-02-29"))) = .ok () s' ∧
      s'.exprs.typeOf 4 = .date ∧ (s'.exprs.typeOf 1).implicitlyCasts (s'.exprs.typeOf 4) = true := by
  obtain ⟨s', h, hfirst, hcase⟩ := bindExpr_of_datedCaseTypes datedCaseTypes_eq.1
  refine ⟨s', h, hcase, ((case_results_fit_iff rfl h) 1 mem_cons_self).2.mpr fun htext => ?_⟩
  cases hfirst.symm.trans htext.1

theorem castText_misfits :
    ∃ s', bindExpr .initial 3 4 (datedCase (.cast .varchar 5)) = .ok () s' ∧
      s'.exprs.typeOf 4 = .date ∧ (s'.exprs.typeOf 1).implicitlyCasts (s'.exprs.typeOf 4) = false := by
  obtain ⟨s', h, hfirst, hcase⟩ := bindExpr_of_datedCaseTypes datedCaseTypes_eq.2
  exact ⟨s', h, hcase, by rw [hfirst, hcase]; rfl⟩

end SqlAnalysis
