import Mathlib.Data.List.Nodup
import SqlAnalysis.Proofs.Expr.Store

/-!
# Uses of expressions

Where the numbers of expressions are used, through operands and through the queries of subqueries.
-/

namespace SqlAnalysis

open List

/-- The operands of an expression, or the expressions of the query that it holds. -/
def Expr.parts : Expr → List ExprId
  | .subquery q => q.exprs
  | e => e.children

theorem Expr.parts_of_not_isSubquery {e : Expr} (h : e.isSubquery = false) : e.parts = e.children := by
  cases e <;> first | rfl | cases h

namespace Arena

variable {a a' : Arena} {ids ids' K K' : List ExprId} {id x : ExprId}

/-! ### Uses -/

/-- The expressions `ids` come down to the uses `K` of nodes, each node before its parts. -/
inductive Uses (a : Arena) : List ExprId → List ExprId → Prop where
  | nil : Uses a [] []
  | cons {id : ExprId} {ids K K' : List ExprId} :
    id < a.size → Uses a (a.expr id).parts K → Uses a ids K' → Uses a (id :: ids) (id :: (K ++ K'))

/-- No node is used twice. -/
def TreeShaped (a : Arena) (ids : List ExprId) : Prop := ∃ K, a.Uses ids K ∧ K.Nodup

theorem Uses.split (h : a.Uses (ids ++ ids') K) :
    ∃ K1 K2, K = K1 ++ K2 ∧ a.Uses ids K1 ∧ a.Uses ids' K2 := by
  induction ids generalizing K with
  | nil => exact ⟨[], K, rfl, .nil, h⟩
  | cons id _ ih =>
    cases h with
    | @cons _ _ P R hlt hparts hrest =>
      obtain ⟨K1, K2, rfl, h1, h2⟩ := ih hrest
      exact ⟨id :: (P ++ K1), K2, by simp, .cons hlt hparts h1, h2⟩

theorem Uses.append (h : a.Uses ids K) (h' : a.Uses ids' K') :
    a.Uses (ids ++ ids') (K ++ K') := by
  induction h with
  | nil => exact h'
  | @cons _ _ _ _ hlt hparts _ _ ih =>
    rw [cons_append, cons_append, append_assoc]
    exact .cons hlt hparts ih

theorem Uses.mem (h : a.Uses ids K) (hid : id ∈ ids) : id ∈ K := by
  induction h with
  | nil => cases hid
  | cons _ _ _ _ ih =>
    rcases mem_cons.mp hid with rfl | hid
    · exact mem_cons_self
    · exact mem_cons_of_mem _ (mem_append_right _ (ih hid))

theorem Uses.lt_size (h : a.Uses ids K) (hx : x ∈ K) : x < a.size := by
  induction h with
  | nil => cases hx
  | cons hlt _ _ ihp ih =>
    rcases mem_cons.mp hx with rfl | hx
    · exact hlt
    · exact (mem_append.mp hx).elim ihp ih

theorem Uses.parts (h : a.Uses ids K) (hx : x ∈ K) {y : ExprId} (hy : y ∈ (a.expr x).parts) :
    y ∈ K := by
  induction h with
  | nil => cases hx
  | cons _ hparts _ ihp ih =>
    rcases mem_cons.mp hx with rfl | hx
    · exact mem_cons_of_mem _ (mem_append_left _ (hparts.mem hy))
    · refine mem_cons_of_mem _ ?_
      rcases mem_append.mp hx with hx | hx
      · exact mem_append_left _ (ihp hx)
      · exact mem_append_right _ (ih hx)

theorem Uses.congr (h : a.Uses ids K) (hsize : a.size ≤ a'.size)
    (hexpr : ∀ x ∈ K, a'.expr x = a.expr x) : a'.Uses ids K := by
  induction h with
  | nil => exact .nil
  | @cons id _ P R hlt _ _ ihp ih =>
    refine .cons (Nat.lt_of_lt_of_le hlt hsize) ?_ (ih fun x hx => hexpr x (by simp [hx]))
    rw [hexpr id mem_cons_self]
    exact ihp fun x hx => hexpr x (by simp [hx])

/-- Uses by themselves, as far as the given bound on their number allows. -/
def usesFrom (a : Arena) : Nat → List ExprId → Option (List ExprId)
  | _, [] => some []
  | 0, _ :: _ => none
  | fuel + 1, id :: ids =>
    if id < a.size then
      (usesFrom a fuel (a.expr id).parts).bind fun K =>
        (usesFrom a fuel ids).map fun K' => id :: (K ++ K')
    else
      none

theorem uses_of_usesFrom {fuel : Nat} (h : a.usesFrom fuel ids = some K) : a.Uses ids K := by
  induction fuel generalizing ids K with
  | zero =>
    cases ids with
    | nil =>
      cases h
      exact .nil
    | cons => cases h
  | succ fuel ih =>
    cases ids with
    | nil =>
      cases h
      exact .nil
    | cons id ids =>
      rw [usesFrom] at h
      split at h
      · rename_i hlt
        obtain ⟨P, hparts, h⟩ := Option.bind_eq_some_iff.mp h
        obtain ⟨R, hrest, rfl⟩ := Option.map_eq_some_iff.mp h
        exact .cons hlt (ih hparts) (ih hrest)
      · cases h

/-- Whether no node is used twice, for at most the given number of uses. -/
def isTreeShaped (a : Arena) (fuel : Nat) (ids : List ExprId) : Bool :=
  (a.usesFrom fuel ids).any fun K => decide K.Nodup

theorem treeShaped_of_isTreeShaped {fuel : Nat} (h : a.isTreeShaped fuel ids = true) :
    a.TreeShaped ids := by
  obtain ⟨K, hK, hnodup⟩ := (Option.any_eq_true _ _).mp h
  exact ⟨K, uses_of_usesFrom hK, of_decide_eq_true hnodup⟩

/-! ### Closed sets -/

def Closed (a : Arena) (S : ExprId → Prop) : Prop := ∀ x, S x → ∀ y ∈ (a.expr x).parts, S y

theorem Uses.closed (h : a.Uses ids K) : a.Closed fun x => x ∈ K ∨ a.size ≤ x := by
  intro x hx y hy
  rcases hx with hx | hx
  · exact Or.inl (h.parts hx hy)
  · rw [expr_of_size_le hx] at hy
    cases hy

theorem Closed.congr {S : ExprId → Prop} (h : a.Closed S) (hexpr : ∀ x, a'.expr x = a.expr x) :
    a'.Closed S := by
  intro x hx y hy
  rw [hexpr] at hy
  exact h x hx y hy

end Arena

/-! ### Fresh statements -/

def Alias.allFresh (aliases : List Alias) : Bool := aliases.all (·.serial.isNone)

mutual

/-- Whether nothing of a query block, nor of the blocks nested in it, is bound: no alias has a serial
and no block has a depth. -/
def Select.isFresh : Select → Bool
  | ⟨ctes, _, _, source, _, _, _, _, union, depth⟩ =>
    Cte.allFresh ctes && TableRef.isFreshOpt source && Select.isFreshOpt union && depth.isNone

def Select.isFreshOpt : Option Select → Bool
  | none => true
  | some q => q.isFresh

def Cte.allFresh : List Cte → Bool
  | [] => true
  | ⟨_, columns, query, _⟩ :: rest => Alias.allFresh columns && query.isFresh && Cte.allFresh rest

def TableRef.isFreshOpt : Option TableRef → Bool
  | none => true
  | some item => item.isFresh

def TableRef.isFresh : TableRef → Bool
  | .table base => base.knownAs.serial.isNone
  | .derived query knownAs => query.isFresh && knownAs.serial.isNone
  | .join _ left right _ => left.isFresh && right.isFresh
  | .list items => TableRef.allFresh items

def TableRef.allFresh : List TableRef → Bool
  | [] => true
  | item :: rest => item.isFresh && TableRef.allFresh rest

end

theorem Select.isFresh_iff {q : Select} :
    q.isFresh = true ↔ Cte.allFresh q.ctes = true ∧ TableRef.isFreshOpt q.source = true ∧
      Select.isFreshOpt q.union = true ∧ q.depth = none := by
  cases q
  simp only [Select.isFresh, Bool.and_eq_true, Option.isNone_iff_eq_none, and_assoc]

theorem Cte.allFresh_cons {c : Cte} {cs : List Cte} :
    Cte.allFresh (c :: cs) = true ↔
      Alias.allFresh c.columns = true ∧ c.query.isFresh = true ∧ Cte.allFresh cs = true := by
  cases c
  simp only [Cte.allFresh, Bool.and_eq_true, and_assoc]

def Expr.isFresh : Expr → Bool
  | .column ref => !ref.isResolved
  | .subquery q => q.isFresh
  | _ => true

def Arena.FreshOn (a : Arena) (K : List ExprId) : Prop := ∀ x ∈ K, (a.expr x).isFresh = true

def Arena.isFresh (a : Arena) : Bool := a.nodes.all fun n => n.kind.isFresh

theorem Arena.isFresh_expr {a : Arena} (h : a.isFresh = true) (id : ExprId) :
    (a.expr id).isFresh = true := by
  by_cases hlt : id < a.nodes.size
  · have hnode := Array.all_eq_true.mp h id hlt
    rwa [expr, node, Array.getD_eq_getD_getElem?, Array.getElem?_eq_getElem hlt]
  · rw [expr_of_size_le (Nat.le_of_not_lt hlt)]
    rfl

end SqlAnalysis
