import SqlAnalysis.Binding.State
import SqlAnalysis.Plan.Query

/-!
# Successful runs

Binding and lowering are computations with a state that may end early.  The lemmas here say what a
run that ends well has done, one construct at a time, so that a run can be taken apart from its first
step to its last.

* **`run_bind`**, **`run_pure`**, **`run_throw`**: the constructs that every computation is made of.
* **`run_forM_cons`**, **`run_mapM_cons`**: the two loops over lists.
* **`BindM.run_modifyScope`**, **`LowerM.run_onQuery`**, ...: the primitives of the two passes.
-/

namespace SqlAnalysis

section Generic

variable {ε σ α β : Type} {s t : σ}

@[simp] theorem except_bind {x : Except ε α} {f : α → Except ε β} {b : β} :
    (x >>= f) = .ok b ↔ ∃ a, x = .ok a ∧ f a = .ok b := by
  show Except.bind x f = .ok b ↔ _
  unfold Except.bind
  cases x <;> simp

def succeeds : EStateM.Result ε σ α → Bool
  | .ok .. => true
  | .error .. => false

theorem exists_of_succeeds {r : EStateM.Result ε σ α} (h : succeeds r = true) : ∃ a t, r = .ok a t := by
  cases r with
  | ok a t => exact ⟨a, t, rfl⟩
  | error => cases h

@[simp] theorem run_bind {x : EStateM ε σ α} {f : α → EStateM ε σ β} {b : β} :
    (x >>= f) s = .ok b t ↔ ∃ a u, x s = .ok a u ∧ f a u = .ok b t := by
  show EStateM.bind x f s = .ok b t ↔ _
  unfold EStateM.bind
  cases h : x s with
  | ok a u =>
    constructor
    · intro hf
      exact ⟨a, u, rfl, hf⟩
    · rintro ⟨a', u', hx, hf⟩
      cases hx
      exact hf
  | error => simp

theorem run_bind_error {x : EStateM ε σ α} {f : α → EStateM ε σ β} {e : ε} :
    (x >>= f) s = .error e t ↔ x s = .error e t ∨ ∃ a u, x s = .ok a u ∧ f a u = .error e t := by
  show EStateM.bind x f s = .error e t ↔ _
  unfold EStateM.bind
  cases x s <;> simp [and_assoc]

@[simp] theorem run_pure {a b : α} :
    (pure a : EStateM ε σ α) s = .ok b t ↔ a = b ∧ s = t := by
  show EStateM.Result.ok a s = .ok b t ↔ _
  simp

@[simp] theorem run_throw {e : ε} {b : α} :
    (throw e : EStateM ε σ α) s = .ok b t ↔ False := by
  show EStateM.Result.error e s = .ok b t ↔ _
  simp

@[simp] theorem run_get {b s t : σ} : (get : EStateM ε σ σ) s = .ok b t ↔ s = b ∧ s = t := by
  show EStateM.Result.ok s s = .ok b t ↔ _
  simp

theorem run_get_bind {f : σ → EStateM ε σ α} {b : α} :
    (get >>= f) s = .ok b t ↔ f s s = .ok b t := Iff.rfl

@[simp] theorem run_set {s' s t : σ} {b : PUnit} :
    (set s' : EStateM ε σ PUnit) s = .ok b t ↔ s' = t := by
  show EStateM.Result.ok PUnit.unit s' = .ok b t ↔ _
  simp

@[simp] theorem run_modify {f : σ → σ} {b : PUnit} :
    (modify f : EStateM ε σ PUnit) s = .ok b t ↔ f s = t := by
  show EStateM.Result.ok PUnit.unit (f s) = .ok b t ↔ _
  simp

@[simp] theorem run_modifyGet {f : σ → α × σ} {b : α} :
    (modifyGet f : EStateM ε σ α) s = .ok b t ↔ (f s).1 = b ∧ (f s).2 = t := by
  show EStateM.Result.ok (f s).1 (f s).2 = .ok b t ↔ _
  simp

theorem run_ite {c : Prop} [Decidable c] {x y : EStateM ε σ α} {b : α} :
    (if c then x else y) s = .ok b t ↔ (c ∧ x s = .ok b t) ∨ (¬c ∧ y s = .ok b t) := by
  by_cases h : c <;> simp [h]

@[simp] theorem run_forM_nil {f : α → EStateM ε σ PUnit} {b : PUnit} :
    ([] : List α).forM f s = .ok b t ↔ s = t := by
  show EStateM.Result.ok PUnit.unit s = .ok b t ↔ _
  simp

theorem run_forM_cons {f : α → EStateM ε σ PUnit} {x : α} {xs : List α} {b : PUnit} :
    (x :: xs).forM f s = .ok b t ↔ ∃ u, f x s = .ok PUnit.unit u ∧ xs.forM f u = .ok b t := by
  rw [show (x :: xs).forM f = (f x >>= fun _ => xs.forM f) from rfl, run_bind]
  constructor
  · rintro ⟨_, u, h⟩
    exact ⟨u, h⟩
  · rintro ⟨u, h⟩
    exact ⟨PUnit.unit, u, h⟩

theorem run_forM_map (g : β → α) {f : α → EStateM ε σ PUnit} {xs : List β} {b : PUnit} :
    (xs.map g).forM f s = .ok b t ↔ xs.forM (fun x => f (g x)) s = .ok b t := by
  induction xs generalizing s with
  | nil => rw [List.map_nil, run_forM_nil, run_forM_nil]
  | cons _ _ ih => simp only [List.map_cons, run_forM_cons, ih]

@[simp] theorem run_mapM_nil {f : α → EStateM ε σ β} {b : List β} :
    ([] : List α).mapM f s = .ok b t ↔ b = [] ∧ s = t := by
  rw [List.mapM_nil, run_pure, eq_comm]

theorem run_mapM_cons {f : α → EStateM ε σ β} {x : α} {xs : List α} {b : List β} :
    (x :: xs).mapM f s = .ok b t ↔
      ∃ y u ys, f x s = .ok y u ∧ xs.mapM f u = .ok ys t ∧ b = y :: ys := by
  simp only [List.mapM_cons, run_bind, run_pure]
  constructor
  · rintro ⟨y, u, hx, ys, _, hxs, rfl, rfl⟩
    exact ⟨y, u, ys, hx, hxs, rfl⟩
  · rintro ⟨y, u, ys, hx, hxs, rfl⟩
    exact ⟨y, u, hx, ys, t, hxs, rfl, rfl⟩

/-- A list is worked through, from one state to another. -/
inductive MapsTo (f : α → EStateM ε σ β) : List α → σ → List β → σ → Prop where
  | nil {s : σ} : MapsTo f [] s [] s
  | cons {x : α} {xs : List α} {y : β} {ys : List β} {s u t : σ} : f x s = .ok y u →
    MapsTo f xs u ys t → MapsTo f (x :: xs) s (y :: ys) t

theorem run_mapM {f : α → EStateM ε σ β} {xs : List α} {ys : List β} (h : xs.mapM f s = .ok ys t) :
    MapsTo f xs s ys t := by
  induction xs generalizing s ys with
  | nil =>
    obtain ⟨rfl, rfl⟩ := run_mapM_nil.mp h
    exact .nil
  | cons _ _ ih =>
    obtain ⟨_, _, _, hx, hxs, rfl⟩ := run_mapM_cons.mp h
    exact .cons hx (ih hxs)

theorem run_mapM_error {f : α → EStateM ε σ β} {xs : List α} {e : ε} (h : xs.mapM f s = .error e t) :
    ∃ before x after ys u, xs = before ++ x :: after ∧ before.mapM f s = .ok ys u ∧
      f x u = .error e t := by
  induction xs generalizing s with
  | nil => cases h
  | cons x xs ih =>
    rw [List.mapM_cons, run_bind_error] at h
    rcases h with hx | ⟨y, u, hx, h⟩
    · exact ⟨[], x, xs, [], s, rfl, run_mapM_nil.mpr ⟨rfl, rfl⟩, hx⟩
    · rcases run_bind_error.mp h with h | ⟨_, _, _, h⟩
      · obtain ⟨before, z, after, ys, v, rfl, hbefore, hz⟩ := ih h
        exact ⟨x :: before, z, after, y :: ys, v, rfl,
          run_mapM_cons.mpr ⟨y, u, ys, hx, hbefore, rfl⟩, hz⟩
      · cases h

end Generic

/-! ### The primitives of binding -/

@[simp] theorem Expectations.expectedOf_expect (x : Expectations) (id y : ExprId) (t : SqlType) :
    (x.expect id t).expectedOf y = if id = y then t else x.expectedOf y := by
  unfold expectedOf expect
  rw [Keyed.find?_insert]
  split <;> rfl

namespace BindM

variable {α : Type} {s t : BindState} {id : ExprId} {u : Unit} {a : α}

@[simp] theorem run_refuse {c : Condition} {detail : String} :
    (refuse c detail : BindM α) s = .ok a t ↔ False :=
  run_throw

@[simp] theorem run_ofExcept {x : Except Diagnostic α} :
    (ofExcept x : BindM α) s = .ok a t ↔ x = .ok a ∧ s = t := by
  cases x with
  | ok b =>
    rw [show (ofExcept (.ok b) : BindM α) = pure b from rfl, run_pure]
    simp
  | error e =>
    rw [show (ofExcept (.error e) : BindM α) = throw (.refused e) from rfl, run_throw]
    simp

@[simp] theorem run_getNode {n : ExprNode} :
    getNode id s = .ok n t ↔ s.exprs.node? id = some n ∧ s = t := by
  rw [getNode, run_get_bind]
  cases s.exprs.node? id <;> simp

@[simp] theorem run_exprOf {e : Expr} :
    exprOf id s = .ok e t ↔ s.exprs.expr id = e ∧ s = t := by
  show EStateM.Result.ok (s.exprs.expr id) s = .ok e t ↔ _
  simp

@[simp] theorem run_typeOf {ty : SqlType} :
    typeOf id s = .ok ty t ↔ s.exprs.typeOf id = ty ∧ s = t := by
  show EStateM.Result.ok (s.exprs.typeOf id) s = .ok ty t ↔ _
  simp

@[simp] theorem run_isLiteral {b : Bool} :
    isLiteral id s = .ok b t ↔ (s.exprs.expr id).isLiteral = b ∧ s = t := by
  show EStateM.Result.ok (s.exprs.expr id).isLiteral s = .ok b t ↔ _
  simp

@[simp] theorem run_modifyExprs {f : Arena → Arena} :
    modifyExprs f s = .ok u t ↔ { s with exprs := f s.exprs } = t :=
  run_modify

@[simp] theorem run_setType {ty : SqlType} :
    setType id ty s = .ok u t ↔ { s with exprs := s.exprs.setType id ty } = t :=
  run_modifyExprs

@[simp] theorem run_pushNode {n : ExprNode} :
    pushNode n s = .ok id t ↔ s.exprs.size = id ∧ { s with exprs := (s.exprs.push n).2 } = t :=
  run_modifyGet

theorem run_onExprs {act : EStateM Fault Arena α} {x : α} :
    onExprs act s = .ok x t ↔ ∃ a, act s.exprs = .ok x a ∧ { s with exprs := a } = t := by
  unfold onExprs
  cases act s.exprs <;> simp [and_assoc]

@[simp] theorem run_expectedOf {ty : SqlType} :
    expectedOf id s = .ok ty t ↔ s.expectations.expectedOf id = ty ∧ s = t := by
  show EStateM.Result.ok (s.expectations.expectedOf id) s = .ok ty t ↔ _
  simp

@[simp] theorem run_expect {ty : SqlType} :
    expect id ty s = .ok u t ↔ { s with expectations := s.expectations.expect id ty } = t :=
  run_modify

@[simp] theorem run_checkExpected :
    checkExpected id s = .ok u t ↔ s.expectations.check s.exprs id = .ok u ∧ s = t := by
  rw [checkExpected, run_get_bind, run_ofExcept]

@[simp] theorem run_takeSerial {n : Nat} :
    takeSerial s = .ok n t ↔ s.expectations.nextSerial = n ∧
      { s with expectations := { s.expectations with
        nextSerial := s.expectations.nextSerial + 1 } } = t :=
  run_modifyGet

@[simp] theorem run_takeTemp {n : Nat} :
    takeTemp s = .ok n t ↔ s.nextTemp = n ∧ { s with nextTemp := s.nextTemp + 1 } = t :=
  run_modifyGet

@[simp] theorem run_currentScope {scope : Scope} :
    currentScope s = .ok scope t ↔ (∃ outer, s.scopes = scope :: outer) ∧ s = t := by
  rw [currentScope, run_get_bind, run_ofExcept]
  cases s.scopes <;> simp [ScopeStack.current]

theorem run_modifyScope {f : Scope → Except Diagnostic Scope} :
    modifyScope f s = .ok u t ↔ ∃ scope outer scope', s.scopes = scope :: outer ∧
      f scope = .ok scope' ∧ { s with scopes := scope' :: outer } = t := by
  rw [modifyScope, run_get_bind]
  cases hs : s.scopes <;> simp [and_assoc]

theorem run_inScope {act : BindM α} :
    inScope act s = .ok a t ↔ ∃ u, act { s with scopes := s.scopes.open_ } = .ok a u ∧
      t = { u with scopes := u.scopes.tail } := by
  unfold inScope
  cases act { s with scopes := s.scopes.open_ } with
  | ok _ u =>
    constructor
    · rintro ⟨⟩
      exact ⟨u, rfl, rfl⟩
    · rintro ⟨_, ⟨⟩, rfl⟩
      rfl
  | error => simp

theorem run_inSibling {act : BindM α} :
    inSibling act s = .ok a t ↔ ∃ scope outer u, s.scopes = scope :: outer ∧
      act { s with scopes := scope.sibling :: outer } = .ok a u ∧
      t = { u with scopes := scope :: u.scopes.tail } := by
  unfold inSibling
  cases hs : s.scopes with
  | nil => simp
  | cons scope outer =>
    dsimp only
    cases hact : act { s with scopes := scope.sibling :: outer } with
    | ok _ u =>
      constructor
      · rintro ⟨⟩
        exact ⟨scope, outer, u, rfl, hact, rfl⟩
      · rintro ⟨_, _, _, ⟨⟩, hv, rfl⟩
        cases hact.symm.trans hv
        rfl
    | error => simp [hact]

end BindM

/-! ### The primitives of lowering -/

namespace LowerM

variable {α : Type} {s t : LowerState}

@[simp] theorem run_refuse {c : Condition} {detail : String} {a : α} :
    (refuse c detail : LowerM α) s = .ok a t ↔ False :=
  run_throw

@[simp] theorem run_ofExcept {x : Except Diagnostic α} {a : α} :
    (ofExcept x : LowerM α) s = .ok a t ↔ x = .ok a ∧ s = t := by
  cases x with
  | ok b =>
    rw [show (ofExcept (.ok b) : LowerM α) = pure b from rfl, run_pure]
    simp
  | error e =>
    rw [show (ofExcept (.error e) : LowerM α) = throw (.refused e) from rfl, run_throw]
    simp

theorem exprs_eq (read : List ExprId) (s : LowerState) : exprs read s =
    match s.exprs.look read with
    | .ok _ => .ok s.exprs s
    | .error fault => .error fault s := by
  show (match s.exprs.look read with
    | .ok _ => pure s.exprs
    | .error fault => throw fault : LowerM Arena) s = _
  cases s.exprs.look read <;> rfl

@[simp] theorem run_exprs {read : List ExprId} {a : Arena} :
    exprs read s = .ok a t ↔ s.exprs.look read = .ok () ∧ s.exprs = a ∧ s = t := by
  rw [exprs_eq]
  cases s.exprs.look read <;> simp

@[simp] theorem run_modifyExprs {f : Arena → Arena} {u : Unit} :
    modifyExprs f s = .ok u t ↔ { s with exprs := f s.exprs } = t :=
  run_modify

@[simp] theorem run_takeTemp {n : Nat} :
    takeTemp s = .ok n t ↔ s.nextTemp = n ∧ { s with nextTemp := s.nextTemp + 1 } = t :=
  run_modifyGet

theorem run_onQuery {id : ExprId} {act : Select → LowerM α} {a : α} :
    onQuery id act s = .ok a t ↔
      ∃ u, act ((s.exprs.query? id).getD {}) { s with exprs := s.exprs.setQuery id {} } = .ok a u ∧
        t = { u with exprs := u.exprs.setQuery id ((s.exprs.query? id).getD {}) } := by
  unfold onQuery
  dsimp only
  cases act ((s.exprs.query? id).getD {}) { s with exprs := s.exprs.setQuery id {} } with
  | ok _ u =>
    constructor
    · rintro ⟨⟩
      exact ⟨u, rfl, rfl⟩
    · rintro ⟨_, ⟨⟩, rfl⟩
      rfl
  | error => simp

end LowerM

end SqlAnalysis
