import SqlAnalysis.Proofs.Binding.Runs

/-!
# How computations treat the state

* **`Track`**: a relation between earlier and later states that can be followed step by step.
* **`Track.Agree`**: two computations do the same from every state, and lead along a track.
* **`Track.Takes`**: two ways of binding do the same with an operand.  And so they do with what has
  such operands.
-/

namespace SqlAnalysis

open Text BindM List

variable {left right : ExprId} {operands : List ExprId} {arg : Option ExprId}

/-! ### Tracks -/

/-- A relation between earlier and later states, to be followed from the states it starts in, and what
holds where a computation gives up. -/
structure Track (σ : Type) where
  Inv : σ → Prop
  Rel : σ → σ → Prop
  Fail : Fault → σ → σ → Prop
  refl : ∀ {s}, Rel s s
  trans : ∀ {s t u}, Rel s t → Rel t u → Rel s u
  refused : ∀ {d s}, Fail (.refused d) s s
  trans_fail : ∀ {e s t u}, Rel s t → Fail e t u → Fail e s u
  keep : ∀ {s t}, Inv s → Rel s t → Inv t

/-- The end of a computation is related to its start. -/
def EndsBy {σ α : Type} (Rel : σ → σ → Prop) (Fail : Fault → σ → σ → Prop) (s : σ) :
    EStateM.Result Fault σ α → Prop
  | .ok _ t => Rel s t
  | .error e t => Fail e s t

namespace Track

variable {σ α β : Type} (T : Track σ)

/-- Two computations do the same from a state and lead along a track. -/
def AgreeFrom (s : σ) (x y : EStateM Fault σ α) : Prop := x s = y s ∧ EndsBy T.Rel T.Fail s (x s)

/-- Two computations do the same from every state that a track starts in, and lead along it. -/
def Agree (x y : EStateM Fault σ α) : Prop := ∀ ⦃s⦄, T.Inv s → T.AgreeFrom s x y

/-- A computation leads along a track from every state that the track starts in. -/
abbrev Follows (x : EStateM Fault σ α) : Prop := T.Agree x x

variable {T} {x y : EStateM Fault σ α} {f g : α → EStateM Fault σ β} {s : σ}

theorem AgreeFrom.bind (hx : T.AgreeFrom s x y)
    (hf : ∀ {a t}, x s = .ok a t → T.Rel s t → T.AgreeFrom t (f a) (g a)) :
    T.AgreeFrom s (x >>= f) (y >>= g) := by
  obtain ⟨heq, hrel⟩ := hx
  show EStateM.bind x f s = EStateM.bind y g s ∧ EndsBy T.Rel T.Fail s (EStateM.bind x f s)
  unfold EStateM.bind
  rw [← heq]
  cases hrun : x s with
  | ok a t =>
    rw [hrun] at hrel
    obtain ⟨heq', hrel'⟩ := hf hrun hrel
    refine ⟨heq', ?_⟩
    dsimp only
    cases hend : f a t with
    | ok =>
      rw [hend] at hrel'
      exact T.trans hrel hrel'
    | error =>
      rw [hend] at hrel'
      exact T.trans_fail hrel hrel'
  | error =>
    rw [hrun] at hrel
    exact ⟨rfl, hrel⟩

theorem agree_bind (hx : T.Agree x y) (hf : ∀ a, T.Agree (f a) (g a)) :
    T.Agree (x >>= f) (y >>= g) := fun _ hs =>
  (hx hs).bind fun _ hrel => hf _ (T.keep hs hrel)

theorem agree_bind_bind {γ : Type} {h k : β → EStateM Fault σ γ} (hx : T.Agree (x >>= f) (y >>= g))
    (hh : ∀ b, T.Agree (h b) (k b)) :
    T.Agree (x >>= fun a => f a >>= h) (y >>= fun a => g a >>= k) := by
  have hall := agree_bind hx hh
  rwa [bind_assoc, bind_assoc] at hall

theorem agree_of_ok (h : ∀ s, ∃ a, x s = .ok a s) : T.Follows x := fun s _ => by
  obtain ⟨a, ha⟩ := h s
  refine ⟨rfl, ?_⟩
  rw [ha]
  exact T.refl

theorem agree_pure (a : α) : T.Follows (pure a : EStateM Fault σ α) := agree_of_ok fun _ => ⟨a, rfl⟩

theorem agree_refused (d : Diagnostic) : T.Follows (throw (.refused d) : EStateM Fault σ α) := fun _ _ =>
  ⟨rfl, T.refused⟩

theorem agree_get : T.Follows (get : EStateM Fault σ σ) := agree_of_ok fun s => ⟨s, rfl⟩

theorem agree_modifyGet {f : σ → α × σ} (h : ∀ s, T.Inv s → T.Rel s (f s).2) :
    T.Follows (modifyGet f : EStateM Fault σ α) := fun s hs => ⟨rfl, h s hs⟩

theorem agree_modify {f : σ → σ} (h : ∀ s, T.Inv s → T.Rel s (f s)) :
    T.Follows (modify f : EStateM Fault σ PUnit) := fun s hs => ⟨rfl, h s hs⟩

theorem agree_ite {c : Prop} [Decidable c] {x' y' : EStateM Fault σ α} (hx : T.Agree x y)
    (hx' : T.Agree x' y') : T.Agree (if c then x else x') (if c then y else y') := by
  split
  · exact hx
  · exact hx'

theorem agree_mapM {xs : List α} (h : ∀ a ∈ xs, T.Agree (f a) (g a)) :
    T.Agree (xs.mapM f) (xs.mapM g) := by
  induction xs with
  | nil => exact agree_pure _
  | cons _ _ ih =>
    rw [mapM_cons, mapM_cons]
    obtain ⟨ha, hxs⟩ := forall_mem_cons.mp h
    exact agree_bind ha fun _ => agree_bind (ih hxs) fun _ => agree_pure _

theorem agree_forM {f g : α → EStateM Fault σ PUnit} {xs : List α} (h : ∀ a ∈ xs, T.Agree (f a) (g a)) :
    T.Agree (xs.forM f) (xs.forM g) := by
  induction xs with
  | nil => exact agree_pure _
  | cons _ _ ih =>
    obtain ⟨ha, hxs⟩ := forall_mem_cons.mp h
    exact agree_bind ha fun _ => ih hxs

end Track

/-! ### The primitives of binding -/

namespace Track

variable {α β : Type} {T : Track BindState}

theorem agree_refuse (c : Condition) (detail : String) :
    T.Follows (refuse c detail : BindM α) := agree_refused _

theorem agree_ofExcept (x : Except Diagnostic α) : T.Follows (ofExcept x) := by
  cases x with
  | ok a => exact agree_pure a
  | error => exact agree_refused _

theorem agree_exprOf (id : ExprId) : T.Follows (exprOf id) := agree_of_ok fun _ => ⟨_, rfl⟩

theorem agree_typeOf (id : ExprId) : T.Follows (typeOf id) := agree_of_ok fun _ => ⟨_, rfl⟩

theorem agree_isLiteral (id : ExprId) : T.Follows (isLiteral id) :=
  agree_of_ok fun _ => ⟨_, rfl⟩

theorem agree_expectedOf (id : ExprId) : T.Follows (expectedOf id) :=
  agree_of_ok fun _ => ⟨_, rfl⟩

theorem agree_checkExpected (id : ExprId) : T.Follows (checkExpected id) :=
  agree_bind agree_get fun _ => agree_ofExcept _

theorem agree_currentScope : T.Follows currentScope :=
  agree_bind agree_get fun _ => agree_ofExcept _

theorem agree_requireBoolean (id : ExprId) (clause : String) :
    T.Follows (requireBoolean id clause) :=
  agree_bind (agree_typeOf id) fun _ => agree_ite (agree_refuse _ _) (agree_pure _)

theorem agree_singleOperand (op : Operator) (operands : List ExprId) :
    T.Follows (singleOperand op operands) := by
  unfold singleOperand
  split
  · exact agree_pure _
  · exact agree_refuse _ _

theorem agree_bindStar : T.Follows bindStar :=
  agree_bind agree_currentScope fun _ => agree_ite (agree_refused _) (agree_pure _)

theorem agree_checkBounds (b : Bounds) : T.Follows (checkBounds b) := by
  have hend : T.Follows (if b.offset.any (· < 0) then
      refuse .syntaxError "OFFSET must not be negative" else pure () : BindM Unit) :=
    agree_ite (agree_refuse _ _) (agree_pure _)
  unfold checkBounds
  dsimp only
  split
  · exact agree_bind (agree_refuse _ _) fun _ => hend
  · exact hend

theorem agree_bindOptional {act act' : α → BindM β} {x : Option α}
    (h : ∀ y ∈ x, T.Agree (act y) (act' y)) : T.Agree (bindOptional act x) (bindOptional act' x) := by
  cases x with
  | none => exact agree_pure _
  | some x => exact agree_bind (h x rfl) fun _ => agree_pure _

end Track

/-! ### Expressions with operands -/

/-- Two ways of binding do the same with an operand, also when a type is expected of it first. -/
structure Track.Takes (T : Track BindState) (rec rec' : Recur) (id : ExprId) : Prop where
  visit : T.Agree (rec.expr id) (rec'.expr id)
  expecting : ∀ t, T.Agree (do expect id t; rec.expr id) (do expect id t; rec'.expr id)

namespace Track

variable {T : Track BindState} {rec rec' : Recur} {id : ExprId}

theorem Takes.boolean (h : T.Takes rec rec' id) :
    T.Agree (do expectBooleanLiteral id; rec.expr id) (do expectBooleanLiteral id; rec'.expr id) := by
  unfold expectBooleanLiteral
  rw [bind_assoc, bind_assoc]
  refine agree_bind (agree_isLiteral id) fun b => ?_
  cases b with
  | true => exact h.expecting .boolean
  | false =>
    rw [if_neg Bool.false_ne_true, pure_bind, pure_bind]
    exact h.visit

theorem Takes.convertLiteral (h : T.Takes rec rec' id) (t : SqlType) :
    T.Agree (convertLiteral rec t id) (convertLiteral rec' t id) :=
  agree_bind (agree_isLiteral _) fun _ => agree_bind (agree_typeOf _) fun _ =>
    agree_ite (h.expecting t) (agree_pure _)

theorem agree_bindArithmetic (op : Operator) (hl : T.Takes rec rec' left)
    (hr : T.Takes rec rec' right) :
    T.Agree (bindArithmetic rec op left right) (bindArithmetic rec' op left right) := by
  refine agree_bind (agree_typeOf _) fun s => agree_bind (agree_typeOf _) fun t => ?_
  cases s.common? t with
  | none => exact agree_refused _
  | some =>
    exact agree_ite (agree_refused _) (agree_bind (hl.convertLiteral _) fun _ =>
      agree_bind (hr.convertLiteral _) fun _ => agree_pure _)

theorem agree_operationType (op : Operator) (hs : ∀ c ∈ operands, T.Takes rec rec' c) :
    T.Agree (operationType rec op operands) (operationType rec' op operands) := by
  unfold operationType
  cases op with
  | not =>
    intro s hinv
    refine (agree_singleOperand _ _ hinv).bind fun {operand t} hone _ => ?_
    obtain ⟨rfl, rfl⟩ := singleOperand_run hone
    have hoperand := (hs operand mem_cons_self).expecting .boolean
    exact agree_bind_bind hoperand (fun _ => agree_pure _) hinv
  | isNull | isNotNull | «exists» => exact agree_pure _
  | negate =>
    exact agree_bind (agree_singleOperand _ _) fun c => agree_bind (agree_typeOf _) fun t =>
      agree_ite (agree_refuse _ _) (agree_pure _)
  | plus | minus | multiply | divide | modulo =>
    dsimp only
    split
    · exact agree_bindArithmetic _ (hs _ (by simp)) (hs _ (by simp))
    · exact agree_refuse _ _

theorem agree_bindAggregateArg (f : Aggregate) (hs : ∀ c ∈ arg.toList, T.Takes rec rec' c) :
    T.Agree (bindAggregateArg rec f arg) (bindAggregateArg rec' f arg) := by
  cases arg with
  | none => exact agree_ite (agree_pure _) (agree_refuse _ _)
  | some c =>
    exact agree_bind (hs c mem_cons_self).visit fun _ => agree_bind agree_get fun _ =>
      agree_ite (agree_refuse _ _) (agree_typeOf _)

section

variable (htype : ∀ t, T.Follows (setType id t))
include htype

theorem agree_settle (t : SqlType) : T.Follows (do
    setType id t
    checkExpected id) := agree_bind (htype t) fun _ => agree_checkExpected _

theorem agree_bindComparison (hl : T.Takes rec rec' left) (hr : T.Takes rec rec' right)
    (hpair : T.Follows (expectPair left right)) (hdl : T.Follows (dropLiteralCast id left))
    (hdr : T.Follows (dropLiteralCast id right)) :
    T.Agree (bindComparison rec id left right) (bindComparison rec' id left right) :=
  agree_bind hl.visit fun _ => agree_bind hr.visit fun _ =>
  agree_bind (htype _) fun _ => agree_bind (agree_checkExpected _) fun _ =>
  agree_bind hpair fun _ => agree_bind hl.visit fun _ => agree_bind hr.visit fun _ =>
  agree_bind hdl fun _ => hdr

theorem agree_bindConnective (hs : ∀ c ∈ operands, T.Takes rec rec' c) :
    T.Agree (bindConnective rec id operands) (bindConnective rec' id operands) :=
  agree_bind (agree_forM fun c hc => (hs c hc).visit) fun _ =>
  agree_bind (htype _) fun _ => agree_bind (agree_checkExpected _) fun _ =>
  agree_forM fun c hc => (hs c hc).expecting _

theorem agree_bindOperation (op : Operator) (hs : ∀ c ∈ operands, T.Takes rec rec' c) :
    T.Agree (bindOperation rec id op operands) (bindOperation rec' id op operands) :=
  agree_bind (agree_forM fun c hc => (hs c hc).visit) fun _ =>
  agree_bind (agree_operationType op hs) fun _ => agree_settle htype _

theorem agree_bindAggregate (f : Aggregate) (hs : ∀ c ∈ arg.toList, T.Takes rec rec' c) :
    T.Agree (bindAggregate rec id f arg) (bindAggregate rec' id f arg) := by
  refine agree_bind (agree_bindAggregateArg f hs) fun t => ?_
  split
  · exact agree_refuse _ _
  · exact agree_settle htype _

theorem agree_bindCast (target : SqlType) {operand : ExprId} (ho : T.Takes rec rec' operand) :
    T.Agree (bindCast rec id target operand) (bindCast rec' id target operand) := by
  refine agree_bind (agree_isLiteral _) fun b => ?_
  split
  · exact agree_bind_bind (ho.expecting target) fun _ => agree_settle htype _
  · refine agree_bind ho.visit fun _ => agree_bind (agree_typeOf _) fun t => ?_
    split
    · exact agree_bind (agree_refuse _ _) fun _ => agree_settle htype _
    · exact agree_settle htype _

theorem agree_bindCase {branches : List (ExprId × ExprId)} {otherwise : Option ExprId}
    (hs : ∀ c ∈ (Expr.case branches otherwise).children, T.Takes rec rec' c) :
    T.Agree (bindCase rec id branches otherwise) (bindCase rec' id branches otherwise) := by
  obtain ⟨hbranches, hother⟩ := forall_mem_append.mp hs
  have hpair {x : ExprId × ExprId} (hx : x ∈ branches) : T.Takes rec rec' x.1 ∧ T.Takes rec rec' x.2 :=
    ⟨hbranches _ (mem_flatMap.mpr ⟨x, hx, by simp⟩),
      hbranches _ (mem_flatMap.mpr ⟨x, hx, by simp⟩)⟩
  refine agree_bind (agree_forM fun x hx => ?_) fun _ =>
    agree_bind (agree_forM fun c hc => (hother c hc).visit) fun _ =>
    agree_bind (agree_mapM fun c _ => agree_typeOf c) fun _ =>
    agree_bind (agree_ofExcept _) fun t =>
    agree_bind (agree_forM fun c hc => Takes.convertLiteral ?_ t) fun _ => agree_settle htype _
  · exact agree_bind_bind (hpair hx).1.boolean fun _ =>
      agree_bind (agree_requireBoolean _ _) fun _ => (hpair hx).2.visit
  · rcases mem_append.mp hc with hc | hc
    · obtain ⟨x, hx, rfl⟩ := mem_map.mp hc
      exact (hpair hx).2
    · exact hother c hc

end

theorem agree_markSubquery (q : Select)
    (hmark : ∀ t, T.Follows (modifyExprs (·.update id ({ · with type := t, hasSubquery := true })))) :
    T.Follows (do
      let t ← match q.items with
        | first :: _ => typeOf first
        | [] => pure .invalid
      modifyExprs (·.update id ({ · with type := t, hasSubquery := true }))
      checkExpected id) := by
  have hend (t : SqlType) : T.Follows (do
      modifyExprs (·.update id ({ · with type := t, hasSubquery := true }))
      checkExpected id) := agree_bind (hmark t) fun _ => agree_checkExpected _
  split
  · exact agree_bind (agree_typeOf _) hend
  · exact agree_bind (agree_pure _) hend

end Track

end SqlAnalysis
