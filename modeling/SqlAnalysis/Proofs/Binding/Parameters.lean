import SqlAnalysis.Proofs.Binding.Conduct

/-!
# Parameters of a statement

Each time a placeholder is bound, the value of its parameter is converted to the type that is
expected there, and that type is kept for the parameter.

* **`bind_settles_parameters`**: in the end every value is at rest at the type of its parameter.
* **`repromotion_agrees_iff`**: promoting given values to the types of the parameters at once, and when
  that gives the same values as the binding.
-/

namespace SqlAnalysis

open BindM List

variable {v : Value} {i : Nat} {vs ws : List Value} {ts : List SqlType}

/-! ### Requests -/

/-- The values of the parameters, and the types kept for them. -/
structure Parameters where
  values : List Value
  types : List SqlType

/-- The request that a parameter take a type. -/
structure Ask where
  index : Nat
  type : SqlType

/-- The type that is kept for a parameter: the one it was asked for, or else that of its value. -/
def SqlType.orOf (t : SqlType) (v : Value) : SqlType := if t.isValid then t else v.sqlType

theorem Value.promote_orOf {w : Value} {t : SqlType} (h : v.promote t = .ok w) :
    w.promote (t.orOf w) = .ok w := by
  unfold SqlType.orOf
  split
  · exact Value.promote_promote h
  · exact Value.promote_of_sqlType rfl

namespace Parameters

def answer (now : Parameters) (ask : Ask) : Option Parameters :=
  match now.values[ask.index]? with
  | none => none
  | some v =>
    match v.promote ask.type with
    | .error _ => none
    | .ok w => some ⟨now.values.set ask.index w, now.types.set ask.index (ask.type.orOf w)⟩

/-- The parameters after a list of requests. -/
def replay (now : Parameters) : List Ask → Option Parameters
  | [] => some now
  | ask :: asks => (now.answer ask).bind (·.replay asks)

/-- Every value is at rest at the type of its parameter. -/
structure Settled (now : Parameters) : Prop where
  length_eq : now.types.length = now.values.length
  promote : ∀ {i : Nat} {v : Value} {t : SqlType}, now.values[i]? = some v → now.types[i]? = some t →
    v.promote t = .ok v

variable {now now' later : Parameters} {ask : Ask} {asks : List Ask}

theorem answer_eq_some : now.answer ask = some later ↔
    ∃ v w, now.values[ask.index]? = some v ∧ v.promote ask.type = .ok w ∧
      later = ⟨now.values.set ask.index w, now.types.set ask.index (ask.type.orOf w)⟩ := by
  unfold answer
  constructor
  · intro h
    split at h
    · cases h
    · rename_i v hv
      split at h
      · cases h
      · rename_i w hw
        cases h
        exact ⟨v, w, hv, hw, rfl⟩
  · rintro ⟨v, w, hv, hw, rfl⟩
    simp only [hv, hw]

theorem replay_cons : now.replay (ask :: asks) = some later ↔
    ∃ now', now.answer ask = some now' ∧ now'.replay asks = some later := by
  rw [replay, Option.bind_eq_some_iff]

theorem replay_append {asks' : List Ask} (h : now.replay asks = some now')
    (h' : now'.replay asks' = some later) : now.replay (asks ++ asks') = some later := by
  induction asks generalizing now with
  | nil =>
    cases h
    exact h'
  | cons _ _ ih =>
    obtain ⟨next, hfirst, hrest⟩ := replay_cons.mp h
    exact replay_cons.mpr ⟨next, hfirst, ih hrest⟩

theorem Settled.answer (hnow : now.Settled) (h : now.answer ask = some later) : later.Settled := by
  obtain ⟨_, _, _, hw, rfl⟩ := answer_eq_some.mp h
  refine ⟨by simpa using hnow.length_eq, fun {i u t} hu ht => ?_⟩
  dsimp only at hu ht
  by_cases hi : ask.index = i
  · rw [getElem?_set, if_pos hi] at hu ht
    cases (Option.ite_none_right_eq_some.mp hu).2
    cases (Option.ite_none_right_eq_some.mp ht).2
    exact Value.promote_orOf hw
  · rw [getElem?_set_ne hi] at hu ht
    exact hnow.promote hu ht

/-- **Requests leave every value at rest.** -/
theorem Settled.replay (hnow : now.Settled) (h : now.replay asks = some later) : later.Settled := by
  induction asks generalizing now with
  | nil =>
    cases h
    exact hnow
  | cons _ _ ih =>
    obtain ⟨_, hfirst, hrest⟩ := replay_cons.mp h
    exact ih (hnow.answer hfirst) hrest

theorem length_replay (h : now.replay asks = some later) :
    later.values.length = now.values.length ∧ later.types.length = now.types.length := by
  induction asks generalizing now with
  | nil =>
    cases h
    exact ⟨rfl, rfl⟩
  | cons _ _ ih =>
    obtain ⟨_, hfirst, hrest⟩ := replay_cons.mp h
    obtain ⟨_, _, _, _, rfl⟩ := answer_eq_some.mp hfirst
    exact ⟨(ih hrest).1.trans length_set, (ih hrest).2.trans length_set⟩

end Parameters

/-! ### One parameter -/

/-- The types that one parameter is asked for, in order. -/
def typesAsked (asks : List Ask) (i : Nat) : List SqlType :=
  (asks.filter (·.index == i)).map (·.type)

/-- The literal after promotions to one type after the other. -/
def Value.promoteThrough (v : Value) : List SqlType → Except Diagnostic Value
  | [] => .ok v
  | t :: ts => v.promote t >>= (·.promoteThrough ts)

/-- The type that is kept after a parameter was asked for types: one that was kept before stays if
it was asked for none. -/
def keptType (before : SqlType) (w : Value) (asked : List SqlType) : SqlType :=
  match asked.getLast? with
  | none => before
  | some t => t.orOf w

theorem typesAsked_cons_self {ask : Ask} {asks : List Ask} (h : ask.index = i) :
    typesAsked (ask :: asks) i = ask.type :: typesAsked asks i := by
  unfold typesAsked
  rw [filter_cons_of_pos (by simpa using h), map_cons]

theorem typesAsked_cons_ne {ask : Ask} {asks : List Ask} (h : ask.index ≠ i) :
    typesAsked (ask :: asks) i = typesAsked asks i := by
  unfold typesAsked
  rw [filter_cons_of_neg (by simpa using h)]

theorem Parameters.replay_at {now later : Parameters} {asks : List Ask} {t : SqlType}
    (h : now.replay asks = some later) (hv : now.values[i]? = some v) (ht : now.types[i]? = some t) :
    ∃ w, later.values[i]? = some w ∧ v.promoteThrough (typesAsked asks i) = .ok w ∧
      later.types[i]? = some (keptType t w (typesAsked asks i)) := by
  induction asks generalizing now v t with
  | nil =>
    cases h
    exact ⟨v, hv, rfl, ht⟩
  | cons ask asks ih =>
    obtain ⟨_, hfirst, hrest⟩ := replay_cons.mp h
    obtain ⟨_, w, hu, hw, rfl⟩ := answer_eq_some.mp hfirst
    by_cases hi : ask.index = i
    · subst hi
      cases hv.symm.trans hu
      have hvalue : (now.values.set ask.index w)[ask.index]? = some w :=
        List.getElem?_set_self (List.getElem?_eq_some_iff.mp hv).1
      have htype : (now.types.set ask.index (ask.type.orOf w))[ask.index]? =
          some (ask.type.orOf w) := List.getElem?_set_self (List.getElem?_eq_some_iff.mp ht).1
      obtain ⟨w', hw', hthrough, hkept⟩ := ih hrest hvalue htype
      rw [typesAsked_cons_self rfl]
      refine ⟨w', hw', ?_, ?_⟩
      · rw [Value.promoteThrough, hw]
        exact hthrough
      · rw [hkept]
        unfold keptType
        rw [getLast?_cons]
        cases hlast : (typesAsked asks ask.index).getLast? with
        | some => rfl
        | none =>
          rw [getLast?_eq_none_iff.mp hlast] at hthrough
          cases hthrough
          rfl
    · rw [typesAsked_cons_ne hi]
      refine ih hrest ?_ ?_
      · exact (getElem?_set_ne hi).trans hv
      · exact (getElem?_set_ne hi).trans ht

namespace Value

variable {u w : Value} {t : SqlType}

theorem promoteThrough_concat : v.promoteThrough (ts ++ [t]) = .ok w ↔
    ∃ u, v.promoteThrough ts = .ok u ∧ u.promote t = .ok w := by
  induction ts generalizing v with
  | nil =>
    have hone : v.promoteThrough [t] = v.promote t := bind_pure _
    rw [nil_append, hone]
    constructor
    · exact fun h => ⟨v, rfl, h⟩
    · rintro ⟨u, hu, h⟩
      cases hu
      exact h
  | cons _ _ ih =>
    rw [cons_append, promoteThrough, except_bind]
    constructor
    · rintro ⟨u, hu, h⟩
      obtain ⟨u', hu', h⟩ := ih.mp h
      exact ⟨u', by rw [promoteThrough, hu]; exact hu', h⟩
    · rintro ⟨u', hu', h⟩
      rw [promoteThrough, except_bind] at hu'
      obtain ⟨u, hu, hu'⟩ := hu'
      exact ⟨u, hu, ih.mpr ⟨u', hu', h⟩⟩

theorem promoteThrough_same (hts : ∀ t' ∈ ts, t' = .invalid ∨ t' = t)
    (hu : u = v ∨ v.promote t = .ok u) (h : u.promoteThrough ts = .ok w) :
    w = v ∨ v.promote t = .ok w := by
  induction ts generalizing u with
  | nil =>
    cases h
    exact hu
  | cons _ _ ih =>
    obtain ⟨hfirst, hrest⟩ := forall_mem_cons.mp hts
    rw [promoteThrough, except_bind] at h
    obtain ⟨_, hu', h⟩ := h
    refine ih hrest ?_ h
    rcases hfirst with rfl | rfl
    · cases hu'
      exact hu
    · rcases hu with rfl | hu
      · exact .inr hu'
      · rw [promote_promote hu] at hu'
        cases hu'
        exact .inr hu

theorem promote_keptType (hts : ∀ t' ∈ ts, t' = .invalid ∨ t' = t)
    (h : v.promoteThrough ts = .ok w) : v.promote (keptType .invalid w ts) = .ok w := by
  rcases eq_nil_or_concat ts with rfl | ⟨ts, last, rfl⟩
  · exact h
  · have hsame := promoteThrough_same hts (.inl rfl) h
    rw [concat_eq_append] at *
    obtain ⟨u, hu, hlast⟩ := promoteThrough_concat.mp h
    rw [keptType, getLast?_append_of_ne_nil _ (cons_ne_nil _ _), getLast?_singleton]
    dsimp only [SqlType.orOf]
    split
    · rename_i hvalid
      have heq : last = t := (hts last (by simp)).resolve_left fun hinvalid => by
        rw [hinvalid] at hvalid
        cases hvalid
      subst heq
      have hbefore := promoteThrough_same (fun t' ht' => hts t' (mem_append_left _ ht'))
        (.inl rfl) hu
      rcases hbefore with rfl | hbefore
      · exact hlast
      · rw [promote_promote hbefore] at hlast
        cases hlast
        exact hbefore
    · rcases hsame with rfl | hsame
      · exact promote_of_sqlType rfl
      · exact promote_sqlType hsame

/-- NULL, truth values, dates and timestamps: at most a date becomes something else, a timestamp. -/
def isRigid : Value → Bool
  | .null | .boolean _ | .date _ | .timestamp _ => true
  | .integral .. | .double _ | .decimal _ | .varchar _ => false

theorem promote_rigid (hv : v.isRigid = true) (h : v.promote t = .ok w) :
    w = v ∨ ∃ d, v = .date d ∧ w = .timestamp (Timestamp.ofDate d) := by
  refine (promote_cases h).imp_right fun hconvert => ?_
  cases v with
  | date d =>
    cases t with
    | timestamp =>
      cases hconvert
      exact ⟨d, rfl, rfl⟩
    | _ => cases hconvert
  | null | boolean | timestamp => cases hconvert
  | _ => cases hv

theorem promoteThrough_rigid (hv : v.isRigid = true) (h : v.promoteThrough ts = .ok w) :
    w = v ∨ ∃ d, v = .date d ∧ w = .timestamp (Timestamp.ofDate d) := by
  induction ts generalizing v with
  | nil =>
    cases h
    exact .inl rfl
  | cons _ _ ih =>
    rw [promoteThrough, except_bind] at h
    obtain ⟨_, hu, h⟩ := h
    rcases promote_rigid hv hu with rfl | ⟨d, rfl, rfl⟩
    · exact ih hv h
    · rcases ih rfl h with rfl | ⟨d', hd', _⟩
      · exact .inr ⟨d, rfl, rfl⟩
      · cases hd'

theorem promote_keptType_of_isRigid (hv : v.isRigid = true) (h : v.promoteThrough ts = .ok w) :
    v.promote (keptType .invalid w ts) = .ok w := by
  rcases eq_nil_or_concat ts with rfl | ⟨ts, last, rfl⟩
  · exact h
  · have hcases := promoteThrough_rigid hv h
    rw [concat_eq_append] at *
    obtain ⟨u, _, hlast⟩ := promoteThrough_concat.mp h
    rw [keptType, getLast?_append_of_ne_nil _ (cons_ne_nil _ _), getLast?_singleton]
    have hrest : w.promote (last.orOf w) = .ok w := promote_orOf hlast
    rcases hcases with rfl | ⟨d, rfl, rfl⟩
    · exact hrest
    · dsimp only [SqlType.orOf] at hrest ⊢
      split
      · rename_i hvalid
        rw [if_pos hvalid] at hrest
        -- the type is valid and a timestamp is at rest at it
        cases last with
        | timestamp => rfl
        | invalid => cases hvalid
        | _ => cases hrest
      · rfl

end Value

/-! ### Promotion at once -/

theorem promoteAll_eq_ok (hts : ts.length = vs.length) (hws : ws.length = vs.length) :
    promoteAll vs ts = (ws, .ok ()) ↔ ∀ {i : Nat} {v w : Value} {t : SqlType},
      vs[i]? = some v → ts[i]? = some t → ws[i]? = some w → v.promote t = .ok w := by
  induction vs generalizing ts ws with
  | nil =>
    cases eq_nil_of_length_eq_zero hws
    constructor
    · intro _ i v w t hv
      cases hv
    · exact fun _ => rfl
  | cons v vs ih =>
    obtain ⟨t, ts, rfl⟩ := exists_cons_of_length_eq_add_one hts
    obtain ⟨w, ws, rfl⟩ := exists_cons_of_length_eq_add_one hws
    have hrest := ih (Nat.succ.inj hts) (Nat.succ.inj hws)
    have hcons : promoteAll (v :: vs) (t :: ts) = (w :: ws, .ok ()) ↔
        v.promote t = .ok w ∧ promoteAll vs ts = (ws, .ok ()) := by
      rw [promoteAll]
      cases v.promote t with
      | error => simp
      | ok => simp [Prod.ext_iff, and_assoc]
    rw [hcons, hrest]
    constructor
    · rintro ⟨hfirst, hrest⟩ i v' w' t' hv ht hw
      cases i with
      | zero =>
        cases hv
        cases ht
        cases hw
        exact hfirst
      | succ => exact hrest hv ht hw
    · exact fun h => ⟨@h 0 v w t rfl rfl rfl, fun {i v' w' t'} => @h (i + 1) v' w' t'⟩

theorem Parameters.Settled.promoteParameters {now : Parameters} (h : now.Settled) :
    promoteParameters now.values now.types = (now.values, .ok ()) := by
  unfold SqlAnalysis.promoteParameters
  rw [if_pos h.length_eq.symm, promoteAll_eq_ok h.length_eq rfl]
  intro i v w t hv ht hw
  cases hv.symm.trans hw
  exact h.promote hv ht

/-! ### What a binding asks for -/

def BindState.now (s : BindState) : Parameters := ⟨s.parameters, s.expectations.parameterTypes⟩

def AskedIn (S : ExprId → Prop) (a : Arena) (asks : List Ask) : Prop :=
  ∀ ask ∈ asks, ∃ id, S id ∧ id < a.size ∧ a.expr id = .parameter ask.index

/-- The parameters change by the requests of placeholders in the set. -/
def Requests (S : ExprId → Prop) (s t : BindState) : Prop :=
  StoreStep S s.exprs t.exprs ∧ ∃ asks, s.now.replay asks = some t.now ∧ AskedIn S t.exprs asks

section

variable {S : ExprId → Prop} {s t u : BindState} {a a' : Arena} {asks : List Ask}

theorem AskedIn.single {id : ExprId} {index : Nat} {t : SqlType} (hS : S id) (hid : id < a.size)
    (hexpr : a.expr id = .parameter index) : AskedIn S a [⟨index, t⟩] := by
  intro ask hask
  cases mem_singleton.mp hask
  exact ⟨id, hS, hid, hexpr⟩

theorem AskedIn.later (h : AskedIn S a asks) (hstep : StoreStep S a a') : AskedIn S a' asks := by
  intro ask hask
  obtain ⟨id, hS, hid, hexpr⟩ := h ask hask
  refine ⟨id, hS, hid.trans_le hstep.size_le, Expr.eq_of_placeholder? ?_⟩
  rw [hstep.placeholder hid, hexpr]
  rfl

theorem Requests.none (hstep : StoreStep S s.exprs t.exprs) (hnow : t.now = s.now) :
    Requests S s t :=
  ⟨hstep, [], hnow ▸ rfl, fun _ h => nomatch h⟩

theorem Requests.trans (h : Requests S s t) (h' : Requests S t u) : Requests S s u := by
  obtain ⟨hstep, asks, hreplay, hasks⟩ := h
  obtain ⟨hstep', asks', hreplay', hasks'⟩ := h'
  refine ⟨hstep.trans hstep', asks ++ asks', Parameters.replay_append hreplay hreplay', ?_⟩
  intro ask hask
  rcases mem_append.mp hask with hask | hask
  · exact hasks.later hstep' ask hask
  · exact hasks' ask hask

theorem Requests.one {id : ExprId} {index : Nat} {v w : Value}
    (hlength : s.expectations.parameterTypes.length = s.parameters.length) (hS : S id)
    (hid : id < s.exprs.size) (hexpr : s.exprs.expr id = .parameter index)
    (hv : s.parameters[index]? = some v) (hw : v.promote (s.expectations.expectedOf id) = .ok w) :
    Requests S s (s.promoted id index w) := by
  have hstep : StoreStep S s.exprs (s.promoted id index w).exprs := .of_update_kind fun _ => rfl
  have hindex : index < s.expectations.parameterTypes.length :=
    hlength ▸ (List.getElem?_eq_some_iff.mp hv).1
  refine ⟨hstep, [⟨index, s.expectations.expectedOf id⟩], ?_, ?_⟩
  · refine Parameters.replay_cons.mpr ⟨_, Parameters.answer_eq_some.mpr ⟨v, w, hv, hw, rfl⟩, ?_⟩
    refine congrArg some (congrArg (Parameters.mk _) ?_)
    -- there is a type for every value, so that recording one appends none
    show s.expectations.parameterTypes.set _ _ = (_ ++ replicate (index + 1 - _) _).set _ _
    rw [Nat.sub_eq_zero_of_le hindex, replicate_zero, append_nil]
    rfl
  · exact (AskedIn.single hS hid hexpr).later hstep

end

def parameterConduct (S : ExprId → Prop) : Conduct S where
  Inv s := s.exprs.Encloses S ∧ s.expectations.parameterTypes.length = s.parameters.length
  Whole := Requests S
  Part := Requests S
  inv_encloses hs := hs.1
  inv_part hs h := by
    obtain ⟨hstep, asks, hreplay, _⟩ := h
    obtain ⟨hvalues, htypes⟩ := Parameters.length_replay hreplay
    exact ⟨hstep.encloses hs.1, htypes.trans (hs.2.trans hvalues.symm)⟩
  inv_open hs := hs
  inv_sibling hs _ := hs
  whole_refl := .none .refl rfl
  whole_trans h h' := h.trans h'
  part_trans h h' := h.trans h'
  part_of_whole h := h
  store h := h.1
  exprs _ h := .none h rfl
  expectations {s x} _ h _ := .none .refl (congrArg (Parameters.mk s.parameters) h)
  temp _ := .none .refl rfl
  parameter hs hS hid hexpr hv hw := .one hs.2 hS hid hexpr hv hw
  scope _ _ _ := .none .refl rfl
  close _ h := h
  restore _ _ h := h

/-! ### Whole statements -/

/-- The expressions that are part of a statement, and those that its binding adds. -/
def Parsed.Concerns (p : Parsed) (id : ExprId) : Prop :=
  (∃ x ∈ p.statement.exprs, p.exprs.Reaches x id) ∨ p.exprs.size ≤ id

/-- A parameter has a placeholder in the statement that a store belongs to. -/
def Parsed.HasPlaceholder (p : Parsed) (a : Arena) (index : Nat) : Prop :=
  ∃ id, p.Concerns id ∧ id < a.size ∧ a.expr id = .parameter index

theorem Parsed.encloses_concerns (p : Parsed) : p.exprs.Encloses p.Concerns := by
  refine ⟨fun x hx y hy => ?_, fun x hx => .inr hx⟩
  rcases hx with ⟨z, hz, hx⟩ | hx
  · exact .inl ⟨z, hz, hx.tail hy⟩
  · rw [Arena.expr_of_size_le hx] at hy
    cases hy

/-- The parameters before a statement is bound. -/
def Parameters.given (vs : List Value) : Parameters := ⟨vs, replicate vs.length .invalid⟩

theorem Parameters.settled_given (vs : List Value) : (Parameters.given vs).Settled := by
  refine ⟨length_replicate, fun {i v t} _ ht => ?_⟩
  cases eq_of_mem_replicate (mem_of_getElem? ht)
  exact Value.promote_invalid v

section

variable {env : Accessor} {p : Parsed} {b : Bound}

/-- **The parameters of a bound statement answer the requests of its placeholders.** -/
theorem bind_replays (h : (bind env p vs).result = .ok b) :
    ∃ asks, (Parameters.given vs).replay asks =
        some ⟨(bind env p vs).parameters, b.parameterTypes⟩ ∧
      ∀ ask ∈ asks, p.HasPlaceholder b.exprs ask.index := by
  have hfollows : (parameterConduct p.Concerns).whole.Follows
      (bindStatementWith env (recurTo env (bindLevels env p)) p.statement) :=
    Conduct.agree_statement (recurTo_conducts _) (recurTo_derived _)
      fun x hx => .inl ⟨x, hx, .refl⟩
  have hrun := (@hfollows (.initial env p vs) ⟨p.encloses_concerns, length_replicate⟩).2
  unfold bind at h ⊢
  dsimp only at h ⊢
  split at h
  · rename_i statement s hs
    rw [hs] at hrun
    cases h
    obtain ⟨_, asks, hreplay, hasks⟩ := hrun
    exact ⟨asks, hreplay, hasks⟩
  · cases h

theorem Parameters.promoteParameters_replay {later : Parameters} {asks : List Ask}
    (h : (Parameters.given vs).replay asks = some later) :
    promoteParameters vs later.types = (later.values, .ok ()) ↔
      ∀ {i : Nat} {v : Value} {t : SqlType}, vs[i]? = some v → later.types[i]? = some t →
        v.promote t = v.promoteThrough (typesAsked asks i) := by
  obtain ⟨hvalues, htypes⟩ := length_replay h
  have htypes : later.types.length = vs.length := htypes.trans length_replicate
  unfold promoteParameters
  rw [if_pos htypes.symm, promoteAll_eq_ok htypes hvalues]
  have hat {i : Nat} {v : Value} (hv : vs[i]? = some v) :
      ∃ w, later.values[i]? = some w ∧ v.promoteThrough (typesAsked asks i) = .ok w := by
    have hinvalid : (Parameters.given vs).types[i]? = some .invalid :=
      List.getElem?_replicate_of_lt (List.getElem?_eq_some_iff.mp hv).1
    obtain ⟨w, hw, hthrough, _⟩ := replay_at h hv hinvalid
    exact ⟨w, hw, hthrough⟩
  constructor
  · intro hagree i v t hv ht
    obtain ⟨w, hw, hthrough⟩ := hat hv
    rw [hthrough]
    exact hagree hv ht hw
  · intro hagree i v w t hv ht hw
    obtain ⟨_, hw', hthrough⟩ := hat hv
    cases hw.symm.trans hw'
    rw [hagree hv ht]
    exact hthrough

theorem Parameters.promote_replay {later : Parameters} {asks : List Ask} {t : SqlType}
    (h : (Parameters.given vs).replay asks = some later) (hv : vs[i]? = some v)
    (ht : later.types[i]? = some t)
    (hasked : v.isRigid = true ∨ ∃ t, ∀ t' ∈ typesAsked asks i, t' = .invalid ∨ t' = t) :
    v.promote t = v.promoteThrough (typesAsked asks i) := by
  have hinvalid : (Parameters.given vs).types[i]? = some .invalid :=
    List.getElem?_replicate_of_lt (List.getElem?_eq_some_iff.mp hv).1
  obtain ⟨_, _, hthrough, hkept⟩ := replay_at h hv hinvalid
  cases ht.symm.trans hkept
  rw [hthrough]
  rcases hasked with hrigid | ⟨t, hasked⟩
  · exact Value.promote_keptType_of_isRigid hrigid hthrough
  · exact Value.promote_keptType hasked hthrough

end

/-- **Parameters come to rest.**  A binding that ends well leaves a type for each of the given values,
and every value is at rest at its type, so that promoting the values again changes nothing; a parameter
without a placeholder keeps its value and has no type.  A binding that fails leaves the values as they
were given. -/
theorem bind_settles_parameters (env : Accessor) (p : Parsed) (vs : List Value) :
    (∀ b, (bind env p vs).result = .ok b →
      b.parameterTypes.length = vs.length ∧ (bind env p vs).parameters.length = vs.length ∧
      (∀ (i : Nat) (v : Value) (t : SqlType), (bind env p vs).parameters[i]? = some v →
        b.parameterTypes[i]? = some t → v.promote t = .ok v) ∧
      promoteParameters (bind env p vs).parameters b.parameterTypes =
        ((bind env p vs).parameters, .ok ()) ∧
      ∀ i < vs.length, ¬p.HasPlaceholder b.exprs i →
        (bind env p vs).parameters[i]? = vs[i]? ∧ b.parameterTypes[i]? = some .invalid) ∧
    ∀ fault, (bind env p vs).result = .error fault → (bind env p vs).parameters = vs := by
  refine ⟨fun b h => ?_, fun fault h => ?_⟩
  · obtain ⟨asks, hreplay, hasks⟩ := bind_replays h
    obtain ⟨hvalues, htypes⟩ := Parameters.length_replay hreplay
    have hsettled := (Parameters.settled_given vs).replay hreplay
    refine ⟨htypes.trans length_replicate, hvalues, fun i v t hv ht => hsettled.promote hv ht,
      hsettled.promoteParameters, fun i hi hnone => ?_⟩
    have hunasked : typesAsked asks i = [] := by
      refine map_eq_nil_iff.mpr (filter_eq_nil_iff.mpr fun ask hask heq => hnone ?_)
      exact beq_iff_eq.mp heq ▸ hasks ask hask
    obtain ⟨_, hw, hthrough, hkept⟩ := Parameters.replay_at hreplay (getElem?_eq_getElem hi)
      (getElem?_replicate_of_lt hi)
    rw [hunasked] at hthrough hkept
    cases hthrough
    exact ⟨hw.trans (getElem?_eq_getElem hi).symm, hkept⟩
  · unfold bind at h ⊢
    dsimp only at h ⊢
    split at h
    · cases h
    · rfl

def oneAndAQuarter : Value := .decimal ⟨false, 125, 2, by decide, by decide⟩

/-- `SELECT CAST($1 AS DECIMAL(10,1)), CAST($1 AS DECIMAL(10,2))` -/
def twoCasts : Parsed :=
  { statement := .select { items := [0, 1] }
    exprs := .ofExprs [
      .cast (.decimal 10 1) 2,
      .cast (.decimal 10 2) 3,
      .parameter 0,
      .parameter 0] }

/-- The parameters and their types after a binding, and whether there is no placeholder for the second
one. -/
def parametersAfter (p : Parsed) (vs : List Value) : Option (List Value × List SqlType × Bool) :=
  match (bind .initial p vs).result with
  | .ok b => some ((bind .initial p vs).parameters, b.parameterTypes,
      (range b.exprs.size).all fun id => (b.exprs.expr id).placeholder? != some 1)
  | .error _ => none

theorem exists_of_parametersAfter {p : Parsed} {spare : Bool}
    (h : parametersAfter p vs = some (ws, ts, spare)) :
    ∃ b, (bind .initial p vs).result = .ok b ∧ (bind .initial p vs).parameters = ws ∧
      b.parameterTypes = ts ∧ (spare = true → ¬p.HasPlaceholder b.exprs 1) := by
  unfold parametersAfter at h
  split at h
  · rename_i b hb
    cases h
    refine ⟨b, hb, rfl, rfl, fun hspare ⟨id, _, hid, hexpr⟩ => ?_⟩
    have hnone := all_eq_true.mp hspare id (mem_range.mpr hid)
    rw [hexpr] at hnone
    cases hnone
  · cases h

/-- The first of two values is rounded and keeps the type it was last asked for; nothing happens to the
second one. -/
theorem twoCasts_settles_parameters :
    ∃ b w, (bind .initial twoCasts [oneAndAQuarter, .boolean true]).result = .ok b ∧
      (bind .initial twoCasts [oneAndAQuarter, .boolean true]).parameters = [w, .boolean true] ∧
      w ≠ oneAndAQuarter ∧ b.parameterTypes = [.decimal 10 2, .invalid] ∧
      w.promote (.decimal 10 2) = .ok w ∧ ¬twoCasts.HasPlaceholder b.exprs 1 ∧
      b.parameterTypes[1]? = some .invalid := by
  have hafter : parametersAfter twoCasts [oneAndAQuarter, .boolean true] =
      some ([.decimal ⟨false, 12, 1, by decide, by decide⟩, .boolean true],
        [.decimal 10 2, .invalid], true) := by decide +kernel
  obtain ⟨b, hb, hvalues, htypes, hspare⟩ := exists_of_parametersAfter hafter
  obtain ⟨_, _, hrest, _, hunused⟩ := (bind_settles_parameters .initial twoCasts _).1 b hb
  refine ⟨b, _, hb, hvalues, by decide, htypes, hrest 0 _ _ ?_ ?_, hspare rfl,
    (hunused 1 (by decide) (hspare rfl)).2⟩
  · rw [hvalues]
    rfl
  · rw [htypes]
    rfl

/-- **Promotion at once.**  Some requests, each for the parameter of a placeholder, lead from the given
values to the parameters of a bound statement; of the run no more is told by them than its outcome.
Promoting the given values to the types of the parameters at once gives the same values exactly if this
treats every value as the requests for it do, one after the other; and so it does where all requests for
a parameter are for one type, or its value is NULL, a truth value, a date or a timestamp. -/
theorem repromotion_agrees_iff {env : Accessor} {p : Parsed} {vs : List Value} {b : Bound}
    (h : (bind env p vs).result = .ok b) :
    ∃ asks, (Parameters.given vs).replay asks =
        some ⟨(bind env p vs).parameters, b.parameterTypes⟩ ∧
      (∀ ask ∈ asks, p.HasPlaceholder b.exprs ask.index) ∧
      (promoteParameters vs b.parameterTypes = ((bind env p vs).parameters, .ok ()) ↔
        ∀ (i : Nat) (v : Value) (t : SqlType), vs[i]? = some v → b.parameterTypes[i]? = some t →
          v.promote t = v.promoteThrough (typesAsked asks i)) ∧
      ((∀ (i : Nat) (v : Value), vs[i]? = some v →
          v.isRigid = true ∨ ∃ t, ∀ t' ∈ typesAsked asks i, t' = .invalid ∨ t' = t) →
        promoteParameters vs b.parameterTypes = ((bind env p vs).parameters, .ok ())) := by
  obtain ⟨asks, hreplay, hasks⟩ := bind_replays h
  have hagree := Parameters.promoteParameters_replay hreplay
  refine ⟨asks, hreplay, hasks, ⟨fun h i v t => hagree.mp h, fun h => hagree.mpr (h _ _ _)⟩, ?_⟩
  exact fun hasked => hagree.mpr fun hv ht => Parameters.promote_replay hreplay hv ht (hasked _ _ hv)

def newYear : Value := .date ⟨2024, 1, 1, by decide⟩

/-- `SELECT CAST($1 AS DATE), CAST($1 AS TIMESTAMP)` -/
def datedCasts : Parsed :=
  { statement := .select { items := [0, 1] }
    exprs := .ofExprs [
      .cast .date 2,
      .cast .timestamp 3,
      .parameter 0,
      .parameter 0] }

/-- Two types are asked for, and still the date could have been promoted at once. -/
theorem datedCasts_repromotion_agrees :
    ∃ b w, (bind .initial datedCasts [newYear]).result = .ok b ∧ w ≠ newYear ∧
      (bind .initial datedCasts [newYear]).parameters = [w] ∧
      promoteParameters [newYear] b.parameterTypes = ([w], .ok ()) := by
  have hafter : parametersAfter datedCasts [newYear] =
      some ([.timestamp (.ofDate ⟨2024, 1, 1, by decide⟩)], [.timestamp], true) := by decide +kernel
  obtain ⟨b, hb, hvalues, _, _⟩ := exists_of_parametersAfter hafter
  obtain ⟨asks, _, _, _, hagree⟩ := repromotion_agrees_iff hb
  refine ⟨b, _, hb, by decide, hvalues, ?_⟩
  rw [← hvalues]
  refine hagree fun i v hv => .inl ?_
  cases mem_singleton.mp (mem_of_getElem? hv)
  rfl

/-- A value that two placeholders round to one digit and then to two is rounded to two at once. -/
theorem twoCasts_repromotion_differs :
    ∃ b, (bind .initial twoCasts [oneAndAQuarter]).result = .ok b ∧
      promoteParameters [oneAndAQuarter] b.parameterTypes = ([oneAndAQuarter], .ok ()) ∧
      (bind .initial twoCasts [oneAndAQuarter]).parameters ≠ [oneAndAQuarter] := by
  have hafter : parametersAfter twoCasts [oneAndAQuarter] =
      some ([.decimal ⟨false, 12, 1, by decide, by decide⟩], [.decimal 10 2], true) := by
    decide +kernel
  obtain ⟨b, hb, hvalues, htypes, _⟩ := exists_of_parametersAfter hafter
  refine ⟨b, hb, ?_, ?_⟩
  · rw [htypes]
    rfl
  · rw [hvalues]
    decide

end SqlAnalysis
