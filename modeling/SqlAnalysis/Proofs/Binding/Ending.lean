import SqlAnalysis.Proofs.Binding.Clauses
import SqlAnalysis.Proofs.Binding.Levels
import SqlAnalysis.Proofs.Binding.StoreSteps
import SqlAnalysis.Proofs.Ending

/-!
# How bindings end

A binding of a well-formed statement with enough levels gives a result or refuses the statement.  It may
also find a dangling number or run out of levels, and it has to be shown that it does not.

A computation is calm if it refines the store and gives up only by refusing; this is a track, so it is
followed through expressions and clauses with the lemmas for tracks.  What a step needs of the store, such
as the kind of a node, is passed on as a property that lasts while the store is refined.

* **`recurTo_able`**: a binding with a number of levels is able to use them.
-/

namespace SqlAnalysis

open Text BindM Track Arena

variable {task : BindTask} {a : Arena} {env : Accessor} {v v' : BindView} {q : Select} {m : Nat}
  {s : BindState}

/-! ### Computations -/

section

variable {α : Type}

/-- A property that stays when the store is refined. -/
class Lasting (P : Arena → Prop) : Prop where
  keep : ∀ {a a' : Arena}, P a → a.Refines a' → P a'

instance : Lasting fun _ => True where
  keep h _ := h

/-- From well-formed stores with a property, the store is refined, and giving up is refusing. -/
def calm {σ : Type} (store : σ → Arena) (P : Arena → Prop) [Lasting P] : Track σ where
  Inv s := (store s).WellFormed ∧ P (store s)
  Rel s t := (store s).WellFormed → (store s).Refines (store t)
  Fail e s t := (store s).WellFormed → (store s).Refines (store t) ∧ ∃ d, e = .refused d
  refl _ := .refl _
  trans h h' hs := (h hs).trans (h' ((h hs).wellFormed hs)) hs
  refused _ := ⟨.refl _, _, rfl⟩
  trans_fail h h' hs :=
    ⟨(h hs).trans (h' ((h hs).wellFormed hs)).1 hs, (h' ((h hs).wellFormed hs)).2⟩
  keep hs h := ⟨(h hs.1).wellFormed hs.1, Lasting.keep hs.2 (h hs.1)⟩

/-- The computation ends well from every well-formed store with a property. -/
abbrev Calm (P : Arena → Prop) [Lasting P] (act : BindM α) : Prop :=
  (calm BindState.exprs P).Follows act

variable {P : Arena → Prop} [Lasting P] {act : BindM α}

section

variable {σ : Type} {store : σ → Arena} {s : σ} {act : EStateM Fault σ α}

theorem EndsWell.calm (h : EndsWell store act (fun _ _ => True) s) :
    (calm store P).AgreeFrom s act act := by
  refine ⟨rfl, ?_⟩
  cases hrun : act s with
  | ok => exact fun _ => (h.ok hrun).1
  | error => exact fun _ => h.error hrun

theorem endsWell_of_follows (hs : (store s).WellFormed)
    (h : EndsBy (SqlAnalysis.calm store P).Rel (SqlAnalysis.calm store P).Fail s (act s)) :
    EndsWell store act (fun _ _ => True) s := by
  unfold EndsWell
  cases hrun : act s with
  | ok =>
    rw [hrun] at h
    exact ⟨h hs, trivial⟩
  | error =>
    rw [hrun] at h
    exact h hs

end

theorem endsWell_of_calm (h : Calm P act) (hs : s.exprs.WellFormed) (hp : P s.exprs) :
    EndsWell BindState.exprs act (fun _ _ => True) s :=
  endsWell_of_follows hs (h ⟨hs, hp⟩).2

theorem calm_expect (id : ExprId) (t : SqlType) : Calm P (expect id t) :=
  agree_modify fun _ _ _ => .refl _

theorem calm_modifyExprs {f : Arena → Arena} (h : ∀ {a}, P a → a.Refines (f a)) :
    Calm P (modifyExprs f) :=
  agree_modify fun _ hs _ => h hs.2

theorem calm_setType (id : ExprId) (t : SqlType) : Calm P (setType id t) :=
  calm_modifyExprs fun _ => .of_update_kind (by intro n; rfl)

theorem calm_expectPair (left right : ExprId) : Calm P (expectPair left right) := by
  intro s _
  refine EndsWell.calm ?_
  show EndsWell _ (do
    let x ← ofExcept (s.expectations.expectPair s.exprs left right)
    set { s with expectations := x }) _ s
  cases s.expectations.expectPair s.exprs left right with
  | ok => exact ⟨.refl _, trivial⟩
  | error e => exact ⟨.refl _, e, rfl⟩

end

/-! ### What queries become -/

theorem BindTask.Finished.lt_size (h : task.Finished a) : ∀ y ∈ task.yielded, y < a.size := by
  cases task with
  | expr | acts | roots => exact fun _ hy => absurd hy List.not_mem_nil
  | _ => exact Sound.lt_size h

theorem Binds.yields (h : Binds env task v v') (hready : task.Ready v.exprs) :
    v.exprs.Yields v'.exprs task.mentioned task.yielded := by
  intro y hy
  have hfrom : y ∈ task.mentioned ∨ v.exprs.size ≤ y ∧ task.mentioned ≠ [] := by
    refine h.yielded_of (S := fun y => y ∈ task.mentioned ∨ v.exprs.size ≤ y ∧ task.mentioned ≠ [])
      (fun hx hle => Or.inr ⟨hle, ?_⟩) le_rfl (fun _ => Or.inl) y hy
    exact hx.elim List.ne_nil_of_mem And.right
  have hlt := (h.progress hready).finished.lt_size y hy
  have hplain : task.Plain := by
    cases task with
    | acts => exact absurd hy List.not_mem_nil
    | _ => trivial
  exact hfrom.imp_right fun ⟨hle, hne⟩ => ⟨⟨hle, hlt, h.addsColumns hready hplain y hle hlt⟩, hne⟩

theorem Binds.renders {q' : Select} (h : Binds env (.query q q') v v') :
    v.exprs.Renders q v'.exprs q' :=
  ⟨h.lighter, h.yields trivial⟩

/-! ### Expressions -/

/-- A node is still what `e` was, as far as its kind and the arguments of calls go, and the operands of
`e` can be bound with so many levels. -/
structure Arena.Holds (n : Nat) (id : ExprId) (e : Expr) (a : Arena) : Prop where
  lt_size : id < a.size
  kind : (a.expr id).ctorIdx = e.ctorIdx
  call : ∀ {name args procId}, e = .call name args procId →
    ∃ procId', a.expr id = .call name args procId'
  operands : ∀ c ∈ e.children, a.BindsIn n c

instance {n : Nat} {id : ExprId} {e : Expr} : Lasting (Holds n id e) where
  keep h ha :=
    ⟨h.lt_size.trans_le ha.size_le, by rw [ha.kind h.lt_size, h.kind],
      fun he => by
        obtain ⟨_, he'⟩ := h.call he
        exact ha.call h.lt_size he',
      fun c hc => (h.operands c hc).refines ha .refl⟩

/-- So many levels are enough for binding the parts of an expression or query: two for each part of a
query, of which a branch has used one. -/
structure Recur.Able (rec : Recur) (n : Nat) : Prop where
  expr : ∀ {id s}, s.exprs.WellFormed → s.exprs.BindsIn n id →
    EndsWell BindState.exprs (rec.expr id) (fun _ _ => True) s
  query : ∀ {m q s}, s.exprs.WellFormed → m + 2 * q.weight ≤ n →
    (∀ y ∈ q.exprs, s.exprs.BindsIn m y) →
    EndsWell BindState.exprs (rec.query q) (fun _ _ => True) s
  branch : ∀ {m q depth s}, s.exprs.WellFormed → m + 2 * q.weight ≤ n + 1 →
    (∀ y ∈ q.exprs, s.exprs.BindsIn m y) →
    EndsWell BindState.exprs (rec.branch q depth) (fun _ _ => True) s

section

variable {rec : Recur} {n : Nat} {id : ExprId} {P : Arena → Prop} [Lasting P]

theorem Recur.Able.visit (hrec : rec.Able n) (h : ∀ {a}, P a → a.BindsIn n id) :
    Calm P (rec.expr id) :=
  fun _ hs => (hrec.expr hs.1 (h hs.2)).calm

theorem Recur.Able.takes (hrec : rec.Able n) (h : ∀ {a}, P a → a.BindsIn n id) :
    (calm BindState.exprs P).Takes rec rec id :=
  ⟨hrec.visit h, fun t => agree_bind (calm_expect id t) fun _ => hrec.visit h⟩

theorem Expr.ctorIdx_mapChildren (f : ExprId → ExprId) (e : Expr) :
    (e.mapChildren f).ctorIdx = e.ctorIdx := by
  cases e <;> rfl

theorem Arena.refines_replaceChild {operand inner : ExprId} {t : SqlType}
    (hkind : (a.expr id).ctorIdx = 5) (ho : a.expr operand = .cast t inner) :
    a.Refines (a.replaceChild id operand inner) := by
  have hplain : (a.expr id).isSubquery = false := by
    rw [Expr.isSubquery_eq, hkind]
    rfl
  refine .of_update hplain (Expr.ctorIdx_mapChildren _ _) (fun he => ?_) fun y hy => ?_
  · rw [he] at hkind
    cases hkind
  · rcases Expr.mem_parts_mapChildren (Expr.mem_parts_of_children hy) with hy | ⟨c, hc, rfl⟩
    · exact .single hy
    · have hbelow : a.Below id c := .single hc
      split
      · rename_i heq
        rw [heq] at hbelow
        exact hbelow.tail (by rw [Refers, ho]; exact List.mem_singleton_self _)
      · exact hbelow

theorem calm_dropLiteralCast (hP : ∀ {a}, P a → (a.expr id).ctorIdx = 5) (operand : ExprId) :
    Calm P (dropLiteralCast id operand) := by
  intro s hs
  refine (agree_exprOf operand hs).bind fun hrun _ => ?_
  obtain ⟨rfl, rfl⟩ := run_exprOf.mp hrun
  cases ho : s.exprs.expr operand with
  | cast t inner =>
    refine (agree_isLiteral inner hs).bind fun hrun _ => ?_
    obtain ⟨_, rfl⟩ := run_isLiteral.mp hrun
    refine EndsWell.calm (endsWell_ite (fun _ => ?_) fun _ => endsWell_pure trivial)
    exact ⟨refines_replaceChild (hP hs.2) ho, trivial⟩
  | _ => exact agree_pure _ hs

theorem calm_bindCall (hrec : rec.Able n) {name : String} {args : List ExprId}
    (hP : ∀ {a}, P a → ∃ procId, a.expr id = .call name args procId)
    (hs : ∀ c ∈ args, ∀ {a}, P a → a.BindsIn n c) : Calm P (bindCall env rec id name args) := by
  refine agree_bind (agree_forM fun c hc => hrec.visit (hs c hc)) fun _ =>
    agree_bind (agree_mapM fun c _ => agree_typeOf c) fun types => ?_
  split
  · exact agree_refuse _ _
  · refine agree_bind (agree_forM fun x hx => ?_) fun _ =>
      agree_bind (calm_modifyExprs fun {a} hp => ?_) fun _ => agree_checkExpected _
    · exact (hrec.takes (hs _ (List.of_mem_zip hx).1)).convertLiteral _
    · obtain ⟨_, he⟩ := hP hp
      refine .of_update (by rw [he]; rfl) (by rw [he]; rfl) (fun he' => ?_) fun c hc => ?_
      · cases he.symm.trans he'
        exact ⟨_, rfl⟩
      · exact below_of_child (by rw [he]; exact hc)

theorem calm_bindConstant (hP : ∀ {a}, P a → (a.expr id).ctorIdx = 0) (v : Value) :
    Calm P (bindConstant id v) := by
  refine agree_bind (agree_expectedOf _) fun t => agree_ite (agree_bind (agree_ofExcept _) fun w => ?_)
    (agree_ite (calm_setType _ _) (agree_pure _))
  intro s hs
  have hkind := hP hs.2
  have hset : s.exprs.Refines (s.exprs.setExpr id (.constant w)) := by
    refine .of_update ?_ (by rw [hkind]; rfl) (fun he => ?_) fun c hc => ?_
    · rw [Expr.isSubquery_eq, hkind]
      rfl
    · rw [he] at hkind
      cases hkind
    · cases hc
  exact ⟨rfl, fun hs => hset.trans (.of_update_kind (by intro n; rfl)) hs⟩

theorem calm_bindParameter (index : Nat) : Calm P (bindParameter id index) := by
  refine agree_bind agree_get fun s => ?_
  split
  · exact agree_refuse _ _
  · exact agree_bind (agree_expectedOf _) fun _ => agree_bind (agree_ofExcept _) fun _ =>
      agree_modify fun _ _ _ => .of_update_kind (by intro n; rfl)

theorem calm_bindColumn (hP : ∀ {a}, P a → (a.expr id).ctorIdx = 2) (ref : ColumnRef) :
    Calm P (bindColumn id ref) := by
  have hend : Calm P (do
      if !(← expectedOf id).isValid then
        expect id (← typeOf id)
      checkExpected id) := by
    refine agree_bind (agree_expectedOf _) fun t => ?_
    split
    · exact agree_bind (agree_typeOf _) fun _ => agree_bind (calm_expect _ _) fun _ =>
        agree_checkExpected _
    · exact agree_checkExpected _
  unfold bindColumn
  split
  · refine agree_bind agree_get fun s => agree_bind (agree_ofExcept _) fun c =>
      agree_bind (calm_modifyExprs fun {a} hp => ?_) fun _ => hend
    have hkind := hP hp
    refine .of_update ?_ (by rw [hkind]; rfl) (fun he => ?_) fun c hc => ?_
    · rw [Expr.isSubquery_eq, hkind]
      rfl
    · rw [he] at hkind
      cases hkind
    · cases hc
  · exact hend

theorem endsWell_takeQuery (hrec : rec.Able n) (hderived : rec.Derived env)
    (hs : s.exprs.WellFormed) (hq : s.exprs.expr id = .subquery q) (hm : m + 2 * q.weight ≤ n)
    (hexprs : ∀ y ∈ q.exprs, s.exprs.BindsIn m y) :
    EndsWell BindState.exprs (do
      modifyExprs (·.setQuery id {})
      let query ← rec.query q
      modifyExprs (·.setQuery id query)
      pure query) (fun _ _ => True) s := by
  have htaken := refines_takeQuery hq
  have hquery := hrec.query (s := { s with exprs := s.exprs.setQuery id {} }) (htaken.wellFormed hs)
    hm fun y hy => (hexprs y hy).refines htaken .refl
  show EndsFrom _ _ _ (EStateM.bind (rec.query q) _ { s with exprs := s.exprs.setQuery id {} })
  unfold EStateM.bind
  cases hrun : rec.query q { s with exprs := s.exprs.setQuery id {} } with
  | ok =>
    obtain ⟨hrefines, _⟩ := hquery.ok hrun
    have hrenders := (hderived.query hrun).renders
    have hall := htaken.trans hrefines hs
    exact ⟨hall.setQuery hq (hrenders.of_le htaken.size_le), trivial⟩
  | error =>
    obtain ⟨hrefines, hrefused⟩ := hquery.error hrun
    exact ⟨htaken.trans hrefines hs, hrefused⟩

theorem endsWell_bindSubquery (hrec : rec.Able n) (hderived : rec.Derived env)
    (hs : s.exprs.WellFormed) (hq : s.exprs.expr id = .subquery q) (hm : m + 2 * q.weight ≤ n)
    (hexprs : ∀ y ∈ q.exprs, s.exprs.BindsIn m y) :
    EndsWell BindState.exprs (bindSubquery rec id q) (fun _ _ => True) s := by
  have hupdate (t : SqlType) :
      Calm (fun _ => True) (modifyExprs (·.update id ({ · with type := t, hasSubquery := true }))) :=
    calm_modifyExprs fun _ => .of_update_kind (by intro n; rfl)
  have hmark (q : Select) {s : BindState} (hs : s.exprs.WellFormed) :=
    endsWell_of_calm (agree_markSubquery q hupdate) hs trivial
  refine endsWell_ite (fun _ => (hmark q hs).of_run rfl) fun _ => ?_
  have hwhole := EndsWell.bind hs (endsWell_takeQuery hrec hderived hs hq hm hexprs)
    fun {query _} _ hs1 _ _ => hmark query hs1
  simp only [bind_assoc, pure_bind] at hwhole ⊢
  exact hwhole

/-- **An expression is bound or refused, if there are enough levels.** -/
theorem endsWell_bindExprWith (hrec : rec.Able n) (hderived : rec.Derived env)
    (hs : s.exprs.WellFormed) (hid : s.exprs.BindsIn (n + 1) id) :
    EndsWell BindState.exprs (bindExprWith env rec id) (fun _ _ => True) s := by
  obtain ⟨node, hnode⟩ : ∃ node, s.exprs.node? id = some node :=
    ⟨_, Array.getElem?_eq_getElem hid.lt_size⟩
  have hkind : s.exprs.expr id = node.kind := by rw [expr, node_of_node? hnode]
  have hget : EndsWell BindState.exprs (getNode id) (fun r a => r = node ∧ a = s.exprs) s := by
    refine .of_ok (run_getNode.mpr ⟨hnode, rfl⟩) (.refl _) ⟨rfl, rfl⟩
  refine .bind hs hget fun {r s'} hrun _ _ hr => ?_
  obtain ⟨_, rfl⟩ := run_getNode.mp hrun
  rw [hr.1]
  cases hid with
  | subquery hq hm hexprs =>
    rw [hq] at hkind
    rw [← hkind]
    exact endsWell_bindSubquery hrec hderived hs hq hm hexprs
  | plain hlt hplain hchildren =>
    have hholds : s.exprs.Holds n id node.kind := by
      refine ⟨hlt, by rw [hkind], fun {name args procId} he => ⟨procId, hkind.trans he⟩, ?_⟩
      rw [← hkind]
      exact hchildren
    refine endsWell_of_calm (P := Holds n id node.kind) ?_ hs hholds
    cases he : node.kind with
    | constant v => exact calm_bindConstant (fun h => h.kind) v
    | parameter index => exact calm_bindParameter index
    | column ref => exact calm_bindColumn (fun h => h.kind) ref
    | star | tableStar => exact agree_bindStar
    | compare =>
      exact agree_bindComparison (calm_setType id) (hrec.takes fun h => h.operands _ (by simp [Expr.children]))
        (hrec.takes fun h => h.operands _ (by simp [Expr.children])) (calm_expectPair _ _)
        (calm_dropLiteralCast (fun h => h.kind) _) (calm_dropLiteralCast (fun h => h.kind) _)
    | connect =>
      exact agree_bindConnective (calm_setType id) fun c hc => hrec.takes fun h => h.operands c hc
    | operate op =>
      exact agree_bindOperation (calm_setType id) op fun c hc => hrec.takes fun h => h.operands c hc
    | call =>
      exact calm_bindCall hrec (fun h => h.call rfl) fun c hc {_} h => h.operands c hc
    | aggregate f =>
      exact agree_bindAggregate (calm_setType id) f fun c hc => hrec.takes fun h => h.operands c hc
    | cast target =>
      exact agree_bindCast (calm_setType id) target
        (hrec.takes fun h => h.operands _ (List.mem_singleton_self _))
    | case =>
      exact agree_bindCase (calm_setType id) fun c hc => hrec.takes fun h => h.operands c hc
    | subquery =>
      rw [hkind, he] at hplain
      cases hplain
    | default => exact agree_refused _

end

/-! ### Copies -/

/-- A stored expression is in a well-formed store. -/
structure StoredExpr.WellFormed (e : StoredExpr) : Prop where
  store : e.arena.WellFormed
  lt_size : e.root < e.arena.size

theorem Arena.endsWell_importFrom {other : Arena} (hother : other.WellFormed) {fuel : Nat}
    {root : ExprId} (hroot : root < other.size) (hfuel : other.rank root < fuel) (ha : a.WellFormed) :
    EndsWell (fun a => a) (importFrom other fuel root) (fun id a' => a'.BindsIn fuel id) a := by
  induction fuel generalizing root a with
  | zero => exact absurd hfuel (Nat.not_lt_zero _)
  | succ fuel ih =>
    have hoperands : EndsWell (fun a => a) ((other.expr root).children.mapM (importFrom other fuel))
        (fun ids a' => ∀ id ∈ ids, a'.BindsIn fuel id) a := by
      refine endsWell_mapM_each (fun id a => a.BindsIn fuel id) (fun h ha => h.refines ha .refl) ha
        fun c hc {a1} ha1 _ => ?_
      have hrefers : other.Refers root c := Expr.mem_parts_of_children hc
      have hrank := hother.rank_lt hrefers
      exact ih (hother.lt_size hrefers) (by omega) ha1
    rw [importFrom, node?_of_lt hroot]
    refine endsWell_ite (fun _ => endsWell_refused _) fun hplain => ?_
    rw [Expr.traverse_eq]
    simp only [bind_assoc, pure_bind]
    refine hoperands.bind_from fun {ids a1} hrun _ hids => ?_
    obtain ⟨happends, hlength, hrange⟩ := (mapM_imports hrun).appends
    have hchildren : ((other.node root).kind.withOperands ids).children = ids :=
      Expr.children_withOperands hlength
    have hplain' : ((other.node root).kind.withOperands ids).isSubquery = false := by
      rw [Expr.isSubquery_withOperands]
      exact Bool.eq_false_iff.mpr hplain
    refine ⟨.of_appends (happends.push hplain' fun c hc => ?_), .push hplain' fun c hc => ?_⟩
    · exact hrange c (hchildren ▸ hc)
    · exact hids c (hchildren ▸ hc)

def Column.DefaultIn (n : Nat) (column : Column) : Prop :=
  ∀ stored ∈ column.default, stored.WellFormed ∧ stored.arena.bound ≤ n

section

variable {rec : Recur} {n : Nat}

theorem endsWell_onExprs {α : Type} {act : EStateM Fault Arena α} {Q : α → Arena → Prop}
    (h : EndsWell (fun a => a) act Q s.exprs) : EndsWell BindState.exprs (onExprs act) Q s := by
  unfold EndsWell onExprs
  cases hrun : act s.exprs with
  | ok =>
    have hact := h.ok hrun
    exact hact
  | error =>
    have hact := h.error hrun
    exact hact

theorem endsWell_columnDefault (hs : s.exprs.WellFormed) (hn : 0 < n) {column : Column}
    (hcolumn : column.DefaultIn n) :
    EndsWell BindState.exprs (columnDefault column) (fun id a => a.BindsIn n id) s := by
  unfold columnDefault
  cases hdefault : column.default with
  | some stored =>
    obtain ⟨hstored, hbound⟩ := hcolumn stored hdefault
    have hrank := Nat.lt_succ_of_le (stored.arena.rank_le stored.root)
    exact endsWell_onExprs ((endsWell_importFrom hstored.store hstored.lt_size hrank hs).imp
      fun _ h => h.mono hbound)
  | none =>
    refine endsWell_ite (fun _ => ?_) fun _ => endsWell_refused _
    have hnull : ({ ExprNode.ofExpr (.constant .null) with type := column.type } :
        ExprNode).kind.isSubquery = false := rfl
    exact .of_ok rfl (.of_appends (.of_push hnull rfl))
      (.mono (.push hnull fun _ hc => absurd hc List.not_mem_nil) hn)

/-! ### Clauses -/

/-- Queries and statements of well-formed stores end well: expressions that can be bound with `m` levels
are bound with `n`, of which the queries take the rest. -/
def endingClauses (n m : Nat) : Clauses where
  Inv s := s.exprs.WellFormed
  Visits a id := a.BindsIn m id
  Fits k := m + k ≤ n
  Whole := (calm BindState.exprs fun _ => True).Rel
  Part := (calm BindState.exprs fun _ => True).Rel
  WholeFail := (calm BindState.exprs fun _ => True).Fail
  PartFail := (calm BindState.exprs fun _ => True).Fail
  inv_part hs h := (h hs).wellFormed hs
  inv_open hs := hs
  inv_sibling hs _ := hs
  visits_part hs h hid := hid.refines (h hs) .refl
  visits_operand _ hid he := hid.child (by rw [he]; exact List.mem_singleton_self _)
  visits_yielded hs h hbinds hready hin := (hbinds.yields hready).bindsIn (h hs) hin
  fits_le hle h := (Nat.add_le_add_left hle m).trans h
  whole_refl _ := .refl _
  whole_trans := (calm BindState.exprs fun _ => True).trans
  part_trans := (calm BindState.exprs fun _ => True).trans
  part_of_whole h := h
  refused := (calm BindState.exprs fun _ => True).refused
  whole_fail := (calm BindState.exprs fun _ => True).trans_fail
  part_fail := (calm BindState.exprs fun _ => True).trans_fail
  part_of_fail h := h
  relabel _ h _ := .of_expr h.size fun x => (h.node x).kind
  push _ hplain hleaf _ := .of_appends (.of_push hplain hleaf)
  Fills column := 0 < m ∧ column.DefaultIn m
  copy {s column stored} hs hcolumn hdefault := by
    have hends := endsWell_columnDefault hs hcolumn.1 hcolumn.2
    unfold columnDefault at hends
    rw [hdefault] at hends
    cases hrun : onExprs (importTree stored.arena stored.root) s with
    | ok id t => exact fun _ => (hends.ok hrun).1
    | error e t => exact fun _ => hends.error hrun
  visits_default hs hcolumn h := ((endsWell_columnDefault hs hcolumn.1 hcolumn.2).ok h).2
  serial _ _ := .refl _
  temp _ _ := .refl _
  scope _ _ _ _ := .refl _
  close _ h := h
  close_fail _ h := h
  restore _ _ h := h
  restore_fail _ _ h := h

theorem Recur.Able.agree (hrec : rec.Able n) (hm : m ≤ n) : rec.Agree (endingClauses n m) rec where
  expr hid _ hs := ⟨rfl, ((hrec.expr hs.1 ((hs.2 _ hid).mono hm)).calm (P := fun _ => True)).2⟩
  expecting {_ id} t hid s hs := by
    have hexpr := hrec.expr (s := { s with expectations := s.expectations.expect id t }) hs.1
      ((hs.2 id hid).mono hm)
    exact ⟨rfl, (hexpr.calm (P := fun _ => True)).2⟩
  query hfits hq _ hs :=
    ⟨rfl, ((hrec.query hs.1 hfits fun y hy => hs.2 y (hq y hy)).calm (P := fun _ => True)).2⟩
  branch {_ q _} hfits hq _ hs := by
    have hle : m + (2 * q.weight - 1) ≤ n := hfits
    refine ⟨rfl, (EndsWell.calm (P := fun _ => True) ?_).2⟩
    exact hrec.branch hs.1 (by omega) fun y hy => hs.2 y (hq y hy)

end

theorem recurTo_able (env : Accessor) (levels : Nat) : (recurTo env levels).Able levels := by
  induction levels with
  | zero =>
    refine ⟨fun _ h => absurd h.pos (Nat.lt_irrefl _), fun {_ q _} _ hm _ => ?_,
      fun {_ q _ _} _ hm _ => ?_⟩
    · have hpos := q.weight_pos
      omega
    · have hpos := q.weight_pos
      omega
  | succ levels ih =>
    have hderived : (recurTo env levels).Derived env := recurTo_derived levels
    refine ⟨fun hs h => endsWell_bindExprWith ih hderived hs h, fun {m q s} hs hm hq => ?_,
      fun {m q depth s} hs hm hq => ?_⟩
    · have hpos := q.weight_pos
      have hrec := ih.agree (m := m) (by omega)
      have hfits : (endingClauses levels m).Fits (2 * q.weight - 1) := by
        show m + (2 * q.weight - 1) ≤ levels
        omega
      exact endsWell_of_follows (P := fun _ => True) hs
        (Clauses.agree_bindQueryWith (S := (· ∈ q.exprs)) hrec hfits (fun _ h => h) ⟨hs, hq⟩).2
    · have hpos := q.weight_pos
      have hrec := ih.agree (m := m) (by omega)
      have hfits : (endingClauses levels m).Fits (2 * q.weight - 2) := by
        show m + (2 * q.weight - 2) ≤ levels
        omega
      exact endsWell_of_follows (P := fun _ => True) hs
        (Clauses.agree_bindBranchWith (S := (· ∈ q.exprs)) hrec hderived hfits (fun _ h => h) depth
          ⟨hs, hq⟩).2

end SqlAnalysis
