import SqlAnalysis.Proofs.Binding.Frame
import SqlAnalysis.Proofs.Binding.Scopes
import SqlAnalysis.Proofs.Binding.Soundness
import SqlAnalysis.Proofs.Binding.Tracks
import SqlAnalysis.Proofs.Expr.Measure
import SqlAnalysis.Proofs.Plan.Derivation

/-!
# How queries and statements treat the state

Above its expressions, a statement is bound by a few kinds of step only: names and numbers are given,
nodes are added, scopes are opened and filled, and expressions are bound.  What follows from each
step follows from the whole.

`Clauses` lists the kinds of step with one obligation for each.  To show something of every run it is
enough to fill in the list; the computations are followed here, once.  There are two relations between
states because a query block fills the scope it finds (`Part`), and only when that scope is closed are
all scopes as they were (`Whole`).  A way of ending early has its own relation, so that a refusal and a
missing level can be told apart.

All lemmas compare two ways of binding.  With the same one twice they say how a run treats its state;
with one that also watches the scopes, that it never catches anything.

* **`Clauses.agree_bindBranchWith`**, **`Clauses.agree_bindStatementWith`**: two ways of
  binding that do the same with what is nested do the same with query blocks and statements.
-/

namespace SqlAnalysis

open Text BindM List TableRef

variable {env : Accessor} {s : BindState} {q : Select} {scope : Scope} {outer : ScopeStack}
  {schema : Schema} {column : Column} {columns : List ColumnDef} {row : List ExprId}

/-! ### Clauses -/

/-- A node keeps what it is and its type. -/
structure ExprNode.Relabels (n n' : ExprNode) : Prop where
  kind : n'.kind = n.kind
  type : n'.type = n.type

/-- What is bound has no more parts than before. -/
def BindTask.Lighter : BindTask → Prop
  | .source item item' => item'.weight ≤ item.weight
  | .sources refs refs' => weightAll refs' ≤ weightAll refs
  | .from_ ref ref' => weightOpt ref' ≤ weightOpt ref
  | .entry c c' => c'.query.weight ≤ c.query.weight
  | .entries cs cs' => Cte.weightAll cs' ≤ Cte.weightAll cs
  | .union right right' _ => Select.weightOpt right' ≤ Select.weightOpt right
  | .branch q _ q' | .query q q' => q'.weight ≤ q.weight
  | _ => True

theorem Binds.lighter {task : BindTask} {v v' : BindView} (h : Binds env task v v') :
    task.Lighter := by
  induction h with
  | table => exact le_rfl
  | derived _ _ _ _ ih | list _ ih => exact Nat.add_le_add_left ih _
  | join _ _ _ ih ih' =>
    simp only [BindTask.Lighter, weight] at ih ih' ⊢
    omega
  | sourcesNil | fromNone | entriesNil | unionNone => exact le_rfl
  | sourcesCons _ _ ih ih' => exact Nat.add_le_add ih ih'
  | fromSome _ ih | unionSome _ _ ih | query _ ih | entryPlain _ _ _ _ _ ih => exact ih
  | @entryInductive c base q' _ _ _ _ _ _ _ _ _ _ _ _ ih ih' =>
    have hweight := Select.weight_eq c.query
    have halone := Select.weight_eq { c.query with union := none }
    have hbase := Select.weight_eq base
    have hwhole := Select.weight_eq { base with union := c.query.union }
    simp only [Select.weightOpt, BindTask.Lighter] at *
    omega
  | entriesCons _ _ ih ih' =>
    rw [BindTask.Lighter, Cte.weightAll_cons, Cte.weightAll_cons]
    simp only [BindTask.Lighter] at ih ih'
    omega
  | @branch q depth ctes source items union ordering _ _ _ _ _ _ _ _ _ _ _ _ _ _ _ ihe ihf _ _ ihu _ =>
    have hweight := Select.weight_eq q
    have hweight' := Select.weight_eq { q with
      ctes := ctes, source := source, items := items, union := union, ordering := ordering,
      depth := some depth }
    simp only [BindTask.Lighter] at *
    omega
  | _ => trivial

namespace Arena

theorem relabels_finish (a : Arena) (id : ExprId) : a.Differ ExprNode.Relabels (a.finish id) := by
  have hdepth := differ_deriveDepth a id
  have hflag := differ_deriveSubqueryFlag (a.deriveDepth id).2 id
  have hname := differ_deriveName ((a.deriveDepth id).2.deriveSubqueryFlag id).2 id
  refine ⟨hname.size.trans (hflag.size.trans hdepth.size), fun y => ?_⟩
  obtain ⟨_, hy, _⟩ := hdepth.node y
  obtain ⟨_, hy'⟩ := hflag.node y
  obtain ⟨_, hy''⟩ := hname.node y
  rw [finish, hy'', hy', hy]
  exact ⟨rfl, rfl⟩

theorem relabels_rename (a : Arena) (id : ExprId) (knownAs : Alias) :
    a.Differ ExprNode.Relabels (a.update id ({ · with knownAs := some knownAs })) :=
  .of_update (fun _ => ⟨rfl, rfl⟩) ⟨rfl, rfl⟩

theorem relabels_nameColumn (a : Arena) (id : ExprId) (knownAs : Alias) :
    a.Differ ExprNode.Relabels (a.nameColumn id knownAs) := by
  have hname := differ_deriveName (a.update id ({ · with knownAs := some knownAs })) id
  refine (a.relabels_rename id knownAs).trans (fun h h' => ⟨h'.kind.trans h.kind, h'.type.trans h.type⟩)
    ⟨hname.size, fun y => ?_⟩
  obtain ⟨_, hy⟩ := hname.node y
  rw [nameColumn, hy]
  exact ⟨rfl, rfl⟩

end Arena

/-- What is known of the state while the clauses of a query or statement are bound, and how each kind of
step changes it.  Steps of a query block may leave tables and WITH entries
behind in the innermost scope (`Part`), all others leave the scopes as they were (`Whole`). -/
structure Clauses where
  Inv : BindState → Prop
  /-- Expressions that may be bound. -/
  Visits : Arena → ExprId → Prop
  /-- How many levels may be used for queries. -/
  Fits : Nat → Prop
  Whole : BindState → BindState → Prop
  Part : BindState → BindState → Prop
  WholeFail : Fault → BindState → BindState → Prop
  PartFail : Fault → BindState → BindState → Prop
  inv_part : ∀ {s t}, Inv s → Part s t → Inv t
  inv_open : ∀ {s}, Inv s → Inv { s with scopes := s.scopes.open_ }
  inv_sibling : ∀ {s scope outer}, Inv s → s.scopes = scope :: outer →
    Inv { s with scopes := scope.sibling :: outer }
  visits_part : ∀ {s t id}, Inv s → Part s t → Visits s.exprs id → Visits t.exprs id
  visits_operand : ∀ {s id t c}, Inv s → Visits s.exprs id → s.exprs.expr id = .cast t c →
    Visits s.exprs c
  /-- What comes of expressions that may be bound may be bound as well. -/
  visits_yielded : ∀ {s t env task}, Inv s → Part s t → Binds env task s.view t.view → task.Ready s.exprs →
    (∀ x ∈ task.mentioned, Visits s.exprs x) → ∀ x ∈ task.yielded, Visits t.exprs x
  fits_le : ∀ {k l}, l ≤ k → Fits k → Fits l
  whole_refl : ∀ {s}, Whole s s
  whole_trans : ∀ {s t u}, Whole s t → Whole t u → Whole s u
  part_trans : ∀ {s t u}, Part s t → Part t u → Part s u
  part_of_whole : ∀ {s t}, Whole s t → Part s t
  refused : ∀ {d s}, WholeFail (.refused d) s s
  whole_fail : ∀ {e s t u}, Whole s t → WholeFail e t u → WholeFail e s u
  part_fail : ∀ {e s t u}, Part s t → PartFail e t u → PartFail e s u
  part_of_fail : ∀ {e s t}, WholeFail e s t → PartFail e s t
  relabel : ∀ {s a}, Inv s → s.exprs.Differ ExprNode.Relabels a → Whole s { s with exprs := a }
  push : ∀ {s n}, Inv s → n.kind.isSubquery = false → n.kind.children = [] →
    Whole s { s with exprs := (s.exprs.push n).2 }
  /-- Columns whose defaults may be used. -/
  Fills : Column → Prop
  copy : ∀ {s column stored}, Inv s → Fills column → column.default = some stored →
    EndsBy Whole WholeFail s (onExprs (Arena.importTree stored.arena stored.root) s)
  visits_default : ∀ {s t column id}, Inv s → Fills column →
    columnDefault column s = .ok id t → Visits t.exprs id
  serial : ∀ {s n}, Inv s → Whole s { s with expectations := { s.expectations with nextSerial := n } }
  temp : ∀ {s n}, Inv s → Whole s { s with nextTemp := n }
  scope : ∀ {s scope scope' outer}, Inv s → s.scopes = scope :: outer → scope'.depth = scope.depth →
    Part s { s with scopes := scope' :: outer }
  close : ∀ {s t}, Inv s → Part { s with scopes := s.scopes.open_ } t →
    Whole s { t with scopes := t.scopes.tail }
  close_fail : ∀ {e s t}, Inv s → PartFail e { s with scopes := s.scopes.open_ } t →
    WholeFail e s { t with scopes := t.scopes.tail }
  restore : ∀ {s t scope outer}, Inv s → s.scopes = scope :: outer →
    Part { s with scopes := scope.sibling :: outer } t →
    Whole s { t with scopes := scope :: t.scopes.tail }
  restore_fail : ∀ {e s t scope outer}, Inv s → s.scopes = scope :: outer →
    PartFail e { s with scopes := scope.sibling :: outer } t →
    WholeFail e s { t with scopes := scope :: t.scopes.tail }

namespace Clauses

open Track

variable (C : Clauses)

/-- What a computation with expressions in a set does that leaves the scopes as they were. -/
def whole (S : ExprId → Prop) : Track BindState where
  Inv s := C.Inv s ∧ ∀ x, S x → C.Visits s.exprs x
  Rel := C.Whole
  Fail := C.WholeFail
  refl := C.whole_refl
  trans := C.whole_trans
  refused := C.refused
  trans_fail := C.whole_fail
  keep h h' := ⟨C.inv_part h.1 (C.part_of_whole h'), fun x hx =>
    C.visits_part h.1 (C.part_of_whole h') (h.2 x hx)⟩

def part (S : ExprId → Prop) : Track BindState where
  Inv s := C.Inv s ∧ ∀ x, S x → C.Visits s.exprs x
  Rel := C.Part
  Fail := C.PartFail
  refl := C.part_of_whole C.whole_refl
  trans := C.part_trans
  refused := C.part_of_fail C.refused
  trans_fail := C.part_fail
  keep h h' := ⟨C.inv_part h.1 h', fun x hx => C.visits_part h.1 h' (h.2 x hx)⟩

variable {C} {S : ExprId → Prop} {α : Type} {x y : BindM α} {id : ExprId}

theorem agree_part (h : (C.whole S).Agree x y) : (C.part S).Agree x y := fun s hs => by
  obtain ⟨heq, hends⟩ := h hs
  refine ⟨heq, ?_⟩
  cases hrun : x s with
  | ok =>
    rw [hrun] at hends
    exact C.part_of_whole hends
  | error =>
    rw [hrun] at hends
    exact C.part_of_fail hends

theorem agree_relabel {f : Arena → Arena} (h : ∀ a : Arena, a.Differ ExprNode.Relabels (f a)) :
    (C.whole S).Follows (modifyExprs f) :=
  agree_modify fun _ hs => C.relabel hs.1 (h _)

theorem agree_finishExpr (id : ExprId) : (C.whole S).Follows (finishExpr id) :=
  agree_relabel fun a => a.relabels_finish id

theorem agree_pushNode {n : ExprNode} (hplain : n.kind.isSubquery = false)
    (hleaf : n.kind.children = []) : (C.whole S).Follows (pushNode n) :=
  agree_modifyGet fun _ hs => C.push hs.1 hplain hleaf

theorem agree_takeSerial : (C.whole S).Follows takeSerial := agree_modifyGet fun _ hs => C.serial hs.1

theorem agree_takeTemp : (C.whole S).Follows takeTemp := agree_modifyGet fun _ hs => C.temp hs.1

theorem agree_modifyScope {f : Scope → Except Diagnostic Scope}
    (hf : ∀ {scope scope'}, f scope = .ok scope' → scope'.depth = scope.depth) :
    (C.part S).Follows (modifyScope f) := by
  refine fun s hs => ⟨rfl, ?_⟩
  obtain ⟨exprs, expectations, scopes, parameters, nextTemp⟩ := s
  cases scopes with
  | nil => exact (C.part S).refused
  | cons scope outer =>
    show EndsBy (C.part S).Rel (C.part S).Fail _ ((do
      let scope ← ofExcept (f scope)
      set (BindState.mk exprs expectations (scope :: outer) parameters nextTemp) : BindM Unit) _)
    cases hscope : f scope with
    | error => exact (C.part S).refused
    | ok => exact C.scope hs.1 rfl (hf hscope)

theorem agreeFrom_inScope (hs : C.Inv s)
    (h : (C.part S).AgreeFrom { s with scopes := s.scopes.open_ } x y) :
    (C.whole S).AgreeFrom s (inScope x) (inScope y) := by
  obtain ⟨heq, hrel⟩ := h
  unfold AgreeFrom inScope
  rw [← heq]
  cases hrun : x { s with scopes := s.scopes.open_ } with
  | ok =>
    rw [hrun] at hrel
    exact ⟨rfl, C.close hs hrel⟩
  | error =>
    rw [hrun] at hrel
    exact ⟨rfl, C.close_fail hs hrel⟩

theorem agree_inScope (h : (C.part S).Agree x y) : (C.whole S).Agree (inScope x) (inScope y) := fun _ hs =>
  agreeFrom_inScope hs.1 (h ⟨C.inv_open hs.1, hs.2⟩)

theorem agree_inSibling (h : (C.part S).Agree x y) : (C.whole S).Agree (inSibling x) (inSibling y) := by
  intro s hs
  unfold AgreeFrom inSibling
  cases hscopes : s.scopes with
  | nil => exact ⟨rfl, C.refused⟩
  | cons scope outer =>
    obtain ⟨heq, hrel⟩ := h ⟨C.inv_sibling hs.1 hscopes, hs.2⟩
    dsimp only
    rw [← heq]
    cases hrun : x { s with scopes := scope.sibling :: outer } with
    | ok =>
      rw [hrun] at hrel
      exact ⟨rfl, C.restore hs.1 hscopes hrel⟩
    | error =>
      rw [hrun] at hrel
      exact ⟨rfl, C.restore_fail hs.1 hscopes hrel⟩

end Clauses

/-- Two ways of binding what is nested do the same with what may be bound.  A type is expected only of an
expression that is bound next, and a query takes two levels for each of its parts, of which a branch has
used one. -/
structure Recur.Agree (C : Clauses) (rec rec' : Recur) : Prop where
  expr : ∀ {S : ExprId → Prop} {id}, S id → (C.whole S).Agree (rec.expr id) (rec'.expr id)
  expecting : ∀ {S : ExprId → Prop} {id} t, S id →
    (C.whole S).Agree (do expect id t; rec.expr id) (do expect id t; rec'.expr id)
  query : ∀ {S : ExprId → Prop} {q : Select}, C.Fits (2 * q.weight) → (∀ x ∈ q.exprs, S x) →
    (C.whole S).Agree (rec.query q) (rec'.query q)
  branch : ∀ {S : ExprId → Prop} {q : Select} {depth}, C.Fits (2 * q.weight - 1) → (∀ x ∈ q.exprs, S x) →
    (C.part S).Agree (rec.branch q depth) (rec'.branch q depth)

namespace Clauses

open Track

variable {S : ExprId → Prop} {C : Clauses} {rec rec' : Recur} {id : ExprId}

/-! ### Queries -/

theorem agree_addTable (knownAs : Alias) (source : TableSource) :
    (C.part S).Follows (modifyScope (·.addTable knownAs source)) :=
  agree_modifyScope fun {scope scope'} h => by
    unfold Scope.addTable at h
    split at h
    · cases h
    · cases h
      rfl

theorem agree_addCte (name : String) (columns : List DerivedColumn) :
    (C.part S).Follows (modifyScope (·.addCte name columns)) :=
  agree_modifyScope fun {scope scope'} h => by
    unfold Scope.addCte at h
    split at h
    · cases h
    · cases h
      rfl

theorem agree_registerAlias (knownAs : Alias) : (C.part S).Follows (registerAlias knownAs) := by
  have hend (serial : Nat) : (C.part S).Follows (do
      let knownAs : Alias := { name := lowercase knownAs.name, serial := some serial }
      modifyScope fun scope => .ok (scope.registerAlias knownAs)
      pure knownAs) :=
    agree_bind (agree_modifyScope fun h => by cases h; rfl) fun _ => agree_pure _
  unfold registerAlias
  cases knownAs.serial with
  | some => exact agree_bind (agree_pure _) hend
  | none => exact agree_bind (agree_part agree_takeSerial) hend

theorem agree_bindBaseTable (allowCte : Bool) (base : BaseTable) :
    (C.part S).Follows (bindBaseTable env allowCte base) := by
  refine agree_bind (agree_ofExcept _) fun _ => agree_bind (agree_registerAlias _) fun knownAs =>
    agree_bind agree_get fun s => ?_
  dsimp only
  split
  · exact agree_bind (agree_addTable _ _) fun _ => agree_pure _
  · exact agree_bind (agree_ofExcept _) fun _ => agree_bind (agree_addTable _ _) fun _ =>
      agree_pure _

theorem agree_derivedColumn (id : ExprId) : (C.whole S).Follows (derivedColumn id) := by
  refine agree_bind agree_get fun s => ?_
  have hend (serial : Nat) : (C.whole S).Follows (do
      let knownAs : Alias := { name := s.exprs.outputName id, serial := some serial }
      modifyExprs (·.update id ({ · with knownAs := some knownAs }))
      pure ({ knownAs := knownAs, type := ← typeOf id } : DerivedColumn)) :=
    agree_bind (agree_relabel fun a => a.relabels_rename id _) fun _ =>
      agree_bind (agree_typeOf _) fun _ => agree_pure _
  dsimp only
  split
  · exact agree_bind (agree_pure _) hend
  · exact agree_bind agree_takeSerial hend

theorem agree_cteColumn (id : ExprId) (given : Option Alias) :
    (C.whole S).Follows (cteColumn id given) := by
  refine agree_bind agree_get fun s => ?_
  have hend (name : String) (serial : Nat) : (C.whole S).Follows (do
      let knownAs : Alias := { name := name, serial := some serial }
      modifyExprs fun a => ((a.update id ({ · with knownAs := some knownAs })).deriveName id).2
      pure ({ knownAs := knownAs, type := ← typeOf id } : DerivedColumn)) :=
    agree_bind (agree_relabel fun a => a.relabels_nameColumn id _) fun _ =>
      agree_bind (agree_typeOf _) fun _ => agree_pure _
  dsimp only
  split
  · exact agree_bind (agree_pure _) (hend _)
  · exact agree_bind agree_takeTemp (hend _)

theorem agree_cteColumnsFrom (ids : List ExprId) (given : List Alias) :
    (C.whole S).Follows (cteColumnsFrom ids given) := by
  induction ids generalizing given with
  | nil => exact agree_pure _
  | cons _ _ ih =>
    exact agree_bind (agree_cteColumn _ _) fun _ => agree_bind (ih _) fun _ => agree_pure _

theorem agree_defineCte (c : Cte) : (C.part S).Follows (defineCte c) :=
  agree_bind (agree_part (agree_ite (agree_refuse _ _) (agree_cteColumnsFrom _ _))) fun _ =>
    agree_bind (agree_addCte _ _) fun _ => agree_pure _

theorem agree_expandStar (table : Option String) : (C.whole S).Follows (expandStar table) :=
  agree_bind agree_currentScope fun _ => agree_bind (agree_ofExcept _) fun _ =>
    agree_mapM fun _ _ => agree_pushNode rfl rfl

variable (hrec : rec.Agree C rec')

include hrec

theorem agree_expectBooleanLiteral (hid : S id) :
    (C.whole S).Agree (do expectBooleanLiteral id; rec.expr id) (do expectBooleanLiteral id; rec'.expr id) :=
  Takes.boolean ⟨hrec.expr hid, fun t => hrec.expecting t hid⟩

theorem agree_bindItem (hid : S id) :
    (C.whole S).Agree (bindItem rec id) (bindItem rec' id) :=
  agree_bind (hrec.expr hid) fun _ => agree_finishExpr id

theorem agree_expectItem (t : SqlType) (hid : S id) :
    (C.whole S).Agree (do expect id t; bindItem rec id) (do expect id t; bindItem rec' id) :=
  agree_bind_bind (hrec.expecting t hid) fun _ => agree_finishExpr id

theorem agree_bindPredicate (clause : String) (hid : S id) :
    (C.whole S).Agree (bindPredicate rec clause id) (bindPredicate rec' clause id) := by
  refine agree_bind_bind (agree_expectBooleanLiteral hrec hid) fun _ => agree_bind agree_get fun s => ?_
  have hend : (C.whole S).Follows (do
      requireBoolean id clause
      finishExpr id) := agree_bind (agree_requireBoolean _ _) fun _ => agree_finishExpr id
  split
  · exact agree_bind (agree_refuse _ _) fun _ => hend
  · exact hend

theorem agree_bindGrouping {g : Grouping} (hs : ∀ x ∈ g.exprs, S x) :
    (C.whole S).Agree (bindGrouping rec g) (bindGrouping rec' g) := by
  obtain ⟨hkeys, hhaving⟩ := forall_mem_append.mp hs
  exact agree_bind (agree_forM fun x hx => agree_bindItem hrec (hkeys x hx)) fun _ =>
    agree_forM fun x hx => agree_bind_bind (agree_expectBooleanLiteral hrec (hhaving x hx)) fun _ =>
      agree_finishExpr x

omit hrec

mutual

theorem agree_bindSource (hrec : rec.Agree C rec') : (item : TableRef) →
    C.Fits (2 * item.weight) → (∀ x ∈ item.exprs, S x) →
    (C.part S).Agree (bindSource env rec item) (bindSource env rec' item)
  | .table base, _, _ => by
    rw [bindSource, bindSource]
    exact agree_bind (agree_bindBaseTable _ _) fun _ => agree_pure _
  | .derived query knownAs, hfits, hs => by
    rw [bindSource, bindSource]
    rw [weight] at hfits
    refine agree_ite (agree_refuse _ _) (agree_bind (agree_registerAlias _) fun _ =>
      agree_bind (agree_part (hrec.query (C.fits_le (by omega) hfits) hs)) fun q => ?_)
    exact agree_bind (agree_mapM fun x _ => agree_part (agree_derivedColumn x)) fun _ =>
      agree_bind (agree_addTable _ _) fun _ => agree_pure _
  | .join kind left right condition, hfits, hs => by
    rw [bindSource, bindSource]
    rw [weight] at hfits
    obtain ⟨hlr, hcondition⟩ := forall_mem_append.mp hs
    obtain ⟨hleft, hright⟩ := forall_mem_append.mp hlr
    exact agree_bind (agree_bindSource hrec left (C.fits_le (by omega) hfits) hleft) fun _ =>
      agree_bind (agree_bindSource hrec right (C.fits_le (by omega) hfits) hright) fun _ =>
        agree_bind (agree_forM fun x hx =>
          agree_part (agree_bindPredicate hrec _ (hcondition x hx))) fun _ => agree_pure _
  | .list items, hfits, hs => by
    rw [bindSource, bindSource]
    rw [weight] at hfits
    exact agree_bind (agree_bindSources hrec items (C.fits_le (by omega) hfits) hs) fun _ => agree_pure _

theorem agree_bindSources (hrec : rec.Agree C rec') :
    (items : List TableRef) → C.Fits (2 * weightAll items) →
      (∀ x ∈ exprsAll items, S x) →
      (C.part S).Agree (bindSources env rec items) (bindSources env rec' items)
  | [], _, _ => by
    rw [bindSources, bindSources]
    exact agree_pure _
  | item :: rest, hfits, hs => by
    rw [bindSources, bindSources]
    rw [weightAll] at hfits
    obtain ⟨hitem, hrest⟩ := forall_mem_append.mp hs
    exact agree_bind (agree_bindSource hrec item (C.fits_le (by omega) hfits) hitem) fun _ =>
      agree_bind (agree_bindSources hrec rest (C.fits_le (by omega) hfits) hrest) fun _ => agree_pure _

end

include hrec

theorem agree_bindCte (hderived : rec.Derived env) {c : Cte}
    (hfits : C.Fits (2 * c.query.weight)) (hc : ∀ x ∈ c.query.exprs, S x) :
    (C.part S).Agree (bindCte rec c) (bindCte rec' c) := by
  refine agree_ite (fun s hs => ?_)
    (agree_bind (agree_part (hrec.query hfits hc)) fun _ => agree_defineCte _)
  -- the base case is bound by itself, and what it becomes is bound again with the other branches
  obtain ⟨hctes, hitems, hsource, hconditions, hordering, hunion⟩ := Select.forall_mem_exprs.mp hc
  have halone : ∀ x ∈ ({ c.query with union := none } : Select).exprs, S x :=
    Select.forall_mem_exprs.mpr ⟨hctes, hitems, hsource, hconditions, hordering,
      (forall_mem_nil _)⟩
  have hweight := Select.weight_eq c.query
  have hlight := Select.weight_eq { c.query with union := none }
  simp only [Select.weightOpt] at hlight
  refine (agree_part (hrec.query (C.fits_le (by dsimp only; omega) hfits) halone) hs).bind
    fun {base s1} hbase hrel1 => ?_
  have hs1 := (C.part S).keep hs hrel1
  have hbinds := hderived.query hbase
  have hle : base.weight ≤ _ := hbinds.lighter
  have hq := C.visits_yielded hs.1 hrel1 hbinds trivial fun x hx => hs.2 x (halone x hx)
  refine (agree_defineCte _ hs1).bind fun {defined s2} hdefine hrel2 => ?_
  obtain ⟨_, _, _, _, _, rfl⟩ := defineCte_run hdefine
  have hagain : ∀ x ∈ ({ base with union := c.query.union } : Select).exprs, C.Visits s1.exprs x := by
    obtain ⟨hctes, hitems, hsource, hconditions, hordering, _⟩ := Select.forall_mem_exprs.mp hq
    exact Select.forall_mem_exprs.mpr
      ⟨hctes, hitems, hsource, hconditions, hordering, fun y hy => hs1.2 y (hunion y hy)⟩
  have hbound := Select.weight_eq base
  have hfull := Select.weight_eq { base with union := c.query.union }
  dsimp only at hle hlight hfull
  exact agree_bind (agree_part (hrec.query (C.fits_le (by dsimp only; omega) hfits) fun _ hx => hx))
    (fun _ => agree_pure _) ⟨C.inv_part hs1.1 hrel2, fun x hx => C.visits_part hs1.1 hrel2 (hagain x hx)⟩

theorem agree_bindSelectItem (hasSource : Bool) (hid : S id) :
    (C.whole S).Agree (bindSelectItem rec hasSource id) (bindSelectItem rec' hasSource id) := by
  have hstar (table : Option String) : (C.whole S).Follows
      (if hasSource then expandStar table else throw (.refused starWithoutTables)) :=
    agree_ite (agree_expandStar _) (agree_refused _)
  have hitem : (C.whole S).Agree (do bindItem rec id; pure [id]) (do bindItem rec' id; pure [id]) :=
    agree_bind (agree_bindItem hrec hid) fun _ => agree_pure _
  refine agree_bind (agree_exprOf _) fun e => ?_
  have hroot : (C.whole S).Agree (do
      if e.isNull && !(← expectedOf id).isValid then
        expect id .varchar
      bindItem rec id
      pure [id]) (do
      if e.isNull && !(← expectedOf id).isValid then
        expect id .varchar
      bindItem rec' id
      pure [id]) := by
    refine agree_bind (agree_expectedOf _) fun t => ?_
    split
    · exact agree_bind_bind (agree_expectItem hrec _ hid) fun _ => agree_pure _
    · exact hitem
  cases e with
  | star => exact hstar none
  | tableStar table => exact hstar (some table)
  | _ => exact hroot

theorem agree_bindUnion (items : List ExprId) (depth : Nat)
    {right : Select} (hfits : C.Fits (2 * right.weight)) (hs : ∀ x ∈ right.exprs, S x) :
    (C.whole S).Agree (bindUnion rec items depth right) (bindUnion rec' items depth right) :=
  agree_bind (agree_inSibling (hrec.branch (C.fits_le (Nat.sub_le _ _) hfits) hs)) fun _ =>
    agree_bind agree_get fun _ =>
    agree_bind (agree_ofExcept _) fun _ => agree_pure _

theorem agree_bindOrdering {items : List ExprId}
    (hitems : ∀ x ∈ items, S x) {keys : List SortKey} (hkeys : ∀ key ∈ keys, S key.expr) :
    (C.whole S).Agree (bindOrdering rec items keys) (bindOrdering rec' items keys) := by
  refine agree_bind agree_get fun s0 s hs => ?_
  refine (agree_mapM (fun key _ => agree_bind (agree_ofExcept _) fun _ => agree_pure _) hs).bind
    fun {sorted s1} hrun _ => ?_
  obtain ⟨htargets, rfl⟩ := sortKeys_run hrun
  refine agree_bind (agree_forM fun key hkey => agree_bindItem hrec ?_) (fun _ => agree_pure _) hs
  obtain ⟨given, hgiven, htarget, _⟩ := Plan.exists_of_forall₂_right htargets hkey
  rcases mem_of_sortTarget htarget with heq | hmem
  · rw [heq]
    exact hkeys given hgiven
  · exact hitems _ hmem

theorem agree_bindCtes (hderived : rec.Derived env) {ctes : List Cte}
    (hfits : C.Fits (2 * Cte.weightAll ctes - 2)) (hs : ∀ x ∈ Cte.exprsAll ctes, S x) :
    (C.part S).Agree (ctes.mapM (bindCte rec)) (ctes.mapM (bindCte rec')) := by
  induction ctes with
  | nil => exact agree_pure _
  | cons c ctes ih =>
    rw [mapM_cons, mapM_cons]
    rw [Cte.exprsAll_cons] at hs
    rw [Cte.weightAll_cons] at hfits
    obtain ⟨hc, hctes⟩ := forall_mem_append.mp hs
    exact agree_bind (agree_bindCte hrec hderived (C.fits_le (by omega) hfits) hc) fun _ =>
      agree_bind (ih (C.fits_le (by omega) hfits) hctes) fun _ => agree_pure _

theorem agree_bindBranchWith (hderived : rec.Derived env)
    (hfits : C.Fits (2 * q.weight - 2)) (hq : ∀ x ∈ q.exprs, S x) (depth : Nat) :
    (C.part S).Agree (bindBranchWith env rec q depth) (bindBranchWith env rec' q depth) := by
  obtain ⟨hctes, hitems, hsource, hconditions, hordering, hunion⟩ := Select.forall_mem_exprs.mp hq
  obtain ⟨hfilter, hgrouping⟩ := forall_mem_append.mp hconditions
  have hweight := q.weight_eq
  refine agree_bind (agree_bindCtes hrec hderived (C.fits_le (by omega) hfits) hctes) fun _ =>
    agree_bind (agree_bindOptional fun item hitem => ?_) fun _ =>
    agree_bind (agree_forM fun x hx => agree_part (agree_bindPredicate hrec _ (hfilter x hx)))
      fun _ =>
    agree_bind (agree_forM fun b _ => agree_checkBounds b) fun _ =>
    agree_bind (agree_forM fun g hg => agree_part (agree_bindGrouping hrec fun x hx => ?_))
      fun _ s hs => ?_
  · rw [Option.mem_def.mp hitem] at hsource hweight
    exact agree_bindSource hrec item (C.fits_le (by rw [weightOpt] at hweight; omega) hfits) hsource
  · exact hgrouping x (by rw [Option.mem_toList.mp hg]; exact hx)
  · refine (agree_mapM (fun x hx => agree_part (agree_bindSelectItem hrec _ (hitems x hx))) hs).bind
      fun {lists s1} hlists hrel => ?_
    -- ORDER BY may refer to the select list
    have hflat := C.visits_yielded hs.1 hrel (bindSelectItems_binds hderived hlists) trivial
      fun x hx => hs.2 x (hitems x hx)
    have hs1 : (C.part fun x => S x ∨ x ∈ lists.flatten).Inv s1 :=
      ⟨C.inv_part hs.1 hrel, fun x hx => hx.elim (((C.part S).keep hs hrel).2 x) (hflat x)⟩
    refine agree_bind (agree_bindOptional fun right hright => ?_) (fun _ => agree_bind
      (agree_bindOptional fun keys hkeys => agree_part (agree_bindOrdering hrec (fun _ => Or.inr)
        fun key hkey => Or.inl ?_)) fun _ => agree_pure _) hs1
    · rw [Option.mem_def.mp hright] at hunion hweight
      rw [Select.weightOpt] at hweight
      exact agree_part (agree_bindUnion hrec _ _ (C.fits_le (by omega) hfits) fun x hx =>
        Or.inl (hunion x hx))
    · exact hordering key.expr (by
        rw [Option.mem_def.mp hkeys]
        exact mem_map_of_mem hkey)

theorem agree_bindQueryWith (hfits : C.Fits (2 * q.weight - 1))
    (hs : ∀ x ∈ q.exprs, S x) : (C.whole S).Agree (bindQueryWith rec q) (bindQueryWith rec' q) :=
  agree_bind agree_get fun _ => agree_inScope (hrec.branch hfits hs)

end Clauses

/-! ### Statements -/

def ColumnDef.exprs (column : ColumnDef) : List ExprId :=
  column.default.toList ++ column.check.toList

def IndexKey.exprs : IndexKey → List ExprId
  | .column _ => []
  | .expression id => [id]

def Creation.exprs : Creation → List ExprId
  | .database _ | .schema _ => []
  | .table _ columns _ => columns.flatMap (·.exprs)
  | .index _ _ keys _ => keys.flatMap (·.exprs)
  | .trigger t => t.condition.toList
  | .view _ q => q.exprs

/-- Every expression a statement mentions. -/
def Statement.exprs : Statement → List ExprId
  | .select q => q.exprs
  | .insert i => i.source.exprs
  | .update u => u.filter.toList ++ u.assignments.map (·.value)
  | .delete d => d.filter.toList
  | .create _ c => c.exprs
  | .drop _ | .analyze _ => []
  | .explain inner => inner.exprs

theorem bindTarget_schema {table : BaseTable} {r : BaseTable × Schema} {s' : BindState}
    (hscopes : s.scopes = scope :: outer) (hempty : scope.tables = [])
    (h : bindTarget env table s = .ok r s') :
    ∃ id, env.requireTable table.name.normalize = .ok (id, r.2) := by
  simp only [bindTarget, run_bind, run_currentScope] at h
  obtain ⟨_, _, hbase, scope1, _, ⟨⟨_, hscopes1⟩, rfl⟩, h⟩ := h
  simp only [bindBaseTable, run_bind, run_ofExcept, run_get, Bool.false_and, Bool.false_eq_true,
    if_false, addRegularTable, run_pure] at hbase
  obtain ⟨_, _, ⟨_, rfl⟩, known, _, halias, _, _, ⟨rfl, rfl⟩, target, _, ⟨htarget, rfl⟩, _, _, hadd,
    rfl, rfl⟩ := hbase
  have htables : scope1.tables = [⟨known, .regular env.databaseId target.1 target.2⟩] := by
    obtain ⟨_, Γ, hbefore, hafter⟩ := (rescopes_of_run hadd).tables_addTable
    rw [(registerAlias_run halias).tables_eq] at hbefore
    have hopened : s.view.scopes.tables = [] :: ScopeStack.tables outer := by
      rw [show s.view.scopes = s.scopes from rfl, hscopes, ← hempty]
      rfl
    cases hopened.symm.trans hbefore
    rw [show BindState.view _ = _ from rfl] at hafter
    dsimp only [BindState.view] at hafter
    rw [hscopes1] at hafter
    exact (cons.inj hafter).1
  cases htable : scope1.table? known.name with
  | none =>
    rw [htable] at h
    simp at h
  | some =>
    have hmem := mem_of_find?_eq_some htable
    rw [htables] at hmem
    rw [htable, mem_singleton.mp hmem] at h
    obtain ⟨rfl, _⟩ := run_pure.mp h
    exact ⟨target.1, htarget⟩

theorem requireColumn_mem {table name : String} (h : requireColumn schema table name = .ok column) :
    column ∈ schema := by
  unfold requireColumn at h
  split at h
  · cases h
    exact mem_of_find?_eq_some ‹_›
  · cases h

theorem checkNewColumns_exprs {seen : List String} {columns' : List ColumnDef}
    (h : checkNewColumns seen columns = .ok columns') :
    columns'.flatMap (·.exprs) = columns.flatMap (·.exprs) := by
  induction columns generalizing seen columns' with
  | nil =>
    cases h
    rfl
  | cons column columns ih =>
    unfold checkNewColumns at h
    dsimp only at h
    split at h
    · cases h
    · cases hrest : checkNewColumns (lowercase column.name :: seen) columns with
      | error =>
        rw [hrest] at h
        cases h
      | ok =>
        rw [hrest] at h
        cases h
        rw [flatMap_cons, flatMap_cons, ih hrest]
        rfl

namespace Clauses

open Track

variable {S : ExprId → Prop} {C : Clauses} {rec rec' : Recur} {id : ExprId}

/-! ### INSERT, UPDATE and DELETE -/

theorem agree_columnDefault (hcolumn : C.Fills column) :
    (C.whole S).Follows (columnDefault column) := by
  unfold columnDefault
  cases hdefault : column.default with
  | some => exact fun s hs => ⟨rfl, C.copy hs.1 hcolumn hdefault⟩
  | none => exact agree_ite (agree_pushNode rfl rfl) (agree_refused _)

theorem agree_stripCast (column : Column) (value : ExprId) :
    (C.whole S).Follows (stripCast column value) := by
  refine agree_bind (agree_exprOf _) fun e => ?_
  cases e with
  | cast => exact agree_ite (agree_pure _) (agree_refuse _ _)
  | _ => exact agree_pure _

theorem agree_bindTarget (table : BaseTable) : (C.part S).Follows (bindTarget env table) := by
  refine agree_bind (agree_bindBaseTable _ _) fun _ => agree_bind agree_currentScope fun _ => ?_
  split
  · exact agree_pure _
  · exact agree_refuse _ _

def Copies (C : Clauses) (env : Accessor) : Prop :=
  ∀ {name id schema}, env.requireTable name = .ok (id, schema) →
    ∀ column ∈ schema, C.Fills column

theorem agree_bindOwner (table : ObjectName) : (C.part S).Follows (bindOwner env table) :=
  agree_bind (agree_bindBaseTable _ _) fun _ => agree_pure _

theorem agree_addRow (table : Oid × Schema) (name : String) : (C.part S).Follows (addRow env table name) :=
  agree_bind (agree_registerAlias _) fun _ => agree_addTable _ _

variable (hrec : rec.Agree C rec')

include hrec

theorem agree_coerceToColumn {value : ExprId} (hvalue : S value)
    (hcolumn : C.Fills column) :
    (C.whole S).Agree (coerceToColumn rec value column) (coerceToColumn rec' value column) := by
  have hrest {value : ExprId} {s : BindState} (hs : C.Inv s) (hvalue : C.Visits s.exprs value) :
      (C.whole S).AgreeFrom s (do
        let value ← stripCast column value
        expect value column.type
        bindItem rec value
        pure value) (do
        let value ← stripCast column value
        expect value column.type
        bindItem rec' value
        pure value) := by
    refine (agree_stripCast (S := (· = value)) column value ⟨hs, fun _ hx => hx ▸ hvalue⟩).bind
      fun {w s1} hstrip _ => ?_
    obtain ⟨rfl, hw⟩ := stripCast_run hstrip
    -- what is left without the cast is its operand
    have hin : C.Visits s1.exprs w := by
      rcases hw with hcast | ⟨rfl, _⟩
      · exact C.visits_operand hs hvalue hcast
      · exact hvalue
    exact agree_bind_bind (agree_expectItem (S := (· = w)) hrec _ rfl) (fun _ => agree_pure _)
      ⟨hs, fun _ hx => hx ▸ hin⟩
  refine agree_bind (agree_exprOf _) fun e => ?_
  cases e with
  | default =>
    intro s hs
    refine (agree_columnDefault hcolumn hs).bind fun {w s1} hdefault hrel => ?_
    exact hrest ((C.whole S).keep hs hrel).1 (C.visits_default hs.1 hcolumn hdefault)
  | _ => exact fun s hs => hrest hs.1 (hs.2 _ hvalue)

theorem agree_arrangeRowFrom {columns : List String}
    (hrow : ∀ x ∈ row, S x) (index : Nat) (hschema : ∀ column ∈ schema, C.Fills column) :
    (C.whole S).Agree (arrangeRowFrom rec columns row index schema)
      (arrangeRowFrom rec' columns row index schema) := by
  induction schema generalizing index with
  | nil => exact agree_pure _
  | cons column rest ih =>
    obtain ⟨hcolumn, hrest⟩ := forall_mem_cons.mp hschema
    have hend {value : ExprId} (hvalue : S value) : (C.whole S).Agree (do
        let value ← coerceToColumn rec value column
        let values ← arrangeRowFrom rec columns row (index + 1) rest
        pure (value :: values)) (do
        let value ← coerceToColumn rec' value column
        let values ← arrangeRowFrom rec' columns row (index + 1) rest
        pure (value :: values)) :=
      agree_bind (agree_coerceToColumn hrec hvalue hcolumn) fun _ => agree_bind (ih _ hrest) fun _ =>
        agree_pure _
    unfold arrangeRowFrom
    cases hvalue : (insertPosition columns index column).bind (row[·]?) with
    | some value =>
      obtain ⟨_, _, hi⟩ := Option.bind_eq_some_iff.mp hvalue
      exact hend (hrow value (mem_of_getElem? hi))
    | none =>
      intro s hs
      refine (agree_columnDefault hcolumn hs).bind fun {w s1} hdefault hrel => ?_
      have hs1 := (C.whole S).keep hs hrel
      have hw := C.visits_default hs.1 hcolumn hdefault
      refine (agree_coerceToColumn (S := (· = w)) hrec rfl hcolumn ⟨hs1.1, fun _ hx => hx ▸ hw⟩).bind
        fun {v s2} _ hrel' => ?_
      exact agree_bind (ih _ hrest) (fun _ => agree_pure _) ((C.whole S).keep hs1 hrel')

theorem agree_arrangeRow (columns : List String)
    (hschema : ∀ column ∈ schema, C.Fills column) (hrow : ∀ x ∈ row, S x) :
    (C.whole S).Agree (arrangeRow rec columns schema row) (arrangeRow rec' columns schema row) :=
  agree_ite (agree_arrangeRowFrom hrec hrow _ hschema) (agree_refuse _ _)

theorem agree_bindInsertSource (hderived : rec.Derived env)
    (columns : List String) (hschema : ∀ column ∈ schema, C.Fills column) {source : InsertSource}
    (hfits : ∀ q, source = .query q → C.Fits (2 * q.weight)) (hsource : ∀ x ∈ source.exprs, S x) :
    (C.whole S).Agree (bindInsertSource rec columns schema source)
      (bindInsertSource rec' columns schema source) := by
  cases source with
  | values =>
    exact agree_bind (agree_mapM fun row hrow => agree_arrangeRow hrec _ hschema fun x hx =>
      hsource x (mem_flatten.mpr ⟨row, hrow, hx⟩)) fun _ => agree_pure _
  | query q =>
    intro s hs
    refine (hrec.query (hfits q rfl) hsource hs).bind fun {q' s1} hrun hrel => ?_
    have hq' := C.visits_yielded hs.1 (C.part_of_whole hrel) (hderived.query hrun) trivial fun x hx =>
      hs.2 x (hsource x hx)
    obtain ⟨_, hitems, _⟩ := Select.forall_mem_exprs.mp hq'
    exact agree_bind (agree_arrangeRow (S := (· ∈ q'.items)) hrec _ hschema fun _ hx => hx)
      (fun _ => agree_pure _) ⟨((C.whole S).keep hs hrel).1, hitems⟩

theorem agreeFrom_bindInsert (hderived : rec.Derived env)
    (henv : C.Copies env) {i : Insert} (hfits : C.Fits (2 * (Statement.insert i).weight))
    (hi : ∀ x ∈ i.source.exprs, S x) (hs : (C.part S).Inv s) (hscopes : s.scopes = scope :: outer)
    (hempty : scope.tables = []) :
    (C.part S).AgreeFrom s (bindInsert env rec i) (bindInsert env rec' i) := by
  refine (agree_bindTarget _ hs).bind fun htarget hrel => ?_
  obtain ⟨_, htable⟩ := bindTarget_schema hscopes hempty htarget
  refine agree_bind (agree_ofExcept _) (fun _ => agree_bind (agree_part
    (agree_bindInsertSource hrec hderived _ (henv htable) (fun q hq => ?_) hi)) fun _ => agree_pure _)
    ((C.part S).keep hs hrel)
  rwa [Statement.weight, hq] at hfits

theorem agreeFrom_bindUpdate (henv : C.Copies env) {u : Update}
    (hu : ∀ x ∈ u.filter.toList ++ u.assignments.map (·.value), S x) (hs : (C.part S).Inv s)
    (hscopes : s.scopes = scope :: outer) (hempty : scope.tables = []) :
    (C.part S).AgreeFrom s (bindUpdate env rec u) (bindUpdate env rec' u) := by
  obtain ⟨hfilter, hvalues⟩ := forall_mem_append.mp hu
  refine (agree_bindTarget _ hs).bind fun {target _} htarget hrel => ?_
  obtain ⟨_, htable⟩ := bindTarget_schema hscopes hempty htarget
  refine agree_bind (agree_forM fun x hx => agree_part (agree_bindPredicate hrec _ (hfilter x hx)))
    (fun _ => agree_bind (agree_mapM fun a ha => agree_part fun s hs => ?_) fun _ => agree_pure _)
    ((C.part S).keep hs hrel)
  refine (agree_ofExcept _ hs).bind fun {column _} hcolumn hrel => ?_
  have hmem := requireColumn_mem (run_ofExcept.mp hcolumn).1
  exact agree_bind (agree_coerceToColumn hrec (hvalues _ (mem_map_of_mem ha))
    (henv htable column hmem)) (fun _ => agree_pure _) ((C.whole S).keep hs hrel)

theorem agree_bindDelete {d : Delete} (hd : ∀ x ∈ d.filter.toList, S x) :
    (C.part S).Agree (bindDelete env rec d) (bindDelete env rec' d) :=
  agree_bind (agree_bindTarget _) fun _ =>
    agree_bind (agree_forM fun x hx => agree_part (agree_bindPredicate hrec _ (hd x hx))) fun _ =>
      agree_pure _

/-! ### CREATE -/

theorem agree_bindBoolean (clause : String) (hid : S id) :
    (C.whole S).Agree (bindBoolean rec clause id) (bindBoolean rec' clause id) :=
  agree_bind_bind (agree_expectBooleanLiteral hrec hid) fun _ =>
    agree_bind (agree_requireBoolean _ _) fun _ => agree_finishExpr id

theorem agree_bindColumnDef {column : ColumnDef}
    (hcolumn : ∀ x ∈ column.exprs, S x) :
    (C.whole S).Agree (bindColumnDef rec column) (bindColumnDef rec' column) := by
  obtain ⟨hdefault, hcheck⟩ := forall_mem_append.mp hcolumn
  exact agree_bind (agree_forM fun x hx => agree_expectItem hrec _ (hdefault x hx)) fun _ =>
    agree_forM fun x hx => agree_bindBoolean hrec _ (hcheck x hx)

theorem agree_bindNewTable (name : ObjectName)
    (hcolumns : ∀ x ∈ columns.flatMap (·.exprs), S x) (keys : List ForeignKey) :
    (C.part S).Agree (bindNewTable env rec name columns keys)
      (bindNewTable env rec' name columns keys) := by
  refine agree_bind (agree_ofExcept _) fun _ => agree_bind (agree_ofExcept _) fun _ s hs => ?_
  refine (agree_ofExcept _ hs).bind fun {columns' s1} hrun hrel => ?_
  obtain ⟨hchecked, rfl⟩ := run_ofExcept.mp hrun
  rw [← checkNewColumns_exprs hchecked] at hcolumns
  refine agree_bind (agree_registerAlias _) (fun _ => agree_bind (agree_mapM fun _ _ =>
    agree_bind (agree_part agree_takeSerial) fun _ => agree_pure _) fun _ =>
    agree_bind (agree_addTable _ _) fun _ => agree_bind (agree_forM fun column hcolumn =>
      agree_part (agree_bindColumnDef hrec fun x hx => ?_)) fun _ =>
    agree_bind (agree_mapM fun _ _ => agree_ofExcept _) fun _ => agree_pure _) hs
  exact hcolumns x (mem_flatMap.mpr ⟨column, hcolumn, hx⟩)

theorem agree_bindIndexKey (schema : Schema) {key : IndexKey}
    (hkey : ∀ x ∈ key.exprs, S x) :
    (C.whole S).Agree (bindIndexKey rec schema key) (bindIndexKey rec' schema key) := by
  cases key with
  | column => exact agree_ite (agree_pure _) (agree_refused _)
  | expression id =>
    exact agree_bind (agree_bindItem hrec (hkey id mem_cons_self)) fun _ => agree_pure _

theorem agree_bindNewIndex (name : String) (table : ObjectName)
    {keys : List IndexKey} (hkeys : ∀ x ∈ keys.flatMap (·.exprs), S x) (unique : Bool) :
    (C.part S).Agree (bindNewIndex env rec name table keys unique)
      (bindNewIndex env rec' name table keys unique) :=
  agree_bind (agree_bindOwner _) fun _ => agree_ite (agree_refused _)
    (agree_bind (agree_ofExcept _) fun _ => agree_bind (agree_mapM fun key hkey =>
      agree_part (agree_bindIndexKey hrec _ fun x hx =>
        hkeys x (mem_flatMap.mpr ⟨key, hkey, hx⟩))) fun _ => agree_pure _)

theorem agree_bindNewTrigger {t : Trigger}
    (ht : ∀ x ∈ t.condition.toList, S x) :
    (C.part S).Agree (bindNewTrigger env rec t) (bindNewTrigger env rec' t) :=
  agree_bind (agree_bindOwner _) fun _ => agree_ite (agree_refuse _ _)
    (agree_bind (agree_ofExcept _) fun _ => agree_bind (agree_addRow _ _) fun _ =>
      agree_bind (agree_addRow _ _) fun _ =>
      agree_bind (agree_forM fun x hx => agree_part (agree_bindBoolean hrec _ (ht x hx))) fun _ =>
        agree_pure _)

theorem agree_bindCreation {ifNotExists : Bool} {c : Creation}
    (hfits : C.Fits (2 * (Statement.create ifNotExists c).weight)) (hc : ∀ x ∈ c.exprs, S x) :
    (C.part S).Agree (bindCreation env rec c) (bindCreation env rec' c) := by
  cases c with
  | database | schema => exact agree_ite (agree_refused _) (agree_pure _)
  | table name _ keys => exact agree_bindNewTable hrec name hc keys
  | index name table _ unique => exact agree_bindNewIndex hrec name table hc unique
  | trigger => exact agree_bindNewTrigger hrec hc
  | view =>
    exact agree_bind (agree_ofExcept _) fun _ => agree_bind (agree_ofExcept _) fun _ =>
      agree_bind (agree_part (hrec.query hfits hc)) fun _ => agree_pure _

theorem agree_bindStatementWith (hderived : rec.Derived env)
    (henv : C.Copies env) {st : Statement} (hfits : C.Fits (2 * st.weight)) (hst : ∀ x ∈ st.exprs, S x) :
    (C.whole S).Agree (bindStatementWith env rec st) (bindStatementWith env rec' st) := by
  induction st with
  | select => exact agree_bind (hrec.query hfits hst) fun _ => agree_pure _
  | insert =>
    intro s hs
    have hopen : (C.part S).Inv { s with scopes := s.scopes.open_ } := ⟨C.inv_open hs.1, hs.2⟩
    exact agreeFrom_inScope hs.1 ((agreeFrom_bindInsert hrec hderived henv hfits hst hopen rfl rfl).bind
      fun _ hrel => agree_pure _ ((C.part S).keep hopen hrel))
  | update =>
    intro s hs
    have hopen : (C.part S).Inv { s with scopes := s.scopes.open_ } := ⟨C.inv_open hs.1, hs.2⟩
    exact agreeFrom_inScope hs.1 ((agreeFrom_bindUpdate hrec henv hst hopen rfl rfl).bind
      fun _ hrel => agree_pure _ ((C.part S).keep hopen hrel))
  | delete => exact agree_inScope (agree_bind (agree_bindDelete hrec hst) fun _ => agree_pure _)
  | create =>
    exact agree_inScope (agree_bind (agree_bindCreation hrec hfits hst) fun _ => agree_pure _)
  | drop | analyze => exact agree_inScope (agree_bind (agree_ofExcept _) fun _ => agree_pure _)
  | explain inner ih =>
    rw [Statement.weight] at hfits
    exact agree_ite (agree_bind (ih (C.fits_le (by omega) hfits) hst) fun _ => agree_pure _) (agree_refuse _ _)

end Clauses

end SqlAnalysis
