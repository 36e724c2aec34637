import SqlAnalysis.Proofs.Binding.InsertRows
import SqlAnalysis.Proofs.Binding.Ledger
import SqlAnalysis.Proofs.Binding.StatementParts
import SqlAnalysis.Proofs.Plan.Tracks

/-!
# Literals from parsing to planning

Literals are copied out of stored defaults, made for columns without one, and promoted wherever a context
asks for a type, some of them many times.  All of this leaves them in nodes whose types they conform to.

* **`storeSteps_obeys`**: no step of a binding leaves a literal in a node of another type, or gives a type
  to a star.
* **`bind_obeys`**: neither does the binding of a statement, if the stored defaults obey as well.
* **`literals_conform`**: every literal of a bound statement conforms to the type of its node.
-/

namespace SqlAnalysis

open LowerM Arena Track

variable {a a' : Arena} {env : Accessor} {b : Bound}

/-! ### Binding -/

section

variable {P : ExprNode → Prop} (hP : NodeRule P)

include hP

theorem LocalChange.obeys {id : ExprId} {e : Expr} (h : LocalChange id e a a')
    (he : KindEvolves a e (a.expr id)) (ha : a.Obeys P) : a'.Obeys P := by
  cases h with
  | type t hstar hliteral =>
    refine ha.update fun _ => ?_
    cases hk : a.expr id with
    | constant v =>
      -- the node is a literal now, so it was one before, and the very same
      rw [hk] at he hliteral
      refine hP.literal (v := v) hk ?_
      cases he with
      | refl => exact (hliteral v rfl).2
      | constant =>
        obtain ⟨hsame, hconforms⟩ := hliteral _ rfl
        cases hsame
        exact hconforms
    | star | tableStar =>
      rw [hk] at he
      cases he
      cases hstar
    | _ => exact hP.other (fun v hv => by cases hk.symm.trans hv) (congrArg Expr.isStar hk)
  | constant _ _ _ hconforms =>
    intro x
    rw [setType, setExpr, node_update, node_update, size_update]
    split
    · exact hP.literal rfl hconforms
    · exact ha x
  | call => exact ha.update_other hP (fun v hv => by cases hv) rfl
  | cast hcompare =>
    have hkind : ∃ op left right, (a.node id).kind = .compare op left right := by
      rw [hcompare] at he
      generalize hnode : a.expr id = e' at he
      cases he with
      | refl | compare => exact ⟨_, _, _, hnode⟩
    obtain ⟨_, _, _, hkind⟩ := hkind
    refine ha.update_other hP (fun v hv => ?_) ?_
    · rw [hkind] at hv
      cases hv
    · rw [hkind]
      rfl

theorem storeSteps_obeys (env : Accessor) : StoreSteps env fun a a' => a.Obeys P → a'.Obeys P where
  refl _ ha := ha
  trans h h' ha := h' (h ha)
  resolve _ _ _ ha := ha.update_other hP (fun v hv => nomatch hv) rfl
  mark {a id q} t he _ ha := by
    have he : (a.node id).kind = .subquery q := he
    exact ha.update_other hP (fun v hv => nomatch he.symm.trans hv) (congrArg Expr.isStar he)
  query {id q q' v v1} t he _ hquery ih ha := by
    have he : ((v1.exprs.setQuery id q').node id).kind = .subquery q' := hquery.expr_setQuery he
    exact ((ih (ha.setQuery hP id {})).setQuery hP id q').update_other hP
      (fun v hv => nomatch he.symm.trans hv) (congrArg Expr.isStar he)
  work _ he _ _ hl := hl.obeys hP he
  finish _ ha := ha.of_eq hP (expr_finish _ _) (typeOf_finish _ _)
  star a depth tables ha := ha.pushAll hP fun n hn => by
    obtain ⟨_, _, rfl⟩ := List.mem_map.mp hn
    exact hP.other (fun v hv => nomatch hv) rfl
  nameOutput _ ha := ha.update (hP.congr rfl rfl)
  nameColumn a id name n ha := ha.of_eq hP
    (expr_nameColumn _ _ _) (typeOf_nameColumn _ _ _)

end

/-- The nodes of all defaults kept in the catalog have the property. -/
def Catalog.Obeys (P : ExprNode → Prop) (c : Catalog) : Prop :=
  ∀ table ∈ c.schemas, ∀ column ∈ table.2, ∀ stored ∈ column.default, stored.arena.Obeys P

/-- Every literal of a default kept in the catalog conforms to the type of its node. -/
def Catalog.Conforming (c : Catalog) : Prop := c.Obeys ExprNode.Conforms

section

variable {P : ExprNode → Prop} (hP : NodeRule P)

include hP

theorem CopiesDefault.obeys {column : Column} (h : CopiesDefault column a a')
    (henv : env.catalog.Obeys P) (hcolumn : env.HasColumn column) (ha : a.Obeys P) : a'.Obeys P := by
  cases h with
  | stored hdefault himport =>
    obtain ⟨_, _, hrequire, hmem⟩ := hcolumn
    obtain ⟨entry, hentry, heq⟩ := env.mem_schemas_of_requireTable hrequire
    have hstored := henv entry hentry column (heq ▸ hmem) _ hdefault
    exact (Arena.importFrom_imports himport).obeys hP hstored ha
  | null => exact ha.push hP (hP.literal (v := .null) rfl rfl)

theorem BindsParts.obeys {tasks : List BindTask} {v v' : BindView} (h : BindsParts env tasks v v')
    (henv : env.catalog.Obeys P) (hv : v.exprs.Obeys P) : v'.exprs.Obeys P := by
  induction h with
  | nil => exact hv
  | part hbinds hready hplain _ ih =>
    exact ih (hbinds.follows (storeSteps_obeys hP env) (hready _) hplain hv)
  | copy hcolumn hcopy _ ih => exact ih (hcopy.obeys hP henv hcolumn hv)
  | rest hrests _ ih => exact ih (hrests.exprs ▸ hv)

theorem bind_obeys {p : Parsed} {parameters : List Value} (henv : env.catalog.Obeys P)
    (hp : p.exprs.Obeys P) (h : (bind env p parameters).result = .ok b) : b.exprs.Obeys P := by
  obtain ⟨_, _, hbinds, hstore, _⟩ := bind_parts h
  rw [hstore]
  exact hbinds.binds.obeys hP henv hp

end

/-! ### Planning -/

/-- However the building of a plan ends, a store of literals that conform stays one. -/
def conforming : Track LowerState where
  Inv s := s.exprs.Conforming
  Rel s t := s.exprs.Conforming → t.exprs.Conforming
  Fail _ s t := s.exprs.Conforming → t.exprs.Conforming
  refl := id
  trans h h' hs := h' (h hs)
  refused := id
  trans_fail h h' hs := h' (h hs)
  keep hs h := h hs

theorem conforming_exprs (ids : List ExprId) : conforming.Follows (exprs ids) := fun s hs => by
  refine ⟨rfl, ?_⟩
  rw [exprs_eq]
  cases s.exprs.look ids <;> exact fun _ => hs

theorem conforming_onQuery {α : Type} {id : ExprId} {act : Select → LowerM α}
    (h : ∀ q, conforming.Follows (act q)) : conforming.Follows (onQuery id act) := fun s hs => by
  have hinner := (h ((s.exprs.query? id).getD {}) (s := { s with exprs := s.exprs.setQuery id {} })
    (hs.setQuery nodeRule_conforms id {})).2
  refine ⟨rfl, ?_⟩
  unfold onQuery
  dsimp only
  split
  all_goals
    rename_i hrun
    rw [hrun] at hinner
    exact fun _ => (hinner (hs.setQuery nodeRule_conforms id {})).setQuery nodeRule_conforms id _

section

variable {lower : LowerQuery} (hlower : ∀ ctes q, conforming.Follows (lower ctes q))
  (ctes : List VisibleCte)

include hlower

theorem conforming_lowerSubquery (singleColumn : Bool) (q : Select) :
    conforming.Follows (lowerSubquery lower ctes singleColumn q) := by
  have hend : conforming.Follows (do
      LowerM.ofExcept (checkSubquery (← exprs (q.items ++ q.filter.toList)) q)
      lower ctes q) :=
    agree_bind (conforming_exprs _) fun _ => agree_bind (agree_except _) fun _ => hlower ctes q
  unfold lowerSubquery
  split
  · exact agree_bind (agree_refused _) fun _ => hend
  · exact hend

theorem conforming_decorrelate (predicate : ExprId) (plan : Plan) :
    conforming.Follows (decorrelate lower ctes predicate plan) := by
  refine agree_bind (conforming_exprs _) fun _ => agree_bind (agree_except _) fun _ =>
    agree_bind (conforming_onQuery fun q => ?_) fun r => ?_
  · exact agree_bind (conforming_lowerSubquery hlower ctes _ q) fun _ => agree_pure _
  · obtain ⟨_, items⟩ := r
    cases items with
    | nil => exact agree_refused _
    | cons =>
      refine agree_bind (agree_modify fun s _ hs => hs.update fun hnode v hv => ?_) fun _ => agree_pure _
      cases hkind : (s.exprs.node predicate).kind with
      | constant =>
        rw [hkind] at hv
        exact hnode v (hkind.trans hv)
      | _ =>
        rw [hkind] at hv
        cases hv

theorem conforming_decorrelateAll (cs : List ExprId) (plan : Plan) :
    conforming.Follows (decorrelateAll lower ctes cs plan) := by
  induction cs generalizing plan with
  | nil => exact agree_pure _
  | cons c _ ih =>
    exact agree_bind (conforming_exprs _) fun _ =>
      agree_ite (agree_bind (conforming_decorrelate hlower ctes c plan) ih) (ih plan)

theorem builds_conforming : lower.Builds conforming fun _ _ => True where
  mono _ _ _ := trivial
  query _ ctes := hlower ctes _
  reads _ := conforming_exprs _
  filter _ ctes plan := agree_bind (conforming_exprs _) fun _ =>
    agree_bind (conforming_decorrelateAll hlower ctes _ plan) fun _ =>
    agree_bind (conforming_exprs _) fun _ => agree_pure _
  temp _ := id

end

theorem conforming_lowerQuery (env : Accessor) (n : Nat) (ctes : List VisibleCte) (q : Select) :
    conforming.Follows (lowerQuery env n ctes q) := by
  induction n generalizing ctes q with
  | zero => exact fun _ _ => ⟨rfl, id⟩
  | succ n ih => exact (builds_conforming ih).agree_lowerQueryWith ctes fun _ _ => trivial

theorem lower_conforming (env : Accessor) (hb : b.exprs.Conforming) :
    (lower env b).bound.exprs.Conforming := by
  have hrun : conforming.Follows (lowerStatementWith env (lowerQuery env (lowerLevels b)) b.statement) :=
    (builds_conforming (conforming_lowerQuery env _)).agree_lowerStatementWith
      (fun _ hs => hs.push nodeRule_conforms fun v hv => by cases hv) trivial
  have hend := (hrun (s := { exprs := b.exprs, nextTemp := env.catalog.nextTemp }) hb).2
  unfold lower
  dsimp only
  split
  all_goals
    rename_i hresult
    rw [hresult] at hend
    exact hend hb

/-- **Every literal of a bound statement conforms to the type of its node, also after the plan of the
statement was built.** -/
theorem literals_conform {env : Accessor} {p : Parsed} {parameters : List Value} {b : Bound}
    (henv : env.catalog.Conforming) (hp : p.exprs.Conforming) (h : (bind env p parameters).result = .ok b) :
    b.exprs.Conforming ∧ ∀ env', (lower env' b).bound.exprs.Conforming := by
  have hb := bind_obeys nodeRule_conforms henv hp h
  exact ⟨hb, fun env' => lower_conforming env' hb⟩

/-- `t(a DECIMAL(6, 2) DEFAULT 7, b DECIMAL(6, 2), c TINYINT NULL)` -/
def priced : Accessor :=
  .withTable "t" [{ name := "a", type := .decimal 6 2, default := some (.constant (.ofByte 7)) },
    { name := "b", type := .decimal 6 2 }, { name := "c", type := .tinyInt, nullable := true }]

/-- `INSERT INTO t (b) VALUES ('3.14159')` -/
def pricedInsert : Parsed :=
  { statement := .insert ⟨.named "t" "t", ["b"], .values [[0]]⟩
    exprs := .ofExprs [.constant (.varchar "3.14159")] }

/-- A text is read and rounded, a stored default is copied and promoted, and a NULL is made. -/
theorem pricedInsert_conforms :
    pricedInsert.exprs.Conforming ∧ priced.catalog.Conforming ∧
      ∃ b, (bind priced pricedInsert []).result = .ok b ∧ b.exprs.size = 3 ∧ b.exprs.Conforming ∧
        (lower priced b).bound.exprs.Conforming := by
  have hconstant (v : Value) : (.ofExprs [.constant v] : Arena).Conforming :=
    obeys_of_nodes nodeRule_conforms (List.forall_mem_singleton.mpr (ExprNode.conforms_ofExpr _))
  have henv : priced.catalog.Conforming := by
    refine Accessor.withTable_defaults fun column hcolumn stored hstored => ?_
    simp only [List.mem_cons, List.not_mem_nil, or_false] at hcolumn
    rcases hcolumn with rfl | rfl | rfl
    · cases hstored
      exact hconstant _
    all_goals cases hstored
  have hsize : (bind priced pricedInsert []).result.toOption.map (·.exprs.size) = some 3 := by decide +kernel
  refine ⟨hconstant _, henv, ?_⟩
  cases hb : (bind priced pricedInsert []).result with
  | error =>
    rw [hb] at hsize
    cases hsize
  | ok b =>
    rw [hb] at hsize
    obtain ⟨hconforms, hlower⟩ := literals_conform henv (hconstant _) hb
    exact ⟨b, rfl, Option.some.inj hsize, hconforms, hlower priced⟩

end SqlAnalysis
