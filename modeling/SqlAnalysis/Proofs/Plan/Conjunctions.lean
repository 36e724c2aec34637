import SqlAnalysis.Proofs.Plan.Decorrelation
import SqlAnalysis.Proofs.Plan.Ending

/-!
# The WHERE condition of a query block in its plan

A condition is taken apart into its conjuncts, and those with a subquery are turned into joins one
after the other, in a store that the plans of their subqueries are built in meanwhile.

* **`evaluates_iff`**: a condition has the value of the conjunction of its conjuncts.
* **`Lowers.changesIn`**: the building of a plan changes only what its part of the statement leads to.
* **`where_conjunction_kept`**: no conjunct and no join is lost, doubled or moved.
-/

namespace SqlAnalysis

open List Arena

variable {env : Accessor} {a a' a'' : Arena} {S : ExprId → Prop} {c first : ExprId} {cs K : List ExprId}
  {q : Select} {s s' : LowerState}

/-! ### Truth values -/

/-- The conjunction of two truth values, of which `none` is the unknown one. -/
def kleeneAnd : Option Bool → Option Bool → Option Bool
  | some false, _ | _, some false => some false
  | some true, t => t
  | none, _ => none

/-- The conjunction of truth values. -/
def kleeneAll (ts : List (Option Bool)) : Option Bool := ts.foldr kleeneAnd (some true)

theorem kleeneAll_append (ts us : List (Option Bool)) :
    kleeneAll (ts ++ us) = kleeneAnd (kleeneAll ts) (kleeneAll us) := by
  have hassoc (t u w : Option Bool) : kleeneAnd (kleeneAnd t u) w = kleeneAnd t (kleeneAnd u w) := by
    rcases t with _ | _ | _ <;> rcases u with _ | _ | _ <;> rcases w with _ | _ | _ <;> rfl
  induction ts with
  | nil =>
    show kleeneAll us = kleeneAnd (some true) (kleeneAll us)
    rcases kleeneAll us with _ | _ | _ <;> rfl
  | cons t ts ih =>
    show kleeneAnd t (kleeneAll (ts ++ us)) = kleeneAnd (kleeneAnd t (kleeneAll ts)) (kleeneAll us)
    rw [ih, hassoc]

namespace Arena

/-- The truth value of a condition, given those of the nodes that are no conjunctions. -/
inductive Evaluates (a : Arena) (v : ExprId → Option Bool) : ExprId → Option Bool → Prop where
  | atom {id : ExprId} : (∀ operands, a.expr id ≠ .connect .and operands) → Evaluates a v id (v id)
  | conjunction {id : ExprId} {operands : List ExprId} {ts : List (Option Bool)} :
    a.expr id = .connect .and operands → Forall₂ (Evaluates a v) operands ts →
    Evaluates a v id (kleeneAll ts)

theorem evaluatesFrom_iff {v : ExprId → Option Bool} {n : Nat} {id : ExprId} (h : a.NestsIn n id)
    (t : Option Bool) : a.Evaluates v id t ↔ t = kleeneAll ((a.conjunctsFrom n id).map v) := by
  induction n generalizing id t with
  | zero => exact h.elim
  | succ n ih =>
    by_cases hand : ∃ operands, a.expr id = .connect .and operands
    · obtain ⟨operands, hand⟩ := hand
      have hall (ts : List (Option Bool)) (ops : List ExprId) (hops : ∀ c ∈ ops, a.NestsIn n c) :
          Forall₂ (a.Evaluates v) ops ts ↔
            ts = ops.map fun c => kleeneAll ((a.conjunctsFrom n c).map v) := by
        induction ops generalizing ts with
        | nil => simp
        | cons _ _ ih' =>
          obtain ⟨hc, hops⟩ := forall_mem_cons.mp hops
          simp [forall₂_cons_left_iff, ih hc, ih' _ hops]
      have hvalue (ops : List ExprId) :
          kleeneAll (ops.map fun c => kleeneAll ((a.conjunctsFrom n c).map v)) =
            kleeneAll ((ops.flatMap (a.conjunctsFrom n)).map v) := by
        induction ops with
        | nil => rfl
        | cons _ _ ih' =>
          rw [flatMap_cons, map_append, kleeneAll_append, ← ih']
          rfl
      have hchildren : ∀ c ∈ operands, a.NestsIn n c := fun c hc => h c (by rw [hand]; exact hc)
      rw [conjunctsFrom_and hand, ← hvalue]
      constructor
      · intro ht
        cases ht with
        | atom hne => exact absurd hand (hne operands)
        | conjunction he hts =>
          cases hand.symm.trans he
          rw [(hall _ _ hchildren).mp hts]
      · rintro rfl
        exact .conjunction hand ((hall _ _ hchildren).mpr rfl)
    · have hne : ∀ operands, a.expr id ≠ .connect .and operands := fun operands he => hand ⟨operands, he⟩
      have hsingle (t : Option Bool) : kleeneAll [t] = t := by rcases t with _ | _ | _ <;> rfl
      rw [conjunctsFrom_of_ne hne, map_singleton, hsingle]
      constructor
      · intro ht
        cases ht with
        | atom => rfl
        | conjunction he => exact absurd he (hne _)
      · rintro rfl
        exact .atom hne

theorem ne_and_of_mem_conjunctsFrom {n : Nat} {id : ExprId} (h : c ∈ a.conjunctsFrom n id)
    (operands : List ExprId) : a.expr c ≠ .connect .and operands := by
  induction n generalizing id with
  | zero => cases h
  | succ n ih =>
    rw [conjunctsFrom] at h
    split at h
    · obtain ⟨_, _, hc⟩ := mem_flatMap.mp h
      exact ih hc
    · rename_i hne
      rw [mem_singleton.mp h]
      exact hne operands

/-! ### Used nodes -/

theorem Uses.grounded {ids : List ExprId} (h : a.Uses ids K) : ∀ id ∈ ids, a.Grounded id := by
  induction h with
  | nil => exact forall_mem_nil _
  | cons hlt _ _ ihp ih =>
    exact forall_mem_cons.mpr ⟨.intro hlt fun c hc => ihp c (Expr.mem_parts_of_children hc), ih⟩

theorem Uses.conjunctsFrom {id : ExprId} (h : a.Uses [id] K) (n : Nat) :
    ∃ K', K'.Sublist K ∧ a.Uses (a.conjunctsFrom n id) K' := by
  induction n generalizing id K with
  | zero => exact ⟨[], nil_sublist _, .nil⟩
  | succ n ih =>
    by_cases hand : ∃ operands, a.expr id = .connect .and operands
    · obtain ⟨operands, hand⟩ := hand
      have hall {ops L : List ExprId} (hops : a.Uses ops L) :
          ∃ K', K'.Sublist L ∧ a.Uses (ops.flatMap (a.conjunctsFrom n)) K' := by
        induction ops generalizing L with
        | nil => exact ⟨[], nil_sublist _, .nil⟩
        | cons c ops ih' =>
          have hops : a.Uses ([c] ++ ops) L := hops
          obtain ⟨_, _, rfl, hc, hops⟩ := hops.split
          obtain ⟨K1', hsub1, hc⟩ := ih hc
          obtain ⟨K2', hsub2, hops⟩ := ih' hops
          exact ⟨K1' ++ K2', hsub1.append hsub2, hc.append hops⟩
      cases h with
      | cons _ hparts _ =>
        rw [hand] at hparts
        obtain ⟨K', hsub, huses⟩ := hall hparts
        rw [conjunctsFrom_and hand]
        exact ⟨K', (hsub.trans (sublist_append_left _ _)).cons _, huses⟩
    · rw [conjunctsFrom_of_ne fun operands he => hand ⟨operands, he⟩]
      exact ⟨K, .refl _, h⟩

theorem Closed.contains {x y : ExprId} (h : a.Closed S) (hx : S x) (hy : a.Contains x y) : S y := by
  induction hy with
  | here => exact hx
  | child hc _ ih => exact ih (h _ hx _ (Expr.mem_parts_of_children hc))

theorem mem_parts_decorrelatedPredicate {sub y : ExprId} {e : Expr}
    (h : y ∈ (decorrelatedPredicate sub first e).parts) : y = first ∨ y ∈ e.parts := by
  cases hsub : e.isSubquery with
  | true =>
    cases e <;> cases hsub
    exact .inr h
  | false =>
    rw [Expr.parts_of_not_isSubquery (by cases e <;> first | rfl | cases hsub)] at h
    rw [Expr.parts_of_not_isSubquery hsub]
    exact mem_children_decorrelatedPredicate h

/-- Only nodes in the set change, none of them into a conjunction or from one, and nothing leads out of
the set that did not. -/
structure ChangesIn (S : ExprId → Prop) (a a' : Arena) : Prop where
  size : a'.size = a.size
  flag : ∀ x, (a'.node x).hasSubquery = (a.node x).hasSubquery
  conjunction : ∀ x operands, a'.expr x = .connect .and operands ↔ a.expr x = .connect .and operands
  expr : ∀ x, ¬S x → a'.expr x = a.expr x
  closed : a.Closed S → a'.Closed S

namespace ChangesIn

theorem refl (a : Arena) : ChangesIn S a a :=
  ⟨rfl, fun _ => rfl, fun _ _ => Iff.rfl, fun _ _ => rfl, id⟩

theorem trans (h : ChangesIn S a a') (h' : ChangesIn S a' a'') : ChangesIn S a a'' where
  size := h'.size.trans h.size
  flag x := (h'.flag x).trans (h.flag x)
  conjunction x operands := (h'.conjunction x operands).trans (h.conjunction x operands)
  expr x hx := (h'.expr x hx).trans (h.expr x hx)
  closed hS := h'.closed (h.closed hS)

theorem of_update {f : ExprNode → ExprNode} (hc : S c) (hflag : ∀ n, (f n).hasSubquery = n.hasSubquery)
    (hand : ∀ n operands, (f n).kind = .connect .and operands ↔ n.kind = .connect .and operands)
    (hparts : ∀ y ∈ (f (a.node c)).kind.parts, S y ∨ y ∈ (a.expr c).parts) :
    ChangesIn S a (a.update c f) where
  size := size_update _ _
  flag x := field_update _ (hflag _) x
  conjunction x operands := by
    rw [Arena.expr, node_update]
    split
    · exact hand _ _
    · rfl
  expr x hx := expr_update_of_ne f fun he => hx (he ▸ hc)
  closed hS x hx y hy := by
    rw [Arena.expr, node_update] at hy
    split at hy
    · rename_i hxc
      rw [hxc.1] at hx hy
      exact (hparts y hy).elim (fun h => h) (hS c hx y)
    · exact hS x hx y hy

theorem setQuery (hc : S c) (hq : ∀ y ∈ q.exprs, S y) : ChangesIn S a (a.setQuery c q) := by
  apply of_update hc
  · intro n
    split <;> rfl
  · intro n operands
    split
    · rename_i hsub
      cases he : n.kind <;> simp [he, Expr.isSubquery] at hsub ⊢
    · rfl
  · intro y hy
    split at hy
    · exact .inl (hq y hy)
    · exact .inr hy

theorem decorrelated (sub : ExprId) (hc : S c) (hfirst : S first) :
    ChangesIn S a (a.update c fun n => { n with kind := decorrelatedPredicate sub first n.kind }) := by
  apply of_update hc
  · exact fun _ => rfl
  · intro n operands
    cases n.kind <;> simp [decorrelatedPredicate]
  · exact fun y hy => (mem_parts_decorrelatedPredicate hy).imp_left (by rintro rfl; exact hfirst)

theorem restored {sub : ExprId} (hS : a.Closed S) (hsub : S sub) (hq : a.query? sub = some q)
    (h : (a.setQuery sub {}).Closed S → (∀ x ∈ q.exprs, S x) → ChangesIn S (a.setQuery sub {}) a') :
    ChangesIn S a (a'.setQuery sub q) ∧ ∀ x ∈ q.items, S x := by
  have hquery : ∀ x ∈ q.exprs, S x := by
    intro x hx
    apply hS _ hsub
    rw [query?_eq_some.mp hq]
    exact hx
  have hopened : ChangesIn S a (a.setQuery sub {}) :=
    .setQuery hsub (forall_mem_nil _)
  have hbuilt := hopened.trans (h (hopened.closed hS) hquery)
  exact ⟨hbuilt.trans (.setQuery hsub hquery), (Select.forall_mem_exprs.mp hquery).2.1⟩

end ChangesIn

end Arena

/-! ### Frames -/

theorem Lowers.changesIn {task : LowerTask} (h : Lowers env task s s') (hS : s.exprs.Closed S)
    (hin : ∀ x ∈ task.mentioned, S x) : ChangesIn S s.exprs s'.exprs := by
  induction h with
  | @entriesCons _ _ c cs _ _ _ _ _ _ _ _ hv _ _ ihbody ihrest =>
    obtain ⟨_, rfl⟩ := visibleCte_run hv
    have hin : ∀ x ∈ Cte.exprsAll (c :: cs), S x := hin
    rw [Cte.exprsAll_cons, forall_mem_append] at hin
    have hbody := ihbody hS hin.1
    exact hbody.trans (ihrest (hbody.closed hS) hin.2)
  | queryAlone _ _ _ ihe ihb =>
    have he := ihe hS (Select.forall_mem_exprs.mp hin).1
    exact he.trans (ihb (he.closed hS) hin)
  | queryUnion hunion _ _ _ ihe ihb ihr =>
    obtain ⟨hctes, _, _, _, _, hright⟩ := Select.forall_mem_exprs.mp hin
    rw [hunion] at hright
    have he := ihe hS hctes
    have hb := he.trans (ihb (he.closed hS) hin)
    exact hb.trans (ihr (hb.closed hS) hright)
  | block _ _ _ _ _ ihf ihw =>
    obtain ⟨_, _, hsource, hfilter, _⟩ := Select.forall_mem_exprs.mp hin
    have hf := ihf hS hsource
    exact hf.trans (ihw (hf.closed hS) fun x hx => hfilter x (mem_append_left _ hx))
  | fromSome _ ih | derived _ ih => exact ih hS hin
  | join _ _ _ ihl ihr =>
    obtain ⟨hin, _⟩ := forall_mem_append.mp hin
    obtain ⟨hleft, hright⟩ := forall_mem_append.mp hin
    have hl := ihl hS hleft
    exact hl.trans (ihr (hl.closed hS) hright)
  | list _ _ ihf ihr | sourcesCons _ _ ihf ihr =>
    obtain ⟨hfirst, hrest⟩ := forall_mem_append.mp hin
    have hf := ihf hS hfirst
    exact hf.trans (ihr (hf.closed hS) hrest)
  | whereSome _ ih =>
    exact ih hS fun x hx => hS.contains (hin _ mem_cons_self) (contains_of_mem_conjuncts hx)
  | conjunctsPlain _ _ ih => exact ih hS fun x hx => hin x (mem_cons_of_mem _ hx)
  | @conjunctsJoin _ _ c _ _ _ _ use _ first _ _ _ _ _ huse hq hitems _ _ _ _ ihq ihr =>
    obtain ⟨hc, hcs⟩ := forall_mem_cons.mp hin
    have hsub := hS c hc _ (subqueryUse_refers huse).1
    obtain ⟨hback, hfirst⟩ := ChangesIn.restored hS hsub hq ihq
    have hafter := hback.trans (.decorrelated use.subquery hc (hfirst first (by simp [hitems])))
    exact hafter.trans (ihr (hafter.closed hS) hcs)
  | _ => exact .refl _

/-! ### Joins for conditions -/

/-- A condition with a subquery becomes a join with its plan, and then compares with its first column
or asks whether that is there. -/
inductive JoinedAs (a a' : Arena) (c : ExprId) : PlanJoin → Select → Prop where
  | «exists» {sub first : ExprId} {more : List ExprId} {q : Select} :
    a.expr c = .operate .exists [sub] → a.query? sub = some q → q.items = first :: more →
    a'.expr c = .operate .isNotNull [first] → JoinedAs a a' c .mark q
  | left {op : CompareOp} {sub other first : ExprId} {q : Select} :
    a.expr c = .compare op sub other → a.query? sub = some q → q.items = [first] →
    a'.expr c = .compare (if op = .isIn then .equal else op) first other →
    JoinedAs a a' c (if op = .isIn then .mark else .single) q
  | right {op : CompareOp} {sub other first : ExprId} {q : Select} :
    a.expr c = .compare op other sub → a.query? sub = some q → q.items = [first] →
    a'.expr c = .compare (if op = .isIn then .equal else op) other first →
    JoinedAs a a' c (if op = .isIn then .mark else .single) q

theorem joinedAs_of_use {use : SubqueryUse} {more : List ExprId} (huse : subqueryUse a'' c = .ok use)
    (hkept : a''.expr c = a.expr c) (hq : a.query? use.subquery = some q)
    (hitems : q.items = first :: more) (hone : use.singleColumn = true → more = [])
    (h : a'.expr c = decorrelatedPredicate use.subquery first (a.expr c)) :
    JoinedAs a a' c use.join q := by
  rcases subqueryUse_ok huse with ⟨op, left, right, he, hsingle, hjoin, hside⟩ |
    ⟨operand, he, _, hjoin, hsub, _⟩ <;> rw [hkept] at he
  · rw [hone hsingle] at hitems
    rw [he] at h
    rw [hjoin]
    rcases hside with ⟨hsub, hyes, hno⟩ | ⟨hsub, hyes, hno⟩
    · have hne : left ≠ right := by
        rintro rfl
        rw [hyes] at hno
        cases hno
      rw [hsub] at hq h
      exact .right he hq hitems (by simpa [decorrelatedPredicate, hne] using h)
    · have hne : right ≠ left := by
        rintro rfl
        rw [hyes] at hno
        cases hno
      rw [hsub] at hq h
      exact .left he hq hitems (by simpa [decorrelatedPredicate, hne] using h)
  · rw [he] at h
    rw [hsub] at hq
    rw [hjoin]
    exact .exists he hq hitems h

/-- The joins above a plan: one for each condition with a subquery, the first innermost. -/
inductive JoinsConditions (env : Accessor) (ctes : List VisibleCte) (a a' : Arena) :
    List ExprId → Plan → Plan → Prop where
  | nil {p : Plan} : JoinsConditions env ctes a a' [] p p
  | plain {c : ExprId} {cs : List ExprId} {p p' : Plan} :
    (a.node c).hasSubquery = false → JoinsConditions env ctes a a' cs p p' →
    JoinsConditions env ctes a a' (c :: cs) p p'
  | join {c : ExprId} {cs : List ExprId} {p p' : Plan} {kind : PlanJoin} {q : Select}
      {own : List String} {right : Lowered} {s s' : LowerState} :
    (a.node c).hasSubquery = true → JoinedAs a a' c kind q →
    Lowers env (.query ctes own own q right) s s' →
    JoinsConditions env ctes a a' cs (.join kind [] p right.plan) p' →
    JoinsConditions env ctes a a' (c :: cs) p p'

/-- **Each condition with a subquery gets its join**, as long as the conditions share no nodes. -/
theorem Lowers.joinsConditions {ctes : List VisibleCte} {own : List String} {input out : Lowered}
    (h : Lowers env (.conjuncts ctes own cs input out) s s') (hK : a.Uses cs K) (hnodup : K.Nodup)
    (hsize : s.exprs.size = a.size) (hflag : ∀ x, (s.exprs.node x).hasSubquery = (a.node x).hasSubquery)
    (hexpr : ∀ x ∈ K, s.exprs.expr x = a.expr x) :
    JoinsConditions env ctes a s'.exprs cs input.plan out.plan := by
  induction cs generalizing input K s with
  | nil =>
    cases h
    exact .nil
  | cons c cs ih =>
    cases hK with
    | @cons _ _ P R hlt hparts hrest =>
      obtain ⟨hc, hnodup⟩ := nodup_cons.mp hnodup
      obtain ⟨_, hR, hdisjoint⟩ := nodup_append.mp hnodup
      have hcP : c ∉ P := fun h => hc (mem_append_left _ h)
      have hcR : c ∉ R := fun h => hc (mem_append_right _ h)
      cases h with
      | conjunctsPlain hno h =>
        exact .plain (hflag c ▸ hno) (ih h hrest hR hsize hflag fun x hx => hexpr x (by simp [hx]))
      | @conjunctsJoin _ _ _ _ _ right _ use q first more _ s1 _ hyes huse hq hitems hone _ hlower h =>
        have hparts' : s.exprs.Uses (s.exprs.expr c).parts P := by
          rw [hexpr c mem_cons_self]
          exact hparts.congr hsize.ge fun x hx => hexpr x (by simp [hx])
        have hsub : use.subquery ∈ P := hparts'.mem (subqueryUse_refers huse).1
        -- the plan of the subquery is built among the nodes under the condition
        obtain ⟨hback, _⟩ := ChangesIn.restored hparts'.closed (.inl hsub) hq hlower.changesIn
        have hbefore (x : ExprId) (hx : x ∈ c :: R) :
            (s1.exprs.setQuery use.subquery q).expr x = a.expr x := by
          rw [hback.expr x ?_, hexpr x ?_]
          · rcases mem_cons.mp hx with rfl | hx <;> simp [*]
          · rintro (hP | hfree)
            · rcases mem_cons.mp hx with rfl | hx
              · exact hcP hP
              · exact hdisjoint x hP x hx rfl
            · rw [hsize] at hfree
              rcases mem_cons.mp hx with rfl | hx
              · exact hlt.not_ge hfree
              · exact (hrest.lt_size hx).not_ge hfree
        generalize hu : (s1.exprs.setQuery use.subquery q).update c _ = u at h
        have husize : u.size = a.size := by rw [← hu, size_update, hback.size, hsize]
        have hurest (x : ExprId) (hx : x ∈ R) : u.expr x = a.expr x := by
          rw [← hu, expr_update_of_ne _ (by rintro rfl; exact hcR hx)]
          exact hbefore x (mem_cons_of_mem _ hx)
        have huc : u.expr c = decorrelatedPredicate use.subquery first (a.expr c) := by
          rw [← hu, expr, node_update_self _ (by rw [hback.size, hsize]; exact hlt)]
          exact congrArg (decorrelatedPredicate use.subquery first) (hbefore c mem_cons_self)
        have huflag (x : ExprId) : (u.node x).hasSubquery = (a.node x).hasSubquery := by
          rw [← hu, ← hflag x, ← hback.flag x]
          exact field_update _ rfl x
        have hafter := (h.changesIn (hrest.congr husize.ge hurest).closed fun x hx =>
          .inl (hrest.mem hx)).expr c fun hc => hc.elim hcR fun hfree =>
            hlt.not_ge (husize ▸ hfree)
        have hq' : a.query? use.subquery = some q := by
          rw [query?, ← hexpr _ (by simp [hsub])]
          exact hq
        exact .join (hflag c ▸ hyes)
          (joinedAs_of_use huse (hexpr c mem_cons_self) hq' hitems hone (hafter.trans huc)) hlower
          (ih h hrest hR husize huflag hurest)

/-! ### Query blocks -/

theorem Arena.Uses.exists_reaches {ids : List ExprId} {x : ExprId} (h : a.Uses ids K) (hx : x ∈ K) :
    ∃ id ∈ ids, a.Reaches id x := by
  induction h with
  | nil => cases hx
  | @cons id _ _ _ _ _ _ ihp ih =>
    rcases mem_cons.mp hx with rfl | hx
    · exact ⟨x, mem_cons_self, .refl⟩
    · rcases mem_append.mp hx with hx | hx
      · obtain ⟨y, hy, hyx⟩ := ihp hx
        exact ⟨id, mem_cons_self, .head hy hyx⟩
      · obtain ⟨y, hy, hyx⟩ := ih hx
        exact ⟨y, mem_cons_of_mem _ hy, hyx⟩

/-- **The plan of a query block keeps its WHERE condition**, where nothing under the condition is used
twice or in FROM.  The conditions of the filter are the conjuncts of the condition before anything was
rewritten, and none of them is a conjunction; under all truth values they hold together exactly if the
condition does.  Below the filter stand the joins of those that have a subquery, above the plan of
FROM. -/
theorem where_conjunction_kept {n : Nat} {ctes : List VisibleCte} {r : ExprId} {plan : Plan}
    (h : lowerBody env (lowerQuery env n) ctes q s = .ok plan s') (hr : q.filter = some r)
    (htree : s.exprs.TreeShaped [r])
    (hfrom : ∀ x ∈ TableRef.exprsOpt q.source, ∀ y, s.exprs.Reaches x y → ¬s.exprs.Reaches r y) :
    ∃ depth scanned s1 input aggregated, q.depth = some depth ∧
      Lowers env (.from_ ctes [] q.source scanned) s s1 ∧
      JoinsConditions env ctes s.exprs s'.exprs (s.exprs.conjuncts r) scanned.plan input ∧
      lowerAggregation s'.exprs depth q (.filter (s'.exprs.predicates r) input) = .ok aggregated ∧
      lowerLimit q aggregated = .ok plan ∧
      (s'.exprs.predicates r).map (·.expr) = s.exprs.conjuncts r ∧
      (∀ c ∈ s.exprs.conjuncts r, ∀ operands, s.exprs.expr c ≠ .connect .and operands) ∧
      ∀ v t, s.exprs.Evaluates v r t ↔ t = kleeneAll ((s.exprs.conjuncts r).map v) := by
  obtain ⟨_, rfl, hblock⟩ := lowerBody_lowers (lowerQuery_lowers env n) [] h
  obtain ⟨_, huses, hnodup⟩ := htree
  cases hblock with
  | @block _ _ _ depth scanned _ aggregated _ _ s1 _ hdepth hscan hwhere hagg hlimit =>
    rw [hr] at hwhere
    cases hwhere with
    | @whereSome _ _ _ _ input _ _ hjoins =>
      have hscanned := hscan.changesIn (S := fun y => ∃ x ∈ TableRef.exprsOpt q.source, s.exprs.Reaches x y)
        (fun y hy z hz => hy.imp fun x hx => ⟨hx.1, hx.2.tail hz⟩) fun x hx => ⟨x, hx, .refl⟩
      have hconj := conjuncts_congr hscanned.size hscanned.conjunction r
      have hall := hjoins.changesIn (S := fun _ => True) (fun _ _ _ _ => trivial) fun _ _ => trivial
      obtain ⟨K', hsub, huses'⟩ := huses.conjunctsFrom s.exprs.bound
      have hkept : ∀ x ∈ K', s1.exprs.expr x = s.exprs.expr x := by
        intro x hx
        obtain ⟨_, hid, hreach⟩ := huses.exists_reaches (hsub.subset hx)
        rw [mem_singleton.mp hid] at hreach
        exact hscanned.expr x fun ⟨y, hy, hyx⟩ => hfrom y hy x hyx hreach
      rw [hconj] at hjoins
      refine ⟨depth, scanned, s1, input.plan, aggregated, hdepth, hscan,
        hjoins.joinsConditions huses' (hsub.nodup hnodup) hscanned.size hscanned.flag hkept, hagg, hlimit,
        ?_, fun c hc => ne_and_of_mem_conjunctsFrom hc,
        fun v t => evaluatesFrom_iff (huses.grounded r mem_cons_self).nestsIn_bound t⟩
      rw [predicates, map_map, conjuncts_congr hall.size hall.conjunction r, hconj]
      exact map_id _

/-- `SELECT 1 WHERE (1 AND EXISTS (SELECT 1)) AND 1 IN (SELECT 1)`, with what binding adds -/
def existsAndIn : Select × Arena :=
  ({ items := [0], filter := some 1, depth := some 0 },
    ⟨#[.ofExpr (.constant (.ofByte 1)),
      .ofExpr (.connect .and [2, 3]),
      .ofExpr (.connect .and [4, 5]),
      { ExprNode.ofExpr (.compare .isIn 6 7) with hasSubquery := true },
      .ofExpr (.constant (.ofByte 1)),
      { ExprNode.ofExpr (.operate .exists [8]) with hasSubquery := true },
      .ofExpr (.constant (.ofByte 1)),
      .ofExpr (.subquery { items := [9], depth := some 1 }),
      .ofExpr (.subquery { items := [10], depth := some 1 }),
      .ofExpr (.constant (.ofByte 1)),
      .ofExpr (.constant (.ofByte 1))]⟩)

theorem existsAndIn_conjunction_kept :
    ∃ tree s', lowerBody .initial (lowerQuery .initial 2) [] existsAndIn.1 ⟨existsAndIn.2, 0⟩ = .ok tree s' ∧
      ∃ scanned input, JoinsConditions .initial [] existsAndIn.2 s'.exprs [4, 5, 3] scanned input ∧
        (s'.exprs.predicates 1).map (·.expr) = [4, 5, 3] ∧
        ∀ v t, existsAndIn.2.Evaluates v 1 t ↔ t = kleeneAll ([4, 5, 3].map v) := by
  have hfacts : succeeds (lowerBody .initial (lowerQuery .initial 2) [] existsAndIn.1 ⟨existsAndIn.2, 0⟩) = true ∧
      existsAndIn.2.isTreeShaped 20 [1] = true ∧ existsAndIn.2.conjuncts 1 = [4, 5, 3] := by
    decide +kernel
  obtain ⟨hrun, htree, hconj⟩ := hfacts
  obtain ⟨tree, s', h⟩ := exists_of_succeeds hrun
  obtain ⟨_, scanned, _, input, _, _, _, hjoins, _, _, hpredicates, _, hvalue⟩ :=
    where_conjunction_kept h rfl (treeShaped_of_isTreeShaped htree)
      fun x (hx : x ∈ []) => (not_mem_nil hx).elim
  dsimp only at hjoins hpredicates hvalue
  rw [hconj] at hjoins hpredicates hvalue
  exact ⟨tree, s', h, scanned.plan, input, hjoins, hpredicates, hvalue⟩

end SqlAnalysis
