import Mathlib.Data.List.Forall2
import Mathlib.Data.List.Perm.Basic
import Mathlib.Logic.Relation
import SqlAnalysis.Plan.Basic

/-!
# The operators of a plan

Facts about all operators of a plan are facts about one list.  A plan is flattened once, from left to
right and from above to below, and its scans, its conditions and its references to WITH entries are
picked from the list.  What attaching a plan does is then said once, about the list; what it does to
scans, conditions and references follows by picking.

* **`Plan.attachCte_subplans`**: attaching a plan changes the list at one place, the first open
  reference of the name.
-/

namespace SqlAnalysis

open List

variable {β α : Type} {p p' body q q' : Plan} {scan : CteScan} {name : String} {l l' : List Plan}

namespace Plan

/-! ### Subplans -/

def subplans (p : Plan) : List Plan :=
  p :: match p with
    | .derivedGet _ _ input | .cteBody _ input | .filter _ input | .aggregate _ input
    | .limit _ _ _ input | .insertSelect _ input | .update _ _ _ input | .delete _ _ input
    | .analyze _ _ _ input | .explain input => input.subplans
    | .join _ _ left right | .union left right => left.subplans ++ right.subplans
    | _ => []

theorem subplans_eq (p : Plan) : p.subplans = p :: p.children.flatMap subplans := by
  cases p <;> simp [subplans, children]

theorem filterMap_subplans (f : Plan → Option β) (p : Plan) :
    p.subplans.filterMap f = (f p).toList ++ p.children.flatMap fun c => c.subplans.filterMap f := by
  rw [subplans_eq, filterMap_cons, filterMap_flatMap]
  cases f p <;> rfl

theorem mem_subplans_self (p : Plan) : p ∈ p.subplans := by
  cases p <;> simp [subplans]

/-! ### What single operators are -/

/-- The reference to a WITH entry that an operator is, if its plan is not attached here. -/
def openScan? : Plan → Option CteScan
  | .cteScan scan => some scan
  | _ => none

/-- The reference to a WITH entry that an operator is, with the plan attached to it. -/
def body? : Plan → Option (CteScan × Plan)
  | .cteBody scan input => some (scan, input)
  | _ => none

/-- The reference to a WITH entry that an operator is, with or without a plan. -/
def cteScan? : Plan → Option CteScan
  | .cteScan scan | .cteBody scan _ => some scan
  | _ => none

/-- A relation that a plan reads under an alias. -/
inductive Scan where
  | table (scan : Get)
  | derived (knownAs : Alias) (columns : Keyed String ExprId)
  | cte (scan : CteScan)

/-- The alias under which a relation is read. -/
def Scan.knownAs : Scan → Alias
  | .table scan => scan.knownAs
  | .derived knownAs _ => knownAs
  | .cte scan => scan.knownAs

def scan? : Plan → Option Scan
  | .get scan => some (.table scan)
  | .derivedGet knownAs columns _ => some (.derived knownAs columns)
  | .cteScan scan | .cteBody scan _ => some (.cte scan)
  | _ => none

def ownPredicates : Plan → List Predicate
  | .get scan => scan.predicates
  | .filter predicates _ => predicates
  | .join _ predicates _ _ => predicates
  | _ => []

/-- The references to WITH entries without a plan, from left to right. -/
def openScans (p : Plan) : List CteScan := p.subplans.filterMap openScan?

def bodies (p : Plan) : List (CteScan × Plan) := p.subplans.filterMap body?

/-- All references to WITH entries. -/
def cteScans (p : Plan) : List CteScan := p.subplans.filterMap cteScan?

def scans (p : Plan) : List Scan := p.subplans.filterMap scan?

/-- Every condition that some operator of a plan carries. -/
def predicates (p : Plan) : List Predicate := p.subplans.flatMap ownPredicates

def scansOf (p : Plan) (knownAs : Alias) : List Scan := p.scans.filter (·.knownAs = knownAs)

def bodiesOf (p : Plan) (tableId : Oid) : List Plan :=
  (p.bodies.filter (·.1.tableId = tableId)).map (·.2)

theorem mem_openScans : scan ∈ p.openScans ↔ .cteScan scan ∈ p.subplans := by
  rw [openScans, mem_filterMap]
  constructor
  · rintro ⟨q, hq, hscan⟩
    cases q with
    | cteScan =>
      cases hscan
      exact hq
    | _ => cases hscan
  · intro h
    exact ⟨_, h, rfl⟩

theorem mem_bodies {input : Plan} :
    (scan, input) ∈ p.bodies ↔ .cteBody scan input ∈ p.subplans := by
  rw [bodies, mem_filterMap]
  constructor
  · rintro ⟨q, hq, hbody⟩
    cases q with
    | cteBody =>
      cases hbody
      exact hq
    | _ => cases hbody
  · intro h
    exact ⟨_, h, rfl⟩

theorem mem_cteScans :
    scan ∈ p.cteScans ↔ scan ∈ p.openScans ∨ ∃ input, (scan, input) ∈ p.bodies := by
  rw [cteScans, mem_filterMap, mem_openScans]
  constructor
  · rintro ⟨q, hq, hscan⟩
    cases q with
    | cteScan =>
      cases hscan
      exact .inl hq
    | cteBody x input =>
      cases hscan
      exact .inr ⟨input, mem_bodies.mpr hq⟩
    | _ => cases hscan
  · rintro (h | ⟨input, h⟩)
    · exact ⟨_, h, rfl⟩
    · exact ⟨_, mem_bodies.mp h, rfl⟩

theorem openScans_of_children (h : p.cteScan? = none) :
    p.openScans = p.children.flatMap openScans := by
  have hp : p.openScan? = none := by
    cases p with
    | cteScan => cases h
    | _ => rfl
  rw [openScans, filterMap_subplans, hp]
  rfl

theorem bodies_of_children (h : p.cteScan? = none) : p.bodies = p.children.flatMap bodies := by
  have hp : p.body? = none := by
    cases p with
    | cteBody => cases h
    | _ => rfl
  rw [bodies, filterMap_subplans, hp]
  rfl

/-! ### Attaching a plan -/

/-- The operator with other inputs. -/
def withChildren (p : Plan) (inputs : List Plan) : Plan :=
  match p, inputs with
  | .derivedGet knownAs columns _, [input] => .derivedGet knownAs columns input
  | .cteBody scan _, [input] => .cteBody scan input
  | .filter predicates _, [input] => .filter predicates input
  | .join kind predicates _ _, [left, right] => .join kind predicates left right
  | .aggregate keys _, [input] => .aggregate keys input
  | .limit count offset keys _, [input] => .limit count offset keys input
  | .union _ _, [left, right] => .union left right
  | .insertSelect table _, [input] => .insertSelect table input
  | .update table knownAs updates _, [input] => .update table knownAs updates input
  | .delete table knownAs _, [input] => .delete table knownAs input
  | .analyze databaseId tableId columnIds _, [input] => .analyze databaseId tableId columnIds input
  | .explain _, [input] => .explain input
  | p, _ => p

theorem children_withChildren (h : l.length = p.children.length) : (p.withChildren l).children = l := by
  cases p with
  | join | union =>
    obtain ⟨_, _, rfl⟩ := length_eq_two.mp h
    rfl
  | derivedGet | cteBody | filter | aggregate | limit | insertSelect | update | delete | analyze | explain =>
    obtain ⟨_, rfl⟩ := length_eq_one_iff.mp h
    rfl
  | _ => exact (eq_nil_of_length_eq_zero h).symm

theorem induction_children {P : Plan → Prop} (h : ∀ p : Plan, (∀ c ∈ p.children, P c) → P p) (p : Plan) :
    P p := by
  induction p <;> apply h <;> simp_all [children]

/-- Attaches a plan in the first of some inputs that takes it. -/
def attachFirst (name : String) (body : Plan) : List Plan → Option (List Plan)
  | [] => none
  | c :: cs => ((c.attachCte name body).map (· :: cs)).or ((attachFirst name body cs).map (c :: ·))

theorem attachFirst_eq_none : attachFirst name body l = none ↔ ∀ c ∈ l, c.attachCte name body = none := by
  induction l with
  | nil => simp [attachFirst]
  | cons _ _ ih => simp [attachFirst, ih]

theorem attachFirst_eq_some (h : attachFirst name body l = some l') :
    ∃ before c c' after, l = before ++ c :: after ∧ l' = before ++ c' :: after ∧
      c.attachCte name body = some c' ∧ ∀ d ∈ before, d.attachCte name body = none := by
  induction l generalizing l' with
  | nil => cases h
  | cons c l ih =>
    simp only [attachFirst, Option.or_eq_some_iff, Option.map_eq_some_iff, Option.map_eq_none_iff] at h
    rcases h with ⟨c', hc, rfl⟩ | ⟨hnone, _, hrest, rfl⟩
    · exact ⟨[], c, c', l, rfl, rfl, hc, by simp⟩
    · obtain ⟨before, d, d', after, rfl, rfl, hd, hbefore⟩ := ih hrest
      exact ⟨c :: before, d, d', after, rfl, rfl, hd, forall_mem_cons.mpr ⟨hnone, hbefore⟩⟩

theorem attachCte_eq (name : String) (body p : Plan) :
    (∃ scan, p = .cteScan scan) ∨
      p.openScan? = none ∧ p.attachCte name body = (attachFirst name body p.children).map p.withChildren := by
  cases p with
  | cteScan scan => exact .inl ⟨scan, rfl⟩
  | _ =>
    refine .inr ⟨rfl, ?_⟩
    simp [attachCte, attachFirst, children, withChildren, Function.comp_def, Option.map_or]

/-- An operator as a function of one of its inputs. -/
inductive Frame : (Plan → Plan) → Prop where
  | derivedGet {knownAs columns} : Frame (.derivedGet knownAs columns)
  | cteBody {ref} : Frame (.cteBody ref)
  | filter {predicates} : Frame (.filter predicates)
  | joinLeft {kind predicates right} : Frame (.join kind predicates · right)
  | joinRight {kind predicates left} : Frame (.join kind predicates left)
  | aggregate {keys} : Frame (.aggregate keys)
  | limit {count offset keys} : Frame (.limit count offset keys)
  | unionLeft {right} : Frame (.union · right)
  | unionRight {left} : Frame (.union left)
  | insertSelect {table} : Frame (.insertSelect table)
  | update {table knownAs updates} : Frame (.update table knownAs updates)
  | delete {table knownAs} : Frame (.delete table knownAs)
  | analyze {databaseId tableId columnIds} : Frame (.analyze databaseId tableId columnIds)
  | explain : Frame .explain

/-- A plan is attached to an open reference, or somewhere below an operator. -/
inductive Attaches (name : String) (body : Plan) : Plan → Plan → Prop where
  | scan {scan : CteScan} : scan.cte = name → Attaches name body (.cteScan scan) (.cteBody scan body)
  | under {f : Plan → Plan} {input input' : Plan} : Frame f → input.attachCte name body = some input' →
    Attaches name body input input' → Attaches name body (f input) (f input')

theorem attaches_of_attachCte (h : p.attachCte name body = some p') : Attaches name body p p' := by
  induction p generalizing p' with
  | cteScan =>
    simp only [attachCte, Option.ite_none_right_eq_some, Option.some.injEq] at h
    obtain ⟨hname, rfl⟩ := h
    exact .scan hname
  | join _ _ _ _ ihl ihr =>
    simp only [attachCte, Option.or_eq_some_iff, Option.map_eq_some_iff] at h
    rcases h with ⟨_, hl, rfl⟩ | ⟨_, _, hr, rfl⟩
    · exact .under (f := (join _ _ · _)) .joinLeft hl (ihl hl)
    · exact .under .joinRight hr (ihr hr)
  | union _ _ ihl ihr =>
    simp only [attachCte, Option.or_eq_some_iff, Option.map_eq_some_iff] at h
    rcases h with ⟨_, hl, rfl⟩ | ⟨_, _, hr, rfl⟩
    · exact .under (f := (union · _)) .unionLeft hl (ihl hl)
    · exact .under .unionRight hr (ihr hr)
  | derivedGet _ _ _ ih | cteBody _ _ ih | filter _ _ ih | aggregate _ _ ih | limit _ _ _ _ ih
  | insertSelect _ _ ih | update _ _ _ _ ih | delete _ _ _ ih | analyze _ _ _ _ ih | explain _ ih =>
    simp only [attachCte, Option.map_eq_some_iff] at h
    obtain ⟨_, hin, rfl⟩ := h
    exact .under (by constructor) hin (ih hin)
  | _ => simp [attachCte] at h

theorem attachCte_operator (h : p.attachCte name body = some p') :
    (∃ scan, p = .cteScan scan ∧ p' = .cteBody scan body ∧ scan.cte = name) ∨
      (p.openScan? = none ∧ p'.openScan? = none ∧ p'.cteScan? = p.cteScan? ∧ p'.scan? = p.scan? ∧
        p'.ownPredicates = p.ownPredicates) := by
  cases attaches_of_attachCte h with
  | scan hname => exact .inl ⟨_, rfl, rfl, hname⟩
  | under hf => cases hf <;> exact .inr ⟨rfl, rfl, rfl, rfl, rfl⟩

theorem attachCte_eq_none :
    p.attachCte name body = none ↔ ∀ scan, .cteScan scan ∈ p.subplans → scan.cte ≠ name := by
  induction p using induction_children with | h p ih =>
  rcases attachCte_eq name body p with ⟨_, rfl⟩ | ⟨hscan, heq⟩
  · simp [attachCte, subplans]
  · rw [heq, Option.map_eq_none_iff, attachFirst_eq_none, subplans_eq]
    constructor
    · intro h scan hs
      rcases mem_cons.mp hs with rfl | hs
      · cases hscan
      · obtain ⟨c, hc, hs⟩ := mem_flatMap.mp hs
        exact (ih c hc).mp (h c hc) scan hs
    · intro h c hc
      exact (ih c hc).mpr fun scan hs => h scan (mem_cons_of_mem _ (mem_flatMap.mpr ⟨c, hc, hs⟩))

/-- How an operator to the left of the place of an attachment, or above it, is changed: not at all,
or by the same attachment. -/
def Grows (name : String) (body q q' : Plan) : Prop := q' = q ∨ q.attachCte name body = some q'

theorem forall₂_grows_refl (name : String) (body : Plan) (l : List Plan) :
    Forall₂ (Grows name body) l l := by
  induction l with
  | nil => exact .nil
  | cons q l ih => exact .cons (.inl rfl) ih

theorem attachCte_subplans (h : p.attachCte name body = some p') :
    ∃ before before' after scan, scan.cte = name ∧
      p.subplans = before ++ .cteScan scan :: after ∧
      p'.subplans = before' ++ .cteBody scan body :: (body.subplans ++ after) ∧
      Forall₂ (Grows name body) before before' ∧
      ∀ x, .cteScan x ∈ before → x.cte ≠ name := by
  induction p using induction_children generalizing p' with | h p ih =>
  have hp := h
  rcases attachCte_eq name body p with ⟨scan, rfl⟩ | ⟨hscan, heq⟩
  · simp only [attachCte, Option.ite_none_right_eq_some, Option.some.injEq] at h
    obtain ⟨hname, rfl⟩ := h
    exact ⟨[], [], [], scan, hname, by simp [subplans], by simp [subplans], .nil, by simp⟩
  · rw [heq, Option.map_eq_some_iff] at h
    obtain ⟨_, hfirst, rfl⟩ := h
    obtain ⟨l, c, _, r, hcs, rfl, hc, hnone⟩ := attachFirst_eq_some hfirst
    obtain ⟨before, before', after, scan, hname, hs, hs', hg, hopen⟩ := ih c (by simp [hcs]) hc
    refine ⟨p :: (l.flatMap subplans ++ before), _ :: (l.flatMap subplans ++ before'),
      after ++ r.flatMap subplans, scan, hname, ?_, ?_,
      .cons (.inr hp) (rel_append (forall₂_grows_refl name body _) hg), fun x hx => ?_⟩
    · rw [subplans_eq, hcs]
      simp [hs]
    · rw [subplans_eq, children_withChildren (by simp [hcs])]
      simp [hs']
    · simp only [mem_cons, mem_append, mem_flatMap] at hx
      rcases hx with rfl | ⟨d, hd, hx⟩ | hx
      · cases hscan
      · exact attachCte_eq_none.mp (hnone d hd) x hx
      · exact hopen x hx

theorem exists_of_forall₂_right {R : α → β → Prop} {l : List α} {l' : List β}
    (h : Forall₂ R l l') {y : β} (hy : y ∈ l') : ∃ x ∈ l, R x y := by
  induction h with
  | nil => cases hy
  | cons hR _ ih =>
    rcases mem_cons.mp hy with rfl | hy
    · exact ⟨_, mem_cons_self, hR⟩
    · obtain ⟨x, hx, hR⟩ := ih hy
      exact ⟨x, mem_cons_of_mem _ hx, hR⟩

theorem exists_of_forall₂_left {R : α → β → Prop} {l : List α} {l' : List β}
    (h : Forall₂ R l l') {x : α} (hx : x ∈ l) : ∃ y ∈ l', R x y :=
  exists_of_forall₂_right h.flip hx

theorem Grows.same (h : Grows name body q q') :
    q'.ownPredicates = q.ownPredicates ∧ q'.scan? = q.scan? := by
  rcases h with rfl | h
  · exact ⟨rfl, rfl⟩
  · rcases attachCte_operator h with ⟨scan, rfl, rfl, _⟩ | ⟨_, _, _, hscan, hown⟩
    · exact ⟨rfl, rfl⟩
    · exact ⟨hown, hscan⟩

theorem mem_subplans_attachCte (h : p.attachCte name body = some p') (hq : q' ∈ p'.subplans) :
    q' ∈ body.subplans ∨ ∃ q ∈ p.subplans, Grows name body q q' := by
  obtain ⟨_, _, _, scan, hname, hs, hs', hg, _⟩ := attachCte_subplans h
  rw [hs', mem_append, mem_cons, mem_append] at hq
  rw [hs]
  rcases hq with hq | rfl | hq | hq
  · obtain ⟨q, hmem, hgrows⟩ := exists_of_forall₂_right hg hq
    exact .inr ⟨q, by simp [hmem], hgrows⟩
  · exact .inr ⟨.cteScan scan, by simp, .inr (by simp [attachCte, hname])⟩
  · exact .inl hq
  · exact .inr ⟨q', by simp [hq], .inl rfl⟩

/-- A plan after any number of attachments. -/
def Completes : Plan → Plan → Prop :=
  Relation.ReflTransGen fun q q' => ∃ name body, q.attachCte name body = some q'

theorem Completes.refl (p : Plan) : p.Completes p := Relation.ReflTransGen.refl

theorem Completes.trans {r : Plan} (hpq : p.Completes q) (hqr : q.Completes r) : p.Completes r :=
  Relation.ReflTransGen.trans hpq hqr

theorem Completes.of_attachCte (h : p.attachCte name body = some p') : p.Completes p' :=
  Relation.ReflTransGen.single ⟨name, body, h⟩

theorem filterMap_grows {f : Plan → Option β} (hg : Forall₂ (Grows name body) l l')
    (hfirst : ∀ x, .cteScan x ∈ l → x.cte ≠ name)
    (hf : ∀ q q', q.attachCte name body = some q' → q.openScan? = none → f q' = f q) :
    l'.filterMap f = l.filterMap f := by
  induction hg with
  | nil => rfl
  | @cons q q' _ _ hq _ ih =>
    have hrest := ih fun x hx => hfirst x (mem_cons_of_mem _ hx)
    rcases hq with rfl | hq
    · rw [filterMap_cons, filterMap_cons, hrest]
    · have hopen : q.openScan? = none := by
        rcases attachCte_operator hq with ⟨scan, rfl, _, hname⟩ | h
        · exact absurd hname (hfirst scan mem_cons_self)
        · exact h.1
      rw [filterMap_cons, filterMap_cons, hrest, hf q q' hq hopen]

theorem bodies_grows (hg : Forall₂ (Grows name body) l l')
    (hfirst : ∀ x, .cteScan x ∈ l → x.cte ≠ name) :
    Forall₂ (fun x y => y.1 = x.1 ∧ x.2.Completes y.2) (l.filterMap body?)
      (l'.filterMap body?) := by
  induction hg with
  | nil => exact .nil
  | @cons q q' _ _ hq _ ih =>
    have hrest := ih fun x hx => hfirst x (mem_cons_of_mem _ hx)
    have hpair : (q.body? = none ∧ q'.body? = none) ∨
        ∃ scan input input', q.body? = some (scan, input) ∧ q'.body? = some (scan, input') ∧
          input.Completes input' := by
      rcases hq with rfl | hq
      · cases h : q'.body? with
        | none => exact .inl ⟨rfl, rfl⟩
        | some x => exact .inr ⟨x.1, x.2, x.2, rfl, rfl, .refl _⟩
      · cases attaches_of_attachCte hq with
        | scan hname => exact absurd hname (hfirst _ mem_cons_self)
        | under hf hin =>
          cases hf with
          | cteBody => exact .inr ⟨_, _, _, rfl, rfl, .of_attachCte hin⟩
          | _ => exact .inl ⟨rfl, rfl⟩
    rcases hpair with ⟨h, h'⟩ | ⟨scan, input, input', h, h', hc⟩
    · rw [filterMap_cons_none h, filterMap_cons_none h']
      exact hrest
    · rw [filterMap_cons_some h, filterMap_cons_some h']
      exact .cons ⟨rfl, hc⟩ hrest

theorem scans_of_bodies_grows {l l' : List (CteScan × Plan)}
    (h : Forall₂ (fun x y => y.1 = x.1 ∧ x.2.Completes y.2) l l') :
    l'.map (·.1) = l.map (·.1) := by
  induction h with
  | nil => rfl
  | cons hxy _ ih => rw [map_cons, map_cons, hxy.1, ih]

/-- **What an attachment does to the references.**  The first open reference of the name gets the
plan; the open references of the plan take its place, and all others stay. -/
theorem attachCte_references (h : p.attachCte name body = some p') :
    ∃ scan, p.openScans.find? (·.cte = name) = some scan ∧
      (∀ x ∈ p'.openScans, x ∈ p.openScans ∨ x ∈ body.openScans) ∧
      (p'.bodies.map (·.1)).Perm (p.bodies.map (·.1) ++ (body.bodies.map (·.1) ++ [scan])) ∧
      ∀ y ∈ p'.bodies, y = (scan, body) ∨ y ∈ body.bodies ∨
        ∃ x ∈ p.bodies, x.1 = y.1 ∧ x.2.Completes y.2 := by
  obtain ⟨l, l', r, scan, hname, hs, hs', hg, hfirst⟩ := attachCte_subplans h
  have hopen : p.openScans = l.filterMap openScan? ++ scan :: r.filterMap openScan? := by
    rw [openScans, hs, filterMap_append]
    rfl
  have hopen' : p'.openScans = l.filterMap openScan? ++ (body.openScans ++ r.filterMap openScan?) := by
    rw [openScans, hs', filterMap_append, filterMap_cons_none rfl, filterMap_append,
      filterMap_grows hg hfirst]
    · rfl
    · intro q q' hq hnone
      rcases attachCte_operator hq with ⟨scan, rfl, _, _⟩ | hop
      · cases hnone
      · rw [hop.2.1, hnone]
  have hbodies : p.bodies = l.filterMap body? ++ r.filterMap body? := by
    rw [bodies, hs, filterMap_append]
    rfl
  have hbodies' : p'.bodies =
      l'.filterMap body? ++ (scan, body) :: (body.bodies ++ r.filterMap body?) := by
    rw [bodies, hs', filterMap_append,
      filterMap_cons_some (show body? (.cteBody scan body) = some (scan, body) from rfl),
      filterMap_append]
    rfl
  have hgrown := bodies_grows hg hfirst
  refine ⟨scan, ?_, ?_, ?_, ?_⟩
  · rw [hopen, find?_append, find?_eq_none.mpr, find?_cons_of_pos (by simpa using hname)]
    · rfl
    · intro x hx
      obtain ⟨q, hq, hqx⟩ := mem_filterMap.mp hx
      cases q with
      | cteScan =>
        cases hqx
        simpa using hfirst x hq
      | _ => cases hqx
  · intro x hx
    rw [hopen', mem_append, mem_append] at hx
    rw [hopen, mem_append, mem_cons]
    tauto
  · -- the new reference moves to the end, past the plans that follow it
    rw [hbodies, hbodies', map_append, map_cons, map_append, map_append,
      scans_of_bodies_grows hgrown]
    classical
    rw [perm_iff_count]
    intro x
    simp only [count_append, count_cons, count_nil]
    omega
  · intro y hy
    rw [hbodies', mem_append, mem_cons, mem_append] at hy
    rw [hbodies]
    rcases hy with hy | hy | hy | hy
    · obtain ⟨x, hx, hscan, hbody⟩ := exists_of_forall₂_right hgrown hy
      exact .inr (.inr ⟨x, mem_append_left _ hx, hscan.symm, hbody⟩)
    · exact .inl hy
    · exact .inr (.inl hy)
    · exact .inr (.inr ⟨y, mem_append_right _ hy, rfl, .refl _⟩)

end Plan

end SqlAnalysis
