import SqlAnalysis.Proofs.Plan.Visibility

/-!
# What the scans of a plan stand for

Every scan of a plan comes from an item of FROM.  It reads what the item was bound to, unless the item
has the name of a recursive WITH entry in whose base case it stands: then the plan reads the entry.

* **`reads_table`**: what a single name in FROM becomes.
-/

namespace SqlAnalysis

open List

variable {R : Registry} {env : Accessor} {predicates : List Predicate}

/-! ### Names in FROM -/

mutual

def TableRef.names : TableRef → List BaseTable
  | .table base => [base]
  | .derived _ _ => []
  | .join _ left right _ => left.names ++ right.names
  | .list items => TableRef.namesAll items

def TableRef.namesAll : List TableRef → List BaseTable
  | [] => []
  | item :: rest => item.names ++ TableRef.namesAll rest

end

def TableRef.namesOpt : Option TableRef → List BaseTable
  | none => []
  | some item => item.names

/-- A name in FROM, with the names of the recursive WITH entries in whose base case it stands. -/
structure NameUse where
  base : BaseTable
  own : List String

/-- The name is not qualified and is that of a recursive WITH entry in whose base case it stands. -/
def NameUse.IsOwn (u : NameUse) : Prop := u.base.name.schema = none ∧ u.base.name.name ∈ u.own

instance (u : NameUse) : Decidable u.IsOwn := inferInstanceAs (Decidable (_ ∧ _))

def NameUse.all (own : List String) (names : List BaseTable) : List NameUse := names.map (⟨·, own⟩)

def PlannedBlock.uses (block : PlannedBlock) : List NameUse :=
  NameUse.all block.ownNames (TableRef.namesOpt block.query.source)

/-- The names in FROM that a plan was made from. -/
def Lowered.uses (out : Lowered) : List NameUse := out.blocks.flatMap (·.uses)

/-! ### Scans -/

/-- The scan reads what the table reference was bound to. -/
inductive Stands : Reference → Plan.Scan → Prop where
  | table {knownAs : Alias} {databaseId tableId : Oid} {schema : Schema} {scan : Get} :
    scan.table.tableId = tableId →
    Stands ⟨⟨knownAs, .regular databaseId tableId schema⟩, true⟩ (.table scan)
  | entry {knownAs : Alias} {columns : List DerivedColumn} {scan : CteScan} :
    scan.columns.map (·.knownAs.serial) = columns.map (·.knownAs.serial) →
    Stands ⟨⟨knownAs, .derived columns⟩, true⟩ (.cte scan)
  | derived {knownAs known : Alias} {columns : List DerivedColumn} {outputs : Keyed String ExprId} :
    Stands ⟨⟨knownAs, .derived columns⟩, false⟩ (.derived known outputs)

/-- The scan reads a WITH entry, and the table reference was bound to a table of the catalog or to an
entry with other columns. -/
inductive Overrides (n : Nat) : Reference → Plan.Scan → Prop where
  | intro {knownAs : Alias} {source : TableSource} {scan : CteScan} :
    (∀ columns, source = .derived columns → ∀ c ∈ columns, ∃ m, c.knownAs.serial = some m ∧ m < n) →
    (∀ serial ∈ scan.columns.map (·.knownAs.serial), ∃ m, serial = some m ∧ m < n ∧
      ∀ columns, source = .derived columns → serial ∉ columns.map (·.knownAs.serial)) →
    Overrides n ⟨⟨knownAs, source⟩, true⟩ (.cte scan)

/-- A scan of a table reference reads what that was bound to, or overrides it where a name says so. -/
def Explains (R : Registry) (uses : List NameUse) (scan : Plan.Scan) : Prop :=
  scan.knownAs.serial = none ∨ ∃ r ∈ R.references, r.table.knownAs = scan.knownAs ∧
    (r.named = true → ∃ u ∈ uses, u.base.knownAs = scan.knownAs) ∧
    (Stands r scan ∨ Overrides R.nextTemp r scan ∧ ∃ u ∈ uses, u.IsOwn ∧ u.base.knownAs = scan.knownAs)

/-- A name was bound, and is overridden if it is that of the entry around it. -/
def Answers (R : Registry) (scans : List Plan.Scan) (u : NameUse) : Prop :=
  ∃ r ∈ R.references, r.named = true ∧ r.table.knownAs = u.base.knownAs ∧
    (u.IsOwn → ∃ scan ∈ scans, scan.knownAs = u.base.knownAs ∧ Overrides R.nextTemp r scan)

/-- Scans, with the names in FROM that those of them come from that read tables and WITH entries. -/
structure Reads (R : Registry) (uses : List NameUse) (scans : List Plan.Scan) : Prop where
  explained : ∀ scan ∈ scans, Explains R uses scan
  answered : ∀ u ∈ uses, Answers R scans u

section

variable {uses uses' : List NameUse} {scans scans' : List Plan.Scan}

theorem Explains.mono {scan : Plan.Scan} (h : Explains R uses scan) (hsub : uses ⊆ uses') :
    Explains R uses' scan := by
  refine h.imp_right ?_
  rintro ⟨r, hr, hknown, hnamed, hscan⟩
  refine ⟨r, hr, hknown, fun h => ?_, hscan.imp_right fun ⟨hover, u, hu, hown⟩ => ⟨hover, u, hsub hu, hown⟩⟩
  obtain ⟨u, hu, heq⟩ := hnamed h
  exact ⟨u, hsub hu, heq⟩

theorem Answers.mono {u : NameUse} (h : Answers R scans u) (hsub : scans ⊆ scans') :
    Answers R scans' u := by
  obtain ⟨r, hr, hnamed, hknown, hown⟩ := h
  exact ⟨r, hr, hnamed, hknown, fun h => (hown h).imp fun _ hscan => ⟨hsub hscan.1, hscan.2⟩⟩

namespace Reads

theorem congr (h : Reads R uses scans) (huses : ∀ u, u ∈ uses' ↔ u ∈ uses)
    (hscans : ∀ scan, scan ∈ scans' ↔ scan ∈ scans) : Reads R uses' scans' :=
  ⟨fun scan hscan => (h.explained scan ((hscans scan).mp hscan)).mono fun u => (huses u).mpr,
    fun u hu => (h.answered u ((huses u).mp hu)).mono fun scan => (hscans scan).mpr⟩

theorem append (h : Reads R uses scans) (h' : Reads R uses' scans') :
    Reads R (uses ++ uses') (scans ++ scans') where
  explained := forall_mem_append.mpr
    ⟨fun scan hscan => (h.explained scan hscan).mono (subset_append_left _ _),
      fun scan hscan => (h'.explained scan hscan).mono (subset_append_right _ _)⟩
  answered := forall_mem_append.mpr
    ⟨fun u hu => (h.answered u hu).mono (subset_append_left _ _),
      fun u hu => (h'.answered u hu).mono (subset_append_right _ _)⟩

end Reads

end

theorem reads_empty (R : Registry) : Reads R [] [.table Get.empty] :=
  ⟨forall_mem_singleton.mpr (.inl rfl), forall_mem_nil _⟩

theorem Reads.derived {uses : List NameUse} {scans : List Plan.Scan} {knownAs : Alias}
    {columns : List DerivedColumn} (h : Reads R uses scans)
    (hr : ⟨⟨knownAs, .derived columns⟩, false⟩ ∈ R.references) (outputs : Keyed String ExprId) :
    Reads R uses (.derived knownAs outputs :: scans) := by
  have hone : Reads R [] [.derived knownAs outputs] :=
    ⟨forall_mem_singleton.mpr (.inr ⟨_, hr, rfl, (fun h => by cases h), .inl .derived⟩),
      (forall_mem_nil _)⟩
  exact hone.append h

/-! ### A name in FROM -/

theorem tableId_of_planTable {name : ObjectName} {id : TableId} {table : Oid × Schema}
    (h : planTable env name = .ok id) (h' : env.requireTable name = .ok table) :
    id.tableId = table.1 := by
  obtain ⟨_, _, h⟩ := except_bind.mp h
  obtain ⟨_, hid, h⟩ := except_bind.mp h
  obtain ⟨_, hid', h'⟩ := except_bind.mp h'
  obtain ⟨_, _, h'⟩ := except_bind.mp h'
  cases h
  cases h'
  exact Except.ok.inj (hid.symm.trans hid')

theorem reads_table {ctes : List VisibleCte} {own : List String} {Δ : EntryMap} {t : ScopeTable}
    {base : BaseTable} {plan : Plan} (hm : Matches R.nextTemp ctes own Δ)
    (hr : ⟨t, true⟩ ∈ R.references) (hknown : t.knownAs = base.knownAs)
    (hd : Denotes env Δ base.name t.source) (h : lowerBaseTable env ctes base = .ok plan) :
    Reads R [⟨base, own⟩] plan.scans := by
  have hreads {scan : Plan.Scan} (hscan : scan.knownAs = base.knownAs)
      (hstands : Stands ⟨t, true⟩ scan ∨ Overrides R.nextTemp ⟨t, true⟩ scan ∧
        NameUse.IsOwn ⟨base, own⟩)
      (hown : NameUse.IsOwn ⟨base, own⟩ → Overrides R.nextTemp ⟨t, true⟩ scan) :
      Reads R [⟨base, own⟩] [scan] := by
    refine ⟨forall_mem_singleton.mpr (.inr ⟨_, hr, hknown.trans hscan.symm, fun _ => ?_, ?_⟩),
      forall_mem_singleton.mpr ⟨_, hr, rfl, hknown, fun h => ?_⟩⟩
    · exact ⟨_, mem_singleton_self _, hscan.symm⟩
    · exact hstands.imp_right fun h => ⟨h.1, _, mem_singleton_self _, h.2, hscan.symm⟩
    · exact ⟨scan, mem_singleton_self _, hscan, hown h⟩
  obtain ⟨known, source⟩ := t
  rcases lowerBaseTable_ok h with ⟨v, hschema, hv, rfl⟩ | ⟨id, hnone, hid, rfl⟩
  · by_cases hown : base.name.name ∈ own
    · -- inside the base case of the entry, which the plan already sees
      have hover : Overrides R.nextTemp ⟨⟨known, source⟩, true⟩ (.cte (v.scan base.knownAs)) := by
        obtain ⟨_, hv', hserials⟩ := hm.inside _ hown
        cases hv.symm.trans hv'
        refine .intro (fun columns hcolumns c hc => ?_) fun serial hserial => ?_
        · cases hd with
          | entry _ hentry =>
            cases hcolumns
            exact hm.below _ _ hentry _ (mem_map_of_mem hc)
          | table => cases hcolumns
        · obtain ⟨m, hm, hlt, hnew⟩ := hserials serial hserial
          refine ⟨m, hm, hlt, fun columns hcolumns => ?_⟩
          cases hd with
          | entry _ hentry =>
            cases hcolumns
            exact hnew _ hentry
          | table => cases hcolumns
      exact hreads rfl (.inr ⟨hover, hschema, hown⟩) fun _ => hover
    · have hentry := hm.others _ hown
      rw [hv, Option.map_some] at hentry
      have hstands : Stands ⟨⟨known, source⟩, true⟩ (.cte (v.scan base.knownAs)) := by
        cases hd with
        | entry _ hentry' => exact .entry (Option.some.inj (hentry.trans hentry'))
        | table hno =>
          rw [hno hschema] at hentry
          cases hentry
      exact hreads rfl (.inl hstands) fun h => (hown h.2).elim
  · have hstands : Stands ⟨⟨known, source⟩, true⟩
        (.table { table := id, knownAs := base.knownAs }) := by
      cases hd with
      | entry hschema hentry =>
        by_cases hown : base.name.name ∈ own
        · obtain ⟨v, hv, _⟩ := hm.inside _ hown
          rw [hnone hschema] at hv
          cases hv
        · have hothers := hm.others _ hown
          rw [hnone hschema, hentry] at hothers
          cases hothers
      | table _ htable => exact .table (tableId_of_planTable hid htable)
    refine hreads rfl (.inl hstands) fun h => ?_
    obtain ⟨_, hv, _⟩ := hm.inside _ h.2
    rw [hnone h.1] at hv
    cases hv

/-! ### Scans and filters of operators -/

namespace Plan

variable {p p' body input : Plan} {name : String}

theorem scans_of_children (h : p.scan? = none) : p.scans = p.children.flatMap scans := by
  rw [scans, filterMap_subplans, h]
  rfl

@[simp] theorem scans_derivedGet (knownAs : Alias) (outputs : Keyed String ExprId) (input : Plan) :
    (derivedGet knownAs outputs input).scans = .derived knownAs outputs :: input.scans := by
  simp [scans, subplans, scan?]

theorem mem_scans_attachCte (h : p.attachCte name body = some p') {scan : Scan} :
    scan ∈ p'.scans ↔ scan ∈ p.scans ∨ scan ∈ body.scans := by
  obtain ⟨before, before', after, s, _, hs, hs', hgrows, hfirst⟩ := attachCte_subplans h
  have hbefore : before'.filterMap scan? = before.filterMap scan? := by
    clear hs hs' hfirst
    induction hgrows with
    | nil => rfl
    | cons hq _ ih => rw [filterMap_cons, filterMap_cons, hq.same.2, ih]
  simp only [scans, hs, hs', filterMap_append, filterMap_cons, hbefore, scan?,
    mem_append, mem_cons]
  tauto

/-- The expressions in the conditions, grouping expressions and sort keys of an operator. -/
def ownClauses : Plan → List ExprId
  | .aggregate keys _ => keys
  | .limit _ _ keys _ => keys.map (·.expr)
  | p => p.ownPredicates.map (·.expr)

/-- The expressions in the conditions, grouping expressions and sort keys of a plan. -/
def clauses (p : Plan) : List ExprId := p.subplans.flatMap ownClauses

theorem clauses_eq (p : Plan) : p.clauses = p.ownClauses ++ p.children.flatMap clauses := by
  rw [clauses, subplans_eq, flatMap_cons, flatMap_assoc]
  rfl

theorem ownClauses_attachCte (h : p.attachCte name body = some p') : p'.ownClauses = p.ownClauses := by
  cases attaches_of_attachCte h with
  | scan => rfl
  | under hf => cases hf <;> rfl

theorem mem_clauses_attachCte (h : p.attachCte name body = some p') {x : ExprId} (hx : x ∈ p'.clauses) :
    x ∈ p.clauses ∨ x ∈ body.clauses := by
  obtain ⟨q', hq', hx⟩ := mem_flatMap.mp hx
  rcases mem_subplans_attachCte h hq' with hq | ⟨q, hq, hgrows⟩
  · exact .inr (mem_flatMap.mpr ⟨q', hq, hx⟩)
  · refine .inl (mem_flatMap.mpr ⟨q, hq, ?_⟩)
    rcases hgrows with rfl | hgrows
    · exact hx
    · rwa [ownClauses_attachCte hgrows] at hx

/-- The condition and the input of a filter that comes from WHERE.  Filters from HAVING are above an
aggregation, and these are not. -/
def where? : Plan → Option (List Predicate × Plan)
  | .filter _ (.aggregate _ _) => none
  | .filter predicates input => some (predicates, input)
  | _ => none

/-- The filters of a plan that come from WHERE. -/
def wheres (p : Plan) : List (List Predicate × Plan) := p.subplans.filterMap where?

def isAggregate : Plan → Bool
  | .aggregate _ _ => true
  | _ => false

theorem wheres_of_children (h : p.where? = none) : p.wheres = p.children.flatMap wheres := by
  rw [wheres, filterMap_subplans, h]
  rfl

theorem where?_filter (h : input.isAggregate = false) :
    (filter predicates input).where? = some (predicates, input) := by
  cases input <;> first | rfl | cases h

theorem wheres_filter (h : input.isAggregate = false) :
    (filter predicates input).wheres = (predicates, input) :: input.wheres := by
  rw [wheres, filterMap_subplans, where?_filter h]
  simp [children, wheres]

/-- One filter is another one after attachments below it. -/
def WhereGrows (w w' : List Predicate × Plan) : Prop := w'.1 = w.1 ∧ w.2.scans ⊆ w'.2.scans

theorem isAggregate_attachCte (h : p.attachCte name body = some p') : p'.isAggregate = p.isAggregate := by
  cases attaches_of_attachCte h with
  | scan => rfl
  | under hf => cases hf <;> rfl

theorem Grows.where? {q q' : Plan} (h : Grows name body q q') :
    Option.Rel WhereGrows q.where? q'.where? := by
  rcases h with rfl | h
  · cases q'.where? with
    | none => exact .none
    | some => exact .some ⟨rfl, Subset.refl _⟩
  · cases attaches_of_attachCte h with
    | scan => exact .none
    | @under _ input input' hf hinput =>
      cases hf with
      | filter =>
        have hkind := isAggregate_attachCte hinput
        cases hagg : input.isAggregate with
        | false =>
          rw [where?_filter hagg, where?_filter (hkind.trans hagg)]
          exact .some ⟨rfl, fun scan hscan => (mem_scans_attachCte hinput).mpr (.inl hscan)⟩
        | true =>
          rw [hagg] at hkind
          cases input with
          | aggregate =>
            cases input' with
            | aggregate => exact .none
            | _ => cases hkind
          | _ => cases hagg
      | _ => exact .none

/-- **The filters after an attachment** are those of the two plans, with more below some of them. -/
theorem wheres_attachCte (h : p.attachCte name body = some p') :
    (∀ w' ∈ p'.wheres, ∃ w ∈ p.wheres ++ body.wheres, WhereGrows w w') ∧
      ∀ w ∈ p.wheres ++ body.wheres, ∃ w' ∈ p'.wheres, WhereGrows w w' := by
  obtain ⟨before, before', after, s, _, hs, hs', hgrows, hfirst⟩ := attachCte_subplans h
  have hbefore : Forall₂ WhereGrows (before.filterMap Plan.where?) (before'.filterMap Plan.where?) := by
    clear hs hs' hfirst
    induction hgrows with
    | nil => exact .nil
    | @cons q q' _ _ hq _ ih =>
      have hw := hq.where?
      rw [filterMap_cons, filterMap_cons]
      cases hq : q.where? <;> cases hq' : q'.where? <;> rw [hq, hq'] at hw <;> cases hw
      · exact ih
      · exact .cons ‹_› ih
  have hrefl (w : List Predicate × Plan) : WhereGrows w w := ⟨rfl, Subset.refl _⟩
  simp only [wheres, hs, hs', filterMap_append, filterMap_cons, where?, mem_append]
  refine ⟨?_, ?_⟩
  · rintro w' (hw | hw | hw)
    · obtain ⟨w, hw, hgrow⟩ := exists_of_forall₂_right hbefore hw
      exact ⟨w, .inl (.inl hw), hgrow⟩
    · exact ⟨w', .inr hw, hrefl _⟩
    · exact ⟨w', .inl (.inr hw), hrefl _⟩
  · rintro w ((hw | hw) | hw)
    · obtain ⟨w', hw', hgrow⟩ := exists_of_forall₂_left hbefore hw
      exact ⟨w', .inl hw', hgrow⟩
    · exact ⟨w, .inr (.inr hw), hrefl _⟩
    · exact ⟨w, .inr (.inl hw), hrefl _⟩

end Plan

end SqlAnalysis
