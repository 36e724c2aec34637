import SqlAnalysis.Proofs.Binding.Meaning
import SqlAnalysis.Proofs.Plan.Correlation

/-!
# Where the columns of an expression are read

While a plan is built, conditions are rewritten and plans are put together.  Every column of what they
mention stays within reach: its table is read below, or belongs to a block further out.

* **`placed_of_means`**: the columns of a bound expression belong to the blocks that it was bound in.
* **`Placed.keep`**, **`Placed.aliasesOf_eq`**: steps elsewhere change neither an expression nor the
  table references that it mentions.
-/

namespace SqlAnalysis

open List Arena

variable {K ids : List ExprId} {x : ExprId}

/-! ### Changes of the expressions -/

def Expr.isLeaf (e : Expr) : Bool := e.isLiteral || e.column?.isSome

theorem Expr.children_of_isLeaf {e : Expr} (h : e.isLeaf = true) : e.children = [] := by
  cases e <;> first | rfl | cases h

/-- Nothing has changed but some of the nodes of a list, and no literal or column among them. -/
def Arena.Keeps (K : List ExprId) (a a' : Arena) : Prop :=
  ∀ x, x ∉ K ∨ (a.expr x).isLeaf = true → a'.expr x = a.expr x

namespace Arena.Keeps

variable {K' : List ExprId} {a a' a'' : Arena}

theorem refl (K : List ExprId) (a : Arena) : Keeps K a a := fun _ _ => rfl

theorem mono (h : Keeps K a a') (hsub : K ⊆ K') : Keeps K' a a' :=
  fun x hx => h x (hx.imp_left fun hx hmem => hx (hsub hmem))

theorem trans (h : Keeps K a a') (h' : Keeps K a' a'') : Keeps K a a'' := by
  intro x hx
  have hsame := h x hx
  rw [← hsame] at hx
  rw [h' x hx, hsame]

theorem setQuery {id : ExprId} (h : (a.expr id).isSubquery = true) (q : Select) :
    Keeps [id] a (a.setQuery id q) := by
  intro x hx
  refine expr_setQuery_of_ne q fun heq => ?_
  subst heq
  rcases hx with hx | hx
  · exact hx (mem_singleton_self _)
  · obtain ⟨_, _, he⟩ := query?_of_isSubquery h
    rw [he] at hx
    cases hx

theorem update {c : ExprId} (h : (a.expr c).isLeaf = false) (f : ExprNode → ExprNode) :
    Keeps [c] a (a.update c f) := by
  intro x hx
  refine expr_update_of_ne f fun heq => ?_
  subst heq
  rcases hx with hx | hx
  · exact hx (mem_singleton_self _)
  · rw [h] at hx
    cases hx

end Arena.Keeps

open Arena (Keeps)

/-- A store made from that of a bound statement, in which the nodes of a list are as they were. -/
structure Ready (bound : Arena) (K : List ExprId) (a : Arena) : Prop where
  tracks : Tracks bound a
  same : ∀ x, x ∈ K ∨ (bound.expr x).isLeaf = true → a.expr x = bound.expr x

namespace Ready

variable {bound a a' : Arena} {K' : List ExprId}

theorem refl (bound : Arena) (K : List ExprId) : Ready bound K bound := ⟨.refl bound, fun _ _ => rfl⟩

theorem mono (h : Ready bound K a) (hsub : K' ⊆ K) : Ready bound K' a :=
  ⟨h.tracks, fun x hx => h.same x (hx.imp_left (hsub ·))⟩

theorem keep (h : Ready bound K a) (hk : Keeps K' a a') (hd : K'.Disjoint K) (ht : Tracks bound a') :
    Ready bound K a' := by
  refine ⟨ht, fun x hx => ?_⟩
  have hsame := h.same x hx
  rw [hk x (hx.imp (fun hmem hmem' => hd hmem' hmem) fun hleaf => hsame ▸ hleaf), hsame]

end Ready

/-! ### Columns within reach -/

/-- A column of a table of the enclosing blocks `Γ`, or of a table reference that one of the scans
reads. -/
def Covered (R : Registry) (Γ : List (List ScopeTable)) (scans : List Plan.Scan) (c : ResolvedColumn) :
    Prop :=
  Resolves Γ c ∨ ∃ r ∈ R.references, (∃ depth, c ∈ r.table.columns depth) ∧
    ∃ scan ∈ scans, scan.knownAs = r.table.knownAs

/-- Every table of a block is read. -/
def Sees (R : Registry) (F : List ScopeTable) (scans : List Plan.Scan) : Prop :=
  ∀ t ∈ F, (∃ r ∈ R.references, r.table = t) ∧ ∃ scan ∈ scans, scan.knownAs = t.knownAs

theorem Sees.mono {R : Registry} {F : List ScopeTable} {scans scans' : List Plan.Scan}
    (h : Sees R F scans) (hsub : scans ⊆ scans') : Sees R F scans' :=
  fun t ht => ⟨(h t ht).1, (h t ht).2.imp fun _ hscan => ⟨hsub hscan.1, hscan.2⟩⟩

namespace Covered

variable {R : Registry} {Γ : List (List ScopeTable)} {scans scans' : List Plan.Scan}
  {c : ResolvedColumn} {F : List ScopeTable}

theorem mono (h : Covered R Γ scans c) (hsub : scans ⊆ scans') : Covered R Γ scans' c :=
  h.imp_right fun ⟨r, hr, hc, scan, hscan, hknown⟩ => ⟨r, hr, hc, scan, hsub hscan, hknown⟩

theorem outer (h : Covered R Γ scans c) : Covered R (F :: Γ) scans c := h.imp_left Resolves.outer

theorem narrow (h : Covered R (F :: Γ) scans c) (hF : Sees R F scans) : Covered R Γ scans c := by
  rcases h with h | h
  · rcases resolves_cons.mp h with ⟨t, ht, hc⟩ | h
    · obtain ⟨⟨r, hr, rfl⟩, hscan⟩ := hF t ht
      exact .inr ⟨r, hr, ⟨_, hc⟩, hscan⟩
    · exact .inl h
  · exact .inr h

end Covered

/-! ### Expressions within reach -/

/-- Every node in an expression is one of `K`, a literal or a column, and every column is covered and
has its depth on record. -/
def Placed (bound a : Arena) (R : Registry) (Γ : List (List ScopeTable)) (scans : List Plan.Scan)
    (K : List ExprId) (x : ExprId) : Prop :=
  ∀ y, a.Contains x y → (y ∈ K ∨ (a.expr y).isLeaf = true) ∧
    ∀ ref, a.expr y = .column ref →
      ∃ c : ResolvedColumn, ref = c.ref ∧ (bound.node y).depth = some c.depth ∧ Covered R Γ scans c

namespace Placed

variable {bound a a' : Arena} {R : Registry} {Γ : List (List ScopeTable)}
  {scans scans' : List Plan.Scan} {K' : List ExprId} {y c : ExprId} {F : List ScopeTable}

theorem of_contains (h : Placed bound a R Γ scans K x) (hy : a.Contains x y) :
    Placed bound a R Γ scans K y :=
  fun z hz => h z (hy.trans hz)

theorem node (hx : x ∈ K) (hcolumn : (a.expr x).column? = none)
    (h : ∀ d ∈ (a.expr x).children, Placed bound a R Γ scans K d) : Placed bound a R Γ scans K x := by
  intro y hy
  cases hy with
  | here =>
    refine ⟨.inl hx, fun ref href => ?_⟩
    rw [href] at hcolumn
    cases hcolumn
  | child hd hy => exact h _ hd y hy

theorem mono (h : Placed bound a R Γ scans K x) (hscans : scans ⊆ scans') (hK : K ⊆ K') :
    Placed bound a R Γ scans' K' x := by
  intro y hy
  obtain ⟨hmem, hcolumn⟩ := h y hy
  refine ⟨hmem.imp_left (hK ·), fun ref href => ?_⟩
  obtain ⟨c, hc, hdepth, hcovered⟩ := hcolumn ref href
  exact ⟨c, hc, hdepth, hcovered.mono hscans⟩

theorem outer (h : Placed bound a R Γ scans K x) : Placed bound a R (F :: Γ) scans K x := by
  intro y hy
  obtain ⟨hmem, hcolumn⟩ := h y hy
  refine ⟨hmem, fun ref href => ?_⟩
  obtain ⟨c, hc, hdepth, hcovered⟩ := hcolumn ref href
  exact ⟨c, hc, hdepth, hcovered.outer⟩

theorem narrow (h : Placed bound a R (F :: Γ) scans K x) (hF : Sees R F scans) :
    Placed bound a R Γ scans K x := by
  intro y hy
  obtain ⟨hmem, hcolumn⟩ := h y hy
  refine ⟨hmem, fun ref href => ?_⟩
  obtain ⟨c, hc, hdepth, hcovered⟩ := hcolumn ref href
  exact ⟨c, hc, hdepth, hcovered.narrow hF⟩

section

variable (h : Placed bound a R Γ scans K x)

include h

theorem expr_eq (hk : Keeps K' a a') (hd : K'.Disjoint K) :
    a'.expr x = a.expr x :=
  hk x ((h x (.here x)).1.imp_left fun hmem hmem' => hd hmem' hmem)

theorem contains_of_keeps (hk : Keeps K' a a')
    (hd : K'.Disjoint K) (hy : a'.Contains x y) : a.Contains x y := by
  induction hy with
  | here => exact .here _
  | child hc _ ih =>
    rw [h.expr_eq hk hd] at hc
    exact .child hc (ih (h.of_contains (.child hc (.here _))))

theorem keep (hk : Keeps K' a a') (hd : K'.Disjoint K) :
    Placed bound a' R Γ scans K x := by
  intro y hy
  have hy := h.contains_of_keeps hk hd hy
  rw [(h.of_contains hy).expr_eq hk hd]
  exact h y hy

theorem columnsFrom_eq (hk : Keeps K' a a') (hd : K'.Disjoint K)
    (fuel : Nat) : a'.columnsFrom fuel x = a.columnsFrom fuel x := by
  induction fuel generalizing x with
  | zero => rfl
  | succ _ ih =>
    rw [columnsFrom, columnsFrom, h.expr_eq hk hd]
    split
    · rfl
    · exact flatMap_congr fun c hc => ih (h.of_contains (.child hc (.here c)))

theorem aliasesOf_eq (hk : Keeps K' a a') (hd : K'.Disjoint K)
    (hsize : a'.size = a.size) : a'.aliasesOf x = a.aliasesOf x := by
  have hcolumns : a'.columns x = a.columns x := by
    rw [Arena.columns, Arena.columns, Arena.bound, Arena.bound, hsize, h.columnsFrom_eq hk hd]
  rw [aliasesOf, aliasesOf, hcolumns]
  congr 1
  refine filterMap_congr fun y hy => ?_
  rw [(h.of_contains (contains_of_mem_columnsFrom hy).1).expr_eq hk hd]

end

end Placed

/-! ### Bound expressions -/

variable {env : Accessor} {bound a : Arena} {R : Registry} {Γ : List (List ScopeTable)} {Δ : EntryMap}

theorem placed_of_means (h : Means env bound R Γ Δ (.expr x) K) (hr : Ready bound K a)
    (scans : List Plan.Scan) : Placed bound a R Γ scans K x := by
  intro y hy
  induction hy generalizing K with
  | here x =>
    cases h with
    | literal hliteral =>
      have hleaf : (bound.expr x).isLeaf = true := by rw [Expr.isLeaf, hliteral, Bool.true_or]
      rw [hr.same x (.inr hleaf)]
      refine ⟨.inr hleaf, fun ref href => ?_⟩
      rw [href] at hliteral
      cases hliteral
    | column he _ hdepth hc =>
      have hleaf : (bound.expr x).isLeaf = true := by
        rw [he]
        rfl
      rw [hr.same x (.inr hleaf)]
      refine ⟨.inr hleaf, fun ref href => ⟨_, ?_, hdepth, .inl hc⟩⟩
      rw [he] at href
      cases href
      rfl
    | subquery he =>
      rw [hr.same x (.inl mem_cons_self), he]
      exact ⟨.inl mem_cons_self, fun ref href => by cases href⟩
    | node _ hcolumn =>
      refine ⟨.inl mem_cons_self, fun ref href => ?_⟩
      rw [← hr.same x (.inl mem_cons_self), href] at hcolumn
      cases hcolumn
  | @child x c y hc _ ih =>
    have hsame : a.expr x = bound.expr x := by
      refine hr.same x ?_
      cases h with
      | literal hliteral => exact .inr (by rw [Expr.isLeaf, hliteral, Bool.true_or])
      | column he => exact .inr (by rw [he]; rfl)
      | subquery | node => exact .inl mem_cons_self
    rw [hsame] at hc
    cases h with
    | literal hliteral =>
      rw [Expr.children_of_isLeaf (by rw [Expr.isLeaf, hliteral, Bool.true_or])] at hc
      cases hc
    | column he | subquery he =>
      rw [he] at hc
      cases hc
    | node _ _ _ hchildren =>
      obtain ⟨K', hsub, hmeans⟩ := hchildren.of_mem hc
      have hsub : K' ⊆ x :: _ := Subset.trans hsub.subset (subset_cons_self _ _)
      obtain ⟨hmem, hcolumn⟩ := ih hmeans (hr.mono hsub)
      exact ⟨hmem.imp_left (hsub ·), hcolumn⟩

theorem placed_of_mem (h : Means env bound R Γ Δ (.exprs ids) K) (hr : Ready bound K a)
    (scans : List Plan.Scan) (hx : x ∈ ids) : Placed bound a R Γ scans K x := by
  obtain ⟨_, hsub, hmeans⟩ := h.of_mem hx
  exact (placed_of_means hmeans (hr.mono hsub.subset) scans).mono (Subset.refl _) hsub.subset

theorem Means.conjunctsFrom (h : Means env bound R Γ Δ (.expr x) K) (fuel : Nat) :
    ∃ K', K'.Sublist K ∧ Means env bound R Γ Δ (.exprs (bound.conjunctsFrom fuel x)) K' := by
  induction fuel generalizing x K with
  | zero => exact ⟨[], nil_sublist _, .exprsNil⟩
  | succ fuel ih =>
    have hlist {ids K : List ExprId} (h : Means env bound R Γ Δ (.exprs ids) K) :
        ∃ K', K'.Sublist K ∧
          Means env bound R Γ Δ (.exprs (ids.flatMap (bound.conjunctsFrom fuel))) K' := by
      induction ids generalizing K with
      | nil => exact ⟨[], nil_sublist _, .exprsNil⟩
      | cons _ _ ihs =>
        cases h with
        | exprsCons hid hrest =>
          obtain ⟨K1, hsub1, h1⟩ := ih hid
          obtain ⟨K2, hsub2, h2⟩ := ihs hrest
          rw [flatMap_cons]
          exact ⟨K1 ++ K2, hsub1.append hsub2, h1.append h2⟩
    by_cases hand : ∃ operands, bound.expr x = .connect .and operands
    · obtain ⟨operands, he⟩ := hand
      rw [conjunctsFrom_and he]
      cases h with
      | node _ _ _ hchildren =>
        rw [he] at hchildren
        obtain ⟨K', hsub, hmeans⟩ := hlist hchildren
        exact ⟨K', hsub.cons _, hmeans⟩
      | literal hliteral =>
        rw [he] at hliteral
        cases hliteral
      | column he' | subquery he' =>
        rw [he] at he'
        cases he'
    · rw [conjunctsFrom_of_ne fun operands he => hand ⟨operands, he⟩]
      exact ⟨K, .refl _, by simpa using Means.exprsCons h .exprsNil⟩

theorem placed_of_mem_conjuncts {c : ExprId} (h : Means env bound R Γ Δ (.exprs ids) K)
    (hr : Ready bound K a) (scans : List Plan.Scan) (hx : x ∈ ids) (hc : c ∈ a.conjuncts x) :
    Placed bound a R Γ scans K c := by
  obtain ⟨_, hsub, hmeans⟩ := h.of_mem hx
  obtain ⟨_, hsub', hmeans⟩ := hmeans.conjunctsFrom bound.bound
  have hsub := hsub'.trans hsub
  rw [hr.tracks.conjuncts] at hc
  exact (placed_of_mem hmeans (hr.mono hsub.subset) scans hc).mono (Subset.refl _) hsub.subset

end SqlAnalysis
