import Mathlib.Data.List.Nodup
import SqlAnalysis.Proofs.Plan.Derivation
import SqlAnalysis.Proofs.Expr.Store

/-!
# Plans of WITH entries

The plan of a WITH entry is put under the first open reference of its name; all other references to
the entry stay open.  The reference that is found need not be one to the entry: an inner entry of the
same name leaves its further references open.

* **`AttachmentInv`**: what holds of a plan and of the attachments made in it, kept by every step of
  the building (**`Lowers.attachmentInv`**).
* **`Lowers.numbered`**: the entries attached in a plan have different serial numbers.
* **`select_suppliedOnce_iff`**: every number is supplied once exactly if every attachment is to a
  reference of the attached entry, and no number is attached twice.
-/

namespace SqlAnalysis

open List

variable {out : Lowered} {name : String} {entry : VisibleCte} {env : Accessor} {task : LowerTask}
  {s s' : LowerState} {n : Nat} {p : Plan}

def Plan.filledBy (p : Plan) : List (Oid × String) := p.bodies.map fun x => (x.1.tableId, x.1.cte)

/-- Exactly one reference with a number has a plan, which is the plan of an entry with that number;
entries used by the entry may be attached in it by now. -/
def Lowered.SuppliedOnce (out : Lowered) (tableId : Oid) : Prop :=
  ∃ input, out.plan.bodiesOf tableId = [input] ∧
    ∃ a ∈ out.attached, a.entry.tableId = tableId ∧ a.body.Completes input

/-- Every attachment is to a reference of the attached entry. -/
def Lowered.AttachedToOwn (out : Lowered) : Prop :=
  ∀ a ∈ out.attached, a.scan.tableId = a.entry.tableId

/-- What holds of a plan and the attachments made in it, under the entries in force around it. -/
structure AttachmentInv (ctes : List VisibleCte) (out : Lowered) : Prop where
  scans_perm : (out.plan.bodies.map (·.1)).Perm (out.attached.map (·.scan))
  body_of_entry : ∀ x ∈ out.plan.bodies, ∃ a ∈ out.attached, a.scan = x.1 ∧ a.body.Completes x.2
  named : ∀ a ∈ out.attached, a.scan.cte = a.entry.name
  /-- Unless two plans are under references to one entry, an open reference is one to the entry in
  force under its name, or its entry has a plan already. -/
  resolved : ¬out.plan.filledBy.Nodup ∨ out.AttachedToOwn ∧
    ∀ scan ∈ out.plan.openScans,
      (∃ v, ctes.find? (·.name == scan.cte) = some v ∧ v.tableId = scan.tableId) ∨
        (scan.tableId, scan.cte) ∈ out.plan.filledBy

namespace AttachmentInv

variable {ctes : List VisibleCte}

theorem of_operator (inputs : List Lowered) (hscan : out.plan.cteScan? = none)
    (hchildren : out.plan.children = inputs.map (·.plan))
    (hattached : out.attached = inputs.flatMap (·.attached))
    (h : ∀ input ∈ inputs, AttachmentInv ctes input) : AttachmentInv ctes out := by
  have hbodies : out.plan.bodies = inputs.flatMap (·.plan.bodies) := by
    rw [Plan.bodies_of_children hscan, hchildren, flatMap_map]
  have hopen : out.plan.openScans = inputs.flatMap (·.plan.openScans) := by
    rw [Plan.openScans_of_children hscan, hchildren, flatMap_map]
  have hfilled : out.plan.filledBy = inputs.flatMap (·.plan.filledBy) := by
    rw [Plan.filledBy, hbodies, map_flatMap]
    rfl
  refine ⟨?_, ?_, ?_, ?_⟩
  · rw [hbodies, hattached, map_flatMap, map_flatMap]
    exact Perm.flatMap_left _ fun input hi => (h input hi).scans_perm
  · intro x hx
    rw [hbodies, mem_flatMap] at hx
    obtain ⟨input, hi, hx⟩ := hx
    obtain ⟨a, ha, hax⟩ := (h input hi).body_of_entry x hx
    exact ⟨a, hattached ▸ mem_flatMap.mpr ⟨input, hi, ha⟩, hax⟩
  · intro a ha
    rw [hattached, mem_flatMap] at ha
    obtain ⟨input, hi, ha⟩ := ha
    exact (h input hi).named a ha
  · by_cases hd : ∃ input ∈ inputs, ¬input.plan.filledBy.Nodup
    · obtain ⟨input, hi, hd⟩ := hd
      refine .inl fun hn => hd (hn.sublist ?_)
      rw [hfilled, flatMap_def]
      exact sublist_flatten_of_mem (mem_map_of_mem hi)
    · simp only [not_exists, not_and, not_not] at hd
      have hres := fun input hi => (h input hi).resolved.resolve_left (not_not.mpr (hd input hi))
      refine .inr ⟨fun a ha => ?_, fun scan hs => ?_⟩
      · rw [hattached, mem_flatMap] at ha
        obtain ⟨input, hi, ha⟩ := ha
        exact (hres input hi).1 a ha
      · rw [hopen, mem_flatMap] at hs
        obtain ⟨input, hi, hs⟩ := hs
        rw [hfilled, mem_flatMap]
        exact ((hres input hi).2 scan hs).imp id fun hf => ⟨input, hi, hf⟩

theorem withBlocks (h : AttachmentInv ctes out) (blocks : List PlannedBlock) :
    AttachmentInv ctes { out with blocks := blocks } :=
  ⟨h.scans_perm, h.body_of_entry, h.named, h.resolved⟩

theorem above {plan : Plan} (h : AttachmentInv ctes out) (hscan : plan.cteScan? = none)
    (hchildren : plan.children = [out.plan]) : AttachmentInv ctes { out with plan := plan } :=
  of_operator [out] hscan hchildren (by simp) (by simpa using h)

theorem combine {left right : Lowered} {plan : Plan} (hl : AttachmentInv ctes left)
    (hr : AttachmentInv ctes right) (hscan : plan.cteScan? = none)
    (hchildren : plan.children = [left.plan, right.plan]) :
    AttachmentInv ctes (.combine plan left right) :=
  of_operator [left, right] hscan hchildren (by simp [Lowered.combine]) (by simp [hl, hr])

theorem of_get (ctes : List VisibleCte) (scan : Get) : AttachmentInv ctes { plan := .get scan } :=
  of_operator [] rfl rfl rfl (by simp)

theorem of_cteScan {v : VisibleCte} (h : ctes.find? (·.name == name) = some v) (knownAs : Alias) :
    AttachmentInv ctes { plan := .cteScan (v.scan knownAs) } := by
  have hname : v.name = name := by simpa using find?_some h
  refine ⟨.nil, fun x hx => ?_, fun a ha => ?_, .inr ⟨fun a ha => ?_, fun scan hs => ?_⟩⟩
  · cases hx
  · cases ha
  · cases ha
  · rw [mem_singleton.mp hs]
    exact .inl ⟨v, by rw [VisibleCte.scan, hname]; exact h, rfl⟩

/-! ### One attachment -/

theorem find?_cons_of_ne {v : VisibleCte} (h : name ≠ v.name) :
    (v :: ctes).find? (·.name == name) = ctes.find? (·.name == name) :=
  find?_cons_of_neg (by simpa using fun he => h he.symm)

theorem resolved_outside {scan : CteScan} {filled : List (Oid × String)}
    (hentry : (entry.tableId, entry.name) ∈ filled)
    (h : (∃ v, (entry :: ctes).find? (·.name == scan.cte) = some v ∧ v.tableId = scan.tableId) ∨
      (scan.tableId, scan.cte) ∈ filled) :
    (∃ v, ctes.find? (·.name == scan.cte) = some v ∧ v.tableId = scan.tableId) ∨
      (scan.tableId, scan.cte) ∈ filled := by
  rcases h with ⟨v, hv, hid⟩ | h
  · by_cases hname : scan.cte = entry.name
    · rw [find?_cons_of_pos (by simpa using hname.symm)] at hv
      cases hv
      rw [← hid, hname]
      exact .inr hentry
    · rw [find?_cons_of_ne hname] at hv
      exact .inl ⟨v, hv, hid⟩
  · exact .inr h

theorem attach {body : Lowered} (hout : AttachmentInv (entry :: ctes) out)
    (hbody : AttachmentInv (if entry.recursive then entry :: ctes else ctes) body) :
    AttachmentInv ctes (out.attach entry body) := by
  rcases out.attach_cases entry body with ⟨hnone, heq⟩ | ⟨scan, plan, hfind, hplan, heq⟩
  · rw [heq]
    refine ⟨hout.scans_perm, hout.body_of_entry, hout.named, hout.resolved.imp id ?_⟩
    rintro ⟨hown, hres⟩
    refine ⟨hown, fun x hx => ?_⟩
    rw [← find?_cons_of_ne (Plan.attachCte_eq_none.mp hnone x (Plan.mem_openScans.mp hx))]
    exact hres x hx
  · rw [heq]
    obtain ⟨_, hfind', hopen, hperm, hbodies⟩ := Plan.attachCte_references hplan
    cases hfind.symm.trans hfind'
    have hname : scan.cte = entry.name := by simpa using find?_some hfind
    have hmem : scan ∈ out.plan.openScans := mem_of_find?_eq_some hfind
    have hfilled : plan.filledBy.Perm
        (out.plan.filledBy ++ (body.plan.filledBy ++ [(scan.tableId, scan.cte)])) := by
      have := hperm.map fun x => (x.tableId, x.cte)
      simpa [Plan.filledBy, Function.comp_def] using this
    refine ⟨?_, ?_, ?_, ?_⟩
    · simp only [map_append]
      exact hperm.trans (hout.scans_perm.append (hbody.scans_perm.append_right _))
    · intro x hx
      rcases hbodies x hx with rfl | hx | ⟨y, hy, hyx, hc⟩
      · exact ⟨⟨entry, body.plan, scan⟩, by simp, rfl, .refl _⟩
      · obtain ⟨a, ha, hax⟩ := hbody.body_of_entry x hx
        exact ⟨a, by simp [ha], hax⟩
      · obtain ⟨a, ha, hay, hc'⟩ := hout.body_of_entry y hy
        exact ⟨a, by simp [ha], hay.trans hyx, hc'.trans hc⟩
    · intro a ha
      simp only [mem_append, mem_singleton] at ha
      rcases ha with ha | ha | rfl
      · exact hout.named a ha
      · exact hbody.named a ha
      · exact hname
    · -- a doubled reference below stays doubled; otherwise the reference found is the entry's own, or
      -- it becomes doubled
      by_cases hd : plan.filledBy.Nodup
      · obtain ⟨hdOut, hdRest, hdisjoint⟩ := nodup_append.mp (hfilled.nodup_iff.mp hd)
        obtain ⟨hownOut, hresOut⟩ := hout.resolved.resolve_left (not_not.mpr hdOut)
        obtain ⟨hownBody, hresBody⟩ :=
          hbody.resolved.resolve_left (not_not.mpr (nodup_append.mp hdRest).1)
        have hown : scan.tableId = entry.tableId := by
          rcases hresOut scan hmem with ⟨v, hv, hid⟩ | hfull
          · rw [find?_cons_of_pos (by simpa using hname.symm)] at hv
            cases hv
            exact hid.symm
          · exact absurd rfl (hdisjoint _ hfull _ (by simp))
        have hentry : (entry.tableId, entry.name) ∈ plan.filledBy := by
          rw [hfilled.mem_iff, ← hown, ← hname]
          simp
        refine .inr ⟨fun a ha => ?_, fun x hx => ?_⟩
        · simp only [mem_append, mem_singleton] at ha
          rcases ha with ha | ha | rfl
          · exact hownOut a ha
          · exact hownBody a ha
          · exact hown
        · rcases hopen x hx with hx | hx
          · refine resolved_outside hentry ((hresOut x hx).imp id fun hf => ?_)
            exact hfilled.mem_iff.mpr (mem_append_left _ hf)
          · have hx := (hresBody x hx).imp id fun hf => hfilled.mem_iff.mpr
              (mem_append_right _ (mem_append_left _ hf))
            cases hrec : entry.recursive with
            | true =>
              rw [hrec] at hx
              exact resolved_outside hentry hx
            | false =>
              rw [hrec] at hx
              exact hx
      · exact .inl hd

end AttachmentInv

/-! ### A whole run -/

/-- The plans of a WITH list, each under the entries in force around it. -/
inductive EntriesInv : List VisibleCte → List (VisibleCte × Lowered) → List VisibleCte → Prop where
  | nil {ctes} : EntriesInv ctes [] ctes
  | cons {ctes v body bodies after} :
    AttachmentInv (if v.recursive then v :: ctes else ctes) body →
    EntriesInv (v :: ctes) bodies after →
    EntriesInv ctes ((v, body) :: bodies) after

theorem AttachmentInv.attachAll {ctes after : List VisibleCte}
    {bodies : List (VisibleCte × Lowered)} (hbodies : EntriesInv ctes bodies after)
    (hout : AttachmentInv after out) : AttachmentInv ctes (out.attachAll bodies) := by
  induction hbodies with
  | nil => exact hout
  | cons hbody _ ih => exact (ih hout).attach hbody

/-- What the invariant says of a step of the building. -/
def LowerTask.AttachmentInv : LowerTask → Prop
  | .query ctes _ _ _ out | .block ctes _ _ out | .from_ ctes _ _ out | .source ctes _ _ out =>
    SqlAnalysis.AttachmentInv ctes out
  | .entries ctes _ _ bodies after => EntriesInv ctes bodies after
  | .sources ctes _ input _ out | .where_ ctes _ _ input out | .conjuncts ctes _ _ input out =>
    SqlAnalysis.AttachmentInv ctes input → SqlAnalysis.AttachmentInv ctes out

theorem Lowers.attachmentInv (h : Lowers env task s s') : task.AttachmentInv := by
  induction h with
  | entriesNil => exact .nil
  | entriesCons hv _ _ ihbody ihrest =>
    have hrec := congrArg VisibleCte.recursive (visibleCte_run hv).1
    refine .cons ?_ ihrest
    rw [hrec]
    exact ihbody
  | queryAlone _ _ _ ihentries ihblock => exact ihblock.attachAll ihentries
  | queryUnion _ _ _ _ ihentries ihblock ihright =>
    exact (ihblock.combine ihright rfl rfl).attachAll ihentries
  | @block ctes _ q _ _ filtered _ _ _ _ _ _ _ _ hagg hlimit ihfrom ihwhere =>
    refine finish_keeps hagg hlimit
      (fun plan => SqlAnalysis.AttachmentInv ctes
        { plan := plan, blocks := _, attached := filtered.attached }) ?_ ?_ ?_ ?_
    · exact (ihwhere ihfrom).withBlocks _
    · exact fun _ _ h => h.above rfl rfl
    · exact fun _ _ _ _ _ _ h => h.above rfl rfl
    · exact fun _ _ _ _ h => h.above rfl rfl
  | fromNone => exact .of_get _ _
  | fromSome _ ih => exact ih
  | table h =>
    rcases lowerBaseTable_ok h with ⟨v, _, hv, rfl⟩ | ⟨table, _, _, rfl⟩
    · exact .of_cteScan hv _
    · exact .of_get _ _
  | derived _ ih => exact ih.above rfl rfl
  | join _ _ _ ihl ihr => exact ihl.combine ihr rfl rfl
  | list _ _ ihfirst ihrest => exact ihrest ihfirst
  | sourcesCons _ _ ihitem ihrest => exact fun hinput => ihrest (hinput.combine ihitem rfl rfl)
  | whereSome _ ih => exact fun hinput => (ih hinput).above rfl rfl
  | conjunctsPlain _ _ ih => exact ih
  | conjunctsJoin _ _ _ _ _ _ _ _ ihright ihrest =>
    exact fun hinput => ihrest (hinput.combine ihright rfl rfl)
  | _ => exact id

/-! ### Numbers of entries -/

theorem Oid.temp_of_lt (h : n < tempMark) : temp n = tempMark + n := by
  have := Nat.two_pow_add_eq_or_of_lt (i := 31) h 1
  rw [temp, Nat.or_comm]
  simpa [tempMark] using this.symm

theorem Oid.temp_injOn {m : Nat} (hn : n < tempMark) (hm : m < tempMark) (h : temp n = temp m) :
    n = m := by
  rw [temp_of_lt hn, temp_of_lt hm] at h
  exact Nat.add_left_cancel h

/-- The entries attached by different attachments have different serial numbers, all of them between
two bounds. -/
def Numbered (lo hi : Nat) (l : List Attachment) : Prop :=
  ∃ serials : List Nat, l.map (·.entry.tableId) = serials.map Oid.temp ∧ serials.Nodup ∧
    ∀ n ∈ serials, lo ≤ n ∧ n < hi

namespace Numbered

variable {lo mid hi : Nat} {l l' : List Attachment}

theorem nil (lo hi : Nat) : Numbered lo hi [] := ⟨[], rfl, .nil, by simp⟩

theorem singleton {a : Attachment} (h : a.entry.tableId = Oid.temp n) : Numbered n (n + 1) [a] :=
  ⟨[n], by simp [h], by simp, by simp⟩

theorem mono (h : Numbered mid hi l) (hlo : lo ≤ mid) : Numbered lo hi l := by
  obtain ⟨ns, hl, hn, hb⟩ := h
  exact ⟨ns, hl, hn, fun n hm => ⟨Nat.le_trans hlo (hb n hm).1, (hb n hm).2⟩⟩

theorem append (h : Numbered lo mid l) (h' : Numbered mid hi l') (hlo : lo ≤ mid) (hhi : mid ≤ hi) :
    Numbered lo hi (l ++ l') := by
  obtain ⟨ns, hl, hn, hb⟩ := h
  obtain ⟨ns', hl', hn', hb'⟩ := h'
  refine ⟨ns ++ ns', by rw [map_append, map_append, hl, hl'], ?_, ?_⟩
  · refine nodup_append.mpr ⟨hn, hn', fun n hm m hm' => ?_⟩
    have := hb n hm
    have := hb' m hm'
    omega
  · intro n hm
    rcases mem_append.mp hm with hm | hm
    · have := hb n hm
      omega
    · have := hb' n hm
      omega

theorem swap (h : Numbered lo hi (l ++ l')) : Numbered lo hi (l' ++ l) := by
  obtain ⟨_, hl, hn, hb⟩ := h
  rw [map_append] at hl
  obtain ⟨ms, ms', rfl, hms, hms'⟩ := map_eq_append_iff.mp hl.symm
  refine ⟨ms' ++ ms, by rw [map_append, map_append, hms, hms'], ?_, ?_⟩
  · exact perm_append_comm.nodup_iff.mp hn
  · exact fun n hm => hb n (perm_append_comm.mem_iff.mp hm)

theorem nodup (h : Numbered lo hi l) (hhi : hi ≤ Oid.tempMark) :
    (l.map (·.entry.tableId)).Nodup := by
  obtain ⟨ns, hl, hn, hb⟩ := h
  rw [hl]
  refine Nodup.map_on (fun n hm m hm' heq => ?_) hn
  have := (hb n hm).2
  have := (hb m hm').2
  exact Oid.temp_injOn (by omega) (by omega) heq

end Numbered

/-- What is said of the numbers of the entries attached in a step of the building. -/
def LowerTask.Numbered (lo hi : Nat) : LowerTask → Prop
  | .query _ _ _ _ out | .block _ _ _ out | .from_ _ _ _ out | .source _ _ _ out =>
    SqlAnalysis.Numbered lo hi out.attached
  | .entries _ _ _ bodies _ =>
    ∀ out : Lowered, ∀ top, hi ≤ top → SqlAnalysis.Numbered hi top out.attached →
      SqlAnalysis.Numbered lo top (out.attachAll bodies).attached
  | .sources _ _ input _ out | .where_ _ _ _ input out | .conjuncts _ _ _ input out =>
    ∃ added, out.attached = input.attached ++ added ∧ SqlAnalysis.Numbered lo hi added

theorem Lowers.numbered (h : Lowers env task s s') :
    s.nextTemp ≤ s'.nextTemp ∧ task.Numbered s.nextTemp s'.nextTemp := by
  induction h with
  | entriesNil => exact ⟨Nat.le_refl _, fun _ _ _ h => h⟩
  | @entriesCons ctes own c cs v body bodies after s s1 s2 s3 hv _ _ ihbody ihrest =>
    obtain ⟨hentry, rfl⟩ := visibleCte_run hv
    have hid : v.tableId = Oid.temp s.nextTemp := congrArg VisibleCte.tableId hentry
    obtain ⟨hle, hbody⟩ := ihbody
    obtain ⟨hle', hrest⟩ := ihrest
    dsimp only at hle hbody
    refine ⟨by omega, fun out top htop hout => ?_⟩
    have hlater := hrest out top htop hout
    rw [Lowered.attachAll, foldr_cons, ← Lowered.attachAll]
    rcases Lowered.attach_cases (out.attachAll bodies) v body with
      ⟨_, heq⟩ | ⟨scan, plan, _, _, heq⟩
    · rw [heq]
      exact hlater.mono (by omega)
    · rw [heq]
      have hown : SqlAnalysis.Numbered s.nextTemp _ ([⟨v, body.plan, scan⟩] ++ body.attached) :=
        (Numbered.singleton hid).append hbody (by omega) hle
      exact (hown.swap.append hlater (by omega) (by omega)).swap
  | queryAlone _ _ _ ihentries ihblock =>
    exact ⟨by omega, ihentries.2 _ _ ihblock.1 ihblock.2⟩
  | queryUnion _ _ _ _ ihentries ihblock ihright =>
    refine ⟨by omega, ihentries.2 _ _ (by omega) ?_⟩
    exact ihblock.2.append ihright.2 ihblock.1 ihright.1
  | block _ _ _ hagg hlimit ihfrom ihwhere =>
    obtain ⟨added, heq, hadded⟩ := ihwhere.2
    refine ⟨by omega, ?_⟩
    show SqlAnalysis.Numbered _ _ _
    rw [heq]
    exact ihfrom.2.append hadded ihfrom.1 ihwhere.1
  | fromNone | table => exact ⟨Nat.le_refl _, .nil _ _⟩
  | fromSome _ ih | derived _ ih | whereSome _ ih | conjunctsPlain _ _ ih => exact ih
  | join _ _ _ ihl ihr => exact ⟨by omega, ihl.2.append ihr.2 ihl.1 ihr.1⟩
  | list _ _ ihfirst ihrest =>
    obtain ⟨added, heq, hadded⟩ := ihrest.2
    refine ⟨by omega, ?_⟩
    show SqlAnalysis.Numbered _ _ _
    rw [heq]
    exact ihfirst.2.append hadded ihfirst.1 ihrest.1
  | sourcesCons _ _ ihitem ihrest =>
    obtain ⟨added, heq, hadded⟩ := ihrest.2
    refine ⟨by omega, _, ?_, ihitem.2.append hadded ihitem.1 ihrest.1⟩
    rw [heq, Lowered.combine, append_assoc]
  | conjunctsJoin _ _ _ _ _ _ _ _ ihright ihrest =>
    obtain ⟨added, heq, hadded⟩ := ihrest.2
    refine ⟨Nat.le_trans ihright.1 ihrest.1, _, ?_, ihright.2.append hadded ihright.1 ihrest.1⟩
    rw [heq, Lowered.combine, append_assoc]
  | _ => exact ⟨Nat.le_refl _, [], by simp, .nil _ _⟩

/-! ### Supplied references -/

theorem AttachmentInv.tableIds_perm {ctes : List VisibleCte} (h : AttachmentInv ctes out) :
    (out.plan.bodies.map (·.1.tableId)).Perm (out.attached.map (·.scan.tableId)) := by
  have := h.scans_perm.map (·.tableId)
  rwa [map_map, map_map] at this

theorem Lowered.AttachedToOwn.tableIds (h : out.AttachedToOwn) :
    out.attached.map (·.scan.tableId) = out.attached.map (·.entry.tableId) :=
  map_congr_left h

theorem Plan.filledBy_nodup_of_tableIds (h : (p.bodies.map (·.1.tableId)).Nodup) :
    p.filledBy.Nodup := by
  refine Nodup.of_map Prod.fst ?_
  rwa [Plan.filledBy, map_map]

theorem Plan.filledBy_nodup_of_names (h : (p.bodies.map (·.1.cte)).Nodup) : p.filledBy.Nodup := by
  refine Nodup.of_map Prod.snd ?_
  rwa [Plan.filledBy, map_map]

theorem Plan.count_tableIds (p : Plan) (id : Oid) :
    (p.bodies.map (·.1.tableId)).count id = (p.bodiesOf id).length := by
  rw [count, countP_map, countP_eq_length_filter, Plan.bodiesOf, length_map]
  rfl

theorem Lowered.nodup_of_suppliedOnce
    (h : ∀ scan ∈ out.plan.cteScans, out.SuppliedOnce scan.tableId) :
    (out.plan.bodies.map (·.1.tableId)).Nodup := by
  refine nodup_iff_count_le_one.mpr fun id => ?_
  by_cases hid : id ∈ out.plan.bodies.map (·.1.tableId)
  · obtain ⟨x, hx, rfl⟩ := mem_map.mp hid
    obtain ⟨_, hone, _⟩ := h x.1 (Plan.mem_cteScans.mpr (.inr ⟨x.2, hx⟩))
    rw [Plan.count_tableIds, hone]
    exact Nat.le_refl 1
  · rw [count_eq_zero.mpr hid]
    exact Nat.zero_le 1

theorem AttachmentInv.suppliedOnce {ctes : List VisibleCte} (h : AttachmentInv ctes out)
    (hown : out.AttachedToOwn) (hnodup : (out.plan.bodies.map (·.1.tableId)).Nodup)
    {x : CteScan × Plan} (hx : x ∈ out.plan.bodies) : out.SuppliedOnce x.1.tableId := by
  have hcount : (out.plan.bodiesOf x.1.tableId).length = 1 := by
    rw [← Plan.count_tableIds]
    exact count_eq_one_of_mem hnodup (mem_map_of_mem hx)
  obtain ⟨input, hinput⟩ := length_eq_one_iff.mp hcount
  have hmem : x.2 ∈ out.plan.bodiesOf x.1.tableId :=
    mem_map_of_mem (mem_filter.mpr ⟨hx, by simp⟩)
  rw [hinput, mem_singleton] at hmem
  obtain ⟨a, ha, hscan, hc⟩ := h.body_of_entry x hx
  exact ⟨input, hinput, a, ha, by rw [← hown a ha, hscan], hmem ▸ hc⟩

theorem AttachmentInv.attachedToOwn_of_names {ctes : List VisibleCte} (h : AttachmentInv ctes out)
    (hnames : (out.attached.map (·.entry.name)).Nodup) : out.AttachedToOwn := by
  refine (h.resolved.resolve_left (not_not.mpr (Plan.filledBy_nodup_of_names ?_))).1
  have hperm := h.scans_perm.map (·.cte)
  rw [map_map, map_map] at hperm
  refine hperm.nodup_iff.mpr ?_
  rwa [map_congr_left (g := fun a => a.entry.name) h.named]

theorem AttachmentInv.suppliedOnce_iff (h : AttachmentInv [] out) :
    (∀ scan ∈ out.plan.cteScans, out.SuppliedOnce scan.tableId) ↔
      out.AttachedToOwn ∧ (out.attached.map (·.entry.tableId)).Nodup := by
  constructor
  · intro hsupplied
    have hnodup := Lowered.nodup_of_suppliedOnce hsupplied
    have hown := (h.resolved.resolve_left
      (not_not.mpr (Plan.filledBy_nodup_of_tableIds hnodup))).1
    exact ⟨hown, hown.tableIds ▸ h.tableIds_perm.nodup_iff.mp hnodup⟩
  · rintro ⟨hown, hids⟩ scan hscan
    have hnodup := h.tableIds_perm.nodup_iff.mpr (hown.tableIds ▸ hids)
    have hopen := (h.resolved.resolve_left
      (not_not.mpr (Plan.filledBy_nodup_of_tableIds hnodup))).2
    rcases Plan.mem_cteScans.mp hscan with hscan | ⟨input, hbody⟩
    · -- no entry is in force around the whole plan
      rcases hopen scan hscan with ⟨v, hv, _⟩ | hfilled
      · cases hv
      · obtain ⟨_, hx, hpair⟩ := mem_map.mp hfilled
        rw [← (Prod.mk.inj hpair).1]
        exact h.suppliedOnce hown hnodup hx
    · exact h.suppliedOnce hown hnodup hbody

/-- **Plans of WITH entries are attached once, and to the right entry, exactly if no reference to
another entry of the same name is in the way.**  Then every number on a reference is supplied once.
The numbers of the attached entries are different as long as the counter is below the mark of
statement-local numbers, and no reference is in the way if the attached entries have different
names. -/
theorem select_suppliedOnce_iff {env : Accessor} {b : Bound} {q : Select} {plan : Plan}
    (hq : b.statement = .select q) (h : (lower env b).result = .ok plan) :
    (∃ out, Derives env b q out) ∧ ∀ out, Derives env b q out →
      ((∀ scan ∈ plan.cteScans, out.SuppliedOnce scan.tableId) ↔
        out.AttachedToOwn ∧ (out.attached.map (·.entry.tableId)).Nodup) ∧
      ((lower env b).nextTemp ≤ Oid.tempMark → (out.attached.map (·.entry.tableId)).Nodup) ∧
      ((out.attached.map (·.entry.name)).Nodup → out.AttachedToOwn) := by
  refine ⟨exists_derives hq h, fun out hd => ?_⟩
  have hinv : AttachmentInv [] out := hd.lowers.attachmentInv
  have hplan : out.plan = plan := Except.ok.inj (hd.result.symm.trans h)
  refine ⟨hplan ▸ hinv.suppliedOnce_iff, hd.lowers.numbered.2.nodup, hinv.attachedToOwn_of_names⟩

/-- `WITH c(a) AS (SELECT 1) SELECT z.a FROM (WITH c(a) AS (SELECT 2) SELECT x.a FROM c x, c y) d, c z` -/
def reusedName : Parsed :=
  { statement := .select
      { ctes := [{ name := "c", columns := [{ name := "a" }], query := { items := [0] } }]
        items := [1]
        source := some (.list
          [ .derived
              { ctes := [{ name := "c", columns := [{ name := "a" }], query := { items := [2] } }]
                items := [3]
                source := some (.list
                  [ .table (.named "c" "x"),
                    .table (.named "c" "y") ]) }
              { name := "d" },
            .table (.named "c" "z") ]) }
    exprs := .ofExprs [
      .constant (.integral .regular 1 rfl),
      .columnOf "z" "a",
      .constant (.integral .regular 2 rfl),
      .columnOf "x" "a"] }

theorem reusedName_suppliedOnce_iff :
    ∃ env b q tree, (bind .initial reusedName []).result = .ok b ∧ b.statement = .select q ∧
      (lower env b).result = .ok tree ∧ (∃ out, Derives env b q out) ∧ ∀ out, Derives env b q out →
        ((∀ scan ∈ tree.cteScans, out.SuppliedOnce scan.tableId) ↔
          out.AttachedToOwn ∧ (out.attached.map (·.entry.tableId)).Nodup) := by
  obtain ⟨b, q, tree, hb, hq, htree⟩ :=
    exists_of_isPlannedSelect (show isPlannedSelect .initial reusedName = true by decide +kernel)
  have hiff := select_suppliedOnce_iff hq htree
  exact ⟨_, b, q, tree, hb, hq, htree, hiff.1, fun out hd => (hiff.2 out hd).1⟩

/-- The inner entry's second reference gets the plan of the outer entry, whose own reference stays
without one. -/
theorem reusedName_not_suppliedOnce :
    ∃ bound tree, planned? .initial reusedName = some (bound, tree) ∧
      (tree.cteScans.map fun scan => (scan.knownAs.name, (tree.bodiesOf scan.tableId).length)) =
        [("x", 2), ("y", 2), ("z", 0)] ∧
      ¬∀ scan ∈ tree.cteScans, ∃ input, tree.bodiesOf scan.tableId = [input] := by
  have hcounts : (planned? .initial reusedName).map (fun x => x.2.cteScans.map fun scan =>
      (scan.knownAs.name, (x.2.bodiesOf scan.tableId).length)) =
        some [("x", 2), ("y", 2), ("z", 0)] := by decide +kernel
  obtain ⟨⟨bound, tree⟩, hplanned, hcounts⟩ := Option.map_eq_some_iff.mp hcounts
  refine ⟨bound, tree, hplanned, hcounts, fun h => ?_⟩
  have hmem : ("z", 0) ∈ [("x", 2), ("y", 2), ("z", 0)] := by simp
  rw [← hcounts] at hmem
  obtain ⟨scan, hscan, hpair⟩ := mem_map.mp hmem
  obtain ⟨input, hinput⟩ := h scan hscan
  simp [hinput] at hpair

end SqlAnalysis
