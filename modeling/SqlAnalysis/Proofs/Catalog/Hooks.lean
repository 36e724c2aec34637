import Mathlib.Data.List.TakeWhile
import SqlAnalysis.Session

/-!
# Hooks of a transaction

A transaction is used by calls that register hooks, forbid it to commit, plan statements under it or
end it.  Which hooks run is decided by its first end.

* **`hooks_run_once`**: only the first end succeeds, and just the labels due then are announced.
-/

namespace SqlAnalysis

open List

/-- A call on a transaction of a session. -/
inductive Call where
  | onCommit (label : String)
  | onAbort (label : String)
  | forbidCommit
  | plan (p : Parsed) (parameters : List Value)
  | commit
  | abort

namespace Call

/-- Whether the call is to end the transaction. -/
def ends : Call → Bool
  | .commit | .abort => true
  | _ => false

def commits : Call → Bool
  | .commit => true
  | _ => false

def committed? : Call → Option String
  | .onCommit label => some label
  | _ => none

def aborted? : Call → Option String
  | .onAbort label => some label
  | _ => none

end Call

namespace Session

variable {s : Session} {who : String} {t : Transaction}

def perform (s : Session) (who : String) : Call → Session
  | .onCommit label => s.modifyTransaction who (·.addOnCommit (.announce label))
  | .onAbort label => s.modifyTransaction who (·.addOnAbort (.announce label))
  | .forbidCommit => s.modifyTransaction who (·.setMustAbort)
  | .plan p parameters => (s.plan who p parameters).2.2
  | .commit => (s.commit who).2
  | .abort => (s.abort who).2

/-- The session after some calls on the transaction of a name. -/
def performAll (s : Session) (who : String) (calls : List Call) : Session :=
  calls.foldl (fun s x => s.perform who x) s

/-- What a call to end the transaction answers. -/
def ending? (s : Session) (who : String) : Call → Option (Except Diagnostic TransactionState)
  | .commit => some (s.commit who).1
  | .abort => some (s.abort who).1
  | _ => none

/-- Whether the transaction can no longer commit after a call: one that forbids it, or a failure to plan
a statement that defines or drops an object. -/
def dooms (s : Session) : Call → Bool
  | .forbidCommit => true
  | .plan p parameters =>
    p.statement.isDefinition &&
      match s.accessor with
      | .ok env => !(SqlAnalysis.plan s.settings env p parameters).result.isOk
      | .error _ => false
  | _ => false

def doomed (s : Session) (who : String) : List Call → Bool
  | [] => false
  | x :: calls => s.dooms x || (s.perform who x).doomed who calls

/-- The labels that are announced in the course of some calls: those registered for the way in which
the transaction ends first, as far as they are registered before it. -/
def labelsDue (s : Session) (who : String) (calls : List Call) : List String :=
  let before := calls.takeWhile (!·.ends)
  match calls.find? (·.ends) with
  | none => []
  | some last =>
    if last.commits && !s.doomed who before then before.filterMap (·.committed?)
    else before.filterMap (·.aborted?)

/-! ### Single calls -/

@[simp] theorem transaction_setTransaction (s : Session) (who : String) (t : Transaction) :
    (s.setTransaction who t).transaction who = t := by
  rw [transaction, setTransaction, Keyed.find?_insert, if_pos rfl, Option.getD_some]

theorem plan_dooms (settings : Settings) (env : Accessor) (p : Parsed) (parameters : List Value) :
    (SqlAnalysis.plan settings env p parameters).dooms =
      (p.statement.isDefinition && !(SqlAnalysis.plan settings env p parameters).result.isOk) := by
  have hfailed (fault : Fault) (n : Nat) (values : List Value) :
      (failedPlan settings p.statement fault values n).dooms =
        (p.statement.isDefinition && !(failedPlan settings p.statement fault values n).result.isOk) := by
    unfold failedPlan
    split
    · exact (Bool.and_false _).symm
    · exact (Bool.and_true _).symm
  unfold SqlAnalysis.plan
  dsimp only
  split
  · exact hfailed ..
  · split
    · exact hfailed ..
    · exact (Bool.and_false _).symm

theorem perform_plan (s : Session) (who : String) (p : Parsed) (parameters : List Value) :
    (s.perform who (.plan p parameters)).announced = s.announced ∧
      (s.perform who (.plan p parameters)).transactions =
        if s.dooms (.plan p parameters) then
          s.transactions.insert who (s.transaction who).setMustAbort
        else s.transactions := by
  rw [perform, plan, dooms]
  cases s.accessor with
  | error => exact ⟨rfl, by rw [Bool.and_false]; rfl⟩
  | ok env =>
    dsimp only
    rw [← plan_dooms]
    cases (SqlAnalysis.plan s.settings env p parameters).dooms <;>
      rcases (SqlAnalysis.plan s.settings env p parameters).result with fault | ⟨bound, tree⟩ | text <;>
      exact ⟨rfl, rfl⟩

theorem perform_open {x : Call} (hx : x.ends = false) (s : Session) (who : String) :
    (s.perform who x).announced = s.announced ∧
      (s.perform who x).transaction who =
        { s.transaction who with
          mustAbort := (s.transaction who).mustAbort || s.dooms x
          onCommit := (s.transaction who).onCommit ++ x.committed?.toList.map .announce
          onAbort := (s.transaction who).onAbort ++ x.aborted?.toList.map .announce } := by
  cases x with
  | commit | abort => cases hx
  | onCommit label | onAbort label | forbidCommit =>
    refine ⟨rfl, ?_⟩
    rw [perform, modifyTransaction, transaction_setTransaction]
    simp [dooms, Call.committed?, Call.aborted?, Transaction.addOnCommit, Transaction.addOnAbort,
      Transaction.setMustAbort]
  | plan p parameters =>
    obtain ⟨hannounced, htransactions⟩ := perform_plan s who p parameters
    refine ⟨hannounced, ?_⟩
    rw [transaction, htransactions]
    cases s.dooms (.plan p parameters) with
    | false => simp [Call.committed?, Call.aborted?, transaction]
    | true => simp [Keyed.find?_insert, Call.committed?, Call.aborted?, Transaction.setMustAbort]

theorem perform_ended (hended : (s.transaction who).state ≠ .active) (x : Call) :
    (s.perform who x).announced = s.announced ∧
      ((s.perform who x).transaction who).state = (s.transaction who).state ∧
      ∀ answer ∈ s.ending? who x, answer.isOk = false := by
  by_cases hx : x.ends = false
  · obtain ⟨hannounced, htransaction⟩ := perform_open hx s who
    refine ⟨hannounced, by rw [htransaction], fun answer hanswer => ?_⟩
    cases x with
    | commit | abort => cases hx
    | _ => cases hanswer
  · have hfinish (outcome : TransactionState) :
        (s.transaction who).finish outcome = .error _ := if_neg hended
    cases x with
    | commit =>
      rw [perform, ending?, commit, Transaction.commit, hfinish]
      exact ⟨rfl, rfl, fun _ hanswer => Option.mem_some.mp hanswer ▸ rfl⟩
    | abort =>
      rw [perform, ending?, abort, Transaction.abort, hfinish]
      exact ⟨rfl, rfl, fun _ hanswer => Option.mem_some.mp hanswer ▸ rfl⟩
    | _ => exact (hx rfl).elim

theorem foldl_announce (labels : List String) (s : Session) :
    (labels.map Hook.announce).foldl runHook s = { s with announced := s.announced ++ labels } := by
  induction labels generalizing s with
  | nil => simp
  | cons _ _ ih => simp [foldl_cons, runHook, ih]

theorem perform_first {x : Call} (hx : x.ends = true) (hactive : (s.transaction who).state = .active)
    {commits aborts : List String} (hcommits : (s.transaction who).onCommit = commits.map .announce)
    (haborts : (s.transaction who).onAbort = aborts.map .announce) :
    (s.perform who x).announced = s.announced ++
        (if x.commits && !(s.transaction who).mustAbort then commits else aborts) ∧
      ((s.perform who x).transaction who).state ≠ .active ∧
      ∀ answer ∈ s.ending? who x, answer.isOk = true := by
  have hfinish (outcome : TransactionState) (hne : outcome ≠ .active) :
      (s.settle who ((s.transaction who).finish outcome)).1.isOk = true ∧
        (s.settle who ((s.transaction who).finish outcome)).2.announced = s.announced ++
          (if outcome = .committed then commits else aborts) ∧
        ((s.settle who ((s.transaction who).finish outcome)).2.transaction who).state ≠ .active := by
    rw [Transaction.finish, if_pos hactive, hcommits, haborts, settle, ← apply_ite (map Hook.announce),
      foldl_announce]
    refine ⟨rfl, rfl, ?_⟩
    show ((s.setTransaction who _).transaction who).state ≠ .active
    rw [transaction_setTransaction]
    exact hne
  cases x with
  | commit =>
    rw [perform, ending?, commit, Transaction.commit]
    cases (s.transaction who).mustAbort with
    | true =>
      obtain ⟨hok, hannounced, hstate⟩ := hfinish .aborted (by decide)
      exact ⟨hannounced, hstate, fun _ hanswer => Option.mem_some.mp hanswer ▸ hok⟩
    | false =>
      obtain ⟨hok, hannounced, hstate⟩ := hfinish .committed (by decide)
      exact ⟨hannounced, hstate, fun _ hanswer => Option.mem_some.mp hanswer ▸ hok⟩
  | abort =>
    obtain ⟨hok, hannounced, hstate⟩ := hfinish .aborted (by decide)
    exact ⟨hannounced, hstate, fun _ hanswer => Option.mem_some.mp hanswer ▸ hok⟩
  | _ => cases hx

/-! ### Sequences of calls -/

theorem performAll_open {calls : List Call} (hcalls : ∀ x ∈ calls, x.ends = false) (s : Session)
    (who : String) :
    (s.performAll who calls).announced = s.announced ∧
      (s.performAll who calls).transaction who =
        { s.transaction who with
          mustAbort := (s.transaction who).mustAbort || s.doomed who calls
          onCommit := (s.transaction who).onCommit ++ (calls.filterMap (·.committed?)).map .announce
          onAbort := (s.transaction who).onAbort ++ (calls.filterMap (·.aborted?)).map .announce } := by
  induction calls generalizing s with
  | nil => simp [performAll, doomed]
  | cons x calls ih =>
    obtain ⟨hx, hcalls⟩ := forall_mem_cons.mp hcalls
    obtain ⟨hannounced, htransaction⟩ := perform_open hx s who
    obtain ⟨hannounced', htransaction'⟩ := ih hcalls (s.perform who x)
    refine ⟨hannounced'.trans hannounced, ?_⟩
    rw [show s.performAll who (x :: calls) = (s.perform who x).performAll who calls from rfl,
      htransaction', htransaction, doomed]
    cases hcommit : x.committed? <;> cases habort : x.aborted? <;>
      simp [hcommit, habort, Bool.or_assoc]

theorem performAll_ended (hended : (s.transaction who).state ≠ .active) (calls : List Call) :
    (s.performAll who calls).announced = s.announced ∧
      ((s.performAll who calls).transaction who).state ≠ .active := by
  induction calls generalizing s with
  | nil => exact ⟨rfl, hended⟩
  | cons x _ ih =>
    obtain ⟨hannounced, hstate, _⟩ := perform_ended hended x
    obtain ⟨hannounced', hstate'⟩ := ih (hstate ▸ hended)
    exact ⟨hannounced'.trans hannounced, hstate'⟩

theorem performAll_begin {before : List Call} (hbefore : ∀ x ∈ before, x.ends = false) {last : Call}
    (hlast : last.ends = true) (s : Session) (who id : String) (after : List Call) :
    ((s.begin who id).performAll who (before ++ last :: after)).announced = s.announced ++
        (if last.commits && !(s.begin who id).doomed who before then before.filterMap (·.committed?)
          else before.filterMap (·.aborted?)) ∧
      (((s.begin who id).performAll who (before ++ last :: after)).transaction who).state ≠ .active ∧
      ∀ answer ∈ ((s.begin who id).performAll who before).ending? who last, answer.isOk = true := by
  obtain ⟨hannounced, htransaction⟩ := performAll_open hbefore (s.begin who id) who
  rw [show (s.begin who id).transaction who = { id := id } from transaction_setTransaction ..,
    Bool.false_or, nil_append, nil_append] at htransaction
  obtain ⟨hannounced', hstate, hanswer⟩ := perform_first hlast (congrArg Transaction.state htransaction)
    (congrArg Transaction.onCommit htransaction) (congrArg Transaction.onAbort htransaction)
  obtain ⟨hannounced'', hstate'⟩ := performAll_ended hstate after
  rw [hannounced, htransaction] at hannounced'
  rw [performAll, foldl_append]
  exact ⟨hannounced''.trans hannounced', hstate', hanswer⟩

end Session

open Session in
/-- For every sequence of calls on a new transaction: the labels that are announced are those registered
before its first end, in order and each once, for a commit if the first end is a commit and no call
before it dooms the transaction, and else for an abort.  A call to end the transaction succeeds exactly
if it is the first one.  Planning changes nothing about it unless it fails for a statement that defines
or drops an object. -/
theorem hooks_run_once (s : Session) (who id : String) (calls : List Call) :
    ((s.begin who id).performAll who calls).announced =
        s.announced ++ (s.begin who id).labelsDue who calls ∧
      (∀ before x after, calls = before ++ x :: after →
        ∀ answer ∈ ((s.begin who id).performAll who before).ending? who x,
          answer.isOk = before.all (!·.ends)) ∧
      ∀ (s' : Session) (p : Parsed) (parameters : List Value),
        (p.statement.isDefinition = false ∨ (s'.plan who p parameters).1.isOk = true) →
        (s'.perform who (.plan p parameters)).transactions = s'.transactions := by
  have hsplit (calls : List Call) : (calls.find? (·.ends) = none ∧ ∀ x ∈ calls, x.ends = false) ∨
      ∃ before last after, calls = before ++ last :: after ∧ calls.find? (·.ends) = some last ∧
        last.ends = true ∧ (∀ x ∈ before, x.ends = false) ∧ calls.takeWhile (!·.ends) = before := by
    cases hfind : calls.find? (·.ends) with
    | none => exact .inl ⟨rfl, fun x hx => Bool.eq_false_iff.mpr (find?_eq_none.mp hfind x hx)⟩
    | some last =>
      obtain ⟨hlast, before, after, rfl, hbefore⟩ := find?_eq_some_iff_append.mp hfind
      refine .inr ⟨before, last, after, rfl, rfl, hlast, fun x hx => ?_, ?_⟩
      · exact Bool.not_eq_eq_eq_not.mp (hbefore x hx)
      · rw [takeWhile_append_of_pos hbefore, takeWhile_cons_of_neg (by rw [hlast]; decide),
          append_nil]
  refine ⟨?_, fun before x after _ answer hanswer => ?_, fun s' p parameters hplan => ?_⟩
  · rw [labelsDue]
    rcases hsplit calls with ⟨hnone, hopen⟩ | ⟨before, last, after, rfl, hsome, hlast, hopen, htake⟩
    · rw [hnone]
      exact (performAll_open hopen _ _).1.trans (append_nil _).symm
    · rw [hsome, htake]
      exact (performAll_begin hopen hlast s who id after).1
  · by_cases hx : x.ends = true
    · rcases hsplit before with ⟨_, hopen⟩ | ⟨first, last, rest, rfl, _, hlast, hopen, _⟩
      · rw [(performAll_begin hopen hx s who id []).2.2 answer hanswer]
        exact (all_eq_true.mpr fun y hy => by rw [hopen y hy]; rfl).symm
      · rw [(perform_ended (performAll_begin hopen hlast s who id rest).2.1 x).2.2 answer hanswer]
        simp [hlast]
    · cases x with
      | commit | abort => exact (hx rfl).elim
      | _ => cases hanswer
  · rw [(perform_plan s' who p parameters).2]
    refine if_neg (Bool.eq_false_iff.mp ?_)
    rw [dooms]
    rcases hplan with hplain | hok
    · rw [hplain, Bool.false_and]
    · rw [Session.plan] at hok
      cases hacc : s'.accessor with
      | error => exact Bool.and_false _
      | ok env =>
        rw [hacc] at hok
        dsimp only at hok ⊢
        rcases hresult : (SqlAnalysis.plan s'.settings env p parameters).result with fault | planned
        · rw [hresult] at hok
          cases hok
        · exact Bool.and_false _

end SqlAnalysis
