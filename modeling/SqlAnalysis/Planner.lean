import SqlAnalysis.Binding.Statement
import SqlAnalysis.Plan.Statement
import SqlAnalysis.Settings.Basic

/-!
# Planning
-/

namespace SqlAnalysis

/-- What planning a statement gives. -/
inductive Planned where
  /-- A bound statement, as the building of its plan leaves it, and the plan. -/
  | plan (bound : Bound) (plan : Plan)
  /-- Nothing to do; the client is told why. -/
  | notice (text : String)

/-- What planning leaves. -/
structure PlanOutcome where
  result : Except Fault Planned
  parameters : List Value
  nextTemp : Nat
  /-- Whether the transaction can no longer commit. -/
  dooms : Bool := false

def Accessor.withNextTemp (env : Accessor) (n : Nat) : Accessor :=
  { env with catalog := { env.catalog with nextTemp := n } }

def Statement.isDropIfExists : Statement → Bool
  | .drop d => d.ifExists
  | _ => false

def noticeFor? (settings : Settings) (statement : Statement) : Fault → Option String
  | .refused d =>
    if statement.isDropIfExists && settings.dropNotice && d.isMissingObject then
      some s!"{d.detail}, skipping"
    else
      none
  | _ => none

def failedPlan (settings : Settings) (statement : Statement) (fault : Fault) (parameters : List Value)
    (nextTemp : Nat) : PlanOutcome :=
  match noticeFor? settings statement fault with
  | some text => { result := .ok (.notice text), parameters := parameters, nextTemp := nextTemp }
  | none =>
    { result := .error fault, parameters := parameters, nextTemp := nextTemp,
      dooms := statement.isDefinition }

/-- Binds a statement and builds its plan.  The parameters are promoted once the statement is
bound. -/
def plan (settings : Settings) (env : Accessor) (p : Parsed) (parameters : List Value) :
    PlanOutcome :=
  let binding := bind env p parameters
  match binding.result with
  | .error fault => failedPlan settings p.statement fault binding.parameters binding.nextTemp
  | .ok bound =>
    let lowering := lower (env.withNextTemp binding.nextTemp) bound
    match lowering.result with
    | .error fault => failedPlan settings p.statement fault binding.parameters lowering.nextTemp
    | .ok tree =>
      { result := .ok (.plan lowering.bound tree), parameters := binding.parameters,
        nextTemp := lowering.nextTemp }

end SqlAnalysis
