import SqlAnalysis.Value.Basic

/-!
# Promotion of literals

A literal adopts the type that its context asks for.
-/

namespace SqlAnalysis

open Text

/-- The decimal rounded to `scale` places, if its integer part has at most `precision - scale`
digits.  From 28 digits on there is no limit. -/
def Decimal.fit? (d : Decimal) (precision scale : Nat) : Option Decimal :=
  let rounded := d.roundPlaces scale
  if precision - scale < maxDecimalPrecision && tenTo (precision - scale) ≤ rounded.whole then
    none
  else
    some rounded

namespace Value

def outOfRange (shown : String) (target : SqlType) : Diagnostic :=
  ⟨.numericValueOutOfRange, s!"value {shown} is out of range for type {target}"⟩

def mismatch (v : Value) (target : SqlType) : Diagnostic :=
  ⟨.datatypeMismatch, s!"cannot convert {v.sqlType} value {v} to {target}"⟩

def unreadable (s : String) (target : SqlType) : Diagnostic :=
  ⟨.datatypeMismatch, s!"invalid input syntax for type {target}: \"{s}\""⟩

def orRefuse (found : Option Value) (refusal : Diagnostic) : Except Diagnostic Value :=
  match found with
  | some v => .ok v
  | none => .error refusal

def ofDecimal? (d : Option Decimal) (precision scale : Nat) : Option Value :=
  (d.bind (·.fit? precision scale)).map .decimal

/-- A whole number as a literal of another type; nothing if the type takes no whole numbers. -/
def ofIntAs? (n : Int) (target : SqlType) : Option (Except Diagnostic Value) :=
  let tooLarge := outOfRange (intText n) target
  match target with
  | .tinyInt => some (orRefuse (ofInt? .tiny n) tooLarge)
  | .smallInt => some (orRefuse (ofInt? .small n) tooLarge)
  | .integer => some (orRefuse (ofInt? .regular n) tooLarge)
  | .bigInt => some (orRefuse (ofInt? .big n) tooLarge)
  | .double => some (.ok (.double (Double.ofInt n)))
  | .decimal precision scale =>
    some (orRefuse (ofDecimal? (Decimal.ofInt? n) precision scale) tooLarge)
  | .varchar => some (.ok (.varchar (intText n)))
  | _ => none

def readBoolean? (cs : List Char) : Option Bool :=
  let word := String.ofList (cs.map Char.toLower)
  if ["t", "true", "yes", "on", "1"].contains word then
    some true
  else if ["f", "false", "no", "off", "0"].contains word then
    some false
  else
    none

def readInt64? (cs : List Char) : Option Int :=
  (readInt? cs).filter IntWidth.big.holds

/-- A text as a literal of another type; white space at the ends does not count. -/
def ofText (s : String) (target : SqlType) : Except Diagnostic Value :=
  let cs := trim s.toList
  let refusal := unreadable s target
  match target with
  | .date => orRefuse ((Date.read? cs).map .date) refusal
  | .timestamp => orRefuse ((Timestamp.read? cs).map .timestamp) refusal
  | .decimal precision scale =>
    match Decimal.read? cs with
    | none => .error refusal
    | some d => orRefuse (ofDecimal? (some d) precision scale) (outOfRange s target)
  | .double => orRefuse ((Double.read? cs).map .double) refusal
  | .boolean => orRefuse ((readBoolean? cs).map .boolean) refusal
  | .tinyInt | .smallInt | .integer | .bigInt =>
    match readInt64? cs with
    | none => .error refusal
    | some n => (ofIntAs? n target).getD (.error refusal)
  | _ => .error refusal

def convert (v : Value) (target : SqlType) : Except Diagnostic Value :=
  match v, target with
  | .integral _ n _, _ => (ofIntAs? n target).getD (.error (v.mismatch target))
  | .double x, .decimal precision scale =>
    orRefuse (ofDecimal? (Decimal.ofDouble? x) precision scale) (outOfRange v.text target)
  | .decimal d, .double => .ok (.double d.toDouble)
  | .decimal d, .decimal precision scale =>
    orRefuse (ofDecimal? (some d) precision scale) (outOfRange v.text target)
  | .date d, .timestamp => .ok (.timestamp (Timestamp.ofDate d))
  | .varchar s, _ => ofText s target
  | _, _ => .error (v.mismatch target)

/-- The literal as one of the wanted type.  Without a wanted type it stays as it is, as does
NULL. -/
def promote (v : Value) (target : SqlType) : Except Diagnostic Value :=
  if !target.isValid || v.isNull || v.sqlType = target then .ok v else v.convert target

end Value

/-- Promotes each literal to its type.  The first refusal ends the work; literals before it stay
promoted. -/
def promoteAll : List Value → List SqlType → List Value × Except Diagnostic Unit
  | v :: vs, t :: ts =>
    match v.promote t with
    | .error e => (v :: vs, .error e)
    | .ok w =>
      let (rest, outcome) := promoteAll vs ts
      (w :: rest, outcome)
  | vs, _ => (vs, .ok ())

/-- The parameters of a statement as literals of the statement's parameter types, with the outcome.
A wrong number of parameters is refused before any is promoted. -/
def promoteParameters (values : List Value) (types : List SqlType) :
    List Value × Except Diagnostic Unit :=
  if values.length = types.length then
    promoteAll values types
  else
    (values, .error ⟨.undefinedParameter,
      s!"statement expects {types.length} parameters but {values.length} were supplied"⟩)

end SqlAnalysis
