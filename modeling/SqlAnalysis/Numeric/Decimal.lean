import SqlAnalysis.Numeric.Double

/-!
# Decimal numbers

A decimal is a sign, an integer below `2 ^ 96` and a number of decimal places, at most 28.

* **`Decimal.toDouble`, `Decimal.ofDouble?`**: the two conversions.
* **`Decimal.digitCount`**: how many digits the integer has.
-/

namespace SqlAnalysis

open Text

def Decimal.bound : Nat := 79228162514264337593543950336

/-- A signed decimal number `± mantissa / 10 ^ places`. -/
structure Decimal where
  negative : Bool
  mantissa : Nat
  places : Nat
  mantissa_lt : mantissa < Decimal.bound
  places_le : places ≤ 28
  deriving DecidableEq, Repr

namespace Decimal

def zero : Decimal := ⟨false, 0, 0, by decide, by decide⟩

instance : Inhabited Decimal := ⟨zero⟩

def ofParts? (negative : Bool) (mantissa places : Nat) : Option Decimal :=
  if h : mantissa < bound ∧ places ≤ 28 then some ⟨negative, mantissa, places, h.1, h.2⟩ else none

/-- The decimal with the given parts, where a zero has no sign, if they fit the format. -/
def ofUnsignedZero? (negative : Bool) (mantissa places : Nat) : Option Decimal :=
  ofParts? (negative && mantissa != 0) mantissa places

def ofInt? (n : Int) : Option Decimal := ofParts? (decide (n < 0)) n.natAbs 0

def digitCount (d : Decimal) : Nat := (natDigits d.mantissa).length

def whole (d : Decimal) : Nat := d.mantissa / tenTo d.places

def same (x y : Decimal) : Bool :=
  x.mantissa * tenTo y.places == y.mantissa * tenTo x.places &&
    (x.mantissa == 0 || x.negative == y.negative)

def digits (d : Decimal) : List Char :=
  if d.negative then '-' :: pointedDigits d.mantissa d.places else pointedDigits d.mantissa d.places

def text (d : Decimal) : String := String.ofList d.digits

/-! ### Rounding -/

theorem divHalfEven_le (n den : Nat) (h : 1 < den) : Double.divHalfEven n den ≤ n := by
  unfold Double.divHalfEven
  have hdiv : n / den * den + n % den = n := Nat.div_add_mod' n den
  have hmod : n % den < den := Nat.mod_lt _ (by omega)
  have hq : n / den * 2 ≤ n / den * den := Nat.mul_le_mul_left _ h
  simp only
  split
  · exact Nat.div_le_self n den
  · split
    · omega
    · split
      · exact Nat.div_le_self n den
      · omega

/-- The decimal rounded to at most `n` places, a tie to the even neighbour.  A number with no more
places stays as it is.  A zero keeps its sign; another number that rounds to zero loses it. -/
def roundPlaces (d : Decimal) (n : Nat) : Decimal :=
  if h : d.places ≤ n then
    d
  else
    let m := Double.divHalfEven d.mantissa (tenTo (d.places - n))
    { negative := d.negative && (m != 0 || d.mantissa == 0)
      mantissa := m
      places := n
      mantissa_lt := by
        have hpow : 1 < tenTo (d.places - n) := one_lt_tenTo _ (by omega)
        exact Nat.lt_of_le_of_lt (divHalfEven_le _ _ hpow) d.mantissa_lt
      places_le := by have := d.places_le; omega }

/-! ### Reading numerals -/

/-- The first number that is too long to be followed by any digit within 64 bits, with some room to
spare. -/
def longBound : Nat := 1844674407370954906

/-- The digit that decides the rounding of a cut numeral: the first one cut off, zero if there is
none.  Separators in front of it are passed over, except that behind a mantissa which was not long
before its last digit a separator counts as a zero. -/
def cutDigit (mantissa : Nat) (cut : List Char) : Nat :=
  match if mantissa / 10 < longBound then cut else cut.dropWhile (· = '_') with
  | [] => 0
  | c :: _ => if c = '_' then 0 else digitValue c

/-- Ends a numeral whose digits no longer fit.  What is cut off may hold digits and separators only;
from a half on the mantissa is rounded up, and a carry out of the format drops one more place. -/
def readCut? (negative : Bool) (mantissa places : Nat) (cut : List Char) : Option Decimal :=
  if !cut.all (fun c => c.isDigit || c = '_') then
    none
  else if cutDigit mantissa cut < 5 then
    ofUnsignedZero? negative mantissa places
  else if mantissa + 1 < bound then
    ofUnsignedZero? negative (mantissa + 1) places
  else if places = 0 then
    none
  else
    ofUnsignedZero? negative ((mantissa + 5) / 10) (places - 1)

/-- Reads the rest of a plain numeral.  `pointed` says whether the point was passed, `seen` whether
a digit or a separator after a digit was. -/
def readPlainFrom? (negative : Bool) : List Char → Nat → Nat → Bool → Bool → Option Decimal
  | [], mantissa, places, _, seen =>
    if seen then ofUnsignedZero? negative mantissa places else none
  | c :: cs, mantissa, places, pointed, seen =>
    if pointed && places = 28 then
      readCut? negative mantissa places (c :: cs)
    else if c.isDigit then
      let next := 10 * mantissa + digitValue c
      if next < bound then
        readPlainFrom? negative cs next (if pointed then places + 1 else 0) pointed true
      else if pointed then
        readCut? negative mantissa places (c :: cs)
      else
        none
    else if c = '.' && !pointed then
      readPlainFrom? negative cs mantissa places true seen
    else if c = '_' && seen then
      readPlainFrom? negative cs mantissa places pointed seen
    else
      none

/-- A numeral without exponent: at most one sign, digits, at most one point, and separators after
the first digit. -/
def readPlain? (cs : List Char) : Option Decimal :=
  let (negative, body) := splitSign cs
  readPlainFrom? negative body 0 0 false false

def readPower? (cs : List Char) : Option Nat :=
  let body := match cs with
    | '+' :: cs => cs
    | cs => cs
  (readNat? body).filter (· ≤ 28)

def scaleUp? (d : Decimal) (n : Nat) : Option Decimal :=
  if n ≤ d.places then
    ofParts? d.negative d.mantissa (d.places - n)
  else
    ofParts? d.negative (d.mantissa * tenTo (n - d.places)) 0

def divHalfUp (num den : Nat) : Nat := (2 * num + den) / (2 * den)

/-- The decimal with its point moved `n` digits to the left; places beyond the 28 of the format are
rounded off, a half going up. -/
def scaleDown? (d : Decimal) (n : Nat) : Option Decimal :=
  if d.places + n ≤ 28 then
    ofParts? d.negative d.mantissa (d.places + n)
  else
    ofParts? d.negative (divHalfUp d.mantissa (tenTo (d.places + n - 28))) 28

def readScientific? (cs : List Char) : Option Decimal := do
  let isMark := fun c => c = 'e' || c = 'E'
  let base ← readPlain? (cs.takeWhile (!isMark ·))
  match cs.dropWhile (!isMark ·) with
  | _ :: '-' :: power => scaleDown? base (← readPower? power)
  | _ :: power => scaleUp? base (← readPower? power)
  | [] => none

/-- The decimal a text denotes: a plain numeral, or else one with an exponent. -/
def read? (cs : List Char) : Option Decimal := (readPlain? cs).or (readScientific? cs)

/-! ### Conversion to and from doubles -/

/-- The double for a decimal: integer part and fraction are converted apart, added, and the sum is
rounded to the decimal's places. -/
def toDouble (d : Decimal) : Double :=
  if d.places = 0 then
    Double.nearest (d.negative && d.mantissa != 0) d.mantissa 1
  else
    let unit := Double.nearest false (tenTo d.places) 1
    let integer := Double.nearest false d.whole 1
    let fraction := (Double.nearest false (d.mantissa % tenTo d.places) 1).div unit
    let size :=
      if fraction.ratio.1 = 0 then integer
      else (((integer.add fraction).mul unit).roundHalfUp).div unit
    if d.negative then size.neg else size

/-- Trades `count` binary places for decimal ones: each step halves an even mantissa or multiplies
an odd one by five, and drops a bit once the mantissa would pass 96 bits. -/
def fewerBinaryPlaces (m : Nat) (power : Int) : Nat → Nat × Int
  | 0 => (m, power)
  | count + 1 =>
    if m % 2 = 0 then
      fewerBinaryPlaces (m / 2) (power + 1) count
    else if 5 * m < bound then
      fewerBinaryPlaces (5 * m) power count
    else
      fewerBinaryPlaces (m / 2) (power + 1) count

/-- Trades `count` binary zeros for decimal ones: doubles the mantissa while it has room, then
divides it by five, which gives up once the number is too large for the format. -/
def fewerBinaryZeros? (m : Nat) (power : Int) : Nat → Option (Nat × Int)
  | 0 => some (m, power)
  | count + 1 =>
    if 2 * m < bound then
      fewerBinaryZeros? (2 * m) (power - 1) count
    else if (count : Int) + 1 < 2 * power then
      none
    else
      fewerBinaryZeros? (m / 5) power count

/-- Multiplies by ten `count` times as long as the mantissa stays in the format. -/
def timesTen? (m : Nat) : Nat → Option Nat
  | 0 => some m
  | count + 1 => if 10 * m < bound then timesTen? (10 * m) count else none

def dropDigit (m : Nat) : Nat := m / 10 + if 5 ≤ m % 10 then 1 else 0

/-- Drops the `count` places beyond the 28 of the format; a mantissa that vanishes needs no places
at all. -/
def dropExcess (m places : Nat) : Nat → Nat × Nat
  | 0 => (m, places)
  | count + 1 => if m / 10 = 0 then (0, 0) else dropExcess (dropDigit m) (places - 1) count

def dropNoise (m : Nat) : Nat → Nat × Nat
  | 0 => (m, 0)
  | places + 1 => if twoTo 52 ≤ m then dropNoise (dropDigit m) places else (m, places + 1)

def dropTrailing (m : Nat) : Nat → Nat × Nat
  | 0 => (m, 0)
  | places + 1 => if m % 10 = 0 then dropTrailing (m / 10) places else (m, places + 1)

/-- The decimal for a double, to about the digits a double carries; nothing for numbers outside the
format. -/
def ofDouble? : Double → Option Decimal
  | .finite negative m e =>
    if m = 0 then
      ofParts? negative 0 0
    else do
      let (m, power) ←
        if e < 0 then some (fewerBinaryPlaces m e (-e).toNat) else fewerBinaryZeros? m e e.toNat
      let m ← timesTen? m power.toNat
      let (m, places) := dropExcess m (-power).toNat ((-power).toNat - 28)
      let (m, places) := dropNoise m places
      let (m, places) := dropTrailing m places
      ofParts? negative m places
  | _ => none

end Decimal

end SqlAnalysis
