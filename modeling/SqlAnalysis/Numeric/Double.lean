import SqlAnalysis.Text.Digits

/-!
# Double-precision numbers

A double is not-a-number, an infinity, or a signed multiple `mantissa * 2 ^ exponent` in the
binary64 format.  All arithmetic is exact arithmetic on fractions followed by one rounding.

* **`Double.add`, `mul`, `div`, `roundHalfUp`**: one exact operation each, rounded once.
* **`Double.text`**: those digits in positional notation.
-/

namespace SqlAnalysis

open Text

/-- A binary64 number.  A finite number has a mantissa below `2 ^ 53` and an exponent of at least
`-1074`; unless the exponent is `-1074`, its mantissa is at least `2 ^ 52`. -/
inductive Double where
  | nan
  | infinite (negative : Bool)
  | finite (negative : Bool) (mantissa : Nat) (exponent : Int)
  deriving DecidableEq, Repr, Inhabited

namespace Double

def zero (negative : Bool) : Double := .finite negative 0 (-1074)

def neg : Double → Double
  | .nan => .nan
  | .infinite negative => .infinite (!negative)
  | .finite negative m e => .finite (!negative) m e

/-- Numeric equality, with not-a-number equal to itself and both zeros equal. -/
def same : Double → Double → Bool
  | .finite s m e, .finite t n f => (m == 0 && n == 0) || (s == t && m == n && e == f)
  | x, y => x == y

/-- `num * 2 ^ shift`, the shift being an exponent of either sign, as a fraction. -/
def scaled (num : Nat) (shift : Int) : Nat × Nat :=
  if 0 ≤ shift then (num * twoTo shift.toNat, 1) else (num, twoTo (-shift).toNat)

def divHalfEven (num den : Nat) : Nat :=
  let q := num / den
  let r := num % den
  if 2 * r < den then q else if den < 2 * r then q + 1 else if q % 2 = 0 then q else q + 1

/-- The double nearest to `num / den`, ties to the even mantissa; beyond the largest double it is
infinite. -/
def nearest (negative : Bool) (num den : Nat) : Double :=
  if num = 0 then
    zero negative
  else
    let low : Int := (num.log2 : Int) - den.log2 - 53
    let fits : Int :=
      if den * twoTo 53 * (scaled 1 low).1 ≤ num * (scaled 1 low).2 then low + 1 else low
    let exponent := max fits (-1074)
    let (up, down) := scaled 1 (-exponent)
    let mantissa := divHalfEven (num * up) (den * down)
    let (mantissa, exponent) :=
      if mantissa = twoTo 53 then (twoTo 52, exponent + 1) else (mantissa, exponent)
    if 971 < exponent then .infinite negative else .finite negative mantissa exponent

def ofInt (n : Int) : Double := nearest (decide (n < 0)) n.natAbs 1

def ratio : Double → Nat × Nat
  | .finite _ m e => scaled m e
  | _ => (0, 1)

def add (x y : Double) : Double :=
  let (a, b) := x.ratio
  let (c, d) := y.ratio
  nearest false (a * d + c * b) (b * d)

def mul (x y : Double) : Double :=
  let (a, b) := x.ratio
  let (c, d) := y.ratio
  nearest false (a * c) (b * d)

/-- The quotient of two finite doubles without regard to signs, the divisor not being zero, rounded
once. -/
def div (x y : Double) : Double :=
  let (a, b) := x.ratio
  let (c, d) := y.ratio
  nearest false (a * d) (b * c)

def roundHalfUp (x : Double) : Double :=
  let (a, b) := x.ratio
  nearest false ((2 * a + b) / (2 * b)) 1

def wordBound : Int := 9223372036854775808

/-- The number cut to an integer and clamped to the range of 64 bits; not-a-number gives zero. -/
def toInt64 : Double → Int
  | .nan => 0
  | .infinite negative => if negative then -wordBound else wordBound - 1
  | x@(.finite negative _ _) =>
    let (a, b) := x.ratio
    let n : Int := (a / b : Nat)
    if negative then max (-n) (-wordBound) else min n (wordBound - 1)

/-! ### Reading numerals -/

/-- `digits * 10 ^ power` as a double.  Powers far outside the range of the format are settled
without computing them. -/
def ofDecimal (negative : Bool) (digits : Nat) (power : Int) : Double :=
  let size : Int := power + (natDigits digits).length
  if digits = 0 || size < -400 then
    zero negative
  else if 400 < size then
    .infinite negative
  else if 0 ≤ power then
    nearest negative (digits * tenTo power.toNat) 1
  else
    nearest negative digits (tenTo (-power).toNat)

/-- The exponent part of a numeral: nothing, or a letter `e`, an optional sign and digits. -/
def readExponent? : List Char → Option Int
  | [] => some 0
  | c :: cs => if c = 'e' || c = 'E' then readInt? cs else none

/-- A numeral with an optional point and an optional exponent; at least one digit stands before the
exponent. -/
def readUnsigned? (negative : Bool) (cs : List Char) : Option Double := do
  let (whole, rest) := splitDigits cs
  let (fraction, rest) := match rest with
    | '.' :: rest => splitDigits rest
    | rest => ([], rest)
  if whole.isEmpty && fraction.isEmpty then
    none
  else
    let exponent ← readExponent? rest
    some (ofDecimal negative (natOfDigits (whole ++ fraction)) (exponent - fraction.length))

/-- The double a text denotes: a signed numeral, or a name of infinity or of not-a-number in any
case. -/
def read? (cs : List Char) : Option Double :=
  let (negative, body) := splitSign cs
  let word := String.ofList (body.map Char.toLower)
  if word = "inf" || word = "infinity" then
    some (.infinite negative)
  else if word = "nan" then
    some .nan
  else
    readUnsigned? negative body

/-! ### Shortest digits -/

/-- The open or closed interval of fractions that round to a positive double, over a common
denominator. -/
structure Neighbourhood where
  low : Nat
  value : Nat
  high : Nat
  den : Nat
  closed : Bool

/-- The neighbourhood of `mantissa * 2 ^ exponent`: half a step down and half a step up, where a
step down from a power of two is half as wide. -/
def neighbourhood (mantissa : Nat) (exponent : Int) : Neighbourhood :=
  let (up, down) := scaled 1 (exponent - 2)
  let narrow := mantissa = twoTo 52 ∧ -1074 < exponent
  { low := (4 * mantissa - if narrow then 1 else 2) * up
    value := 4 * mantissa * up
    high := (4 * mantissa + 2) * up
    den := down
    closed := mantissa % 2 == 0 }

def Neighbourhood.holds (n : Neighbourhood) (digits : Nat) (power : Int) : Bool :=
  let (up, down) := if 0 ≤ power then (tenTo power.toNat, 1) else (1, tenTo (-power).toNat)
  let point := digits * up * n.den
  if n.closed then
    n.low * down ≤ point && point ≤ n.high * down
  else
    n.low * down < point && point < n.high * down

/-- The multiple of `10 ^ power` that rounds to the double and lies nearest to it, if one of its two
neighbours on that grid does; of two that lie equally near, the upper one. -/
def Neighbourhood.onGrid? (n : Neighbourhood) (power : Int) : Option Nat :=
  let (num, den) :=
    if 0 ≤ power then (n.value, n.den * tenTo power.toNat)
    else (n.value * tenTo (-power).toNat, n.den)
  let below := num / den
  let rest := num % den
  match n.holds below power, n.holds (below + 1) power with
  | true, true => some (if 2 * rest < den then below else below + 1)
  | true, false => some below
  | false, true => some (below + 1)
  | false, false => none

/-- Searches grids of `count` more and more digits; `magnitude` is the power of ten just above the
number. -/
def shortestFrom (n : Neighbourhood) (magnitude : Int) (digits : Nat) : Nat → Nat × Int
  | 0 => (0, 0)
  | count + 1 =>
    let power := magnitude - digits
    match n.onGrid? power with
    | some found => (found, power)
    | none => shortestFrom n magnitude (digits + 1) count

/-- The least power of ten that exceeds a positive fraction, searched upwards from `guess`. -/
def magnitudeFrom (num den : Nat) (guess : Int) : Nat → Int
  | 0 => guess
  | count + 1 =>
    let (up, down) := if 0 ≤ guess then (tenTo guess.toNat, 1) else (1, tenTo (-guess).toNat)
    if num * down < den * up then guess else magnitudeFrom num den (guess + 1) count

/-- Digits and power of ten of the shortest decimal that rounds to the positive double
`mantissa * 2 ^ exponent`. -/
def shortest (mantissa : Nat) (exponent : Int) : Nat × Int :=
  let (num, den) := scaled mantissa exponent
  let guess : Int := ((num.log2 : Int) - den.log2 - 1) * 30103 / 100000 - 1
  shortestFrom (neighbourhood mantissa exponent) (magnitudeFrom num den guess 8) 1 17

/-- Drops trailing zeros of a digit run, raising the power; at most `count` of them. -/
def dropZeros (digits : Nat) (power : Int) : Nat → Nat × Int
  | 0 => (digits, power)
  | count + 1 =>
    if digits % 10 = 0 && digits != 0 then dropZeros (digits / 10) (power + 1) count
    else (digits, power)

/-- A number in positional notation: shortest digits, no exponent, no point in a whole number. -/
def digits : Double → List Char
  | .nan => "NaN".toList
  | .infinite negative => if negative then "-inf".toList else "inf".toList
  | .finite negative m e =>
    let body :=
      if m = 0 then
        ['0']
      else
        let (found, power) := shortest m e
        let (found, power) := dropZeros found power 17
        if 0 ≤ power then
          natDigits found ++ List.replicate power.toNat '0'
        else
          pointedDigits found (-power).toNat
    if negative then '-' :: body else body

def text (x : Double) : String := String.ofList x.digits

end Double

end SqlAnalysis
