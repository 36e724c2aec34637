import SqlAnalysis.Numeric.Power

/-!
# Numerals

Reading and writing numbers in decimal digits.

* **`natOfDigits`**: the positional value of a run of digits.
* **`splitDigits`**: the run of digits a text starts with, and the rest.
* **`readInt?`**: a whole text as an integer, with at most one sign.
* **`intText`**: an integer without superfluous signs or zeros.
-/

namespace SqlAnalysis.Text

def digitValue (c : Char) : Nat := c.toNat - '0'.toNat

def natOfDigits (cs : List Char) : Nat := cs.foldl (fun n c => 10 * n + digitValue c) 0

def splitDigits (cs : List Char) : List Char × List Char :=
  (cs.takeWhile Char.isDigit, cs.dropWhile Char.isDigit)

def splitSign : List Char → Bool × List Char
  | '-' :: cs => (true, cs)
  | '+' :: cs => (false, cs)
  | cs => (false, cs)

def readNat? (cs : List Char) : Option Nat :=
  if cs.isEmpty || !cs.all Char.isDigit then none else some (natOfDigits cs)

def readInt? (cs : List Char) : Option Int :=
  let (negative, digits) := splitSign cs
  (readNat? digits).map fun n => if negative then -(n : Int) else n

def natDigits (n : Nat) : List Char := Nat.toDigits 10 n

def intDigits (n : Int) : List Char :=
  if n < 0 then '-' :: natDigits n.natAbs else natDigits n.natAbs

def intText (n : Int) : String := String.ofList (intDigits n)

/-- The last `width` or more digits of a number, filled with zeros on the left. -/
def paddedDigits (width n : Nat) : List Char :=
  let digits := natDigits n
  List.replicate (width - digits.length) '0' ++ digits

/-- A decimal fraction: the number `n` with its last `places` digits behind a point. -/
def pointedDigits (n places : Nat) : List Char :=
  if places = 0 then
    natDigits n
  else
    natDigits (n / tenTo places) ++ '.' :: paddedDigits places (n % tenTo places)

end SqlAnalysis.Text
