import SqlAnalysis.Calendar.Date

/-!
# Timestamps

A date with a time of day, without a time zone.

* **`Timestamp.text`**: the written form, with 0, 3, 6 or 9 digits of a second.
-/

namespace SqlAnalysis

open Text

def isClockTime (hour minute second nano : Nat) : Bool :=
  decide (hour < 24) && decide (minute < 60) && decide (second ≤ 60) && decide (nano < 1000000000)

/-- A time of day. -/
structure TimeOfDay where
  hour : Nat
  minute : Nat
  second : Nat
  nano : Nat
  shown : isClockTime hour minute second nano = true
  deriving DecidableEq, Repr

/-- A date and a time of day. -/
structure Timestamp where
  date : Date
  time : TimeOfDay
  deriving DecidableEq, Repr

namespace TimeOfDay

def midnight : TimeOfDay := ⟨0, 0, 0, 0, by decide⟩

def ofParts? (hour minute second nano : Nat) : Option TimeOfDay :=
  if h : isClockTime hour minute second nano = true then
    some ⟨hour, minute, second, nano, h⟩
  else
    none

/-- The fraction of a second: nothing, or the fewest groups of three digits that show it. -/
def fractionDigits (nano : Nat) : List Char :=
  if nano = 0 then
    []
  else if nano % 1000000 = 0 then
    '.' :: paddedDigits 3 (nano / 1000000)
  else if nano % 1000 = 0 then
    '.' :: paddedDigits 6 (nano / 1000)
  else
    '.' :: paddedDigits 9 nano

def digits (t : TimeOfDay) : List Char :=
  paddedDigits 2 t.hour ++ ':' :: paddedDigits 2 t.minute ++ ':' :: paddedDigits 2 t.second ++
    fractionDigits t.nano

end TimeOfDay

namespace Timestamp

def ofDate (d : Date) : Timestamp := ⟨d, .midnight⟩

/-- Reads an optional fraction of a second as nanoseconds; digits after the ninth do not count. -/
def readFraction? : List Char → Option (Nat × List Char)
  | '.' :: cs =>
    let (digits, rest) := splitDigits cs
    if digits.isEmpty then
      none
    else
      let kept := digits.take 9
      some (natOfDigits kept * tenTo (9 - kept.length), rest)
  | cs => some (0, cs)

def readClock? (cs : List Char) : Option ((Nat × Nat) × List Char) := do
  let (hour, cs) ← Date.readField? 2 cs
  let cs ← Date.expect? ':' cs
  let (minute, cs) ← Date.readField? 2 cs
  some ((hour, minute), cs)

/-- What stands between date and time: any white space, or a letter `T`. -/
inductive Separator where
  | blank
  | letter
  deriving DecidableEq

def Separator.skip? : Separator → List Char → Option (List Char)
  | .blank, cs => some (trimLeft cs)
  | .letter, cs => Date.expect? 'T' cs

/-- A whole text as date, separator, hour and minute, and seconds if the layout has them. -/
def readLayout? (separator : Separator) (seconds : Bool) (cs : List Char) : Option Timestamp := do
  let ((year, month, day), cs) ← Date.readParts? cs
  let cs ← separator.skip? cs
  let ((hour, minute), cs) ← readClock? cs
  let ((second, nano), cs) ←
    if seconds then do
      let cs ← Date.expect? ':' cs
      let (second, cs) ← Date.readField? 2 cs
      let (nano, cs) ← readFraction? cs
      some ((second, nano), cs)
    else
      some ((0, 0), cs)
  if cs.isEmpty then
    let date ← Date.ofParts? year month day
    let time ← TimeOfDay.ofParts? hour minute second nano
    some ⟨date, time⟩
  else
    none

/-- A whole text as a timestamp: with seconds after a blank or a `T`, without seconds after a blank,
or a date alone, which is its midnight. -/
def read? (cs : List Char) : Option Timestamp :=
  (readLayout? .blank true cs).or <|
    (readLayout? .letter true cs).or <|
      (readLayout? .blank false cs).or ((Date.read? cs).map ofDate)

def text (t : Timestamp) : String := String.ofList (t.date.digits ++ ' ' :: t.time.digits)

end Timestamp

end SqlAnalysis
