import SqlAnalysis.Text.Digits

/-!
# JSON documents

A strict reader of JSON text.

* **`Json.read?`**: the document that a whole text is.
-/

namespace SqlAnalysis

open Text

/-- A JSON document. -/
inductive Json where
  | null
  | bool (b : Bool)
  | number
  | text (s : Option String)
  | array (items : List Json)
  | object (members : List (Option String × Json))
  deriving Inhabited

namespace Json

def isSpace (c : Char) : Bool := c = ' ' || c = '\n' || c = '\t' || c = '\r'

def skip (cs : List Char) : List Char := cs.dropWhile isSpace

def hexValue? (c : Char) : Option Nat :=
  if c.isDigit then
    some (digitValue c)
  else if 'a' ≤ c && c ≤ 'f' then
    some (c.toNat - 'a'.toNat + 10)
  else if 'A' ≤ c && c ≤ 'F' then
    some (c.toNat - 'A'.toNat + 10)
  else
    none

def readHex? : List Char → Option (Nat × List Char)
  | a :: b :: c :: d :: rest => do
    let n := (((← hexValue? a) * 16 + (← hexValue? b)) * 16 + (← hexValue? c)) * 16 + (← hexValue? d)
    some (n, rest)
  | _ => none

def escaped? : Char → Option Char
  | '"' => some '"'
  | '\\' => some '\\'
  | '/' => some '/'
  | 'b' => some (Char.ofNat 8)
  | 'f' => some (Char.ofNat 12)
  | 'n' => some '\n'
  | 'r' => some '\r'
  | 't' => some '\t'
  | _ => none

abbrev Unit16 := Nat

/-- Reads the inside of a text up to its closing quote, at most `fuel` characters of it. -/
def readUnits? : Nat → List Char → List Unit16 → Option (List Unit16 × List Char)
  | 0, _, _ => none
  | fuel + 1, cs, units =>
    match cs with
    | '"' :: rest => some (units.reverse, rest)
    | '\\' :: 'u' :: rest => do
      let (n, rest) ← readHex? rest
      readUnits? fuel rest (n :: units)
    | '\\' :: c :: rest => do
      let d ← escaped? c
      readUnits? fuel rest (d.toNat :: units)
    | c :: rest => if c.toNat < 0x20 then none else readUnits? fuel rest (c.toNat :: units)
    | [] => none

def joinUnits? : List Unit16 → Option (List Char)
  | [] => some []
  | [n] => if 0xD800 ≤ n && n ≤ 0xDFFF then none else some [Char.ofNat n]
  | n :: m :: rest =>
    if 0xD800 ≤ n && n ≤ 0xDBFF then
      if 0xDC00 ≤ m && m ≤ 0xDFFF then
        (joinUnits? rest).map (Char.ofNat (0x10000 + (n - 0xD800) * 0x400 + (m - 0xDC00)) :: ·)
      else
        none
    else if 0xDC00 ≤ n && n ≤ 0xDFFF then
      none
    else
      (joinUnits? (m :: rest)).map (Char.ofNat n :: ·)

def readText? (cs : List Char) : Option (Option String × List Char) := do
  let (units, rest) ← readUnits? (cs.length + 1) cs []
  some ((joinUnits? units).map String.ofList, rest)

def skipDigits? (cs : List Char) : Option (List Char) :=
  let (digits, rest) := splitDigits cs
  if digits.isEmpty then none else some rest

/-- Skips the integer part of a number: a zero alone, or digits that do not start with zero. -/
def skipInteger? : List Char → Option (List Char)
  | '0' :: rest =>
    match rest with
    | c :: _ => if c.isDigit then none else some rest
    | [] => some []
  | cs => skipDigits? cs

def skipNumber? (cs : List Char) : Option (List Char) := do
  let cs := match cs with
    | '-' :: cs => cs
    | cs => cs
  let cs ← skipInteger? cs
  let cs ← match cs with
    | '.' :: cs => skipDigits? cs
    | cs => some cs
  match cs with
  | c :: rest =>
    if c = 'e' || c = 'E' then
      match rest with
      | '+' :: rest => skipDigits? rest
      | '-' :: rest => skipDigits? rest
      | rest => skipDigits? rest
    else
      some cs
  | [] => some []

def skipWord? (word : String) (cs : List Char) : Option (List Char) :=
  if word.toList.isPrefixOf cs then some (cs.drop word.length) else none

mutual

def readValue? : Nat → List Char → Option (Json × List Char)
  | 0, _ => none
  | fuel + 1, cs =>
    match skip cs with
    | '"' :: rest => (readText? rest).map fun (s, rest) => (.text s, rest)
    | '[' :: rest =>
      match skip rest with
      | ']' :: rest => some (.array [], rest)
      | rest => (readItems? fuel rest).map fun (items, rest) => (.array items, rest)
    | '\x7b' :: rest =>
      match skip rest with
      | '\x7d' :: rest => some (.object [], rest)
      | rest => (readMembers? fuel rest).map fun (members, rest) => (.object members, rest)
    | 'n' :: rest => (skipWord? "ull" rest).map fun rest => (.null, rest)
    | 't' :: rest => (skipWord? "rue" rest).map fun rest => (.bool true, rest)
    | 'f' :: rest => (skipWord? "alse" rest).map fun rest => (.bool false, rest)
    | rest => (skipNumber? rest).map fun rest => (.number, rest)

def readItems? : Nat → List Char → Option (List Json × List Char)
  | 0, _ => none
  | fuel + 1, cs => do
    let (item, rest) ← readValue? fuel cs
    match skip rest with
    | ',' :: rest =>
      let (items, rest) ← readItems? fuel rest
      some (item :: items, rest)
    | ']' :: rest => some ([item], rest)
    | _ => none

def readMembers? : Nat → List Char → Option (List (Option String × Json) × List Char)
  | 0, _ => none
  | fuel + 1, cs =>
    match skip cs with
    | '"' :: rest => do
      let (key, rest) ← readText? rest
      match skip rest with
      | ':' :: rest =>
        let (value, rest) ← readValue? fuel rest
        match skip rest with
        | ',' :: rest =>
          let (members, rest) ← readMembers? fuel rest
          some ((key, value) :: members, rest)
        | '\x7d' :: rest => some ([(key, value)], rest)
        | _ => none
      | _ => none
    | _ => none

end

def read? (s : String) : Option Json := do
  let cs := s.toList
  let (doc, rest) ← readValue? (2 * cs.length + 2) cs
  if (skip rest).isEmpty then some doc else none

end Json

end SqlAnalysis
