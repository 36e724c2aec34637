import SqlAnalysis.Text.CaseTable

/-!
# Lower-casing

Identifiers are compared by their lower-case text, over all of Unicode.

* **`lowerChar`**: the lower-case text of one character taken alone; one or two characters.
* **`lowercase`**: the lower-case text of a string.  Only the capital sigma looks at its
  neighbours: at the end of a word it becomes the final form.
-/

namespace SqlAnalysis.Text

/-- Whether a code point lies in one of the ranges, each given by the gap before it and its length. -/
def inRanges : List (Nat × Nat) → Nat → Bool
  | [], _ => false
  | (gap, length) :: rest, code =>
    gap ≤ code && (code - gap < length || inRanges rest (code - gap - length))

def isCased (c : Char) : Bool := inRanges casedRanges c.toNat

/-- A character that is skipped when the neighbours of a letter are examined. -/
def isCaseIgnorable (c : Char) : Bool := inRanges caseIgnorableRanges c.toNat

def lowerChar (c : Char) : List Char :=
  if c.toNat < 0x80 then
    [c.toLower]
  else if c.toNat = 0x130 then
    ['i', Char.ofNat 0x307]
  else
    [((lowerRuns.findSome? (·.partnerOf? c.toNat)).map Char.ofNat).getD c]

def startsCased (cs : List Char) : Bool :=
  match cs.dropWhile isCaseIgnorable with
  | [] => false
  | c :: _ => isCased c

/-- The lower-case sigma between the reversed text `before` and the text `after`: the final form
exactly at the end of a word. -/
def lowerSigma (before after : List Char) : Char :=
  if startsCased before && !startsCased after then 'ς' else 'σ'

def lowerAfter (before : List Char) : List Char → List Char
  | [] => []
  | c :: after =>
    (if c = 'Σ' then [lowerSigma before after] else lowerChar c) ++ lowerAfter (c :: before) after

def lowercase (s : String) : String := String.ofList (lowerAfter [] s.toList)

end SqlAnalysis.Text
