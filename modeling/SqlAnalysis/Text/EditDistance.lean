/-!
# Edit distance

* **`editDistance`**: the least number of insertions, deletions and substitutions of characters that
  turn one text into another.

The table of the distances between all beginnings is built row by row; a row holds the distances
from one beginning of the first text to every beginning of the second.
-/

namespace SqlAnalysis.Text

/-- Continues a row: `left` is the entry just written, `diagonal` the entry above it, and the list
holds the rest of the row above. -/
def nextRowFrom (a : Char) (left diagonal : Nat) : List Char → List Nat → List Nat
  | b :: bs, above :: rest =>
    let here := min (min (left + 1) (above + 1)) (diagonal + if a = b then 0 else 1)
    here :: nextRowFrom a here above bs rest
  | _, _ => []

def nextRow (a : Char) (bs : List Char) : List Nat → List Nat
  | [] => []
  | first :: rest => (first + 1) :: nextRowFrom a (first + 1) first bs rest

def editDistance (s t : String) : Nat :=
  let bs := t.toList
  let row := s.toList.foldl (fun row a => nextRow a bs row) (List.range (bs.length + 1))
  row.getLastD 0

end SqlAnalysis.Text
