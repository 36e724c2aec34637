/-!
# White space

* **`isBlank`**: the characters with the Unicode property White_Space.
* **`trim`**: a text without the white space at its two ends.
-/

namespace SqlAnalysis.Text

/-- The code points that are white space, beyond the run of controls from tab to carriage return and
the run of fixed-width spaces from U+2000 to U+200A. -/
def blankCodes : List Nat := [0x20, 0x85, 0xA0, 0x1680, 0x2028, 0x2029, 0x202F, 0x205F, 0x3000]

def isBlank (c : Char) : Bool :=
  let code := c.toNat
  (0x09 ≤ code && code ≤ 0x0D) || (0x2000 ≤ code && code ≤ 0x200A) || blankCodes.contains code

def trimLeft (cs : List Char) : List Char := cs.dropWhile isBlank

def trim (cs : List Char) : List Char := (trimLeft (trimLeft cs).reverse).reverse

end SqlAnalysis.Text
