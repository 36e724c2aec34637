/-!
# Powers of two and of ten

The two bases in which numbers are scaled: two for the binary format of doubles, ten for decimal
places.

* **`twoTo`**, **`tenTo`**: the powers.
* **`tenTo_pos`**, **`one_lt_tenTo`**: a power of ten is positive, and beyond one for at least one
  place.
-/

namespace SqlAnalysis

def twoTo (n : Nat) : Nat := Nat.pow 2 n

/-- The power of ten with the exponent `n`: what one unit is worth in front of `n` places. -/
def tenTo (n : Nat) : Nat := Nat.pow 10 n

theorem twoTo_zero : twoTo 0 = 1 := rfl

theorem twoTo_succ (n : Nat) : twoTo (n + 1) = twoTo n * 2 := rfl

theorem twoTo_pos (n : Nat) : 0 < twoTo n := by
  induction n with
  | zero => decide
  | succ n ih => rw [twoTo_succ]; omega

theorem tenTo_zero : tenTo 0 = 1 := rfl

theorem tenTo_succ (n : Nat) : tenTo (n + 1) = tenTo n * 10 := rfl

theorem tenTo_pos (n : Nat) : 0 < tenTo n := by
  induction n with
  | zero => decide
  | succ n ih => rw [tenTo_succ]; omega

theorem one_lt_tenTo (n : Nat) (h : 0 < n) : 1 < tenTo n := by
  cases n with
  | zero => omega
  | succ n =>
    have hpos : 0 < tenTo n := tenTo_pos n
    rw [tenTo_succ]
    omega

end SqlAnalysis
