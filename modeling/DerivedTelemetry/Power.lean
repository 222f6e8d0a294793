/-!
# Powers of ten and of two

A decimal is scaled by powers of ten and a double by powers of two.  Both are exact
whole numbers here, however large they become.
-/

namespace DerivedTelemetry

/-- One followed by `n` zeros. -/
def tenTo (n : Nat) : Nat := Nat.pow 10 n

/-- The number of values of `n` bits. -/
def twoTo (n : Nat) : Nat := Nat.pow 2 n

theorem tenTo_zero : tenTo 0 = 1 := rfl

theorem tenTo_succ (n : Nat) : tenTo (n + 1) = tenTo n * 10 := rfl

theorem tenTo_pos (n : Nat) : 0 < tenTo n := by
  induction n with
  | zero => decide
  | succ n ih => rw [tenTo_succ]; omega

theorem tenTo_add (m n : Nat) : tenTo (m + n) = tenTo m * tenTo n := by
  induction n with
  | zero => rw [Nat.add_zero, tenTo_zero, Nat.mul_one]
  | succ n ih => rw [← Nat.add_assoc, tenTo_succ, tenTo_succ, ih, Nat.mul_assoc]

end DerivedTelemetry
