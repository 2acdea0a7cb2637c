import HyperLogLog.Double

/-!
# Scalars

Estimates are computed in doubles when a sketch runs. Their formulas are stated over any type of
numbers with the operations they use, so that the same formulas can be read over other numbers.

* `Scalar`: the operations;
* the instance for `Double`: each operation rounds once.
-/

namespace HyperLogLog

/-- Numbers in which estimates can be computed. -/
class Scalar (α : Type) extends Add α, Sub α, Mul α, Div α, OfScientific α where
  /-- A count as a number. -/
  ofCount : Nat → α
  /-- The number `2⁻ᵛ`. -/
  invPow : Nat → α
  /-- The square root. -/
  sqrt : α → α
  /-- The natural logarithm. -/
  log : α → α
  /-- The larger of two numbers. -/
  larger : α → α → α
  /-- Whether the first number is at most the second. -/
  atMost : α → α → Bool

instance : Scalar Double where
  ofCount := Double.ofCount
  invPow := Double.invPow
  sqrt := Double.sqrt
  log := Double.log
  larger := Double.larger
  atMost := Double.atMost

end HyperLogLog
