/-!
# Doubles

A double is its 64 bits, so that one that is no number keeps its sign and its fraction. Operations
on numbers round once; an operand that is no number is handed on.

* `Double`, `Double.toFloat`, `Double.ofFloat`: the bits and their value;
* `Double.combine`: an operation on values as an operation on doubles;
* `Double.larger`, `Double.atMost`: comparisons.
-/

namespace HyperLogLog

/-- Sixty-four bits: a sign, eleven bits of exponent and fifty-two of fraction. -/
structure Double where
  bits : UInt64
deriving DecidableEq

namespace Double

/-- The value. -/
def toFloat (x : Double) : Float := Float.ofBits x.bits

/-- The bits of a value. -/
def ofFloat (x : Float) : Double := ⟨x.toBits⟩

/-- Whether a double is no number: the exponent is all ones and the fraction is not zero. -/
def isNaN (x : Double) : Bool := 0x7ff0000000000000 < x.bits &&& 0x7fffffffffffffff

/-- What an operation hands on of an operand that is no number: its bits, the highest of the
fraction set. -/
def quieted (x : Double) : Double := ⟨x.bits ||| 0x0008000000000000⟩

/-- The outcome of an operation on numbers that has none, such as the difference of infinities. -/
def invalid : Double := ⟨0xfff8000000000000⟩

/-- The double of a computed value. -/
def ofResult (x : Float) : Double := if x.isNaN then invalid else ofFloat x

/-- An operation on values as an operation on doubles. -/
@[inline] def combine (op : Float → Float → Float) (x y : Double) : Double :=
  if x.isNaN then x.quieted
  else if y.isNaN then y.quieted
  else ofResult (op x.toFloat y.toFloat)

instance : Add Double := ⟨combine (· + ·)⟩

instance : Sub Double := ⟨combine (· - ·)⟩

instance : Mul Double := ⟨combine (· * ·)⟩

instance : Div Double := ⟨combine (· / ·)⟩

instance : OfScientific Double where
  ofScientific mantissa negative exponent :=
    ofFloat (OfScientific.ofScientific mantissa negative exponent)

/-- A count as a double. -/
def ofCount (n : Nat) : Double := ofFloat n.toUInt64.toFloat

/-- The double `2⁻ᵛ`: its exponent field is `1023 - v` and its fraction is zero. -/
def invPow (v : Nat) : Double := ⟨(1023 - v).toUInt64 <<< 52⟩

/-- The square root. -/
def sqrt (x : Double) : Double := if x.isNaN then x.quieted else ofResult x.toFloat.sqrt

/-- The natural logarithm. -/
def log (x : Double) : Double := if x.isNaN then x.quieted else ofResult x.toFloat.log

/-- The larger of two doubles; of a number and no number, the number. Numbers that are equal differ
in the sign of zero at most, and then the positive zero is the larger. -/
def larger (x y : Double) : Double :=
  if x.isNaN then y
  else if y.isNaN then x
  else if x.toFloat < y.toFloat then y
  else if y.toFloat < x.toFloat then x
  else ⟨x.bits &&& y.bits⟩

/-- Whether both are numbers and the first is at most the second. -/
def atMost (x y : Double) : Bool := x.toFloat ≤ y.toFloat

end Double

end HyperLogLog
