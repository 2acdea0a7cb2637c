import HyperLogLog.Estimate.Harmonic

/-!
# Estimates from distinct coupons

A sketch that still has its coupons estimates from their number alone. Two items rarely share a
coupon, so the estimate is the expected number of items that leave so many distinct coupons.

* `Estimate.Confidence`: how wide a bound is;
* `Estimate.ofCoupons`, `Estimate.couponsUpper`, `Estimate.couponsLower`.
-/

namespace HyperLogLog.Estimate

open Scalar (ofCount larger)

variable {α : Type} [Scalar α]

/-- The width of a bound in standard deviations. -/
inductive Confidence where
  | one
  | two
  | three
deriving DecidableEq

/-- The number of standard deviations. -/
def Confidence.deviations : Confidence → Nat
  | one => 1
  | two => 2
  | three => 3

/-- The relative standard error of an estimate from coupons. -/
def couponError : α := 0.409 / 8192.0

/-- The number of coupons there are to draw from, each counted by its address. -/
def couponSpace : Nat := 67108864

/-- The estimate from `n` distinct coupons. -/
@[specialize] def ofCoupons (n : Nat) : α :=
  if n = 0 then 0.0 else larger (ofCount n) (occupancy couponSpace n)

/-- The upper bound from `n` distinct coupons. -/
@[specialize] def couponsUpper (n : Nat) (c : Confidence) : α :=
  larger (ofCount n) (ofCoupons n / (1.0 - ofCount c.deviations * couponError))

/-- The lower bound from `n` distinct coupons, never below their number. -/
@[specialize] def couponsLower (n : Nat) (c : Confidence) : α :=
  larger (ofCount n) (ofCoupons n / (1.0 + ofCount c.deviations * couponError))

end HyperLogLog.Estimate
