import HyperLogLog.Dense.Registers

/-!
# What an image holds

* `Contents.live`: the coupons of a list or a table;
* `Contents.coupons`: the coupons of any image; risen registers count as coupons;
* `Contents.count`, `Contents.isEmpty`;
* `Contents.estimate`, `Contents.composite`, `Contents.upper`, `Contents.lower`.
-/

namespace HyperLogLog.Contents

open Estimate (Confidence)

/-- The coupons of a list or a table, in the order of their slots. -/
def live (mode : Mode) (r : Region) : List Coupon :=
  (r.coupons mode.dataStart (r.slots mode)).filter (· ≠ .empty)

/-- The coupons of an image. -/
def coupons (cfg : Config) (mode : Mode) (r : Region) : Except Fault (List Coupon) :=
  match mode with
  | .list => .ok (live .list r)
  | .set => .ok (live .set r)
  | .dense => Registers.coupons cfg r

/-- The number of coupons a list or a table declares. -/
def count (mode : Mode) (r : Region) : Nat :=
  match mode with
  | .list => r.listCount
  | .set => r.setCount
  | .dense => 0

/-- Whether nothing has been seen, by the counts in the header. -/
def isEmpty (cfg : Config) (mode : Mode) (r : Region) : Bool :=
  match mode with
  | .dense => r.minimum = 0 ∧ r.atMinimum = cfg.k
  | m => count m r = 0

/-- The estimate: from distinct coupons, or from registers and their history. -/
def estimate (cfg : Config) (mode : Mode) (r : Region) : Double :=
  match mode with
  | .dense => r.estimator.estimate cfg.lgK r.minimum r.atMinimum
  | m => Estimate.ofCoupons (count m r)

/-- The estimate that leaves history aside. -/
def composite (cfg : Config) (mode : Mode) (r : Region) : Double :=
  match mode with
  | .dense => r.estimator.composite cfg.lgK r.minimum r.atMinimum
  | m => Estimate.ofCoupons (count m r)

/-- The upper bound. -/
def upper (cfg : Config) (mode : Mode) (r : Region) (c : Confidence) : Double :=
  match mode with
  | .dense => r.estimator.upper cfg.lgK r.minimum r.atMinimum c
  | m => Estimate.couponsUpper (count m r) c

/-- The lower bound. -/
def lower (cfg : Config) (mode : Mode) (r : Region) (c : Confidence) : Double :=
  match mode with
  | .dense => r.estimator.lower cfg.lgK r.minimum r.atMinimum c
  | m => Estimate.couponsLower (count m r) c

end HyperLogLog.Contents
