import HyperLogLog.Promotion
import HyperLogLog.Sparse.Probe

/-!
# Coupon tables

A table holds distinct coupons in `2 ^ lgArr` slots by open addressing. Each coupon has a stride of
its own, which is odd, so that its probe sequence meets every slot.

* `CouponTable.position`: the probe sequence of a coupon;
* `CouponTable.find`, `CouponTable.insert`, `CouponTable.grow`.
-/

namespace HyperLogLog.CouponTable

/-- How far apart the slots are that a coupon tries: the address bits that did not choose the first
slot, made odd. -/
def stride (lgArr : Nat) (c : Coupon) : Nat :=
  2 * (c.slot / 2 ^ (lgArr + 1)) + 1

/-- The `j`-th slot that a coupon tries. -/
def position (lgArr : Nat) (c : Coupon) (j : Nat) : Nat :=
  (c.toNat + j * stride lgArr c) % 2 ^ lgArr

/-- The offset of a slot. -/
def offset (slot : Nat) : Nat := 12 + 4 * slot

/-- Where the search for a coupon ends. -/
def find (lgArr : Nat) (r : Region) (c : Coupon) : Probe :=
  Probe.seek r c (fun j => offset (position lgArr c j)) (2 ^ lgArr) 0

/-- Puts a coupon into a table that is being rebuilt. -/
def place (lgArr : Nat) (c : Coupon) : Edit Unit := do
  match find lgArr (← get) c with
  | .free i => modify (·.setCoupon i c)
  | .present => throw .duplicateInGrowth
  | .full => throw (.tableFull lgArr)

/-- Rebuilds the table with `2 ^ lgArr` slots. -/
def grow (lgArr : Nat) : Edit Unit := do
  let coupons := Contents.live .set (← get)
  Region.reserve (Footprint.sparse .set lgArr)
  modify fun r => (r.putLgArr lgArr).zero (offset 0) (4 * 2 ^ lgArr)
  coupons.forM (place lgArr)

/-- Takes in a coupon. A table more than three quarters full grows; the largest one becomes
registers instead. -/
def insert (cfg : Config) (c : Coupon) : Edit Mode := do
  let r ← get
  let lgArr := r.lgArr
  match find lgArr r c with
  | .present => pure .set
  | .full => throw (.tableFull lgArr)
  | .free i => do
    modify (·.setCoupon i c)
    let count := (← get).setCount + 1
    modify fun r => (r.putSetCount count).putFlag .empty false
    if 3 * 2 ^ lgArr < 4 * count then
      if Footprint.lgLargestTable cfg ≤ lgArr then do
        Promotion.toDense cfg
        pure .dense
      else do
        grow (lgArr + 1)
        pure .set
    else pure .set

/-- Takes in a coupon where an earlier one may have turned the table into registers. -/
def insertOrRaise (cfg : Config) (mode : Mode) (c : Coupon) : Edit Mode :=
  match mode with
  | .dense => do
    Registers.insert cfg c
    pure .dense
  | _ => insert cfg c

end HyperLogLog.CouponTable
