import HyperLogLog.Sparse.CouponTable

/-!
# Coupon lists

A list holds up to seven distinct coupons in order of arrival; the eighth turns it into a table,
or into registers if a table would hardly be smaller.

* `CouponList.clear`: an image without coupons;
* `CouponList.find`, `CouponList.insert`, `CouponList.toTable`.
-/

namespace HyperLogLog.CouponList

/-- From this `lgK` on a full list turns into a table. -/
def lgTableFrom : Nat := 8

/-- The offset of a slot. -/
def offset (slot : Nat) : Nat := 8 + 4 * slot

/-- The bytes of a list. -/
def bytes : Nat := Footprint.sparse .list Footprint.lgList

/-- Writes a list without coupons. -/
def clear (cfg : Config) (r : Region) : Region :=
  (r.putHeader cfg .list Footprint.lgList Flag.empty.mask).zero (offset 0) (bytes - offset 0)

/-- Where the search for a coupon ends. -/
def find (slots : Nat) (r : Region) (c : Coupon) : Probe :=
  Probe.seek r c offset slots 0

/-- Turns a full list into the smallest table. A table forgets the order of arrival. -/
def toTable (cfg : Config) : Edit Mode := do
  let r ← get
  let coupons := Contents.live .list r
  let former := r.footprint cfg .list
  let size := Footprint.sparse .set Footprint.lgTable
  Region.reserve size
  modify fun r =>
    (r.putHeader cfg .set Footprint.lgTable Flag.outOfOrder.mask).zero 8 (max size former - 8)
  coupons.foldlM (CouponTable.insertOrRaise cfg) .set

/-- Takes in a coupon. -/
def insert (cfg : Config) (c : Coupon) : Edit Mode := do
  let r ← get
  let slots := 2 ^ r.lgArr
  match find slots r c with
  | .present => pure .list
  | .full => throw (.listFull r.listCount slots)
  | .free i => do
    modify (·.setCoupon i c)
    let count := (← get).listCount + 1
    modify fun r => (r.putListCount count).putFlag .empty false
    if slots ≤ count then
      if cfg.lgK < lgTableFrom then do
        Promotion.toDense cfg
        pure .dense
      else toTable cfg
    else pure .list

end HyperLogLog.CouponList
