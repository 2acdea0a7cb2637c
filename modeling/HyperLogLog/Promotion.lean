import HyperLogLog.Contents

/-!
# Promotion to registers

`Promotion.toDense` turns the image of a list or a table into registers. The coupons are read
first, then room is made, and only then is anything written; the coupons go in one by one, as they
would from outside.
-/

namespace HyperLogLog.Promotion

/-- Turns an image into registers. The running total starts from the estimate of the coupons,
since taking them in one by one again says nothing about their history. -/
def toDense (cfg : Config) : Edit Unit := do
  let r ← get
  match r.mode? with
  | none => throw .unknownMode
  | some mode => do
    let estimate := Contents.estimate cfg mode r
    let coupons ← ofExcept (Contents.coupons cfg mode r)
    let former := r.footprint cfg mode
    Registers.clear cfg
    modify (·.zero (Footprint.dense cfg 0) (former - Footprint.dense cfg 0))
    coupons.forM (Registers.insert cfg)
    modify (·.putTotal estimate)

end HyperLogLog.Promotion
