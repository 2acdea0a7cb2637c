import HyperLogLog.Header

/-!
# Sizes of images

* `Footprint.sparse`, `Footprint.dense`: the size of an image in each mode;
* `Footprint.most`: what a lent region must have for a sketch to start in it;
* `Region.footprint`: the size an image declares by its own header.
-/

namespace HyperLogLog

namespace Footprint

/-- Log2 of the slots of a list. -/
def lgList : Nat := 3

/-- Log2 of the slots of the smallest table. -/
def lgTable : Nat := 5

/-- Log2 of the slots of the largest table. -/
def lgLargestTable (cfg : Config) : Nat := cfg.lgK - 3

/-- The bytes of a list or a table of `2 ^ lgArr` slots. -/
def sparse (mode : Mode) (lgArr : Nat) : Nat := mode.dataStart + 4 * 2 ^ lgArr

/-- The bytes of the registers. Six-bit registers are read two bytes at a time, so one byte to
spare follows the last. -/
def registers (cfg : Config) : Nat :=
  match cfg.width with
  | .four => cfg.k / 2
  | .six => cfg.k * 3 / 4 + 1
  | .eight => cfg.k

/-- The bytes of a dense image with some exceptions, which only four-bit registers have. -/
def dense (cfg : Config) (exceptions : Nat) : Nat :=
  Mode.dense.dataStart + registers cfg + (if cfg.width = .four then 4 * exceptions else 0)

/-- Log2 of the exceptions for which a lent region has room at first, from `lgK = 4` on. -/
def lgReserved : List Nat := [2, 2, 2, 3, 3, 3, 4, 4, 5, 5, 6, 7, 8, 9, 10, 11, 12, 13]

/-- The exceptions for which a lent region has room at first. -/
def reserved (cfg : Config) : Nat := 2 ^ lgReserved.getD (cfg.lgK - 4) 0

/-- The bytes a lent region must have for a sketch to start in it. -/
def most (cfg : Config) : Nat := max (dense cfg (reserved cfg)) (sparse .list lgList)

end Footprint

namespace Region

/-- The number of coupon slots: all of them, or in a compact image as many as there are coupons. -/
def slots (r : Region) (mode : Mode) : Nat :=
  if r.hasFlag .compact then
    match mode with
    | .set => r.setCount
    | _ => r.listCount
  else 2 ^ r.lgArr

/-- The size of the image as declared by its header. -/
def footprint (r : Region) (cfg : Config) (mode : Mode) : Nat :=
  match mode with
  | .list => Mode.list.dataStart + 4 * r.slots .list
  | .set => Mode.set.dataStart + 4 * r.slots .set
  | .dense => Footprint.dense cfg r.exceptionCount

end Region

end HyperLogLog
