import HyperLogLog.Dense.Exceptions
import HyperLogLog.Dense.Fields
import HyperLogLog.Estimate.Registers

/-!
# Registers of a dense image

A coupon raises the register of its slot to its value, if that is more.

* `Registers.read`: the register of a slot;
* `Registers.values`, `Registers.coupons`: all of them, and those that have risen, as coupons;
* `Registers.insert`: takes in a coupon;
* `Registers.clear`: an image whose registers are all zero.

Six- and eight-bit fields hold the register itself, the minimum in the header stays zero and the
header counts the zero registers. Four-bit fields hold the distance to the minimum, or a mark if
the register is an exception; once no register is left at the minimum, the minimum rises.
-/

namespace HyperLogLog.Registers

/-- The field of a register that is an exception. -/
def mark : Nat := 15

/-- The largest register, hence the largest minimum. -/
def largest : Nat := 63

/-- The register of a slot. -/
def read (cfg : Config) (r : Region) (slot : Nat) : Except Fault Nat :=
  match cfg.width with
  | .four =>
    let raw := r.nibble slot
    if raw < mark then .ok (raw + r.minimum)
    else
      match Exceptions.get? cfg r slot with
      | some v => .ok v
      | none => .error (.exceptionMissing slot)
  | .six => .ok (r.sixBits slot)
  | .eight => .ok (r.octet slot)

/-- All registers, in the order of their slots. -/
def values (cfg : Config) (r : Region) : Except Fault (List Nat) :=
  (List.range cfg.k).mapM (read cfg r)

/-- The registers that have risen, as coupons. -/
def coupons (cfg : Config) (r : Region) : Except Fault (List Coupon) :=
  (values cfg r).map fun vs =>
    (vs.zipIdx.filter fun p => p.1 ≠ 0).map fun p => Coupon.pack p.2 p.1

/-! ## Fields that hold the register itself -/

/-- Takes in a coupon where fields hold registers. -/
def insertWhole (cfg : Config) (c : Coupon) : Edit Unit := do
  let r ← get
  let slot := c.slot % cfg.k
  let old := r.field cfg.width slot
  if c.value ≤ old then pure ()
  else if old ≠ 0 then
    modify fun r => (r.putField cfg.width slot c.value).raiseEstimator cfg.lgK old c.value
  else
    let zeros := r.atMinimum
    if zeros = 0 then throw .minimumUncounted
    else
      modify fun r =>
        ((r.putField cfg.width slot c.value).raiseEstimator cfg.lgK old c.value).putAtMinimum
          (zeros - 1)

/-! ## Fields relative to the minimum -/

/-- Lowers the fields of the `n` slots from `slot` on by one, marks excepted, and counts those that
reach zero on top of `count`. -/
def lowerFields : (n slot count : Nat) → Edit Nat
  | 0, _, count => pure count
  | n + 1, slot, count => do
    let raw := (← get).nibble slot
    if raw < mark then
      if raw = 0 then throw (.registerBelowMinimum slot)
      else do
        modify (·.putNibble slot (raw - 1))
        lowerFields n (slot + 1) (if raw = 1 then count + 1 else count)
    else lowerFields n (slot + 1) count

/-- Goes through the exceptions when the minimum rises to `minimum`: those within reach of a field
move there, the others are kept, in order. -/
def rehome (minimum : Nat) : (entries kept : List Coupon) → Edit (List Coupon)
  | [], kept => pure kept.reverse
  | c :: rest, kept => do
    if c.value < minimum then throw (.exceptionBelowMinimum c.slot)
    else if c.value - minimum < mark then do
      modify (·.putNibble c.slot (c.value - minimum))
      rehome minimum rest kept
    else rehome minimum rest (c :: kept)

/-- Raises the minimum by one to `minimum`. -/
def raiseMinimum (cfg : Config) (minimum : Nat) : Edit Unit := do
  let count ← lowerFields cfg.k 0 0
  let kept ← rehome minimum (Exceptions.entries cfg (← get)) []
  modify fun r => ((Exceptions.retain cfg kept r).putMinimum minimum).putAtMinimum count

/-- Raises the minimum until some register is counted there. The first argument is how far the
minimum is below the largest register. -/
def settle (cfg : Config) : (room : Nat) → Edit Unit
  | 0 => do
    if (← get).atMinimum = 0 then throw (.minimumStuck largest) else pure ()
  | room + 1 => do
    if (← get).atMinimum = 0 then do
      raiseMinimum cfg (largest - room)
      settle cfg room
    else pure ()

/-- Stores a register in its field or as an exception; `raw` is the field as it was. A new entry is
made before the field is marked, so that a full region is left as it was. -/
def store (cfg : Config) (slot raw minimum value : Nat) : Edit Unit :=
  if raw = mark then
    if mark ≤ value - minimum then Exceptions.replace cfg slot value
    else throw (.exceptionShrinks slot)
  else if mark ≤ value - minimum then do
    Exceptions.insert cfg slot value
    modify (·.putNibble slot mark)
  else modify (·.putNibble slot (value - minimum))

/-- Takes in a coupon where fields are relative to the minimum. -/
def insertRelative (cfg : Config) (c : Coupon) : Edit Unit := do
  let r ← get
  let slot := c.slot % cfg.k
  let minimum := r.minimum
  if c.value ≤ minimum then pure ()
  else
    let raw := r.nibble slot
    let old ← ofExcept (read cfg r slot)
    if c.value ≤ old then pure ()
    else if old ≠ minimum then do
      store cfg slot raw minimum c.value
      modify (·.raiseEstimator cfg.lgK old c.value)
    else
      let n := r.atMinimum
      if n = 0 then throw .minimumUncounted
      else do
        store cfg slot raw minimum c.value
        modify fun r => (r.raiseEstimator cfg.lgK old c.value).putAtMinimum (n - 1)
        settle cfg (largest - minimum)

/-- Takes in a coupon. -/
def insert (cfg : Config) (c : Coupon) : Edit Unit :=
  match cfg.width with
  | .four => insertRelative cfg c
  | .six | .eight => insertWhole cfg c

/-- Writes a dense image whose registers are all zero. -/
def clear (cfg : Config) : Edit Unit := do
  Region.reserve (Footprint.dense cfg 0)
  modify fun r =>
    (((r.putHeader cfg .dense 0 0).zero 8 (Footprint.dense cfg 0 - 8)).putAtMinimum
      cfg.k).putEstimator (Estimator.fresh cfg.lgK)

end HyperLogLog.Registers
