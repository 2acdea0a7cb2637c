import HyperLogLog.Proofs.Accepted
import HyperLogLog.Proofs.Fields
import HyperLogLog.Proofs.Guarded
import HyperLogLog.Sketch.Text

/-!
# The check and the questions, read with traps

Everything that is read from lent bytes, in the order in which it is read, over reads that trap.

* `Guarded.declaration`: the check of a header;
* `Guarded.register`, `Guarded.coupons`: registers, lists and tables;
* `Guarded.estimate`, `Guarded.lower` and the other questions;
* `Guarded.toCompact`, `Guarded.ofBytes`, `Guarded.toUpdatable`: bytes and sketches from the bytes.
-/

namespace HyperLogLog.Guarded

open Declaration (require demand sizeOf?)
open Estimate (Confidence)
open Scalar (ofCount larger atMost)

/-! ## The header -/

/-- The preamble size in four-byte units. -/
def preambleInts : Guarded Nat := (fun v => v.toNat % 64) <$> byte 0

/-- The version of the format. -/
def version : Guarded Nat := UInt8.toNat <$> byte 1

/-- The id of the family. -/
def familyId : Guarded Nat := UInt8.toNat <$> byte 2

/-- Log2 of the number of registers. -/
def lgK : Guarded Nat := UInt8.toNat <$> byte 3

/-- Log2 of the number of coupon slots. -/
def lgArr : Guarded Nat := UInt8.toNat <$> byte 4

/-- Whether a flag is set. -/
def hasFlag (f : Flag) : Guarded Bool := (fun v => v &&& f.mask != 0) <$> byte 5

/-- The number of coupons of a list. -/
def listCount : Guarded Nat := UInt8.toNat <$> byte 6

/-- The common minimum of dense registers. -/
def minimum : Guarded Nat := UInt8.toNat <$> byte 6

/-- The mode, if the code is one. -/
def mode? : Guarded (Option Mode) := (fun v => Mode.ofCode? (v.toNat % 4)) <$> byte 7

/-- The register width, if the code is one. -/
def width? : Guarded (Option Width) := (fun v => Width.ofCode? (v.toNat / 4 % 4)) <$> byte 7

/-- The number of coupons of a table. -/
def setCount : Guarded Nat := UInt32.toNat <$> word 8

/-- The number of registers at the minimum. -/
def atMinimum : Guarded Nat := UInt32.toNat <$> word 32

/-- The number of exceptions. -/
def exceptionCount : Guarded Nat := UInt32.toNat <$> word 36

/-- The sums of a dense image. -/
def estimator : Guarded (Estimator Double) := do
  let total ← real 8
  let lowSum ← real 16
  let highSum ← real 24
  return ⟨total, lowSum, highSum, ← hasFlag .outOfOrder⟩

/-- The number of coupons a list or a table declares. -/
def count : Mode → Guarded Nat
  | .list => listCount
  | .set => setCount
  | .dense => pure 0

/-- The number of coupon slots. -/
def slots (mode : Mode) : Guarded Nat := do
  if ← hasFlag .compact then
    match mode with
    | .set => setCount
    | _ => listCount
  else (2 ^ ·) <$> lgArr

/-- The size of the image as declared by its header. -/
def footprint (cfg : Config) : Mode → Guarded Nat
  | .list => (Mode.list.dataStart + 4 * ·) <$> slots .list
  | .set => (Mode.set.dataStart + 4 * ·) <$> slots .set
  | .dense => Footprint.dense cfg <$> exceptionCount

/-! ## The check -/

/-- The slots of a list or a table are of a possible number and hold the coupons counted. -/
def checkSparse (cfg : Config) (mode : Mode) (count : Guarded Nat) : Guarded Unit := do
  let range := Declaration.lgArrRange cfg mode
  let lgArr ← lgArr
  ofExcept (require (range.1 ≤ lgArr && lgArr ≤ range.2) (.slotCount mode lgArr cfg.lgK))
  let n ← count
  ofExcept (require (n ≤ 2 ^ lgArr) (.couponCount n (2 ^ lgArr)))

/-- The counts of registers make sense. -/
def checkDense (cfg : Config) : Guarded Unit := do
  let n ← atMinimum
  let exceptions ← exceptionCount
  ofExcept (require (n ≤ cfg.k && exceptions ≤ cfg.k) .registerCount)
  ofExcept (require ((← minimum) ≤ 63) .declaredMinimum)
  ofExcept (require (cfg.width = .four || exceptions = 0) .strayExceptions)

/-- The counts in the header make sense for its mode. -/
def checkCounts (cfg : Config) : Mode → Guarded Unit
  | .list => checkSparse cfg .list listCount
  | .set => checkSparse cfg .set setCount
  | .dense => checkDense cfg

/-- The configuration declared. -/
def configOf (width : Width) : { n : Nat // 4 ≤ n ∧ n ≤ 21 } → Config
  | ⟨lgK, hmin, hmax⟩ => ⟨lgK, width, hmin, hmax⟩

/-- What the header of the bytes declares, if it makes sense. -/
def declaration : Guarded Declaration := do
  let n ← size
  ofExcept (require (8 ≤ n) (.headerTruncated n))
  let ints ← preambleInts
  ofExcept (require (4 * ints ≤ n) (.preambleTruncated ints n))
  ofExcept (Family.hll.check (← familyId))
  let version ← version
  ofExcept (require (version = formatVersion) (.wrongVersion version))
  let lgK ← ofExcept (sizeOf? (← lgK))
  ofExcept (require (!(← hasFlag .bigEndian)) .byteOrder)
  let mode ← ofExcept (demand (← mode?) .declaredMode)
  let width ← ofExcept (demand (← width?) .declaredWidth)
  let cfg := configOf width lgK
  ofExcept (require (ints = mode.preambleInts) (.preambleSize mode mode.preambleInts ints))
  checkCounts cfg mode
  let need ← footprint cfg mode
  ofExcept (require (need ≤ n) (.imageTruncated need n))
  return ⟨cfg, mode⟩

/-! ## Coupons and registers -/

/-- The coupons of a list or a table, in the order of their slots. -/
def live (mode : Mode) : Guarded (List Coupon) := do
  let n ← slots mode
  (List.filter (· ≠ .empty)) <$> couponsAt mode.dataStart n

/-- Searches the exceptions for a slot, from `low` up to but not including `high`. -/
def searchBetween (cfg : Config) (slot low high : Nat) : Guarded Exceptions.Place :=
  if h : low < high then do
    let middle := low + (high - low) / 2
    let c ← coupon (Exceptions.offset cfg middle)
    if c.slot < slot then searchBetween cfg slot (middle + 1) high
    else if slot < c.slot then searchBetween cfg slot low middle
    else pure (.found middle)
  else pure (.missing low)
termination_by high - low

/-- The register kept for a slot among the exceptions. -/
def exception? (cfg : Config) (slot : Nat) : Guarded (Option Nat) := do
  match ← searchBetween cfg slot 0 (← exceptionCount) with
  | .found i => (fun c => some c.value) <$> coupon (Exceptions.offset cfg i)
  | .missing _ => pure none

/-- The four-bit field of a slot. -/
def nibble (slot : Nat) : Guarded Nat :=
  (fun v => if slot % 2 = 0 then v.toNat % 16 else v.toNat / 16) <$> byte (40 + slot / 2)

/-- The six-bit field of a slot, from the two bytes it may lie in. -/
def sixBits (slot : Nat) : Guarded Nat := do
  let low ← byte (Region.windowStart slot)
  let high ← byte (Region.windowStart slot + 1)
  return (low.toNat + 256 * high.toNat) / Region.windowUnit slot % 64

/-- The register of a slot. A four-bit field and the minimum are added as bytes. -/
def register (cfg : Config) (slot : Nat) : Guarded Nat :=
  match cfg.width with
  | .four => do
    let raw ← nibble slot
    if raw < Registers.mark then plus raw (← minimum)
    else
      match ← exception? cfg slot with
      | some v => pure v
      | none => throw (.exceptionMissing slot)
  | .six => sixBits slot
  | .eight => UInt8.toNat <$> byte (40 + slot)

/-- The registers that have risen, as coupons. -/
def risen (cfg : Config) : Guarded (List Coupon) := do
  let lgK ← lgK
  let vs ← (List.range (2 ^ lgK)).mapM (register cfg)
  return (vs.zipIdx.filter fun p => p.1 ≠ 0).map fun p => Coupon.pack p.2 p.1

/-- The coupons of an image. -/
def coupons (cfg : Config) : Mode → Guarded (List Coupon)
  | .list => live .list
  | .set => live .set
  | .dense => risen cfg

/-- What a target with `2 ^ j` registers takes in. -/
def offered (cfg : Config) (mode : Mode) (j : Nat) : Guarded (List Coupon) := do
  let cs ← coupons cfg mode
  match mode with
  | .dense => do
    let lgK ← lgK
    if lgK < j then throw (.narrowSource lgK j)
    else if j < lgK then return cs.map (Coupon.folded j)
    else return cs
  | _ => return cs

/-! ## Questions -/

/-- Whether nothing has been seen. -/
def isEmpty : Mode → Guarded Bool
  | .dense => do
    let lgK ← lgK
    let minimum ← minimum
    let n ← atMinimum
    return minimum = 0 ∧ n = 2 ^ lgK
  | mode => (fun n => n = 0) <$> count mode

/-- An answer computed from the number of coupons, or from the sums, `lgK`, the minimum and the
number of registers there. -/
def answer (f : Nat → Guarded Double) (g : Estimator Double → Nat → Nat → Nat → Guarded Double) :
    Mode → Guarded Double
  | .dense => do
    let lgK ← lgK
    let minimum ← minimum
    let n ← atMinimum
    g (← estimator) lgK minimum n
  | mode => do f (← count mode)

/-- The expected number of items that leave `filled` of `cells` cells filled. -/
def occupancy (cells filled : Nat) : Guarded Double :=
  if filled = 0 then pure 0.0
  else (fun rest => ofCount cells * (Estimate.harmonic cells - Estimate.harmonic rest)) <$>
    minus cells filled

/-- The estimate from `n` distinct coupons. -/
def ofCoupons (n : Nat) : Guarded Double :=
  if n = 0 then pure 0.0 else larger (ofCount n) <$> occupancy Estimate.couponSpace n

/-- The upper bound from `n` distinct coupons. -/
def couponsUpper (c : Confidence) (n : Nat) : Guarded Double :=
  (fun x => larger (ofCount n) (x / (1.0 - ofCount c.deviations * Estimate.couponError))) <$>
    ofCoupons n

/-- The lower bound from `n` distinct coupons. -/
def couponsLower (c : Confidence) (n : Nat) : Guarded Double :=
  (fun x => larger (ofCount n) (x / (1.0 + ofCount c.deviations * Estimate.couponError))) <$>
    ofCoupons n

section Sums

variable (e : Estimator Double) (lgK minimum n : Nat)

/-- What the registers alone say. -/
def compositeOf : Guarded Double :=
  if minimum = 0 ∧ n = 2 ^ lgK then pure 0.0
  else if minimum = 0 ∧ 0 < n ∧
      atMost (e.rawEstimate lgK) (Estimator.cutoff * ofCount (2 ^ lgK)) then do
    occupancy (2 ^ lgK) (← minus (2 ^ lgK) n)
  else pure (e.rawEstimate lgK)

/-- The running total, or what the registers alone say if it is void. -/
def estimateOf : Guarded Double :=
  if e.outOfOrder then compositeOf e lgK minimum n else pure e.total

/-- The upper bound. -/
def upperOf (c : Confidence) : Guarded Double :=
  (fun x => x / (1.0 - e.relativeError lgK c)) <$> estimateOf e lgK minimum n

/-- The lower bound. -/
def lowerOf (c : Confidence) : Guarded Double := do
  let x ← estimateOf e lgK minimum n
  let hit ← if minimum = 0 then minus (2 ^ lgK) n else pure (2 ^ lgK)
  return larger (x / (1.0 + e.relativeError lgK c)) (ofCount hit)

end Sums

/-- The estimate. -/
def estimate : Mode → Guarded Double := answer ofCoupons estimateOf

/-- The estimate that leaves history aside. -/
def composite : Mode → Guarded Double := answer ofCoupons compositeOf

/-- The upper bound. -/
def upper (mode : Mode) (c : Confidence) : Guarded Double :=
  answer (couponsUpper c) (fun e k m n => upperOf e k m n c) mode

/-- The lower bound. -/
def lower (mode : Mode) (c : Confidence) : Guarded Double :=
  answer (couponsLower c) (fun e k m n => lowerOf e k m n c) mode

/-! ## Bytes and sketches -/

/-- The image at the start of the bytes. -/
def image (cfg : Config) (mode : Mode) : Guarded ByteArray := do front (← footprint cfg mode)

/-- The bytes without room for more. -/
def toCompact (cfg : Config) (mode : Mode) : Guarded ByteArray :=
  match mode with
  | .dense => Sketch.markCompact <$> image cfg .dense
  | mode => do
    let cs ← live mode
    let header ← front mode.dataStart
    let room : Region := ⟨Bytes.extend (Sketch.markCompact header) (4 * cs.length), .owned⟩
    return (room.setCoupons mode.dataStart cs).bytes

/-- The header, line by line; no line is taken from beyond the preamble. -/
def summary : Guarded String := do
  let d ← declaration
  (fun preamble => (Region.over preamble).summary) <$> front d.mode.dataStart

/-- A sketch over the bytes. -/
def wrap (b : ByteArray) : Guarded Sketch :=
  (fun d => ⟨d.config, d.mode, Region.over b⟩) <$> declaration

/-- A sketch that owns its image, from the bytes. -/
def ofBytes : Guarded Sketch := do
  let d ← declaration
  let compact ← hasFlag .compact
  if d.mode ≠ .dense ∧ compact then
    let cs ← live d.mode
    ofExcept (Sketch.after (Sketch.insertAll cs) (Sketch.new d.config))
  else
    let image ← image d.config d.mode
    return ⟨d.config, d.mode, (Region.mk image .owned).putFlag .compact false⟩

/-- A sketch that owns a copy of the image. -/
def copy (cfg : Config) (mode : Mode) : Guarded Sketch := do inside (← image cfg mode) ofBytes

/-- The bytes with room for more. -/
def toUpdatable (cfg : Config) (mode : Mode) : Guarded ByteArray := do
  if ← hasFlag .compact then Sketch.image <$> copy cfg mode
  else image cfg mode

end HyperLogLog.Guarded
