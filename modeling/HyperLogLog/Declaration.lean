import HyperLogLog.Footprint

/-!
# Declarations

Bytes from outside are an image only if their header makes sense and they are as long as it says.
`Declaration.ofRegion` checks that, in the order of the header, and gives what the header declares.
-/

namespace HyperLogLog

/-- What a header declares. -/
structure Declaration where
  config : Config
  mode : Mode
deriving DecidableEq

namespace Declaration

/-- Fails with the given fault unless the condition holds. -/
def require (ok : Bool) (otherwise : Fault) : Except Fault Unit :=
  if ok then .ok () else .error otherwise

/-- The value, or the given fault if there is none. -/
def demand {α : Type} (x : Option α) (otherwise : Fault) : Except Fault α :=
  match x with
  | some a => .ok a
  | none => .error otherwise

/-- The number of registers declared, as the log2 of a number on offer. -/
def sizeOf? (lgK : Nat) : Except Fault { n : Nat // 4 ≤ n ∧ n ≤ 21 } :=
  if h : 4 ≤ lgK ∧ lgK ≤ 21 then .ok ⟨lgK, h⟩ else .error (.declaredSize lgK)

/-- The range of `lgArr` in a list or a table. -/
def lgArrRange (cfg : Config) (mode : Mode) : Nat × Nat :=
  match mode with
  | .set => (Footprint.lgTable, Footprint.lgLargestTable cfg)
  | _ => (Footprint.lgList, Footprint.lgList)

/-- The slots of a list or a table are of a possible number and hold the coupons counted. -/
def checkSparse (r : Region) (cfg : Config) (mode : Mode) (count : Nat) : Except Fault Unit := do
  let range := lgArrRange cfg mode
  require (range.1 ≤ r.lgArr && r.lgArr ≤ range.2) (.slotCount mode r.lgArr cfg.lgK)
  require (count ≤ 2 ^ r.lgArr) (.couponCount count (2 ^ r.lgArr))

/-- No more registers and exceptions are counted than there are registers, the minimum is a
register value, and only four-bit registers have exceptions. -/
def checkDense (r : Region) (cfg : Config) : Except Fault Unit := do
  require (r.atMinimum ≤ cfg.k && r.exceptionCount ≤ cfg.k) .registerCount
  require (r.minimum ≤ 63) .declaredMinimum
  require (cfg.width = .four || r.exceptionCount = 0) .strayExceptions

/-- What the header of some bytes declares, if it makes sense. -/
def ofRegion (r : Region) : Except Fault Declaration := do
  require (8 ≤ r.size) (.headerTruncated r.size)
  require (4 * r.preambleInts ≤ r.size) (.preambleTruncated r.preambleInts r.size)
  Family.hll.check r.familyId
  require (r.version = formatVersion) (.wrongVersion r.version)
  let lgK ← sizeOf? r.lgK
  require (!r.hasFlag .bigEndian) .byteOrder
  let mode ← demand r.mode? .declaredMode
  let width ← demand r.width? .declaredWidth
  let cfg : Config := ⟨lgK, width, lgK.2.1, lgK.2.2⟩
  require (r.preambleInts = mode.preambleInts)
    (.preambleSize mode mode.preambleInts r.preambleInts)
  match mode with
  | .list => checkSparse r cfg .list r.listCount
  | .set => checkSparse r cfg .set r.setCount
  | .dense => checkDense r cfg
  let size := r.footprint cfg mode
  require (size ≤ r.size) (.imageTruncated size r.size)
  return ⟨cfg, mode⟩

/-- What the header of some bytes declares. -/
def ofBytes (b : ByteArray) : Except Fault Declaration := ofRegion ⟨b, .frozen⟩

end Declaration

end HyperLogLog
