import HyperLogLog.Declaration
import HyperLogLog.Item
import HyperLogLog.Sparse.CouponList

/-!
# Sketches

A sketch is a handle on an image: the configuration and the mode it was last known to be in, and
the region that holds it. Sketches that own their image and sketches over bytes lent by a caller
are the same but for the room they have.

* `Sketch.new`, `Sketch.buildIn`: sketches that have seen nothing;
* `Sketch.insert`, `Sketch.update`, `Sketch.reset`: changes;
* `Sketch.estimate` and the other questions a sketch answers.
-/

namespace HyperLogLog

/-- A handle on an image. -/
structure Sketch where
  config : Config
  mode : Mode
  region : Region
deriving DecidableEq

/-- An operation that changes a sketch. When it fails, the sketch is left as it was at that
moment. -/
abbrev Change := EStateM Fault Sketch

namespace Sketch

/-! ## Sketches that have seen nothing -/

/-- A sketch that owns its image. -/
def new (cfg : Config) : Sketch :=
  ⟨cfg, .list, CouponList.clear cfg (Region.extend ⟨.empty, .owned⟩ CouponList.bytes)⟩

/-- The bytes a lent region must have for a sketch to start in it. -/
def mostBytes (lgK : Nat) (width : Width) : Except Fault Nat :=
  (Config.ofSize lgK width).map Footprint.most

/-- A sketch that owns its image, if there are sketches of that size. -/
def build (lgK : Nat) (width : Width) : Except Fault Sketch :=
  (Config.ofSize lgK width).map new

/-- A sketch that starts in lent bytes. -/
def buildIn (lgK : Nat) (width : Width) (lent : ByteArray) : Except Fault Sketch := do
  let cfg ← Config.ofSize lgK width
  if lent.size < Footprint.most cfg then throw (.outOfRoom (Footprint.most cfg) lent.size)
  else return ⟨cfg, .list, CouponList.clear cfg ⟨lent, .lent⟩⟩

/-! ## Questions -/

/-- The size of the image. -/
def imageSize (s : Sketch) : Nat := s.region.footprint s.config s.mode

/-- The image. -/
def image (s : Sketch) : ByteArray := s.region.bytes.extract 0 s.imageSize

/-- Whether nothing has been seen. -/
def isEmpty (s : Sketch) : Bool := Contents.isEmpty s.config s.mode s.region

/-- Whether the history of the image is unknown. -/
def isOutOfOrder (s : Sketch) : Bool := s.region.hasFlag .outOfOrder

/-- Whether the image has no empty coupon slots. -/
def isCompact (s : Sketch) : Bool := s.region.hasFlag .compact

/-- Whether the bytes are lent. -/
def isDirect (s : Sketch) : Bool := s.region.backing ≠ .owned

/-- Whether the bytes are lent for reading only. -/
def isReadOnly (s : Sketch) : Bool := s.region.backing = .frozen

/-- The estimated number of distinct items seen. -/
def estimate (s : Sketch) : Double := Contents.estimate s.config s.mode s.region

/-- The estimate that leaves history aside. -/
def composite (s : Sketch) : Double := Contents.composite s.config s.mode s.region

/-- The upper bound at a given confidence. -/
def upper (s : Sketch) (c : Estimate.Confidence) : Double :=
  Contents.upper s.config s.mode s.region c

/-- The lower bound at a given confidence. -/
def lower (s : Sketch) (c : Estimate.Confidence) : Double :=
  Contents.lower s.config s.mode s.region c

/-- The coupons the sketch holds. -/
def coupons (s : Sketch) : Except Fault (List Coupon) :=
  Contents.coupons s.config s.mode s.region

/-- Two sketches are equal if they are set up alike, are in the same mode and hold the same coupons
or registers; what they know of their history does not count. -/
def sameAs (s t : Sketch) : Bool :=
  s.config = t.config && s.mode = t.mode &&
    match s.coupons, t.coupons with
    | .ok a, .ok b => a.mergeSort (·.word ≤ ·.word) = b.mergeSort (·.word ≤ ·.word)
    | _, _ => false

/-! ## Changes -/

/-- Goes on only if the bytes may be written to. -/
def checkWritable : Change Unit := do
  if (← get).isReadOnly then throw .noWriteAccess else pure ()

/-- Changes the region. -/
def editing (x : Edit Unit) : Change Unit := fun ⟨cfg, mode, region⟩ =>
  match x region with
  | .ok _ r => .ok () ⟨cfg, mode, r⟩
  | .error e r => .error e ⟨cfg, mode, r⟩

/-- Takes in a coupon. The mode follows only if that succeeds. -/
def insert (c : Coupon) : Change Unit := do
  checkWritable
  fun ⟨cfg, mode, region⟩ =>
    let taken : Edit Mode :=
      match mode with
      | .list => CouponList.insert cfg c
      | .set => CouponTable.insert cfg c
      | .dense => do
        Registers.insert cfg c
        pure .dense
    match taken region with
    | .ok next r => .ok () ⟨cfg, next, r⟩
    | .error e r => .error e ⟨cfg, mode, r⟩

/-- Takes in an item. -/
def update (i : Item) : Change Unit := insert i.coupon

/-- Forgets everything seen. Bytes the image no longer needs are given up, or cleared if they are
lent. -/
def reset : Change Unit := do
  checkWritable
  let former := (← get).imageSize
  let cfg := (← get).config
  editing do
    Region.reserve CouponList.bytes
    modify fun r => (CouponList.clear cfg r).shrink CouponList.bytes
    modify fun r => r.zero CouponList.bytes (min former r.size - CouponList.bytes)
  modify fun ⟨cfg, _, region⟩ => ⟨cfg, .list, region⟩

end Sketch

end HyperLogLog
