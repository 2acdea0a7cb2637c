import HyperLogLog.Sketch.Basic

/-!
# Sketches and bytes

* `Sketch.ofBytes`: a sketch of its own from bytes;
* `Sketch.wrap`, `Sketch.wrapWritable`: sketches over lent bytes;
* `Sketch.toCompact`, `Sketch.toUpdatable`: the bytes of a sketch, without and with room for more;
* `Sketch.compactSize`, `Sketch.updatableSize`: how many they are;
* `Sketch.copy`: a sketch of its own from another.
-/

namespace HyperLogLog.Sketch

/-! ## From bytes -/

/-- Takes in coupons one by one. -/
def insertAll (cs : List Coupon) : Change Unit := cs.forM insert

/-- The sketch a change leaves behind, if it succeeds. -/
def after (x : Change Unit) (s : Sketch) : Except Fault Sketch :=
  match x s with
  | .ok _ t => .ok t
  | .error e _ => .error e

/-- A sketch that owns its image, from bytes. Compact lists and tables have no room for more, so
their coupons are taken in again. -/
def ofBytes (bytes : ByteArray) : Except Fault Sketch := do
  let ⟨cfg, mode⟩ ← Declaration.ofBytes bytes
  let view : Region := ⟨bytes, .frozen⟩
  if mode ≠ .dense ∧ view.hasFlag .compact then
    after (insertAll (Contents.live mode view)) (new cfg)
  else
    let image : Region := ⟨bytes.extract 0 (view.footprint cfg mode), .owned⟩
    return ⟨cfg, mode, image.putFlag .compact false⟩

/-- A sketch over bytes lent for reading only, compact or not. -/
def wrap (bytes : ByteArray) : Except Fault Sketch := do
  let ⟨cfg, mode⟩ ← Declaration.ofBytes bytes
  return ⟨cfg, mode, ⟨bytes, .frozen⟩⟩

/-- A sketch over bytes lent for reading and writing. -/
def wrapWritable (bytes : ByteArray) : Except Fault Sketch := do
  let ⟨cfg, mode⟩ ← Declaration.ofBytes bytes
  let region : Region := ⟨bytes, .lent⟩
  if region.hasFlag .compact then throw .compactForWriting
  else return ⟨cfg, mode, region⟩

/-- A sketch that owns a copy of the image. -/
def copy (s : Sketch) : Except Fault Sketch := ofBytes s.image

/-! ## To bytes -/

/-- The size of the bytes with room for more. -/
def updatableSize (s : Sketch) : Nat :=
  match s.mode with
  | .dense => s.imageSize
  | mode => Footprint.sparse mode s.region.lgArr

/-- The size of the bytes without room for more. -/
def compactSize (s : Sketch) : Nat :=
  match s.mode with
  | .dense => s.imageSize
  | mode => mode.dataStart + 4 * Contents.count mode s.region

/-- Some bytes with the compact flag set. -/
def markCompact (b : ByteArray) : ByteArray :=
  Bytes.setByte b 5 (Bytes.byte b 5 ||| Flag.compact.mask)

/-- The bytes without room for more: a list or a table keeps only its coupons. -/
def toCompact (s : Sketch) : ByteArray :=
  match s.mode with
  | .dense => markCompact s.image
  | mode =>
    let coupons := Contents.live mode s.region
    let header := s.region.bytes.extract 0 mode.dataStart
    let room : Region := ⟨Bytes.extend (markCompact header) (4 * coupons.length), .owned⟩
    (room.setCoupons mode.dataStart coupons).bytes

/-- The bytes with room for more. A compact image is given room first. -/
def toUpdatable (s : Sketch) : Except Fault ByteArray :=
  if s.isCompact then s.copy.map image else .ok s.image

end HyperLogLog.Sketch
