import HyperLogLog.Bytes
import HyperLogLog.Coupon
import HyperLogLog.Double
import HyperLogLog.Fault

/-!
# Regions

A region is the bytes that hold an image, and who owns them. Reading and writing are the same for
every owner; only making room is not.

* `Backing`, `Region`: the bytes and their owner;
* `Region.byte`, `Region.word`, `Region.real`, `Region.coupon` and their writes;
* `Edit`: an operation that changes a region; what it wrote before it failed stays written;
* `Region.reserve`, `Region.shrink`: making and giving up room.
-/

namespace HyperLogLog

-- bytes are compared as the core library does
attribute [instance (2000)] ByteArray.instDecidableEq

/-- Who owns the bytes of a region. -/
inductive Backing where
  /-- The sketch: room is made on demand. -/
  | owned
  /-- The caller, who lent a fixed number of bytes for reading and writing. -/
  | lent
  /-- The caller, who lent them for reading only. -/
  | frozen
deriving DecidableEq

/-- The bytes that hold an image; the image is at their start. -/
structure Region where
  bytes : ByteArray
  backing : Backing
deriving DecidableEq

namespace Region

/-- The number of bytes. -/
def size (r : Region) : Nat := r.bytes.size

/-- The byte at an offset. -/
def byte (r : Region) (i : Nat) : UInt8 := Bytes.byte r.bytes i

/-- The four bytes at an offset, as a number. -/
def word (r : Region) (i : Nat) : UInt32 := Bytes.word r.bytes i

/-- The eight bytes at an offset, as a double. -/
def real (r : Region) (i : Nat) : Double := ⟨Bytes.long r.bytes i⟩

/-- The coupon at an offset. -/
def coupon (r : Region) (i : Nat) : Coupon := ⟨r.word i⟩

/-- The `n` coupons from an offset on. -/
def coupons (r : Region) (i n : Nat) : List Coupon :=
  (List.range n).map fun j => r.coupon (i + 4 * j)

/-- Changes the bytes. -/
def edit (f : ByteArray → ByteArray) : Region → Region
  | ⟨bytes, backing⟩ => ⟨f bytes, backing⟩

/-- Writes one byte. -/
def setByte (r : Region) (i : Nat) (v : UInt8) : Region := r.edit fun b => Bytes.setByte b i v

/-- Writes four bytes. -/
def setWord (r : Region) (i : Nat) (v : UInt32) : Region := r.edit fun b => Bytes.setWord b i v

/-- Writes a double. -/
def setReal (r : Region) (i : Nat) (x : Double) : Region :=
  r.edit fun b => Bytes.setLong b i x.bits

/-- Writes a coupon. -/
def setCoupon (r : Region) (i : Nat) (c : Coupon) : Region := r.setWord i c.word

/-- Writes coupons one after the other. -/
def setCoupons (r : Region) (i : Nat) : List Coupon → Region
  | [] => r
  | c :: rest => (r.setCoupon i c).setCoupons (i + 4) rest

/-- Clears `n` bytes. -/
def zero (r : Region) (i n : Nat) : Region := r.edit fun b => Bytes.zero b i n

/-- Appends zero bytes up to the given size. -/
def extend (r : Region) (n : Nat) : Region := r.edit fun b => Bytes.extend b (n - b.size)

/-- Gives up the bytes beyond `n`, if the sketch owns them. -/
def shrink (r : Region) (n : Nat) : Region :=
  match r with
  | ⟨bytes, .owned⟩ => ⟨bytes.extract 0 n, .owned⟩
  | r => r

end Region

/-- An operation that changes a region. When it fails, the region is left as it was at that
moment. -/
abbrev Edit := EStateM Fault Region

/-- Makes sure that there are at least `n` bytes: an owned region grows, a lent one must have them
already. -/
def Region.reserve (n : Nat) : Edit Unit := fun r =>
  match r.backing with
  | .owned => .ok () (r.extend n)
  | .lent => if r.size < n then .error (.outOfRoom n r.size) r else .ok () r
  | .frozen => .error .noWriteAccess r

end HyperLogLog
