import HyperLogLog.Region

/-!
# The header of an image

| Byte | Field |
|------|-------|
| 0 | preamble size in four-byte units (low six bits) |
| 1 | version of the format |
| 2 | id of the family |
| 3 | log2 of the number of registers |
| 4 | log2 of the number of coupon slots; zero when dense |
| 5 | flags |
| 6 | number of coupons (list), common minimum (dense) |
| 7 | mode (low two bits) and register width (next two) |

A list has its coupons from byte 8 on. A set counts its coupons in bytes 8 to 11 and has them from
byte 12 on. A dense image has the three sums of its estimator at bytes 8, 16 and 24, the number of
registers at the minimum at 32, the number of exceptions at 36 and its registers from byte 40 on.
-/

namespace HyperLogLog

/-- The flags of an image. -/
inductive Flag where
  /-- Numbers have their most significant byte first. -/
  | bigEndian
  /-- Reserved. -/
  | readOnly
  /-- Nothing has been seen. -/
  | empty
  /-- There are no empty coupon slots. -/
  | compact
  /-- The history of the image is unknown, so its running estimate is void. -/
  | outOfOrder
deriving DecidableEq

/-- The bit of a flag. -/
def Flag.mask : Flag → UInt8
  | bigEndian => 1
  | readOnly => 2
  | empty => 4
  | compact => 8
  | outOfOrder => 16

/-- The version of the format. -/
def formatVersion : Nat := 1

/-- The preamble size that goes with a mode, in four-byte units. -/
def Mode.preambleInts : Mode → Nat
  | .list => 2
  | .set => 3
  | .dense => 10

/-- Where the coupons or registers of a mode start. -/
def Mode.dataStart : Mode → Nat
  | .list => 8
  | .set => 12
  | .dense => 40

namespace Region

/-! ## Reading -/

/-- The preamble size in four-byte units. -/
def preambleInts (r : Region) : Nat := (r.byte 0).toNat % 64

/-- The version of the format. -/
def version (r : Region) : Nat := (r.byte 1).toNat

/-- The id of the family. -/
def familyId (r : Region) : Nat := (r.byte 2).toNat

/-- Log2 of the number of registers. -/
def lgK (r : Region) : Nat := (r.byte 3).toNat

/-- Log2 of the number of coupon slots. -/
def lgArr (r : Region) : Nat := (r.byte 4).toNat

/-- All flags. -/
def flags (r : Region) : UInt8 := r.byte 5

/-- Whether a flag is set. -/
def hasFlag (r : Region) (f : Flag) : Bool := r.flags &&& f.mask != 0

/-- The number of coupons of a list. -/
def listCount (r : Region) : Nat := (r.byte 6).toNat

/-- The common minimum of dense registers. -/
def minimum (r : Region) : Nat := (r.byte 6).toNat

/-- The mode, if the code is one. -/
def mode? (r : Region) : Option Mode := Mode.ofCode? ((r.byte 7).toNat % 4)

/-- The register width, if the code is one. -/
def width? (r : Region) : Option Width := Width.ofCode? ((r.byte 7).toNat / 4 % 4)

/-- The number of coupons of a table. -/
def setCount (r : Region) : Nat := (r.word 8).toNat

/-- The number of registers at the minimum. -/
def atMinimum (r : Region) : Nat := (r.word 32).toNat

/-- The number of exceptions. -/
def exceptionCount (r : Region) : Nat := (r.word 36).toNat

/-! ## Writing -/

/-- Writes log2 of the number of coupon slots. -/
def putLgArr (r : Region) (lgArr : Nat) : Region := r.setByte 4 (UInt8.ofNat lgArr)

/-- Writes the flags; this library always writes the least significant byte first. -/
def putFlags (r : Region) (flags : UInt8) : Region :=
  r.setByte 5 (flags &&& ~~~ Flag.bigEndian.mask)

/-- Sets or clears one flag. -/
def putFlag (r : Region) (f : Flag) (on : Bool) : Region :=
  r.putFlags (if on then r.flags ||| f.mask else r.flags &&& ~~~ f.mask)

/-- Writes the number of coupons of a list. -/
def putListCount (r : Region) (n : Nat) : Region := r.setByte 6 (UInt8.ofNat n)

/-- Writes the common minimum. -/
def putMinimum (r : Region) (n : Nat) : Region := r.setByte 6 (UInt8.ofNat n)

/-- Writes the mode and the register width. -/
def putModes (r : Region) (mode : Mode) (width : Width) : Region :=
  r.setByte 7 (UInt8.ofNat (mode.code + 4 * width.code))

/-- Writes the number of coupons of a table. -/
def putSetCount (r : Region) (n : Nat) : Region := r.setWord 8 (UInt32.ofNat n)

/-- Writes the number of registers at the minimum. -/
def putAtMinimum (r : Region) (n : Nat) : Region := r.setWord 32 (UInt32.ofNat n)

/-- Writes the number of exceptions. -/
def putExceptionCount (r : Region) (n : Nat) : Region := r.setWord 36 (UInt32.ofNat n)

/-- Writes the first eight bytes of an image without coupons or registers. -/
def putHeader (r : Region) (cfg : Config) (mode : Mode) (lgArr : Nat) (flags : UInt8) : Region :=
  let r := r.setByte 0 (UInt8.ofNat mode.preambleInts)
  let r := r.setByte 1 (UInt8.ofNat formatVersion)
  let r := r.setByte 2 (UInt8.ofNat Family.hll.id)
  let r := r.setByte 3 (UInt8.ofNat cfg.lgK)
  let r := ((r.putLgArr lgArr).putFlags flags).setByte 6 0
  r.putModes mode cfg.width

end Region

end HyperLogLog
