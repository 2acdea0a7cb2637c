import HyperLogLog.Header

/-!
# Packed registers

The registers of a dense image start at byte 40, in fields of four, six or eight bits, the first
register in the low bits.

* `Region.nibble`, `Region.sixBits`, `Region.octet`: the field of a slot, and their writes;
* `Region.field`, `Region.putField`: the six- or eight-bit field, by width.
-/

namespace HyperLogLog.Region

/-! ## Four bits: two fields to a byte -/

/-- The four-bit field of a slot. -/
def nibble (r : Region) (slot : Nat) : Nat :=
  let b := (r.byte (40 + slot / 2)).toNat
  if slot % 2 = 0 then b % 16 else b / 16

/-- Writes the four-bit field of a slot. -/
def putNibble (r : Region) (slot v : Nat) : Region :=
  let i := 40 + slot / 2
  let b := (r.byte i).toNat
  r.setByte i (UInt8.ofNat
    (if slot % 2 = 0 then b / 16 * 16 + v % 16 else b % 16 + 16 * (v % 16)))

/-! ## Six bits: a field lies within the two bytes from the one it starts in -/

/-- The offset of the byte in which the six-bit field of a slot starts. -/
def windowStart (slot : Nat) : Nat := 40 + 6 * slot / 8

/-- The place value of the lowest bit of the six-bit field of a slot within its two bytes. -/
def windowUnit (slot : Nat) : Nat := 2 ^ (6 * slot % 8)

/-- The two bytes that hold the six-bit field of a slot. -/
def window (r : Region) (slot : Nat) : Nat :=
  (r.byte (windowStart slot)).toNat + 256 * (r.byte (windowStart slot + 1)).toNat

/-- The six-bit field of a slot. -/
def sixBits (r : Region) (slot : Nat) : Nat := r.window slot / windowUnit slot % 64

/-- Writes the six-bit field of a slot. -/
def putSixBits (r : Region) (slot v : Nat) : Region :=
  let i := windowStart slot
  let unit := windowUnit slot
  let w := r.window slot
  let new := w / (64 * unit) * (64 * unit) + v % 64 * unit + w % unit
  (r.setByte i (UInt8.ofNat new)).setByte (i + 1) (UInt8.ofNat (new / 256))

/-! ## Eight bits -/

/-- The eight-bit field of a slot. -/
def octet (r : Region) (slot : Nat) : Nat := (r.byte (40 + slot)).toNat

/-- Writes the eight-bit field of a slot. -/
def putOctet (r : Region) (slot v : Nat) : Region := r.setByte (40 + slot) (UInt8.ofNat v)

/-! ## Fields that hold the register itself -/

/-- The field of a slot at a width that holds every register whole. -/
def field (r : Region) (width : Width) (slot : Nat) : Nat :=
  match width with
  | .four => r.nibble slot
  | .six => r.sixBits slot
  | .eight => r.octet slot

/-- Writes the field of a slot. -/
def putField (r : Region) (width : Width) (slot v : Nat) : Region :=
  match width with
  | .four => r.putNibble slot v
  | .six => r.putSixBits slot v
  | .eight => r.putOctet slot v

end HyperLogLog.Region
