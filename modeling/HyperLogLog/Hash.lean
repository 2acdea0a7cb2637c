import HyperLogLog.Bytes

/-!
# The 128-bit hash of an item

`Hash.ofBytes` is MurmurHash3 in its x64 128-bit variant, under the seed that all sketches share.
Two 64-bit lanes take in blocks of sixteen bytes; a last block that is not full counts as padded
with zeros, and skips the step that mixes the lanes with each other.
-/

namespace HyperLogLog.Hash

/-- The state of the hash: one number per lane. -/
structure Lanes where
  first : UInt64
  second : UInt64

/-- Rotates a number to the left, by fewer than 64 places. -/
def rotate (x : UInt64) (n : UInt64) : UInt64 := (x <<< n) ||| (x >>> (64 - n))

/-- The multiplier of the first lane. -/
def factor₁ : UInt64 := 0x87c37b91114253d5

/-- The multiplier of the second lane. -/
def factor₂ : UInt64 := 0x4cf5ad432745937f

/-- What the first half of a block adds to the first lane. -/
def scramble₁ (k : UInt64) : UInt64 := rotate (k * factor₁) 31 * factor₂

/-- What the second half of a block adds to the second lane. -/
def scramble₂ (k : UInt64) : UInt64 := rotate (k * factor₂) 33 * factor₁

/-- Takes in a full block. -/
def Lanes.absorb (s : Lanes) (k₁ k₂ : UInt64) : Lanes :=
  let a := (rotate (s.first ^^^ scramble₁ k₁) 27 + s.second) * 5 + 0x52dce729
  let b := (rotate (s.second ^^^ scramble₂ k₂) 31 + a) * 5 + 0x38495ab5
  ⟨a, b⟩

/-- Takes in the `n` full blocks from an offset on. -/
def Lanes.absorbBlocks (s : Lanes) (b : ByteArray) (i : Nat) : (n : Nat) → Lanes
  | 0 => s
  | n + 1 => (s.absorb (Bytes.long b i) (Bytes.long b (i + 8))).absorbBlocks b (i + 16) n

/-- Spreads every bit of a lane over all of it. -/
def spread (x : UInt64) : UInt64 :=
  let x := (x ^^^ (x >>> 33)) * 0xff51afd7ed558ccd
  let x := (x ^^^ (x >>> 33)) * 0xc4ceb9fe1a85ec53
  x ^^^ (x >>> 33)

/-- Adds each lane to the other, the first one last seen. -/
def Lanes.exchange (s : Lanes) : Lanes :=
  let a := s.first + s.second
  ⟨a, s.second + a⟩

/-- The seed of every sketch. -/
def seed : UInt64 := 9001

/-- The hash of some bytes. -/
def ofBytes (b : ByteArray) : Lanes :=
  let blocks := b.size / 16
  let s := (Lanes.mk seed seed).absorbBlocks b 0 blocks
  let size := b.size.toUInt64
  let a := s.first ^^^ scramble₁ (Bytes.long b (16 * blocks)) ^^^ size
  let c := s.second ^^^ scramble₂ (Bytes.long b (16 * blocks + 8)) ^^^ size
  let t := (Lanes.mk a c).exchange
  (Lanes.mk (spread t.first) (spread t.second)).exchange

end HyperLogLog.Hash
