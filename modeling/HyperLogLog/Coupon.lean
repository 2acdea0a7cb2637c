/-!
# Coupons

A coupon is what a sketch keeps of one observation: a 32-bit word with the register address in its
low 26 bits and the register value in its high six.

* `Coupon.slot`, `Coupon.value`: the two parts; `Coupon.pack` puts them together;
* `Coupon.ofHash`: the coupon of a 128-bit hash;
* **`slot_pack`**, **`value_pack`**, **`pack_slot_value`**: packing loses nothing in range.
-/

namespace HyperLogLog

/-- A 32-bit observation. The word zero stands for an empty slot and is no observation. -/
structure Coupon where
  word : UInt32
deriving DecidableEq

namespace Coupon

/-- The word that marks an empty slot. -/
def empty : Coupon := ⟨0⟩

/-- The word as a number. -/
def toNat (c : Coupon) : Nat := c.word.toNat

/-- The register address. -/
def slot (c : Coupon) : Nat := c.toNat % 67108864

/-- The register value. -/
def value (c : Coupon) : Nat := c.toNat / 67108864

/-- The coupon with the low 26 bits of `slot` and the low six bits of `value`. -/
def pack (slot value : Nat) : Coupon :=
  ⟨UInt32.ofNat (67108864 * (value % 64) + slot % 67108864)⟩

/-- The coupon of a hash: the address is the low 26 bits of the first half, the value one more than
the number of leading zeros of the second, of which at most 62 count. -/
def ofHash (first second : UInt64) : Coupon :=
  let zeros := if second = 0 then 64 else 63 - second.toNat.log2
  pack first.toNat (min zeros 62 + 1)

/-- The coupon seen by a sketch whose registers are `2 ^ lgK`. -/
def folded (lgK : Nat) (c : Coupon) : Coupon := pack (c.slot % 2 ^ lgK) c.value

theorem toNat_pack (slot value : Nat) :
    (pack slot value).toNat = 67108864 * (value % 64) + slot % 67108864 := by
  rw [toNat, pack, UInt32.toNat_ofNat']
  omega

@[simp] theorem slot_pack (slot value : Nat) : (pack slot value).slot = slot % 67108864 := by
  rw [Coupon.slot, toNat_pack]
  omega

@[simp] theorem value_pack (slot value : Nat) : (pack slot value).value = value % 64 := by
  rw [Coupon.value, toNat_pack]
  omega

theorem slot_pack_of_lt {slot : Nat} (value : Nat) (h : slot < 67108864) :
    (pack slot value).slot = slot := by
  rw [slot_pack, Nat.mod_eq_of_lt h]

theorem value_pack_of_le (slot : Nat) {value : Nat} (h : value ≤ 63) :
    (pack slot value).value = value := by
  rw [value_pack, Nat.mod_eq_of_lt (by omega)]

theorem slot_lt (c : Coupon) : c.slot < 67108864 := Nat.mod_lt _ (by decide)

theorem value_le (c : Coupon) : c.value ≤ 63 := by
  have := c.word.toNat_lt
  unfold Coupon.value toNat
  omega

@[simp] theorem pack_slot_value (c : Coupon) : pack c.slot c.value = c := by
  have h : (pack c.slot c.value).toNat = c.toNat := by
    have := c.word.toNat_lt
    rw [toNat_pack, Coupon.slot, Coupon.value]
    simp only [toNat] at *
    omega
  cases c with
  | mk w => exact congrArg mk (UInt32.toNat_inj.1 h)

end Coupon

end HyperLogLog
