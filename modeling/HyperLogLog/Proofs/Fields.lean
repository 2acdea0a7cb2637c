import HyperLogLog.Dense.Exceptions
import HyperLogLog.Dense.Fields
import HyperLogLog.Proofs.Region
import Mathlib.Tactic.IntervalCases

/-!
# Packed registers behave as an array

A field that is written reads back, and no other field changes, although fields share bytes.

* `Region.within_putNibble`, `Region.within_putField`: the bytes that a write touches;
* `Region.nibble_congr`, `Region.field_congr`: the bytes that a read depends on;
* `Region.sixBits_zero`, …, `Region.sixBits_three`: four six-bit fields fill three bytes;
* **`nibble_putNibble`**, **`sixBits_putSixBits`**, **`field_putField`**: reads after writes;
* `Region.within_fields`: the byte to spare behind the last field is not written to either;
* **`packed_update`**: a write is the update of an array, and changes nothing beside it.
-/

namespace HyperLogLog

theorem Config.sixteen_dvd_k (cfg : Config) : 16 ∣ cfg.k := Nat.pow_dvd_pow 2 cfg.four_le

namespace Region

variable {r r' : Region}

/-! ## Four bits -/

theorem nibble_congr {slot : Nat} (h : r'.byte (40 + slot / 2) = r.byte (40 + slot / 2)) :
    r'.nibble slot = r.nibble slot := by
  rw [nibble, nibble, h]

theorem within_putNibble (r : Region) (slot v : Nat) :
    Within (40 + slot / 2) 1 r (r.putNibble slot v) :=
  within_setByte ..

/-- **A four-bit field is what was last written to it.** -/
theorem nibble_putNibble {i : Nat} (j v : Nat) (h : 40 + i / 2 < r.size) :
    (r.putNibble i v).nibble j = if i = j then v % 16 else r.nibble j := by
  by_cases hb : j / 2 = i / 2
  · have h₀ := (r.byte (40 + i / 2)).toNat_lt
    unfold nibble putNibble
    dsimp only
    rw [hb, byte_setByte_self _ h, UInt8.toNat_ofNat']
    split_ifs <;> omega
  · rw [if_neg (by omega)]
    exact nibble_congr ((within_putNibble r i v).byte _ (by omega))

/-! ## Six bits -/

/-- The two bytes of a window with its field replaced. -/
def windowWith (w unit v : Nat) : Nat := w / (64 * unit) * (64 * unit) + v % 64 * unit + w % unit

theorem toNat_byte_putSixBits {slot : Nat} (v j : Nat) (h : windowStart slot + 1 < r.size) :
    ((r.putSixBits slot v).byte j).toNat =
      if j = windowStart slot then windowWith (r.window slot) (windowUnit slot) v % 256
      else if j = windowStart slot + 1 then
        windowWith (r.window slot) (windowUnit slot) v / 256 % 256
      else (r.byte j).toNat := by
  unfold putSixBits
  dsimp only
  split_ifs with h₀ h₁
  · rw [byte_setByte_of_ne _ (by omega), h₀, byte_setByte_self _ (by omega), UInt8.toNat_ofNat',
      windowWith]
  · rw [h₁, byte_setByte_self _ (by rw [size_setByte]; omega), UInt8.toNat_ofNat', windowWith]
  · rw [byte_setByte_of_ne _ (by omega), byte_setByte_of_ne _ (by omega)]

section Group

variable (q : Nat)

theorem windowStart_group (a : Nat) : windowStart (4 * q + a) = 40 + 3 * q + 6 * a / 8 := by
  unfold windowStart
  omega

theorem windowUnit_group (a : Nat) : windowUnit (4 * q + a) = 2 ^ (6 * a % 8) := by
  unfold windowUnit
  rw [show 6 * (4 * q + a) % 8 = 6 * a % 8 by omega]

theorem sixBits_zero : r.sixBits (4 * q) = (r.byte (40 + 3 * q)).toNat % 64 := by
  have h := (r.byte (40 + 3 * q)).toNat_lt
  have hs := windowStart_group q 0
  have hu := windowUnit_group q 0
  simp only [Nat.add_zero, Nat.mul_zero, Nat.zero_div, Nat.zero_mod, Nat.pow_zero] at hs hu
  rw [sixBits, window, hs, hu]
  omega

theorem sixBits_one : r.sixBits (4 * q + 1) =
    (r.byte (40 + 3 * q)).toNat / 64 + 4 * ((r.byte (41 + 3 * q)).toNat % 16) := by
  have h := (r.byte (40 + 3 * q)).toNat_lt
  rw [sixBits, window, windowStart_group, windowUnit_group,
    show 40 + 3 * q + 6 * 1 / 8 + 1 = 41 + 3 * q by omega]
  simp only [Nat.reduceMul, Nat.reduceDiv, Nat.reduceMod, Nat.reducePow, Nat.add_zero]
  omega

theorem sixBits_two : r.sixBits (4 * q + 2) =
    (r.byte (41 + 3 * q)).toNat / 16 + 16 * ((r.byte (42 + 3 * q)).toNat % 4) := by
  have h := (r.byte (41 + 3 * q)).toNat_lt
  rw [sixBits, window, windowStart_group, windowUnit_group,
    show 40 + 3 * q + 6 * 2 / 8 + 1 = 42 + 3 * q by omega,
    show 40 + 3 * q + 6 * 2 / 8 = 41 + 3 * q by omega]
  simp only [Nat.reduceMul, Nat.reduceMod, Nat.reducePow]
  omega

theorem sixBits_three : r.sixBits (4 * q + 3) = (r.byte (42 + 3 * q)).toNat / 4 := by
  have h := (r.byte (42 + 3 * q)).toNat_lt
  rw [sixBits, window, windowStart_group, windowUnit_group,
    show 40 + 3 * q + 6 * 3 / 8 = 42 + 3 * q by omega]
  simp only [Nat.reduceMul, Nat.reduceMod, Nat.reducePow]
  omega

theorem byte_putSixBits_zero (v j : Nat) (h : 40 + 3 * q + 1 < r.size) :
    ((r.putSixBits (4 * q) v).byte j).toNat =
      if j = 40 + 3 * q then (r.byte j).toNat / 64 * 64 + v % 64 else (r.byte j).toNat := by
  have h₀ := (r.byte (40 + 3 * q)).toNat_lt
  have h₁ := (r.byte (40 + 3 * q + 1)).toNat_lt
  have hs := windowStart_group q 0
  have hu := windowUnit_group q 0
  simp only [Nat.add_zero, Nat.mul_zero, Nat.zero_div, Nat.zero_mod, Nat.pow_zero] at hs hu
  rw [toNat_byte_putSixBits v j (by omega), window, hs, hu, windowWith]
  split_ifs with hj hj'
  · rw [hj]
    omega
  · rw [hj']
    omega
  · rfl

theorem byte_putSixBits_one (v j : Nat) (h : 41 + 3 * q < r.size) :
    ((r.putSixBits (4 * q + 1) v).byte j).toNat =
      if j = 40 + 3 * q then (r.byte j).toNat % 64 + 64 * (v % 4)
      else if j = 41 + 3 * q then (r.byte j).toNat / 16 * 16 + v % 64 / 4
      else (r.byte j).toNat := by
  have h₀ := (r.byte (40 + 3 * q)).toNat_lt
  have h₁ := (r.byte (41 + 3 * q)).toNat_lt
  have hs := windowStart_group q 1
  rw [toNat_byte_putSixBits v j (by omega), window, hs, windowUnit_group, windowWith,
    show 40 + 3 * q + 6 * 1 / 8 = 40 + 3 * q by omega, show 40 + 3 * q + 1 = 41 + 3 * q by omega]
  simp only [Nat.reduceMul, Nat.reduceMod, Nat.reducePow]
  split_ifs with hj hj'
  · rw [hj]
    omega
  · rw [hj']
    omega
  · rfl

theorem byte_putSixBits_two (v j : Nat) (h : 42 + 3 * q < r.size) :
    ((r.putSixBits (4 * q + 2) v).byte j).toNat =
      if j = 41 + 3 * q then (r.byte j).toNat % 16 + 16 * (v % 16)
      else if j = 42 + 3 * q then (r.byte j).toNat / 4 * 4 + v % 64 / 16
      else (r.byte j).toNat := by
  have h₁ := (r.byte (41 + 3 * q)).toNat_lt
  have h₂ := (r.byte (42 + 3 * q)).toNat_lt
  have hs := windowStart_group q 2
  rw [toNat_byte_putSixBits v j (by omega), window, hs, windowUnit_group, windowWith,
    show 40 + 3 * q + 6 * 2 / 8 = 41 + 3 * q by omega, show 41 + 3 * q + 1 = 42 + 3 * q by omega]
  simp only [Nat.reduceMul, Nat.reduceMod, Nat.reducePow]
  split_ifs with hj hj'
  · rw [hj]
    omega
  · rw [hj']
    omega
  · rfl

theorem byte_putSixBits_three (v j : Nat) (h : 43 + 3 * q < r.size) :
    ((r.putSixBits (4 * q + 3) v).byte j).toNat =
      if j = 42 + 3 * q then (r.byte j).toNat % 4 + 4 * (v % 64) else (r.byte j).toNat := by
  have h₂ := (r.byte (42 + 3 * q)).toNat_lt
  have h₃ := (r.byte (43 + 3 * q)).toNat_lt
  have hs := windowStart_group q 3
  rw [toNat_byte_putSixBits v j (by omega), window, hs, windowUnit_group, windowWith,
    show 40 + 3 * q + 6 * 3 / 8 = 42 + 3 * q by omega, show 42 + 3 * q + 1 = 43 + 3 * q by omega]
  simp only [Nat.reduceMul, Nat.reduceMod, Nat.reducePow]
  split_ifs with hj hj'
  · rw [hj]
    omega
  · rw [hj']
    omega
  · rfl

end Group

/-- **A six-bit field is what was last written to it**, and the spare bits around it are kept. -/
theorem sixBits_putSixBits {i : Nat} (j v : Nat) (h : windowStart i + 1 < r.size) :
    (r.putSixBits i v).sixBits j = if i = j then v % 64 else r.sixBits j := by
  obtain ⟨p, b, hb, rfl⟩ : ∃ p b, b < 4 ∧ j = 4 * p + b := ⟨j / 4, j % 4, by omega, by omega⟩
  obtain ⟨q, a, ha, rfl⟩ : ∃ q a, a < 4 ∧ i = 4 * q + a := ⟨i / 4, i % 4, by omega, by omega⟩
  rw [windowStart_group] at h
  have h₀ := (r.byte (40 + 3 * p)).toNat_lt
  have h₁ := (r.byte (41 + 3 * p)).toNat_lt
  have h₂ := (r.byte (42 + 3 * p)).toNat_lt
  -- the field of the slot that is read is that of three bytes, of which each write changes two
  interval_cases b <;>
    simp only [Nat.add_zero, sixBits_zero, sixBits_one, sixBits_two, sixBits_three]
  all_goals
    interval_cases a
    · rw [Nat.add_zero]
      simp only [byte_putSixBits_zero q v _ (by omega : 40 + 3 * q + 1 < r.size)]
      split_ifs <;> omega
    · simp only [byte_putSixBits_one q v _ (by omega : 41 + 3 * q < r.size)]
      split_ifs <;> omega
    · simp only [byte_putSixBits_two q v _ (by omega : 42 + 3 * q < r.size)]
      split_ifs <;> omega
    · simp only [byte_putSixBits_three q v _ (by omega : 43 + 3 * q < r.size)]
      split_ifs <;> omega

theorem sixBits_congr {slot : Nat}
    (h : ∀ j, 40 + 3 * (slot / 4) ≤ j → j < 43 + 3 * (slot / 4) → r'.byte j = r.byte j) :
    r'.sixBits slot = r.sixBits slot := by
  obtain ⟨q, a, ha, rfl⟩ : ∃ q a, a < 4 ∧ slot = 4 * q + a :=
    ⟨slot / 4, slot % 4, by omega, by omega⟩
  rw [show (4 * q + a) / 4 = q by omega] at h
  have h₀ := h (40 + 3 * q) (by omega) (by omega)
  have h₁ := h (41 + 3 * q) (by omega) (by omega)
  have h₂ := h (42 + 3 * q) (by omega) (by omega)
  interval_cases a
  · rw [Nat.add_zero, sixBits_zero, sixBits_zero, h₀]
  · rw [sixBits_one, sixBits_one, h₀, h₁]
  · rw [sixBits_two, sixBits_two, h₁, h₂]
  · rw [sixBits_three, sixBits_three, h₂]

theorem within_putSixBits (r : Region) (slot v : Nat) :
    Within (windowStart slot) 2 r (r.putSixBits slot v) := by
  unfold putSixBits
  exact ((within_setByte ..).mono (by omega) (by omega)).trans
    ((within_setByte ..).mono (by omega) (by omega))

theorem byte_putSixBits_of_outside {slot j : Nat} (v : Nat) (hs : 43 + 3 * (slot / 4) < r.size)
    (hj : j < 40 + 3 * (slot / 4) ∨ 43 + 3 * (slot / 4) ≤ j) :
    (r.putSixBits slot v).byte j = r.byte j := by
  obtain ⟨q, a, ha, rfl⟩ : ∃ q a, a < 4 ∧ slot = 4 * q + a :=
    ⟨slot / 4, slot % 4, by omega, by omega⟩
  rw [show (4 * q + a) / 4 = q by omega] at hs hj
  apply UInt8.toNat_inj.1
  interval_cases a
  · rw [Nat.add_zero, byte_putSixBits_zero q v j (by omega), if_neg (by omega)]
  · rw [byte_putSixBits_one q v j (by omega), if_neg (by omega), if_neg (by omega)]
  · rw [byte_putSixBits_two q v j (by omega), if_neg (by omega), if_neg (by omega)]
  · rw [byte_putSixBits_three q v j hs, if_neg (by omega)]

/-! ## Eight bits -/

theorem octet_putOctet {i : Nat} (j v : Nat) (h : 40 + i < r.size) :
    (r.putOctet i v).octet j = if i = j then v % 256 else r.octet j := by
  unfold octet putOctet
  split_ifs with hij
  · rw [← hij, byte_setByte_self _ h, UInt8.toNat_ofNat']
  · rw [byte_setByte_of_ne _ (by omega)]

/-! ## All widths -/

variable {cfg : Config}

theorem within_putField {slot : Nat} (v : Nat) (h : slot < cfg.k) :
    Within 40 (Footprint.registers cfg) r (r.putField cfg.width slot v) := by
  obtain ⟨m, hm⟩ := cfg.sixteen_dvd_k
  unfold putField Footprint.registers
  cases cfg.width with
  | four => exact (within_putNibble ..).mono (by omega) (by simp only; omega)
  | six =>
    refine (within_putSixBits ..).mono (by unfold windowStart; omega) ?_
    unfold windowStart
    simp only
    omega
  | eight => exact (within_setByte ..).mono (by omega) (by simp only; omega)

theorem field_congr {slot : Nat} (h : slot < cfg.k)
    (hb : ∀ j, 40 ≤ j → j < 40 + Footprint.registers cfg → r'.byte j = r.byte j) :
    r'.field cfg.width slot = r.field cfg.width slot := by
  obtain ⟨m, hm⟩ := cfg.sixteen_dvd_k
  unfold field
  unfold Footprint.registers at hb
  cases hw : cfg.width <;> rw [hw] at hb <;> simp only at hb ⊢
  · exact nibble_congr (hb _ (by omega) (by omega))
  · exact sixBits_congr fun j h₁ h₂ => hb j (by omega) (by omega)
  · rw [octet, octet, hb _ (by omega) (by omega)]

/-- **A field is what was last written to it**, if it is written in range. -/
theorem field_putField {i j v : Nat} (hi : i < cfg.k)
    (hs : 40 + Footprint.registers cfg ≤ r.size) (hv : v < 2 ^ cfg.width.bits) :
    (r.putField cfg.width i v).field cfg.width j =
      if i = j then v else r.field cfg.width j := by
  obtain ⟨m, hm⟩ := cfg.sixteen_dvd_k
  unfold Footprint.registers at hs
  unfold field putField
  cases hw : cfg.width <;> rw [hw] at hs hv <;> simp only [Width.bits, Nat.reducePow] at hs hv ⊢
  · rw [nibble_putNibble j v (by omega), Nat.mod_eq_of_lt hv]
  · rw [sixBits_putSixBits j v (by unfold windowStart; omega), Nat.mod_eq_of_lt hv]
  · rw [octet_putOctet j v (by omega), Nat.mod_eq_of_lt hv]

/-- Writing a field changes bytes of fields alone: a window that reaches beyond the last field
gives the byte there back as it was. -/
theorem within_fields {slot : Nat} (v : Nat) (h : slot < cfg.k)
    (hs : 40 + Footprint.registers cfg ≤ r.size) :
    Within 40 (cfg.k * cfg.width.bits / 8) r (r.putField cfg.width slot v) := by
  obtain ⟨m, hm⟩ := cfg.sixteen_dvd_k
  unfold Footprint.registers at hs
  unfold putField
  cases hw : cfg.width <;> rw [hw] at hs <;> simp only [Width.bits] at hs ⊢
  · exact (within_putNibble ..).mono (by omega) (by omega)
  · obtain ⟨hsize, hbacking, -⟩ := within_putSixBits r slot v
    exact ⟨hsize, hbacking, fun j hj => byte_putSixBits_of_outside v (by omega) (by omega)⟩
  · exact (within_setByte ..).mono (by omega) (by omega)

/-- **Packed registers behave as an array.** After a write the fields are those from before with
one of them updated, and no byte outside the fields has changed: neither the header, nor the byte
to spare behind six-bit fields, nor the exceptions behind four-bit ones. A window of two bytes lies
within the registers, and the byte of a four-bit field before the exceptions. -/
theorem packed_update {i v : Nat} (hi : i < cfg.k) (hs : 40 + Footprint.registers cfg ≤ r.size)
    (hv : v < 2 ^ cfg.width.bits) :
    (r.putField cfg.width i v).field cfg.width = Function.update (r.field cfg.width) i v ∧
    Within 40 (cfg.k * cfg.width.bits / 8) r (r.putField cfg.width i v) ∧
    (cfg.width = .six →
      40 ≤ windowStart i ∧ windowStart i + 2 ≤ 40 + Footprint.registers cfg) ∧
    (cfg.width = .four → 40 + i / 2 < Exceptions.offset cfg 0) := by
  obtain ⟨m, hm⟩ := cfg.sixteen_dvd_k
  refine ⟨funext fun j => ?_, within_fields v hi hs, fun hw => ?_, fun _ => ?_⟩
  · rw [field_putField hi hs hv, Function.update_apply]
    exact if_congr eq_comm rfl rfl
  · unfold windowStart Footprint.registers
    simp only [hw]
    omega
  · unfold Exceptions.offset
    omega

/-- Six-bit registers of the smallest size, all of their bits set. -/
def filled : Region := ⟨⟨Array.replicate 53 255⟩, .owned⟩

/-- The last of them is written, its neighbour and the byte to spare stay full. -/
theorem packed_update_last :
    let cfg : Config := ⟨4, .six, by decide, by decide⟩
    15 < cfg.k ∧ 40 + Footprint.registers cfg ≤ filled.size ∧ 37 < 2 ^ cfg.width.bits ∧
    (filled.putField .six 15 37).field .six 15 = 37 ∧
    (filled.putField .six 15 37).field .six 14 = 63 ∧
    (filled.putField .six 15 37).byte 52 = 255 := by
  intro cfg
  obtain ⟨hfield, hwithin, -⟩ :=
    @packed_update filled cfg 15 37 (by decide) (by decide) (by decide)
  have hat : ∀ j, (filled.putField .six 15 37).field .six j =
      Function.update (filled.field .six) 15 37 j := congrFun hfield
  refine ⟨by decide, by decide, by decide, ?_, ?_, ?_⟩
  · rw [hat, Function.update_self]
  · rw [hat, Function.update_of_ne (by decide)]
    decide
  · exact (hwithin.byte 52 (by decide)).trans (by decide)

end Region

end HyperLogLog
