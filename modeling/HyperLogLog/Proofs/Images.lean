import HyperLogLog.Proofs.Accepted
import HyperLogLog.Proofs.Canonical
import HyperLogLog.Proofs.Sparse

/-!
# Images and what they declare

The image of a holding is a prefix of its region, of the size its header declares. Bytes that
follow it are never read, and the same holding always has the same image.

* `Holds.fits`, `Holds.congr`: an image lies within its region and depends on no byte beyond it;
* **`Holds.byte_eq`**: two images of a holding are the same bytes;
* `Holds.clearCompact`, `Holds.extract`: an image outlives what is done to bytes that are read;
* `Region.Headed.declared`: what a header makes a reader expect;
* **`Holds.declared`**: an image declares the configuration and the mode of its holding.
-/

namespace HyperLogLog

open Registers (Dense)

variable {cfg cfg' : Config} {r r' : Region} {mode : Mode} {L n : Nat} {flags : UInt8}
  {cs : List Coupon} {slots : Nat → Coupon} {h : Holding}

/-! ## Lists and tables -/

theorem Listed.footprint_eq (h : Listed cfg cs n r) :
    r.footprint cfg .list = CouponList.bytes := by
  rw [Region.footprint, h.slots_eq]
  rfl

theorem Tabulated.footprint_eq (h : Tabulated cfg L slots n r) (hL : L < 256) :
    r.footprint cfg .set = Footprint.sparse .set L := by
  rw [Region.footprint, h.headed.slots_eq hL (by decide)]
  rfl

theorem Listed.byte_eq (h : Listed cfg cs n r) (h' : Listed cfg' cs n r')
    (hk : cfg.lgK = cfg'.lgK) {j : Nat} (hj : j < CouponList.bytes) (h₇ : j ≠ 7) :
    r.byte j = r'.byte j := by
  have hbytes : CouponList.bytes = 40 := rfl
  by_cases h₆ : j = 6
  · rw [h₆]
    exact UInt8.toNat_inj.1 (h.counted.trans h'.counted.symm)
  by_cases hlow : j < 8
  · exact h.headed.byte_eq h'.headed hk hlow h₆ h₇
  have hslot : r.coupon (CouponList.offset ((j - 8) / 4)) =
      r'.coupon (CouponList.offset ((j - 8) / 4)) := by
    rw [h.slot _ (by omega), h'.slot _ (by omega)]
  refine Region.byte_eq_of_word_eq (congrArg Coupon.word hslot) ?_ ?_
  · unfold CouponList.offset
    omega
  · unfold CouponList.offset
    omega

theorem Tabulated.byte_eq (h : Tabulated cfg L slots n r) (h' : Tabulated cfg' L slots n r')
    (hk : cfg.lgK = cfg'.lgK) {j : Nat} (hj : j < Footprint.sparse .set L) (h₇ : j ≠ 7) :
    r.byte j = r'.byte j := by
  have hbytes : Footprint.sparse .set L = 12 + 4 * 2 ^ L := rfl
  by_cases h₆ : j = 6
  · rw [h₆, h.spare, h'.spare]
  by_cases hlow : j < 8
  · exact h.headed.byte_eq h'.headed hk hlow h₆ h₇
  by_cases hcount : j < 12
  · have hword : r.word 8 = r'.word 8 := UInt32.toNat_inj.1 (h.counted.trans h'.counted.symm)
    exact Region.byte_eq_of_word_eq hword (by omega) (by omega)
  have hslot : r.coupon (CouponTable.offset ((j - 12) / 4)) =
      r'.coupon (CouponTable.offset ((j - 12) / 4)) := by
    rw [h.slot _ (by omega), h'.slot _ (by omega)]
  refine Region.byte_eq_of_word_eq (congrArg Coupon.word hslot) ?_ ?_
  · unfold CouponTable.offset
    omega
  · unfold CouponTable.offset
    omega

theorem Tabulated.congr (h : Tabulated cfg L slots n r) (hs : Footprint.sparse .set L ≤ r'.size)
    (hb : ∀ j, j < Footprint.sparse .set L → r'.byte j = r.byte j) :
    Tabulated cfg L slots n r' := by
  have hbytes : Footprint.sparse .set L = 12 + 4 * 2 ^ L := rfl
  refine ⟨h.headed.congr fun j hj _ => hb j (by omega), hs, ?_, ?_, fun i hi => ?_⟩
  · rw [hb 6 (by omega), h.spare]
  · exact (congrArg UInt32.toNat (Region.word_congr fun j _ hj => hb j (by omega))).trans h.counted
  · rw [← h.slot i hi]
    refine Region.coupon_congr fun j h₁ h₂ => hb j ?_
    unfold CouponTable.offset at h₂
    omega

/-! ## Every representation -/

namespace Region.Holds

theorem fits (hr : r.Holds cfg h) (hs : h.Sound cfg.lgK) : r.footprint cfg h.mode ≤ r.size := by
  cases h with
  | list cs n =>
    have hl : Listed cfg cs n r := hr
    exact Nat.le_trans (Nat.le_of_eq hl.footprint_eq) hl.fits
  | table L slots n =>
    have ht : Tabulated cfg L slots n r := hr
    exact Nat.le_trans (Nat.le_of_eq (ht.footprint_eq (lgArr_lt (Holding.Tabled.most hs)))) ht.fits
  | dense g =>
    have hd : Dense cfg g r := hr
    exact hd.packed.fits

theorem mode?_eq (hr : r.Holds cfg h) : r.mode? = some h.mode := by
  cases h with
  | list cs n =>
    have hl : Listed cfg cs n r := hr
    exact hl.headed.mode?_eq
  | table L slots n =>
    have ht : Tabulated cfg L slots n r := hr
    exact ht.headed.mode?_eq
  | dense g =>
    have hd : Dense cfg g r := hr
    exact hd.headed.mode?_eq

/-- **An image depends on no byte beyond it.** -/
theorem congr (hr : r.Holds cfg h) (hs : h.Sound cfg.lgK)
    (hfits : r.footprint cfg h.mode ≤ r'.size)
    (hb : ∀ j, j < r.footprint cfg h.mode → r'.byte j = r.byte j) : r'.Holds cfg h := by
  cases h with
  | list cs n =>
    have hl : Listed cfg cs n r := hr
    change r.footprint cfg .list ≤ _ at hfits
    change ∀ j, j < r.footprint cfg .list → _ at hb
    rw [hl.footprint_eq] at hfits hb
    exact hl.congr hfits hb
  | table L slots n =>
    have ht : Tabulated cfg L slots n r := hr
    change r.footprint cfg .set ≤ _ at hfits
    change ∀ j, j < r.footprint cfg .set → _ at hb
    rw [ht.footprint_eq (lgArr_lt (Holding.Tabled.most hs))] at hfits hb
    exact ht.congr hfits hb
  | dense g =>
    have hd : Dense cfg g r := hr
    exact hd.congr hfits hb

theorem footprint_eq (hr : r.Holds cfg h) (hr' : r'.Holds cfg h) (hs : h.Sound cfg.lgK) :
    r.footprint cfg h.mode = r'.footprint cfg h.mode := by
  cases h with
  | list cs n =>
    have hl : Listed cfg cs n r := hr
    have hl' : Listed cfg cs n r' := hr'
    exact hl.footprint_eq.trans hl'.footprint_eq.symm
  | table L slots n =>
    have ht : Tabulated cfg L slots n r := hr
    have ht' : Tabulated cfg L slots n r' := hr'
    have hL := lgArr_lt (Holding.Tabled.most hs)
    exact (ht.footprint_eq hL).trans (ht'.footprint_eq hL).symm
  | dense g =>
    have hd : Dense cfg g r := hr
    exact congrArg (Footprint.dense cfg) (hd.exceptionCount_eq hr' fun _ _ => rfl)

/-- **Two images of a holding are the same bytes.** -/
theorem byte_eq (hr : r.Holds cfg h) (hr' : r'.Holds cfg h) (hs : h.Sound cfg.lgK) {j : Nat}
    (hj : j < r.footprint cfg h.mode) : r.byte j = r'.byte j := by
  cases h with
  | list cs n =>
    have hl : Listed cfg cs n r := hr
    have hl' : Listed cfg cs n r' := hr'
    change j < r.footprint cfg .list at hj
    rw [hl.footprint_eq] at hj
    by_cases h₇ : j = 7
    · rw [h₇, hl.headed.modes, hl'.headed.modes]
    · exact hl.byte_eq hl' rfl hj h₇
  | table L slots n =>
    have ht : Tabulated cfg L slots n r := hr
    have ht' : Tabulated cfg L slots n r' := hr'
    change j < r.footprint cfg .set at hj
    rw [ht.footprint_eq (lgArr_lt (Holding.Tabled.most hs))] at hj
    by_cases h₇ : j = 7
    · rw [h₇, ht.headed.modes, ht'.headed.modes]
    · exact ht.byte_eq ht' rfl hj h₇
  | dense g =>
    have hd : Dense cfg g r := hr
    exact hd.byte_eq hr' (fun _ _ => rfl) rfl rfl rfl hj fun _ _ => rfl

end Region.Holds

/-! ## Flags -/

theorem Region.Holds.hasFlag_compact (hr : r.Holds cfg h) : r.hasFlag .compact = false := by
  cases h with
  | list cs n =>
    have hl : Listed cfg cs n r := hr
    rw [hl.headed.hasFlag_eq]
    unfold flagsOfList
    split_ifs <;> decide
  | table L slots n =>
    have ht : Tabulated cfg L slots n r := hr
    rw [ht.headed.hasFlag_eq]
    decide
  | dense g =>
    have hd : Dense cfg g r := hr
    rw [hd.headed.hasFlag_eq]
    unfold Registers.flagsOf
    split_ifs <;> decide

theorem Region.Holds.flags_eq (hr : r.Holds cfg h) :
    r.flags &&& ~~~ Flag.compact.mask &&& ~~~ Flag.bigEndian.mask = r.flags := by
  cases h with
  | list cs n =>
    have hl : Listed cfg cs n r := hr
    rw [Region.flags, hl.headed.flags]
    unfold flagsOfList
    split_ifs <;> decide
  | table L slots n =>
    have ht : Tabulated cfg L slots n r := hr
    rw [Region.flags, ht.headed.flags]
    decide
  | dense g =>
    have hd : Dense cfg g r := hr
    rw [Region.flags, hd.headed.flags]
    unfold Registers.flagsOf
    split_ifs <;> decide

theorem Region.Holds.clearCompact (hr : r.Holds cfg h) (hs : h.Sound cfg.lgK) :
    (r.putFlag .compact false).Holds cfg h := by
  have hin := Region.within_putFlag r .compact false
  refine hr.congr hs (hin.size ▸ hr.fits hs) fun j _ => ?_
  by_cases h₅ : j = 5
  · rw [h₅, Region.putFlag, Region.putFlags, Region.byte_setByte, if_neg Bool.false_ne_true]
    split_ifs
    · exact hr.flags_eq
    · rfl
  · exact hin.byte j (by omega)

theorem Region.Holds.extract {b : ByteArray} {x : Backing} (hb : (⟨b, x⟩ : Region).Holds cfg h)
    (hs : h.Sound cfg.lgK) (y : Backing) :
    (⟨b.extract 0 ((⟨b, x⟩ : Region).footprint cfg h.mode), y⟩ : Region).Holds cfg h := by
  have hfits : (⟨b, x⟩ : Region).footprint cfg h.mode ≤ b.size := hb.fits hs
  generalize hm : (⟨b, x⟩ : Region).footprint cfg h.mode = m at *
  have hsize : (b.extract 0 m).size = min m b.size - 0 := ByteArray.size_extract
  refine hb.congr hs ?_ fun j hj => ?_
  · rw [hm, Region.size, hsize]
    omega
  · rw [hm] at hj
    exact (Bytes.byte_extract _ _ _).trans (if_pos hj)

/-! ## Declarations -/

theorem Region.Headed.width?_eq (h : r.Headed cfg mode L flags) : r.width? = some cfg.width := by
  rw [width?, h.modes]
  cases mode <;> cases cfg.width <;> rfl

/-- A header declares what it was written for, if the counts in it make sense and the bytes are as
many as it says. -/
theorem Region.Headed.declared (h : r.Headed cfg mode L flags)
    (hbig : flags &&& Flag.bigEndian.mask = 0) (hcounts : Declaration.Plausible cfg r mode)
    (hpre : 4 * mode.preambleInts ≤ r.size) (hfits : r.footprint cfg mode ≤ r.size) :
    Declaration.ofRegion r = .ok ⟨cfg, mode⟩ := by
  have hlt := cfg.le_twentyOne
  have hpreamble : r.preambleInts = mode.preambleInts := by
    rw [preambleInts, h.preamble]
    cases mode <;> rfl
  refine Declaration.ofRegion_eq_ok.2 ⟨?_, ?_, ?_, ?_, ?_, ?_, h.mode?_eq, h.width?_eq, hpreamble,
    hcounts, hfits⟩
  · have : 2 ≤ mode.preambleInts := by cases mode <;> decide
    omega
  · rwa [hpreamble]
  · rw [familyId, h.family]
    rfl
  · rw [Region.version, h.version]
    rfl
  · rw [Region.lgK, h.lgK, UInt8.toNat_ofNat_of_lt' (Nat.lt_of_le_of_lt hlt (by decide))]
  · rw [h.hasFlag_eq, hbig]
    rfl

theorem Registers.Dense.plausible {g : Registry} (h : Dense cfg g r) :
    Declaration.Plausible cfg r .dense := by
  have hbounded : ∀ i, i < cfg.k → g.values i ≤ largest := fun i => h.packed.bounded
  have hlargest : largest = 63 := rfl
  by_cases hw : cfg.width = .four
  · have hrel := (packed_of_four hw).1 h.packed
    obtain ⟨i, hi, hmin⟩ := level_pos.1 (hrel.counted ▸ hrel.attained)
    have := hbounded i hi
    exact ⟨⟨hrel.counted ▸ level_le, hrel.exceptionCount_le⟩, by omega, .inl hw⟩
  · have hwhole := (packed_of_ne_four hw).1 h.packed
    have hmin := hwhole.minimum
    refine ⟨⟨hwhole.counted ▸ level_le, ?_⟩, by omega, .inr hwhole.exceptions⟩
    rw [hwhole.exceptions]
    exact Nat.zero_le _

theorem Listed.range (h : r.Headed cfg .list Footprint.lgList flags) :
    (Declaration.lgArrRange cfg .list).1 ≤ r.lgArr ∧
      r.lgArr ≤ (Declaration.lgArrRange cfg .list).2 := by
  rw [h.lgArr_eq (by decide)]
  exact ⟨Nat.le_refl _, Nat.le_refl _⟩

theorem Tabulated.range (h : r.Headed cfg .set L flags)
    (t : Holding.Tabled cfg.lgK L slots n) :
    (Declaration.lgArrRange cfg .set).1 ≤ r.lgArr ∧
      r.lgArr ≤ (Declaration.lgArrRange cfg .set).2 := by
  rw [h.lgArr_eq (lgArr_lt t.most)]
  exact ⟨t.least, t.most⟩

/-- **An image declares the configuration and the mode of its holding.** -/
theorem Region.Holds.declared (hr : r.Holds cfg h) (hs : h.Sound cfg.lgK) :
    Declaration.ofRegion r = .ok ⟨cfg, h.mode⟩ := by
  have hfits := hr.fits hs
  cases h with
  | list cs n =>
    have hl : Listed cfg cs n r := hr
    have l : Holding.Listable cs n := hs
    have hcount := hl.counted
    have hroom := l.room
    have hsize := hl.fits
    have hbytes : CouponList.bytes = 40 := rfl
    refine hl.headed.declared ?_ ?_ ?_ hfits
    · unfold flagsOfList
      split_ifs <;> decide
    · refine ⟨Listed.range hl.headed, ?_⟩
      rw [hl.headed.lgArr_eq (by decide), hcount]
      exact Nat.le_of_lt hroom
    · change 4 * 2 ≤ r.size
      omega
  | table L slots n =>
    have ht : Tabulated cfg L slots n r := hr
    have t : Holding.Tabled cfg.lgK L slots n := hs
    have hroom := t.room
    have hsize := ht.fits
    have hbytes : Footprint.sparse .set L = 12 + 4 * 2 ^ L := rfl
    refine ht.headed.declared (by decide) ?_ ?_ hfits
    · refine ⟨Tabulated.range ht.headed t, ?_⟩
      rw [ht.headed.lgArr_eq (lgArr_lt t.most), ht.counted]
      omega
    · change 4 * 3 ≤ r.size
      omega
  | dense g =>
    have hd : Dense cfg g r := hr
    refine hd.headed.declared ?_ hd.plausible hd.size_ge hfits
    unfold Registers.flagsOf
    split_ifs <;> decide

end HyperLogLog
