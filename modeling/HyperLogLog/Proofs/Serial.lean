import HyperLogLog.Proofs.Images
import HyperLogLog.Proofs.Schedule
import HyperLogLog.Proofs.Sketch

/-!
# Bytes of a sketch give the sketch back

* `Keeps.image_eq`: sketches of the same holding have the same image;
* `Keeps.of_image`: a sketch with the image of another has its holding;
* `wrapWritable_of_holds`: bytes that start with an image can be lent to a sketch;
* **`Keeps.ofBytes_image`**: the image of a sketch gives a sketch with the same image;
* **`Keeps.ofBytes_toCompact`**: its compact bytes give a sketch of the same coupons or registers.
-/

namespace HyperLogLog

open Registers (Dense)

variable {cfg : Config} {r : Region} {L n : Nat} {slots : Nat → Coupon} {cs : List Coupon}
  {h h' : Holding} {s t : Sketch}

theorem Mode.eight_le_dataStart (mode : Mode) : 8 ≤ mode.dataStart := by cases mode <;> decide

/-! ## Images -/

namespace Sketch

theorem byte_image (s : Sketch) (j : Nat) :
    Bytes.byte s.image j = if j < s.imageSize then s.region.byte j else 0 :=
  Bytes.byte_extract _ _ _

namespace Keeps

theorem imageSize_eq (hs : s.Keeps h) : s.imageSize = s.region.footprint s.config h.mode := by
  rw [imageSize, hs.mode]

theorem imageSize_le (hs : s.Keeps h) : s.imageSize ≤ s.region.size := by
  rw [hs.imageSize_eq]
  exact hs.image.fits hs.sound

theorem size_image (hs : s.Keeps h) : s.image.size = s.imageSize := by
  have hle := hs.imageSize_le
  have hsize : s.image.size = min s.imageSize s.region.size - 0 := ByteArray.size_extract
  omega

theorem dataStart_le (hs : s.Keeps h) : s.mode.dataStart ≤ s.imageSize := by
  have himg := hs.image
  have hsound := hs.sound
  rw [hs.imageSize_eq, hs.mode]
  cases h with
  | list cs n =>
    have hl : Listed s.config cs n s.region := himg
    change 8 ≤ s.region.footprint s.config .list
    rw [hl.footprint_eq]
    decide
  | table L slots n =>
    have ht : Tabulated s.config L slots n s.region := himg
    change 12 ≤ s.region.footprint s.config .set
    rw [ht.footprint_eq (lgArr_lt (Holding.Tabled.most hsound))]
    exact Nat.le_add_right ..
  | dense g => exact Nat.le_trans (Nat.le_add_right ..) (Nat.le_add_right ..)

/-- **Sketches of the same holding have the same image.** -/
theorem image_eq (hs : s.Keeps h) (ht : t.Keeps h) (hcfg : s.config = t.config) :
    s.image = t.image := by
  have himg := ht.image
  rw [← hcfg] at himg
  have hsize : s.imageSize = t.imageSize := by
    rw [hs.imageSize_eq, ht.imageSize_eq, ← hcfg]
    exact hs.image.footprint_eq himg hs.sound
  refine Bytes.ext (by rw [hs.size_image, ht.size_image, hsize]) fun j => ?_
  rw [byte_image, byte_image, ← hsize]
  split_ifs with hj
  · rw [hs.imageSize_eq] at hj
    exact hs.image.byte_eq himg hs.sound hj
  · rfl

theorem byte_eq_of_image (hs : s.Keeps h) (himage : t.image = s.image) :
    s.imageSize ≤ t.region.size ∧ ∀ j, j < s.imageSize → t.region.byte j = s.region.byte j := by
  have hsize : min t.imageSize t.region.size - 0 = s.imageSize := by
    rw [← hs.size_image, ← himage]
    exact ByteArray.size_extract.symm
  refine ⟨by omega, fun j hj => ?_⟩
  have hbyte := byte_image t j
  rw [himage, byte_image, if_pos hj, if_pos (by omega)] at hbyte
  exact hbyte.symm

/-- **A sketch with the image of another has its holding**, whatever follows the image. -/
theorem of_image (hs : s.Keeps h) (hcfg : t.config = s.config) (hmode : t.mode = s.mode)
    (hw : t.region.backing ≠ .frozen) (himage : t.image = s.image) : t.Keeps h := by
  obtain ⟨hsize, hbyte⟩ := hs.byte_eq_of_image himage
  rw [hs.imageSize_eq] at hsize hbyte
  refine ⟨hw, hmode.trans hs.mode, ?_, by rw [hcfg]; exact hs.sound⟩
  rw [hcfg]
  exact hs.image.congr hs.sound hsize hbyte

end Keeps

/-! ## Bytes with room for more -/

theorem ofBytes_of_view {b : ByteArray} {m : Nat}
    (hdecl : Declaration.ofBytes b = .ok ⟨cfg, h.mode⟩)
    (hc : h.mode = .dense ∨ (⟨b, .frozen⟩ : Region).hasFlag .compact = false)
    (hm : (⟨b, .frozen⟩ : Region).footprint cfg h.mode = m)
    (himg : (Region.putFlag ⟨b.extract 0 m, .owned⟩ .compact false).Holds cfg h)
    (hs : h.Sound cfg.lgK) : ∃ t, ofBytes b = .ok t ∧ t.config = cfg ∧ t.Owns h := by
  have hback : (Region.putFlag ⟨b.extract 0 m, .owned⟩ .compact false).backing = .owned :=
    (Region.within_putFlag ..).backing
  have hif : ¬ (h.mode ≠ .dense ∧ (⟨b, .frozen⟩ : Region).hasFlag .compact = true) := by
    rintro ⟨hdense, hflag⟩
    rcases hc with hc | hc
    · exact hdense hc
    · exact Bool.false_ne_true (hc.symm.trans hflag)
  refine ⟨⟨cfg, h.mode, Region.putFlag ⟨b.extract 0 m, .owned⟩ .compact false⟩, ?_, rfl,
    ⟨by rw [hback]; decide, rfl, himg, hs⟩, hback⟩
  unfold ofBytes
  rw [hdecl]
  change (if h.mode ≠ .dense ∧ (⟨b, .frozen⟩ : Region).hasFlag .compact = true then _ else _) = _
  rw [if_neg hif, ← hm]
  rfl

/-- Bytes that hold an image give a sketch of it, whatever follows the image. -/
theorem ofBytes_of_holds {b : ByteArray} (hb : (⟨b, .frozen⟩ : Region).Holds cfg h)
    (hs : h.Sound cfg.lgK) : ∃ t, ofBytes b = .ok t ∧ t.config = cfg ∧ t.Owns h :=
  ofBytes_of_view (hb.declared hs) (.inr hb.hasFlag_compact) rfl
    ((hb.extract hs .owned).clearCompact hs) hs

theorem wrapWritable_of_holds {b : ByteArray} (hb : (⟨b, .frozen⟩ : Region).Holds cfg h)
    (hs : h.Sound cfg.lgK) :
    wrapWritable b = .ok ⟨cfg, h.mode, ⟨b, .lent⟩⟩ ∧
      Keeps ⟨cfg, h.mode, ⟨b, .lent⟩⟩ h := by
  have hdecl : Declaration.ofBytes b = .ok ⟨cfg, h.mode⟩ := hb.declared hs
  have hlent : (⟨b, .lent⟩ : Region).Holds cfg h := hb.congr hs (hb.fits hs) fun _ _ => rfl
  refine ⟨?_, (nofun : Backing.lent ≠ .frozen), rfl, hlent, hs⟩
  unfold wrapWritable
  rw [hdecl]
  change (if (⟨b, .lent⟩ : Region).hasFlag .compact = true then _ else _) = _
  rw [hlent.hasFlag_compact, if_neg Bool.false_ne_true]
  rfl

/-! ## Bytes without room for more -/

/-- What a list or a table leaves in its compact bytes. -/
structure Compacted (s : Sketch) (cs : List Coupon) (r : Region) : Prop where
  size : r.size = s.mode.dataStart + 4 * cs.length
  flags : r.byte 5 = s.region.byte 5 ||| Flag.compact.mask
  header : ∀ j, j < s.mode.dataStart → j ≠ 5 → r.byte j = s.region.byte j
  coupon : ∀ i, (hi : i < cs.length) → r.coupon (s.mode.dataStart + 4 * i) = cs[i]

theorem compacted (hm : s.mode ≠ .dense) (hs : s.mode.dataStart ≤ s.region.size)
    (hlive : Contents.live s.mode s.region = cs) (x : Backing) :
    Compacted s cs ⟨s.toCompact, x⟩ := by
  have hbytes : s.toCompact = (Region.setCoupons ⟨Bytes.extend
      (markCompact (s.region.bytes.extract 0 s.mode.dataStart)) (4 * cs.length), .owned⟩
      s.mode.dataStart cs).bytes := by
    rw [← hlive, toCompact]
    cases hmode : s.mode with
    | dense => exact absurd hmode hm
    | list => rfl
    | set => rfl
  have hhead : (s.region.bytes.extract 0 s.mode.dataStart).size = s.mode.dataStart := by
    have hsize : s.mode.dataStart ≤ s.region.bytes.size := hs
    rw [ByteArray.size_extract]
    omega
  have hstart := s.mode.eight_le_dataStart
  generalize hroom : (⟨Bytes.extend (markCompact (s.region.bytes.extract 0 s.mode.dataStart))
    (4 * cs.length), .owned⟩ : Region) = room at hbytes
  have hsize : room.size = s.mode.dataStart + 4 * cs.length := by
    rw [← hroom, Region.size, Bytes.size_extend, markCompact, Bytes.size_setByte, hhead]
  have hin := Exceptions.within_setCoupons cs room s.mode.dataStart
  have hread : ∀ j, Bytes.byte s.toCompact j =
      (room.setCoupons s.mode.dataStart cs).byte j := fun j => by rw [hbytes]; rfl
  have hbyte : ∀ j, j < s.mode.dataStart →
      room.byte j = Bytes.byte (markCompact (s.region.bytes.extract 0 s.mode.dataStart)) j :=
    fun j _ => by rw [← hroom]; exact Bytes.byte_extend _ _ _
  refine ⟨?_, ?_, fun j hj h₅ => ?_, fun i hi => ?_⟩
  · change s.toCompact.size = _
    rw [hbytes, ← hsize]
    exact hin.size
  · refine (hread 5).trans ?_
    rw [hin.byte 5 (.inl (by omega)), hbyte 5 (by omega), markCompact, Bytes.byte_setByte,
      if_pos ⟨rfl, by omega⟩, Bytes.byte_extract, if_pos (by omega)]
    rfl
  · refine (hread j).trans ?_
    rw [hin.byte j (.inl hj), hbyte j hj, markCompact, Bytes.byte_setByte,
      if_neg fun h => h₅ h.1.symm, Bytes.byte_extract, if_pos hj]
    rfl
  · rw [← Exceptions.coupon_setCoupons cs room _ i hi (Nat.le_of_eq hsize.symm)]
    exact Region.coupon_congr fun j _ _ => hread j

namespace Compacted

theorem live_eq (hc : Compacted s cs r) (hcs : ∀ c ∈ cs, c ≠ .empty)
    (hslots : r.slots s.mode = cs.length) : Contents.live s.mode r = cs := by
  have hall : r.coupons s.mode.dataStart (r.slots s.mode) = cs := by
    rw [hslots]
    refine List.ext_getElem (by simp [Region.coupons]) fun i _ hi => ?_
    simp only [Region.coupons, List.getElem_map, List.getElem_range]
    exact hc.coupon i hi
  rw [Contents.live, hall]
  exact List.filter_eq_self.2 fun c hc => decide_eq_true (hcs c hc)

theorem lgArr_eq (hc : Compacted s cs r) : r.lgArr = s.region.lgArr := by
  have hstart := s.mode.eight_le_dataStart
  exact congrArg UInt8.toNat (hc.header 4 (by omega) (by decide))

theorem count_eq (hc : Compacted s cs r) :
    Contents.count s.mode r = Contents.count s.mode s.region := by
  have hheader := hc.header
  cases hm : s.mode with
  | dense => rfl
  | list =>
    rw [hm] at hheader
    exact congrArg UInt8.toNat (hheader 6 (by decide) (by decide))
  | set =>
    rw [hm] at hheader
    have hstart : Mode.set.dataStart = 12 := rfl
    exact congrArg UInt32.toNat (Region.word_congr fun j h₁ h₂ =>
      hheader j (by omega) (by omega))

theorem list (hc : Compacted s cs r) (hm : s.mode = .list)
    (hl : Listed s.config cs n s.region) (l : Holding.Listable cs n) (hn : cs.length = n) :
    Declaration.ofRegion r = .ok ⟨s.config, .list⟩ ∧ r.hasFlag .compact = true ∧
      Contents.live .list r = cs := by
  have hroom := l.room
  have hsize := hc.size
  have hheader := hc.header
  have hlive := hc.live_eq l.live
  have hsame := hc.count_eq
  rw [hm] at hsize hheader hlive hsame
  have hstart : Mode.list.dataStart = 8 := rfl
  have hhead : r.Headed s.config .list Footprint.lgList (flagsOfList n ||| Flag.compact.mask) :=
    hl.headed.withFlags (fun j hj h₅ _ => hheader j (by omega) h₅)
      (by rw [hc.flags, hl.headed.flags])
  have hcount : r.listCount = n := hsame.trans hl.counted
  have hflag : r.hasFlag .compact = true := by
    rw [hhead.hasFlag_eq]
    unfold flagsOfList
    split_ifs <;> decide
  have hslots : r.slots .list = cs.length := (if_pos hflag).trans (hcount.trans hn.symm)
  refine ⟨hhead.declared ?_ ?_ ?_ ?_, hflag, hlive hslots⟩
  · unfold flagsOfList
    split_ifs <;> decide
  · refine ⟨Listed.range hhead, ?_⟩
    rw [hhead.lgArr_eq (by decide), hcount]
    exact Nat.le_of_lt hroom
  · change 4 * 2 ≤ r.size
    omega
  · change 8 + 4 * r.slots .list ≤ r.size
    omega

theorem table (hc : Compacted s cs r) (hm : s.mode = .set)
    (ht : Tabulated s.config L slots n s.region) (t : Holding.Tabled s.config.lgK L slots n)
    (hcs : cs = Slots.live (2 ^ L) slots) (hn : cs.length = n) :
    Declaration.ofRegion r = .ok ⟨s.config, .set⟩ ∧ r.hasFlag .compact = true ∧
      Contents.live .set r = cs := by
  have hroom := t.room
  have hsize := hc.size
  have hheader := hc.header
  have hlive := hc.live_eq fun c hc => (Slots.mem_live.1 (hcs ▸ hc)).1
  have hsame := hc.count_eq
  rw [hm] at hsize hheader hlive hsame
  have hstart : Mode.set.dataStart = 12 := rfl
  have hhead : r.Headed s.config .set L (Flag.outOfOrder.mask ||| Flag.compact.mask) :=
    ht.headed.withFlags (fun j hj h₅ _ => hheader j (by omega) h₅)
      (by rw [hc.flags, ht.headed.flags])
  have hcount : r.setCount = n := hsame.trans ht.counted
  have hflag : r.hasFlag .compact = true := by
    rw [hhead.hasFlag_eq]
    decide
  have hslots : r.slots .set = cs.length := (if_pos hflag).trans (hcount.trans hn.symm)
  refine ⟨hhead.declared (by decide) ?_ ?_ ?_, hflag, hlive hslots⟩
  · refine ⟨Tabulated.range hhead t, ?_⟩
    rw [hhead.lgArr_eq (lgArr_lt t.most), hcount]
    omega
  · change 4 * 3 ≤ r.size
    omega
  · change 12 + 4 * r.slots .set ≤ r.size
    omega

end Compacted

theorem ofBytes_of_compact {b : ByteArray} {mode : Mode} (hm : mode ≠ .dense)
    (hdecl : Declaration.ofBytes b = .ok ⟨cfg, mode⟩)
    (hflag : (⟨b, .frozen⟩ : Region).hasFlag .compact = true)
    (hlive : Contents.live mode ⟨b, .frozen⟩ = cs) :
    ∃ t, ofBytes b = .ok t ∧ t.config = cfg ∧
      t.Owns (cs.foldl (Holding.insert cfg.lgK) (.list [] 0)) := by
  obtain ⟨t, ht, hcfg, howns⟩ := (Owns.new cfg).insertAll cs
  refine ⟨t, ?_, hcfg, howns⟩
  unfold ofBytes
  rw [hdecl]
  change (if mode ≠ .dense ∧ (⟨b, .frozen⟩ : Region).hasFlag .compact = true then _ else _) = _
  rw [if_pos ⟨hm, hflag⟩, hlive, after, ht]

namespace Keeps

theorem holds_image (hs : s.Keeps h) (x : Backing) : (⟨s.image, x⟩ : Region).Holds s.config h := by
  have himg := hs.image.extract hs.sound x
  rw [← hs.imageSize_eq] at himg
  exact himg

/-- **The image of a sketch gives a sketch with the same image.** -/
theorem ofBytes_image (hs : s.Keeps h) :
    ∃ t, ofBytes s.image = .ok t ∧ t.config = s.config ∧ t.Owns h ∧ t.image = s.image := by
  obtain ⟨t, ht, hcfg, howns⟩ := ofBytes_of_holds (hs.holds_image .frozen) hs.sound
  exact ⟨t, ht, hcfg, howns, howns.toKeeps.image_eq hs hcfg⟩

theorem toUpdatable_eq (hs : s.Keeps h) : s.toUpdatable = .ok s.image := by
  have hc : s.isCompact = false := hs.image.hasFlag_compact
  rw [toUpdatable, hc, if_neg Bool.false_ne_true]

end Keeps

theorem declared_markCompact {b : ByteArray} {g : Registry} (hb : Dense cfg g ⟨b, .frozen⟩) :
    Declaration.ofBytes (markCompact b) = .ok ⟨cfg, .dense⟩ ∧
      (⟨markCompact b, .frozen⟩ : Region).exceptionCount =
        (⟨b, .frozen⟩ : Region).exceptionCount := by
  have hsize := hb.size_ge
  have hfits := hb.packed.fits
  have hflags := hb.headed.flags
  have hcounts := hb.plausible
  have hin : Region.Within 5 1 ⟨b, .frozen⟩ ⟨markCompact b, .frozen⟩ := Region.within_setByte ..
  have hfive : (⟨markCompact b, .frozen⟩ : Region).byte 5 =
      (⟨b, .frozen⟩ : Region).byte 5 ||| Flag.compact.mask :=
    Region.byte_setByte_self (r := ⟨b, .frozen⟩) _ (by omega)
  unfold Declaration.ofBytes
  generalize (⟨markCompact b, .frozen⟩ : Region) = q at hin hfive ⊢
  generalize (⟨b, .frozen⟩ : Region) = r at *
  have hmin : q.minimum = r.minimum := congrArg UInt8.toNat (hin.byte 6 (.inr (by decide)))
  have hat : q.atMinimum = r.atMinimum :=
    congrArg UInt32.toNat (hin.word (.inr (by decide)))
  have hexc : q.exceptionCount = r.exceptionCount :=
    congrArg UInt32.toNat (hin.word (.inr (by decide)))
  have hhead : q.Headed cfg .dense 0
      (Registers.flagsOf g.history.outOfOrder ||| Flag.compact.mask) :=
    hb.headed.withFlags (fun j _ h₅ _ => hin.byte j (by omega)) (by rw [hfive, hflags])
  refine ⟨hhead.declared ?_ ?_ ?_ ?_, hexc⟩
  · unfold Registers.flagsOf
    split_ifs <;> decide
  · rwa [Declaration.Plausible, hmin, hat, hexc]
  · exact Nat.le_trans hsize (Nat.le_of_eq hin.size.symm)
  · change Footprint.dense cfg q.exceptionCount ≤ q.size
    rwa [hexc, hin.size]

theorem dense_unmark {b : ByteArray} {g : Registry} {m : Nat} (hb : Dense cfg g ⟨b, .frozen⟩)
    (hm : Footprint.dense cfg (⟨b, .frozen⟩ : Region).exceptionCount = m) :
    Dense cfg g (Region.putFlag ⟨(markCompact b).extract 0 m, .owned⟩ .compact false) := by
  have hfits : m ≤ b.size := hm ▸ hb.packed.fits
  have hfive : 40 ≤ m := hm ▸ Nat.le_trans (Nat.le_add_right ..) (Nat.le_add_right ..)
  have hflags := hb.headed.flags
  have hbyte : ∀ j, j < m → (⟨(markCompact b).extract 0 m, .owned⟩ : Region).byte j =
      if 5 = j then (⟨b, .frozen⟩ : Region).byte 5 ||| Flag.compact.mask
      else (⟨b, .frozen⟩ : Region).byte j := by
    intro j hj
    change Bytes.byte ((markCompact b).extract 0 m) j = if 5 = j then _ else Bytes.byte b j
    rw [Bytes.byte_extract, if_pos hj, markCompact, Bytes.byte_setByte]
    split_ifs with h₁ h₂ h₂
    · rfl
    · exact absurd h₁.1 h₂
    · exact absurd ⟨h₂, by omega⟩ h₁
    · rfl
  have hsize : (⟨(markCompact b).extract 0 m, .owned⟩ : Region).size = m := by
    change ((markCompact b).extract 0 m).size = m
    rw [ByteArray.size_extract, markCompact, Bytes.size_setByte]
    omega
  generalize (⟨(markCompact b).extract 0 m, .owned⟩ : Region) = q at hbyte hsize ⊢
  generalize (⟨b, .frozen⟩ : Region) = r at *
  have hin := Region.within_putFlag q .compact false
  refine hb.congr (by rw [hm, hin.size, hsize]) fun j hj => ?_
  rw [hm] at hj
  by_cases h₅ : j = 5
  · rw [h₅, Region.putFlag, Region.putFlags, Region.byte_setByte_self _ (by omega),
      if_neg Bool.false_ne_true, Region.flags, hbyte 5 (by omega), if_pos rfl, hflags]
    unfold Registers.flagsOf
    split_ifs <;> decide
  · rw [hin.byte j (by omega), hbyte j hj, if_neg (Ne.symm h₅)]

namespace Keeps

theorem ofBytes_markCompact {g : Registry} (hs : s.Keeps (.dense g)) :
    ∃ t, ofBytes (markCompact s.image) = .ok t ∧ t.config = s.config ∧ t.Owns (.dense g) := by
  have himg : Dense s.config g ⟨s.image, .frozen⟩ := hs.holds_image .frozen
  obtain ⟨hdecl, hexc⟩ := declared_markCompact himg
  exact ofBytes_of_view (h := .dense g) hdecl (.inl rfl) rfl
    (dense_unmark himg (congrArg _ hexc.symm)) hs.sound

theorem compacted (hs : s.Keeps h) (hm : s.mode ≠ .dense) (x : Backing) :
    Compacted s (h.coupons s.config.lgK) ⟨s.toCompact, x⟩ := by
  have hcoupons := hs.coupons_eq
  refine Sketch.compacted hm (hs.dataStart_le.trans hs.imageSize_le) ?_ x
  unfold Sketch.coupons at hcoupons
  cases hmode : s.mode with
  | dense => exact absurd hmode hm
  | list =>
    rw [hmode] at hcoupons
    exact Except.ok.inj hcoupons
  | set =>
    rw [hmode] at hcoupons
    exact Except.ok.inj hcoupons

theorem compact_reads (hs : s.Keeps h) (hr : h.Regular s.config.lgK 8) (hm : s.mode ≠ .dense)
    (hc : Compacted s (h.coupons s.config.lgK) r) :
    Declaration.ofRegion r = .ok ⟨s.config, s.mode⟩ ∧ r.hasFlag .compact = true ∧
      Contents.live s.mode r = h.coupons s.config.lgK := by
  have himg := hs.image
  have hsound := hs.sound
  have hmode := hs.mode
  cases h with
  | dense g => exact absurd hmode hm
  | list cs n =>
    rw [hmode]
    exact hc.list hmode himg hsound hr
  | table L slots n =>
    rw [hmode]
    exact hc.table hmode himg hsound rfl hr.2.2.counted

theorem toCompact_of_dense {g : Registry} (hs : s.Keeps (.dense g)) :
    s.toCompact = markCompact s.image := by
  rw [toCompact, show s.mode = .dense from hs.mode]

/-- **The compact bytes of a sketch give a sketch of the same coupons or registers.** -/
theorem ofBytes_toCompact (hs : s.Keeps h) (hr : h.Regular s.config.lgK 8) :
    ∃ t h', ofBytes s.toCompact = .ok t ∧ t.config = s.config ∧ t.Owns h' ∧
      Holding.Similar h h' := by
  have hk := s.config.le_twentyOne
  by_cases hm : h.mode = .dense
  · cases h with
    | list cs n => cases hm
    | table L slots n => cases hm
    | dense g =>
      obtain ⟨t, ht, hcfg, howns⟩ := hs.ofBytes_markCompact
      exact ⟨t, _, hs.toCompact_of_dense ▸ ht, hcfg, howns, .refl _⟩
  · have hm' : s.mode ≠ .dense := by rwa [hs.mode]
    obtain ⟨hdecl, hflag, hlive⟩ := hs.compact_reads hr hm' (hs.compacted hm' .frozen)
    obtain ⟨t, ht, hcfg, howns⟩ := ofBytes_of_compact hm' hdecl hflag hlive
    exact ⟨t, _, ht, hcfg, howns, Holding.similar_foldl_coupons hk hs.sound hr hm⟩

end Keeps

end Sketch

end HyperLogLog
