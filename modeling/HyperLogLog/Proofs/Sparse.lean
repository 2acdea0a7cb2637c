import HyperLogLog.Proofs.Dense
import HyperLogLog.Proofs.Holding
import Mathlib.Data.List.GetD

/-!
# Images refine holdings

* `Listed`, `Tabulated`: the images of a list and of a table;
* `Region.Holds`: the image of a holding;
* `Tabulated.find_eq`, `Listed.find_eq`: a search in the image is a search in the holding;
* **`meets_toDense`**: an image turns into the registers of its coupons;
* **`meets_insertTable`**, **`meets_insertList`**: an image takes in a coupon as its holding does.
-/

namespace HyperLogLog

open Registers (Dense)

variable {cfg : Config} {r r' : Region} {L n : Nat} {slots : Nat → Coupon} {c : Coupon}
  {cs : List Coupon}

/-! ## Images -/

/-- The flags of a list that counts `n` coupons. -/
def flagsOfList (n : Nat) : UInt8 := if n = 0 then Flag.empty.mask else 0

/-- The image of a list of up to eight coupons, of which it counts `n`. -/
structure Listed (cfg : Config) (cs : List Coupon) (n : Nat) (r : Region) : Prop where
  headed : r.Headed cfg .list Footprint.lgList (flagsOfList n)
  fits : CouponList.bytes ≤ r.size
  counted : r.listCount = n
  slot : ∀ i, i < 8 → r.coupon (CouponList.offset i) = cs.getD i .empty

/-- The image of a table that counts `n` coupons. -/
structure Tabulated (cfg : Config) (lgArr : Nat) (slots : Nat → Coupon) (n : Nat) (r : Region) :
    Prop where
  headed : r.Headed cfg .set lgArr Flag.outOfOrder.mask
  fits : Footprint.sparse .set lgArr ≤ r.size
  spare : r.byte 6 = 0
  counted : r.setCount = n
  slot : ∀ i, i < 2 ^ lgArr → r.coupon (CouponTable.offset i) = slots i

/-- The image of a holding. -/
def Region.Holds (cfg : Config) (r : Region) : Holding → Prop
  | .list cs n => Listed cfg cs n r
  | .table lgArr slots n => Tabulated cfg lgArr slots n r
  | .dense g => Dense cfg g r

theorem lgArr_lt (hL : L ≤ cfg.lgK - 3) : L < 256 := by
  have := cfg.le_twentyOne
  omega

/-! ## Searching -/

theorem Slots.seek_eq (offset : Nat → Nat) (place : Nat → Nat) : ∀ n j,
    (∀ i, j ≤ i → i < j + n → r.coupon (offset (place i)) = slots (place i)) →
    Probe.seek r c (fun i => offset (place i)) n j =
      match Slots.seek slots c place n j with
      | .free t => .free (offset t)
      | p => p
  | 0, _, _ => rfl
  | n + 1, j, h => by
    have hj := h j (Nat.le_refl _) (by omega)
    unfold Probe.seek Slots.seek
    dsimp only
    rw [hj]
    split_ifs
    · rfl
    · rfl
    · exact Slots.seek_eq offset place n (j + 1) fun i h₁ h₂ => h i (by omega) (by omega)

namespace Tabulated

theorem find_eq (h : Tabulated cfg L slots n r) : CouponTable.find L r c =
    match Slots.seek slots c (CouponTable.position L c) (2 ^ L) 0 with
    | .free t => .free (CouponTable.offset t)
    | p => p :=
  Slots.seek_eq CouponTable.offset _ _ _ fun _ _ _ => h.slot _ (CouponTable.position_lt ..)

theorem live_eq (h : Tabulated cfg L slots n r) (hL : L < 256) :
    Contents.live .set r = Slots.live (2 ^ L) slots := by
  rw [Contents.live, h.headed.slots_eq hL (by decide), ← Slots.live_congr h.slot]
  rfl

theorem setCoupon (h : Tabulated cfg L slots n r) {t : Nat} (ht : t < 2 ^ L) (c : Coupon) :
    Tabulated cfg L (Function.update slots t c) n (r.setCoupon (CouponTable.offset t) c) := by
  have hin := Region.within_setCoupon r (CouponTable.offset t) c
  have hfits := h.fits
  unfold Footprint.sparse at hfits
  unfold CouponTable.offset at hin ⊢
  change 12 + 4 * 2 ^ L ≤ r.size at hfits
  refine ⟨h.headed.congr fun j hj _ => hin.byte j (.inl (by omega)), ?_, ?_, ?_, fun i hi => ?_⟩
  · rw [hin.size]
    exact h.fits
  · rw [hin.byte 6 (.inl (by omega)), h.spare]
  · exact (congrArg UInt32.toNat (hin.word (.inl (by omega)))).trans h.counted
  · rw [CouponTable.offset, Region.coupon_setCoupon c (by omega)]
    split_ifs with hit
    · rw [hit, Function.update_self]
    · rw [Function.update_of_ne hit]
      exact h.slot i hi

theorem putCount (h : Tabulated cfg L slots n r) {m : Nat} (hm : m < 4294967296) :
    Tabulated cfg L slots m ((r.putSetCount m).putFlag .empty false) := by
  have hin := Region.within_setWord r 8 (UInt32.ofNat m)
  have hin' := Region.within_putFlag (r.putSetCount m) .empty false
  have hfits := h.fits
  unfold Footprint.sparse at hfits
  change 12 + 4 * 2 ^ L ≤ r.size at hfits
  have hhead : (r.putSetCount m).Headed cfg .set L Flag.outOfOrder.mask :=
    h.headed.congr fun j hj _ => hin.byte j (.inl hj)
  refine ⟨hhead.putFlag (by rw [Region.putSetCount, hin.size]; omega) _ _ (by decide), ?_, ?_, ?_,
    fun i hi => ?_⟩
  · rw [hin'.size, Region.putSetCount, hin.size]
    exact h.fits
  · rw [hin'.byte 6 (.inr (by decide)), Region.putSetCount, hin.byte 6 (.inl (by decide)), h.spare]
  · rw [Region.setCount, hin'.word (.inr (by decide)), Region.putSetCount,
      Region.word_setWord_self _ (by omega), UInt32.toNat_ofNat_of_lt' hm]
  · rw [CouponTable.offset, hin'.coupon (.inr (by omega)), Region.putSetCount,
      hin.coupon (.inr (by omega))]
    exact h.slot i hi

end Tabulated

/-! ## Promotion to registers -/

/-- **An image turns into the registers of its coupons**, and its estimate into their total. -/
theorem meets_toDense {mode : Mode} (hm : r.mode? = some mode)
    (hc : Contents.coupons cfg mode r = .ok cs) (hb : r.backing ≠ .frozen) :
    (Promotion.toDense cfg).Meets r fun _ r' =>
      Dense cfg (Registry.replay cfg.lgK cs (Contents.estimate cfg mode r)) r' := by
  refine Edit.Meets.read_bind ?_
  rw [hm]
  refine Edit.Meets.ofExcept_bind hc ?_
  refine Edit.Meets.bind ((Registers.meets_clear cfg hb).mono fun _ r₁ hb₁ hfresh => ?_)
  have hfresh' := hfresh.zero_fresh (r.footprint cfg mode - Footprint.dense cfg 0)
  refine Edit.Meets.write_bind (Region.backing_zero ..) ?_
  refine Edit.Meets.bind ((hfresh'.meets_insertAll (by rwa [Region.backing_zero, hb₁]) cs).mono
    fun _ r₂ _ hdense => ?_)
  exact Edit.Meets.write (Region.within_putTotal ..).backing (hdense.putTotal _)

theorem meets_promote {mode : Mode} (hm : r.mode? = some mode)
    (hc : Contents.coupons cfg mode r = .ok cs)
    (he : Contents.estimate cfg mode r = Estimate.ofCoupons n) (hb : r.backing ≠ .frozen) :
    (Promotion.toDense cfg >>= fun _ => pure Mode.dense).Meets r fun mode r' =>
      mode = (Holding.promote cfg.lgK cs n).mode ∧ r'.Holds cfg (.promote cfg.lgK cs n) := by
  have hdense := meets_toDense hm hc hb
  rw [he] at hdense
  exact Edit.Meets.bind (hdense.mono fun _ r' _ hr' => Edit.Meets.done ⟨rfl, hr'⟩)

/-! ## Tables -/

section Table

theorem meets_place (h : Tabulated cfg L slots n r) (hc : c ∉ Slots.live (2 ^ L) slots)
    (hroom : (Slots.live (2 ^ L) slots).length < 2 ^ L) :
    (CouponTable.place L c).Meets r fun _ r' =>
      Tabulated cfg L (Slots.put (CouponTable.position L) (2 ^ L) slots c) n r' := by
  obtain ⟨t, -, hs, ht, -⟩ := Slots.Probed.seek_of_not_mem (Slots.covers_position L) hc hroom
  refine Edit.Meets.read_bind ?_
  rw [h.find_eq, hs]
  refine Edit.Meets.write (Region.backing_setCoupon ..) ?_
  rw [Slots.put, hs]
  exact h.setCoupon ht c

theorem meets_placeAll : ∀ (cs : List Coupon) {slots : Nat → Coupon} {r : Region},
    Tabulated cfg L slots n r → Slots.Probed (CouponTable.position L) (2 ^ L) slots → cs.Nodup →
    (∀ c ∈ cs, c ≠ .empty ∧ c ∉ Slots.live (2 ^ L) slots) →
    (Slots.live (2 ^ L) slots).length + cs.length ≤ 2 ^ L →
    (cs.forM (CouponTable.place L)).Meets r fun _ r' =>
      Tabulated cfg L (cs.foldl (Slots.put (CouponTable.position L) (2 ^ L)) slots) n r'
  | [], _, _, h, _, _, _, _ => Edit.Meets.done h
  | c :: cs, slots, r, h, hp, hnd, hcs, hlen => by
    obtain ⟨hne, hc⟩ := hcs c List.mem_cons_self
    obtain ⟨hnot, hnd⟩ := List.nodup_cons.1 hnd
    rw [List.length_cons] at hlen
    have hcov := Slots.covers_position L
    have hroom : (Slots.live (2 ^ L) slots).length < 2 ^ L := by omega
    have hcs' : ∀ d ∈ cs, d ≠ .empty ∧
        d ∉ Slots.live (2 ^ L) (Slots.put (CouponTable.position L) (2 ^ L) slots c) := by
      intro d hd
      refine ⟨(hcs d (List.mem_cons_of_mem _ hd)).1, fun hd' => ?_⟩
      rcases (hp.mem_put hcov hne hroom).1 hd' with rfl | hd'
      · exact hnot hd
      · exact (hcs d (List.mem_cons_of_mem _ hd)).2 hd'
    refine Edit.Meets.bind ((meets_place h hc hroom).mono fun _ r₁ _ h₁ => ?_)
    refine meets_placeAll cs h₁ (hp.put hcov hroom) hnd hcs' ?_
    rw [Slots.Probed.length_put hcov hne hc hroom]
    omega

theorem tabulated_empty (hh : r.Headed cfg .set L Flag.outOfOrder.mask)
    (hs : Footprint.sparse .set L ≤ r.size) (h₆ : r.byte 6 = 0)
    (hz : ∀ j, 12 ≤ j → j < Footprint.sparse .set L → r.byte j = 0) :
    Tabulated cfg L (fun _ => .empty) r.setCount r := by
  have hsp : Footprint.sparse .set L = 12 + 4 * 2 ^ L := rfl
  refine ⟨hh, hs, h₆, rfl, fun i hi => Region.coupon_eq_empty fun j h₁ h₂ => ?_⟩
  unfold CouponTable.offset at h₁ h₂
  exact hz j (by omega) (by omega)

/-- **Growing rebuilds the table of the same coupons.** -/
theorem meets_grow (h : Tabulated cfg L slots n r) (hL : L < 255)
    (hp : Slots.Probed (CouponTable.position L) (2 ^ L) slots)
    (hlen : (Slots.live (2 ^ L) slots).length ≤ 2 ^ (L + 1)) (hb : r.backing ≠ .frozen) :
    (CouponTable.grow (L + 1)).Meets r fun _ r' =>
      Tabulated cfg (L + 1) (Slots.rehash (CouponTable.position (L + 1)) (2 ^ (L + 1))
        (Slots.live (2 ^ L) slots)) n r' := by
  have hsp : Footprint.sparse .set (L + 1) = 12 + 4 * 2 ^ (L + 1) := rfl
  refine Edit.Meets.read_bind ?_
  rw [h.live_eq (by omega)]
  refine Edit.Meets.bind ((Edit.meets_reserve _ hb).mono fun _ r₁ _ ⟨hsize, _, hbyte⟩ => ?_)
  have hin := Region.within_setByte r₁ 4 (UInt8.ofNat (L + 1))
  have hin' := Region.within_zero (r₁.putLgArr (L + 1)) (CouponTable.offset 0) (4 * 2 ^ (L + 1))
  refine Edit.Meets.write_bind (hin'.backing.trans hin.backing) ?_
  have hcount : ((r₁.putLgArr (L + 1)).zero (CouponTable.offset 0) (4 * 2 ^ (L + 1))).setCount =
      n := by
    refine (congrArg UInt32.toNat (Region.word_congr fun j h₁ h₂ => ?_)).trans h.counted
    rw [hin'.byte j (.inl h₂), Region.putLgArr, hin.byte j (.inr (by omega)), hbyte]
  have hempty : Tabulated cfg (L + 1) (fun _ => .empty) n
      ((r₁.putLgArr (L + 1)).zero (CouponTable.offset 0) (4 * 2 ^ (L + 1))) := by
    rw [← hcount]
    refine tabulated_empty ?_ ?_ ?_ fun j h₁ h₂ =>
      Region.byte_zero_inside h₁ (by unfold CouponTable.offset; omega)
    · exact ((h.headed.congr fun j _ _ => hbyte j).putLgArr (by omega) (L + 1)).congr
        fun j hj _ => hin'.byte j (.inl (by unfold CouponTable.offset; omega))
    · rw [hin'.size, Region.putLgArr, hin.size]
      exact hsize
    · rw [hin'.byte 6 (.inl (by decide)), Region.putLgArr, hin.byte 6 (.inr (by decide)), hbyte,
        h.spare]
  refine meets_placeAll _ hempty Slots.Probed.empty hp.nodup_live (fun c hc => ?_) ?_
  · exact ⟨(Slots.mem_live.1 hc).1, by simp⟩
  · simpa using hlen

/-- **A table takes in a coupon as its holding does.** -/
theorem meets_insertTable (t : Holding.Tabled cfg.lgK L slots n)
    (h : Tabulated cfg L slots n r) (hb : r.backing ≠ .frozen) (c : Coupon) :
    (CouponTable.insert cfg c).Meets r fun mode r' =>
      mode = (Holding.raise cfg.lgK (.table L slots n) c).mode ∧
      r'.Holds cfg (Holding.raise cfg.lgK (.table L slots n) c) := by
  have hL := lgArr_lt t.most
  have hmost := t.most
  have hlg := cfg.le_twentyOne
  have hroom := t.room
  have hcov := Slots.covers_position L
  have hlargest : Footprint.lgLargestTable cfg = cfg.lgK - 3 := rfl
  refine Edit.Meets.read_bind ?_
  dsimp only
  rw [h.headed.lgArr_eq hL, h.find_eq]
  by_cases hmem : c ∈ Slots.live (2 ^ L) slots
  · rw [Holding.raise_of_mem hmem, t.probed.seek_of_mem hmem]
    exact Edit.Meets.done ⟨rfl, h⟩
  obtain ⟨i, -, hs, hi, -⟩ := Slots.Probed.seek_of_not_mem hcov hmem t.lt_room
  have hput : Slots.put (CouponTable.position L) (2 ^ L) slots c = Function.update slots i c := by
    rw [Slots.put, hs]
  have hprobed := t.probed.put (c := c) hcov t.lt_room
  have hlen := t.probed.length_put_le (c := c) hcov t.lt_room
  have hcounted := t.counted
  rw [Holding.raise_of_not_mem hmem]
  dsimp only
  rw [hput] at hprobed hlen ⊢
  have hpow : 2 ^ L ≤ 2 ^ 18 := Nat.pow_le_pow_right (by decide) (by omega)
  have hpow' : 2 ^ (L + 1) = 2 ^ L * 2 := Nat.pow_succ ..
  rw [hs]
  refine Edit.Meets.write_bind (Region.backing_setCoupon ..) ?_
  refine Edit.Meets.read_bind ?_
  have hset := h.setCoupon hi c
  rw [hset.counted]
  refine Edit.Meets.write_bind ?_ ?_
  · rw [(Region.within_putFlag ..).backing, Region.putSetCount, Region.backing_setWord]
  have hnew := hset.putCount (m := n + 1) (by omega)
  have hb' : (((r.setCoupon (CouponTable.offset i) c).putSetCount (n + 1)).putFlag
      .empty false).backing ≠ .frozen := by
    rwa [(Region.within_putFlag ..).backing, Region.putSetCount, Region.backing_setWord,
      Region.backing_setCoupon]
  generalize ((r.setCoupon (CouponTable.offset i) c).putSetCount _).putFlag .empty false = r₁
    at hnew hb' ⊢
  by_cases hfull : 3 * 2 ^ L < 4 * (n + 1)
  · by_cases hmost' : cfg.lgK - 3 ≤ L
    · rw [if_pos hfull, if_pos hfull, hlargest, if_pos hmost', if_pos hmost']
      have hcoupons : Contents.coupons cfg .set r₁ = .ok (Slots.live (2 ^ L) _) :=
        congrArg Except.ok (hnew.live_eq hL)
      have hest : Contents.estimate cfg .set r₁ = Estimate.ofCoupons (n + 1) :=
        congrArg Estimate.ofCoupons hnew.counted
      exact meets_promote hnew.headed.mode?_eq hcoupons hest hb'
    · rw [if_pos hfull, if_pos hfull, hlargest, if_neg hmost', if_neg hmost']
      exact Edit.Meets.bind ((meets_grow hnew (by omega) hprobed (by omega) hb').mono
        fun _ r' _ hr' => Edit.Meets.done ⟨rfl, hr'⟩)
  · rw [if_neg hfull, if_neg hfull]
    exact Edit.Meets.done ⟨rfl, hnew⟩

/-- The image of a sound holding that is past the list, with its mode. -/
def Region.Carries (cfg : Config) (h : Holding) (mode : Mode) (r : Region) : Prop :=
  mode = h.mode ∧ r.Holds cfg h ∧ h.Sound cfg.lgK ∧ ¬ h.IsList

/-- **Tables and registers take in a coupon as their holding does.** -/
theorem meets_insertOrRaise {h : Holding} {mode : Mode} (hr : r.Carries cfg h mode)
    (hb : r.backing ≠ .frozen) (c : Coupon) :
    (CouponTable.insertOrRaise cfg mode c).Meets r (Region.Carries cfg (h.raise cfg.lgK c)) := by
  obtain ⟨rfl, hr, hs, hl⟩ := hr
  have hs' := Holding.sound_raise hs c
  have hl' := Holding.not_isList_raise cfg.lgK c hl
  cases h with
  | list cs n => exact absurd trivial hl
  | table L slots n =>
    exact (meets_insertTable hs hr hb c).mono fun _ r' _ ⟨hm, hr'⟩ => ⟨hm, hr', hs', hl'⟩
  | dense g =>
    have hd : Dense cfg g r := hr
    exact Edit.Meets.bind ((hd.meets_insert hb c).mono fun _ r' _ hr' =>
      Edit.Meets.done ⟨rfl, hr', hs', hl'⟩)

end Table

/-! ## Lists -/

namespace Slots

theorem live_getD (hcs : ∀ c ∈ cs, c ≠ .empty) (hlen : cs.length ≤ n) :
    live n (fun i => cs.getD i .empty) = cs := by
  obtain ⟨m, rfl⟩ := Nat.exists_eq_add_of_le hlen
  have hlow : (List.range cs.length).map (fun i => cs.getD i Coupon.empty) = cs := by
    refine List.ext_getElem (by simp) fun i _ hi => ?_
    simp [List.getElem?_eq_getElem hi]
  have hhigh : ((List.range m).map fun i => cs.getD (cs.length + i) Coupon.empty).filter
      (· ≠ .empty) = [] := by
    rw [List.filter_eq_nil_iff]
    intro d hd
    obtain ⟨i, -, rfl⟩ := List.mem_map.1 hd
    rw [List.getD_eq_default _ _ (Nat.le_add_right ..)]
    simp
  rw [live, List.range_add, List.map_append, List.map_map, List.filter_append, hlow]
  rw [show ((fun i => cs.getD i Coupon.empty) ∘ fun x => cs.length + x) =
    fun i => cs.getD (cs.length + i) Coupon.empty from rfl, hhigh, List.append_nil]
  exact List.filter_eq_self.2 fun c hc => decide_eq_true (hcs c hc)

theorem seek_getD_of_mem (hcs : ∀ c ∈ cs, c ≠ .empty) (hlen : cs.length ≤ n) (hc : c ∈ cs) :
    seek (fun i => cs.getD i .empty) c (fun i => i) n 0 = .present := by
  obtain ⟨i, hi, rfl⟩ := List.mem_iff_getElem.1 hc
  refine seek_of_found (hcs _ hc) ⟨i, by omega, List.getD_eq_getElem _ _ hi, fun l hl => ?_⟩
  have hl' : l < cs.length := by omega
  dsimp only
  rw [List.getD_eq_getElem _ _ hl']
  exact hcs _ (List.getElem_mem hl')

theorem seek_getD (hcs : ∀ c ∈ cs, c ≠ .empty) (hlen : cs.length < n) :
    seek (fun i => cs.getD i .empty) c (fun i => i) n 0 =
      if c ∈ cs then .present else .free cs.length := by
  have hbefore : ∀ l, l < cs.length → cs.getD l .empty ≠ .empty := by
    intro l hl
    rw [List.getD_eq_getElem _ _ hl]
    exact hcs _ (List.getElem_mem hl)
  have hafter : cs.getD cs.length .empty = .empty := List.getD_eq_default _ _ (Nat.le_refl _)
  split_ifs with hmem
  · exact seek_getD_of_mem hcs (Nat.le_of_lt hlen) hmem
  · have he := ended_seek (fun i => cs.getD i .empty) c (fun i => i) n 0
    cases hs : seek (fun i => cs.getD i .empty) c (fun i => i) n 0 with
    | present =>
      rw [hs] at he
      obtain ⟨i, -, -, hic, hc, -⟩ := he
      dsimp only at hic
      rcases Nat.lt_or_ge i cs.length with hi | hi
      · rw [List.getD_eq_getElem _ _ hi] at hic
        exact absurd (hic ▸ List.getElem_mem hi) hmem
      · rw [List.getD_eq_default _ _ hi] at hic
        exact absurd hic.symm hc
    | free t =>
      rw [hs] at he
      obtain ⟨i, -, -, rfl, hempty, hno⟩ := he
      rcases Nat.lt_trichotomy i cs.length with hi | rfl | hi
      · exact absurd hempty (hbefore i hi)
      · rfl
      · exact absurd hafter (hno _ (Nat.zero_le _) hi).1
    | full =>
      rw [hs] at he
      exact absurd hafter (he _ (Nat.zero_le _) (by omega)).1

end Slots

theorem Holding.getD_append (cs : List Coupon) (c : Coupon) (i : Nat) :
    (append cs c).getD i .empty = if i = cs.length then c else cs.getD i .empty := by
  unfold append
  split_ifs with hc hi hi
  · rw [hi, hc, List.getD_eq_default _ _ (Nat.le_refl _)]
  · rfl
  · rw [hi, List.getD_eq_getElem _ _ (by simp), List.getElem_concat_length rfl]
  · rw [List.getD_eq_getElem?_getD, List.getD_eq_getElem?_getD]
    rcases Nat.lt_or_ge i cs.length with hlt | hge
    · rw [List.getElem?_append_left hlt]
    · rw [List.getElem?_eq_none hge, List.getElem?_eq_none (by simp; omega)]

namespace Listed

theorem slots_eq (h : Listed cfg cs n r) : r.slots .list = 8 :=
  h.headed.slots_eq (by decide) (by unfold flagsOfList; split_ifs <;> decide) _

theorem live_eq (h : Listed cfg cs n r) (hcs : ∀ c ∈ cs, c ≠ .empty) (hlen : cs.length ≤ 8) :
    Contents.live .list r = cs := by
  rw [Contents.live, h.slots_eq, ← Slots.live_getD hcs hlen, ← Slots.live_congr h.slot]
  rfl

theorem find_eq_seek (h : Listed cfg cs n r) : CouponList.find 8 r c =
    match Slots.seek (fun i => cs.getD i .empty) c (fun i => i) 8 0 with
    | .free t => .free (CouponList.offset t)
    | p => p :=
  Slots.seek_eq CouponList.offset (fun i => i) 8 0 fun i _ hi => h.slot i (by omega)

theorem find_eq (h : Listed cfg cs n r) (hcs : ∀ c ∈ cs, c ≠ .empty) (hlen : cs.length < 8) :
    CouponList.find 8 r c =
      if c ∈ cs then .present else .free (CouponList.offset cs.length) := by
  rw [h.find_eq_seek, Slots.seek_getD hcs hlen]
  split_ifs <;> rfl

theorem find_of_mem (h : Listed cfg cs n r) (hcs : ∀ c ∈ cs, c ≠ .empty) (hlen : cs.length ≤ 8)
    (hc : c ∈ cs) : CouponList.find 8 r c = .present := by
  rw [h.find_eq_seek, Slots.seek_getD_of_mem hcs hlen hc]

theorem congr (h : Listed cfg cs n r) (hs : CouponList.bytes ≤ r'.size)
    (hb : ∀ j, j < CouponList.bytes → r'.byte j = r.byte j) : Listed cfg cs n r' := by
  have hbytes : CouponList.bytes = 40 := rfl
  refine ⟨h.headed.congr fun j hj _ => hb j (by omega), hs, ?_, fun i hi => ?_⟩
  · exact (congrArg UInt8.toNat (hb 6 (by decide))).trans h.counted
  · rw [← h.slot i hi]
    refine Region.coupon_congr fun j h₁ h₂ => hb j ?_
    unfold CouponList.offset at h₂
    omega

theorem clear (hs : CouponList.bytes ≤ r.size) : Listed cfg [] 0 (CouponList.clear cfg r) := by
  have hbytes : CouponList.bytes = 40 := rfl
  have hin := Region.within_putHeader r cfg .list Footprint.lgList Flag.empty.mask
  have hhead : (r.putHeader cfg .list Footprint.lgList Flag.empty.mask).Headed cfg .list
      Footprint.lgList (flagsOfList 0) := Region.headed_putHeader (by omega) (by decide)
  have h₆ : (r.putHeader cfg .list Footprint.lgList Flag.empty.mask).byte 6 = 0 :=
    Region.byte_six_putHeader (by omega)
  have hin' := Region.within_zero (r.putHeader cfg .list Footprint.lgList Flag.empty.mask)
    (CouponList.offset 0) (CouponList.bytes - CouponList.offset 0)
  have hoff : CouponList.offset 0 = 8 := rfl
  refine ⟨hhead.congr fun j hj _ => hin'.byte j (.inl (by omega)), ?_, ?_, fun i hi => ?_⟩
  · rw [CouponList.clear, hin'.size, hin.size]
    exact hs
  · exact congrArg UInt8.toNat ((hin'.byte 6 (.inl (by decide))).trans h₆)
  · refine Region.coupon_eq_empty fun j h₁ h₂ => Region.byte_zero_inside ?_ ?_
    · unfold CouponList.offset at h₁ ⊢
      omega
    · unfold CouponList.offset at h₂ ⊢
      omega

theorem append (h : Listed cfg cs n r) (hlen : cs.length < 8) (hn : n < 8) (c : Coupon) :
    Listed cfg (Holding.append cs c) (n + 1) (((r.setCoupon (CouponList.offset cs.length)
      c).putListCount (n + 1)).putFlag .empty false) := by
  have hbytes : CouponList.bytes = 40 := rfl
  have hfits := h.fits
  have hin₁ := Region.within_setCoupon r (CouponList.offset cs.length) c
  have hin₂ := Region.within_setByte (r.setCoupon (CouponList.offset cs.length) c) 6
    (UInt8.ofNat (n + 1))
  have hin₃ := Region.within_putFlag ((r.setCoupon (CouponList.offset cs.length) c).putListCount
    (n + 1)) .empty false
  have hoff : ∀ i, CouponList.offset i = 8 + 4 * i := fun _ => rfl
  have hlast := hoff cs.length
  have hhead : ((r.setCoupon (CouponList.offset cs.length) c).putListCount (n + 1)).Headed cfg
      .list Footprint.lgList (flagsOfList n) := h.headed.congr fun j hj h₆ => by
    rw [Region.putListCount, hin₂.byte j (by omega), hin₁.byte j (by omega)]
  have hsize : ((r.setCoupon (CouponList.offset cs.length) c).putListCount (n + 1)).size =
      r.size := hin₂.size.trans hin₁.size
  refine ⟨hhead.putFlag (by omega) _ _ ?_, ?_, ?_, fun i hi => ?_⟩
  · change flagsOfList n &&& ~~~ Flag.empty.mask &&& _ = flagsOfList (n + 1)
    rw [flagsOfList, flagsOfList, if_neg (Nat.succ_ne_zero n)]
    split_ifs <;> decide
  · rw [hin₃.size, hsize]
    exact hfits
  · rw [Region.listCount, hin₃.byte 6 (.inr (by decide)), Region.putListCount,
      Region.byte_setByte_self _ (by rw [hin₁.size]; omega),
      UInt8.toNat_ofNat_of_lt' (by change n + 1 < 256; omega)]
  · rw [hoff i, hin₃.coupon (.inr (by omega)), Region.putListCount,
      hin₂.coupon (.inr (by omega)), hlast, Region.coupon_setCoupon c (by omega),
      Holding.getD_append, ← hoff, h.slot i hi]

end Listed

section List

theorem tabulated_begun {m : Nat} (hs : Footprint.sparse .set Footprint.lgTable ≤ r.size)
    (hm : Footprint.sparse .set Footprint.lgTable ≤ m)
    (hr : r' = (r.putHeader cfg .set Footprint.lgTable Flag.outOfOrder.mask).zero 8 (m - 8)) :
    r'.backing = r.backing ∧ Tabulated cfg Footprint.lgTable (fun _ => .empty) 0 r' := by
  have hsp : Footprint.sparse .set Footprint.lgTable = 140 := rfl
  have hhead : (r.putHeader cfg .set Footprint.lgTable Flag.outOfOrder.mask).Headed cfg .set
      Footprint.lgTable Flag.outOfOrder.mask := Region.headed_putHeader (by omega) (by decide)
  have h₆ : (r.putHeader cfg .set Footprint.lgTable Flag.outOfOrder.mask).byte 6 = 0 :=
    Region.byte_six_putHeader (by omega)
  have hin := Region.within_putHeader r cfg .set Footprint.lgTable Flag.outOfOrder.mask
  generalize r.putHeader cfg .set Footprint.lgTable Flag.outOfOrder.mask = r₁ at hhead h₆ hin hr
  have hin' := Region.within_zero r₁ 8 (m - 8)
  have hzero : ∀ j, 8 ≤ j → j < 140 → (r₁.zero 8 (m - 8)).byte j = 0 := fun j h₁ h₂ =>
    Region.byte_zero_inside h₁ (by omega)
  rw [← hr] at hin' hzero
  have hcount : r'.setCount = 0 := by
    rw [Region.setCount, Region.toNat_word, hzero 8 (by decide) (by decide),
      hzero (8 + 1) (by decide) (by decide), hzero (8 + 2) (by decide) (by decide),
      hzero (8 + 3) (by decide) (by decide)]
    rfl
  refine ⟨hin'.backing.trans hin.backing, ?_⟩
  rw [← hcount]
  refine tabulated_empty (hhead.congr fun j hj _ => hin'.byte j (.inl hj)) ?_
    ((hin'.byte 6 (.inl (by decide))).trans h₆) fun j h₁ h₂ => hzero j (by omega) (by omega)
  rw [hin'.size, hin.size]
  exact hs

/-- **A full list turns into the table of its coupons.** -/
theorem meets_toTable (h : Listed cfg cs n r) (hcs : ∀ c ∈ cs, c ≠ .empty) (hlen : cs.length ≤ 8)
    (hlg : CouponList.lgTableFrom ≤ cfg.lgK) (hb : r.backing ≠ .frozen) :
    (CouponList.toTable cfg).Meets r fun mode r' =>
      mode = (Holding.spill cfg.lgK cs n).mode ∧ r'.Holds cfg (.spill cfg.lgK cs n) := by
  refine Edit.Meets.read_bind ?_
  dsimp only
  rw [h.live_eq hcs hlen]
  refine Edit.Meets.bind ((Edit.meets_reserve _ hb).mono fun _ r₁ hb₁ ⟨hsize, _, _⟩ => ?_)
  obtain ⟨hback, htable⟩ := tabulated_begun hsize (Nat.le_max_left _ (r.footprint cfg .list)) rfl
  refine Edit.Meets.write_bind hback ?_
  generalize (r₁.putHeader cfg .set Footprint.lgTable Flag.outOfOrder.mask).zero 8 _ = r₂
    at hback htable ⊢
  have hspill : Holding.spill cfg.lgK cs n =
      cs.foldl (Holding.raise cfg.lgK) (.table Footprint.lgTable (fun _ => .empty) 0) :=
    if_neg (Nat.not_lt.2 hlg)
  have hloop : (cs.foldlM (CouponTable.insertOrRaise cfg) .set).Meets r₂ (Region.Carries cfg
      (cs.foldl (Holding.raise cfg.lgK) (.table Footprint.lgTable (fun _ => .empty) 0))) := by
    refine Edit.Meets.foldlM cs _ _ r₂ (fun h mode c r' _ hb' hr' => ?_)
      ⟨rfl, htable, Holding.tabled_empty hlg, id⟩
    exact meets_insertOrRaise hr' (by rwa [hb', hback, hb₁]) c
  rw [hspill]
  exact hloop.mono fun mode r' _ hr' => ⟨hr'.1, hr'.2.1⟩

/-- **A list takes in a coupon as its holding does.** -/
theorem meets_insertList (l : Holding.Listable cs n) (h : Listed cfg cs n r)
    (hb : r.backing ≠ .frozen) (c : Coupon) :
    (CouponList.insert cfg c).Meets r fun mode r' =>
      mode = ((Holding.list cs n).insert cfg.lgK c).mode ∧
      r'.Holds cfg ((Holding.list cs n).insert cfg.lgK c) := by
  have hn := l.room
  have hcounted := l.counted
  have hslots : 2 ^ r.lgArr = 8 := by rw [h.headed.lgArr_eq (by decide)]; rfl
  refine Edit.Meets.read_bind ?_
  dsimp only
  rw [hslots, h.find_eq l.live (by omega)]
  unfold Holding.insert
  dsimp only
  by_cases hmem : c ∈ cs
  · rw [if_pos hmem, if_pos hmem]
    exact Edit.Meets.done ⟨rfl, h⟩
  rw [if_neg hmem, if_neg hmem]
  have hlive := Holding.ne_empty_append l.live c
  have hlen : (Holding.append cs c).length ≤ 8 :=
    Nat.le_trans (Holding.length_append_le cs c) (by omega)
  have hin := Region.within_setCoupon r (CouponList.offset cs.length) c
  have hcount : (r.setCoupon (CouponList.offset cs.length) c).listCount = n :=
    (congrArg UInt8.toNat (hin.byte 6 (.inl (by unfold CouponList.offset; omega)))).trans h.counted
  have hnew := h.append (by omega) hn c
  have hback : (((r.setCoupon (CouponList.offset cs.length) c).putListCount
      (n + 1)).putFlag .empty false).backing = r.backing := by
    rw [(Region.within_putFlag ..).backing, Region.putListCount, Region.backing_setByte,
      Region.backing_setCoupon]
  refine Edit.Meets.write_bind (Region.backing_setCoupon ..) ?_
  refine Edit.Meets.read_bind ?_
  rw [hcount]
  refine Edit.Meets.write_bind (hback.trans (Region.backing_setCoupon ..).symm) ?_
  rw [← hback] at hb
  generalize ((r.setCoupon (CouponList.offset cs.length) c).putListCount _).putFlag .empty false
    = r₁ at hnew hb ⊢
  by_cases hroom : n + 1 < 8
  · rw [if_pos hroom, if_neg (by omega)]
    exact Edit.Meets.done ⟨rfl, hnew⟩
  rw [if_neg hroom, if_pos (by omega)]
  by_cases hlg : cfg.lgK < CouponList.lgTableFrom
  · have hspill : Holding.spill cfg.lgK (Holding.append cs c) (n + 1) =
        .promote cfg.lgK (Holding.append cs c) (n + 1) := if_pos hlg
    have hcoupons : Contents.coupons cfg .list r₁ = .ok (Holding.append cs c) :=
      congrArg Except.ok (hnew.live_eq hlive hlen)
    have hest : Contents.estimate cfg .list r₁ = Estimate.ofCoupons (n + 1) :=
      congrArg Estimate.ofCoupons hnew.counted
    rw [if_pos hlg, hspill]
    exact meets_promote hnew.headed.mode?_eq hcoupons hest hb
  · rw [if_neg hlg]
    exact meets_toTable hnew hlive hlen (Nat.le_of_not_lt hlg) hb

end List

end HyperLogLog
