import HyperLogLog.Proofs.Repetition

/-!
# What a search in a table relies on

The stride of a coupon goes with the size of the table, so a table that grows puts all its coupons
elsewhere. What a search relies on holds at every size.

* `CouponTable.Searchable`: a table in which no empty slot is tried before the coupon;
* `Tabulated.find_iff`: a search tells the coupons of a table from all others;
* `Tabulated.searchable`: the image of a table is searchable;
* `Tabulated.grow_searchable`: so is the one that it grows into, with the same coupons;
* **`tables_searchable`**: a sketch never has any other table, and takes no coupon for another.
-/

namespace HyperLogLog

variable {cfg : Config} {r : Region} {L n : Nat} {slots : Nat → Coupon} {c : Coupon}
  {cs : List Coupon}

/-! ## Tables -/

namespace CouponTable

open Contents (live)

/-- A table of `2 ^ lgArr` slots in which every coupon can be found. -/
structure Searchable (lgArr : Nat) (r : Region) : Prop where
  /-- The header counts the slots that are taken. -/
  counted : r.setCount =
    (List.range (2 ^ lgArr)).countP fun t => r.coupon (offset t) ≠ .empty
  distinct : (live .set r).Nodup
  load : 4 * r.setCount ≤ 3 * 2 ^ lgArr
  /-- A coupon is met along its probe sequence before an empty slot is. -/
  met : ∀ c ∈ live .set r, ∃ j, j < 2 ^ lgArr ∧ r.coupon (offset (position lgArr c j)) = c ∧
    ∀ i, i < j → r.coupon (offset (position lgArr c i)) ≠ .empty

/-- The search for a coupon ends at an empty slot of the table. -/
def Vacant (lgArr : Nat) (r : Region) (c : Coupon) : Prop :=
  ∃ t, t < 2 ^ lgArr ∧ find lgArr r c = .free (offset t) ∧ r.coupon (offset t) = .empty

end CouponTable

namespace Tabulated

open CouponTable (Searchable Vacant find grow offset position)

theorem searchable (h : Tabulated cfg L slots n r) (hL : L < 256)
    (hp : Slots.Probed (position L) (2 ^ L) slots) (hn : (Slots.live (2 ^ L) slots).length = n)
    (hroom : 4 * n ≤ 3 * 2 ^ L) : Searchable L r := by
  have hlive := h.live_eq hL
  constructor
  case counted =>
    rw [h.counted, ← hn, Slots.live, ← List.countP_eq_length_filter, List.countP_map]
    refine List.countP_congr fun t ht => ?_
    rw [h.slot t (List.mem_range.1 ht)]
    rfl
  case distinct =>
    rw [hlive]
    exact hp.nodup_live
  case load => rwa [h.counted]
  case met =>
    intro c hc
    rw [hlive] at hc
    obtain ⟨hne, t, ht, rfl⟩ := Slots.mem_live.1 hc
    obtain ⟨j, hj, hfound, hbefore⟩ := hp.found t ht hne
    refine ⟨j, hj, (h.slot _ (CouponTable.position_lt ..)).trans hfound, fun i hi => ?_⟩
    rw [h.slot _ (CouponTable.position_lt ..)]
    exact hbefore i hi

theorem find_iff (h : Tabulated cfg L slots n r) (hL : L < 256)
    (hp : Slots.Probed (position L) (2 ^ L) slots)
    (hroom : (Slots.live (2 ^ L) slots).length < 2 ^ L) (c : Coupon) :
    (c ∈ Contents.live .set r → find L r c = .present) ∧
      (c ∉ Contents.live .set r → Vacant L r c) := by
  rw [h.live_eq hL]
  refine ⟨fun hc => ?_, fun hc => ?_⟩
  · rw [h.find_eq, hp.seek_of_mem hc]
  · obtain ⟨t, -, hseek, ht, -, -, hempty, -⟩ :=
      Slots.Probed.seek_of_not_mem (Slots.covers_position L) hc hroom
    refine ⟨t, ht, ?_, (h.slot t ht).trans hempty⟩
    rw [h.find_eq, hseek]

/-- **A table that grows keeps its coupons**, at other places. -/
theorem grow_searchable (h : Tabulated cfg L slots n r) (hL : L < 255)
    (hp : Slots.Probed (position L) (2 ^ L) slots) (hn : (Slots.live (2 ^ L) slots).length = n)
    (hroom : 4 * n ≤ 3 * 2 ^ (L + 1)) (hb : r.backing ≠ .frozen) :
    (grow (L + 1)).Meets r fun _ r' => r'.lgArr = L + 1 ∧ Searchable (L + 1) r' ∧
      (Contents.live .set r').Perm (Contents.live .set r) := by
  have hpos := Nat.two_pow_pos (L + 1)
  refine (meets_grow h hL hp (by omega) hb).mono fun _ r' _ h' => ?_
  obtain ⟨hp', hmem, hlen⟩ := Slots.probed_rehash (Slots.covers_position (L + 1)) hp.nodup_live
    (fun d hd => (Slots.mem_live.1 hd).1) (by omega)
  refine ⟨h'.headed.lgArr_eq (by omega),
    h'.searchable (by omega) hp' (hlen.trans hn) hroom, ?_⟩
  rw [h'.live_eq (by omega), h.live_eq (by omega)]
  exact (List.perm_ext_iff_of_nodup hp'.nodup_live hp.nodup_live).2 hmem

end Tabulated

/-! ## Sketches -/

namespace Holding

theorem raise_eq_dense_or_table (lgK : Nat) (hc : c ∉ Slots.live (2 ^ L) slots) :
    lgK - 3 ≤ L ∧ 3 * 2 ^ L < 4 * (n + 1) ∧ (raise lgK (table L slots n) c).mode = .dense ∨
      ¬ (lgK - 3 ≤ L ∧ 3 * 2 ^ L < 4 * (n + 1)) ∧ ∃ slots', raise lgK (table L slots n) c =
        table (if 3 * 2 ^ L < 4 * (n + 1) then L + 1 else L) slots' (n + 1) := by
  rw [raise_of_not_mem hc]
  dsimp only
  by_cases hfull : 3 * 2 ^ L < 4 * (n + 1)
  · rw [if_pos hfull, if_pos hfull]
    by_cases hmost : lgK - 3 ≤ L
    · rw [if_pos hmost]
      exact .inl ⟨hmost, hfull, rfl⟩
    · rw [if_neg hmost]
      exact .inr ⟨fun h => hmost h.1, _, rfl⟩
  · rw [if_neg hfull, if_neg hfull]
    exact .inr ⟨fun h => hfull h.2, _, rfl⟩

end Holding

namespace Sketch

open CouponTable (Searchable Vacant find grow)
open CouponList (lgTableFrom)
open Footprint (lgTable lgLargestTable)

variable {s t u w : Sketch} {h : Holding} {f : Fault}

theorem Keeps.lgArr_eq (hs : s.Keeps (.table L slots n)) : s.region.lgArr = L := by
  have himg : Tabulated s.config L slots n s.region := hs.image
  exact himg.headed.lgArr_eq (lgArr_lt (Holding.Tabled.most hs.sound))

theorem Keeps.live_eq (hs : s.Keeps (.table L slots n)) :
    Contents.live .set s.region = Slots.live (2 ^ L) slots := by
  have himg : Tabulated s.config L slots n s.region := hs.image
  exact himg.live_eq (lgArr_lt (Holding.Tabled.most hs.sound))

/-- What a coupon that is not there does to a table: how it grows and what it has then. -/
structure Enters (c : Coupon) (s t : Sketch) : Prop where
  mode : t.mode = if lgLargestTable s.config ≤ s.region.lgArr ∧
    3 * 2 ^ s.region.lgArr < 4 * (s.region.setCount + 1) then .dense else .set
  lgArr : t.mode = .set → t.region.lgArr =
    if 3 * 2 ^ s.region.lgArr < 4 * (s.region.setCount + 1) then s.region.lgArr + 1
    else s.region.lgArr
  live : t.mode = .set →
    (Contents.live .set t.region).Perm (c :: Contents.live .set s.region)

theorem Keeps.enters (hs : s.Keeps (.table L slots n)) (hne : c ≠ .empty)
    (hc : c ∉ Contents.live .set s.region) (ht : Sketch.insert c s = .ok () t) : Enters c s t := by
  have himg : Tabulated s.config L slots n s.region := hs.image
  have hlast : lgLargestTable s.config = s.config.lgK - 3 := rfl
  have hL := hs.lgArr_eq
  have hn := himg.counted
  rw [hs.live_eq] at hc
  obtain ⟨hcfg, -, hkeeps⟩ := (hs.insert c).ok t ht
  have hrec : (Holding.raise s.config.lgK (.table L slots n) c).Records s.config.lgK
      (Slots.live (2 ^ L) slots ++ [c]) :=
    Holding.records_raise id hs.sound hne fun _ => Iff.rfl
  change t.Keeps (Holding.raise s.config.lgK (.table L slots n) c) at hkeeps
  obtain ⟨hmost, hfull, hdense⟩ | ⟨hnot, slots', htable⟩ :=
    Holding.raise_eq_dense_or_table (n := n) s.config.lgK hc
  · have hmode : t.mode = .dense := hkeeps.mode.trans hdense
    refine ⟨?_, fun h => ?_, fun h => ?_⟩
    · rw [hlast, hL, hn, if_pos ⟨hmost, hfull⟩]
      exact hmode
    · cases hmode.symm.trans h
    · cases hmode.symm.trans h
  · rw [htable] at hkeeps hrec
    refine ⟨?_, fun _ => ?_, fun _ => ?_⟩
    · rw [hlast, hL, hn, if_neg hnot]
      exact hkeeps.mode
    · rw [hL, hn]
      exact hkeeps.lgArr_eq
    · have hnd := (Holding.Tabled.probed hkeeps.sound).nodup_live
      rw [hkeeps.live_eq, hs.live_eq, List.perm_ext_iff_of_nodup hnd
        (List.nodup_cons.2 ⟨hc, (Holding.Tabled.probed hs.sound).nodup_live⟩)]
      intro d
      rw [hrec d, List.mem_append, List.mem_singleton, List.mem_cons, or_comm]

/-- **A sketch never has a table in which a search goes astray.** Let a sketch have taken in coupons
`cs`, by updates, merges and whatever else keeps them. If it has a table, the table is searchable at
its size and has the coupons `cs` and no others. A search for one of them finds it, and a search for
any other coupon ends at an empty slot. A table that grows keeps exactly its coupons, and can be
searched with the strides of its new size; it grows when a new coupon would fill it to more than
three quarters. Whatever the sketch has, an update fails for want of lent bytes or not at all, so no
search runs past the last slot and no coupon is met twice while a table grows; a merge may moreover
be refused for the size of its source. -/
theorem tables_searchable (hs : Fed s cs) :
    (s.mode = .set →
      lgTableFrom ≤ s.config.lgK ∧ lgTable ≤ s.region.lgArr ∧
      s.region.lgArr ≤ lgLargestTable s.config ∧
      Searchable s.region.lgArr s.region ∧
      (∀ c, c ∈ Contents.live .set s.region ↔ c ∈ cs) ∧
      (∀ c, (c ∈ cs → find s.region.lgArr s.region c = .present) ∧
        (c ∉ cs → Vacant s.region.lgArr s.region c)) ∧
      (grow (s.region.lgArr + 1)).Meets s.region (fun _ r => r.lgArr = s.region.lgArr + 1 ∧
        Searchable (s.region.lgArr + 1) r ∧
        (Contents.live .set r).Perm (Contents.live .set s.region)) ∧
      ∀ c t, 0 < c.value → c ∉ cs → insert c s = .ok () t → Enters c s t) ∧
    (∀ c f t, insert c s = .error f t →
      s.region.backing = .lent ∧ ∃ required available, f = .outOfRoom required available) ∧
    ∀ w f t, w.Evolved → absorb w s = .error f t → f = .narrowSource w.config.lgK s.config.lgK ∨
      s.region.backing = .lent ∧ ∃ required available, f = .outOfRoom required available := by
  obtain ⟨h, hk, hr, hrec, -⟩ := hs.keeps
  refine ⟨fun hm => ?_, fun c => (hk.insert c).error, fun w f t hw hf => ?_⟩
  · cases h with
    | list | dense => cases hk.mode.symm.trans hm
    | table L slots n =>
      have himg : Tabulated s.config L slots n s.region := hk.image
      have ht : Holding.Tabled s.config.lgK L slots n := hk.sound
      have hcounted := hr.2.2.counted
      have hL := lgArr_lt ht.most
      have hmost := ht.most
      have hk21 := s.config.le_twentyOne
      have hroom := ht.room
      have hlive : ∀ c, c ∈ Contents.live .set s.region ↔ c ∈ cs := by
        rw [hk.live_eq]
        exact hrec
      rw [hk.lgArr_eq]
      refine ⟨hr.1, ht.least, ht.most, himg.searchable hL ht.probed hcounted hroom, hlive,
        fun c => ?_, ?_, fun c t hc hnot hrun => ?_⟩
      · rw [← hlive]
        exact himg.find_iff hL ht.probed ht.lt_room c
      · exact himg.grow_searchable (by omega) ht.probed hcounted
          (hroom.trans (Nat.mul_le_mul_left 3 (Nat.pow_le_pow_right (by decide) (Nat.le_succ L))))
          hk.writable
      · exact hk.enters (Coupon.ne_empty hc) (mt (hlive c).1 hnot) hrun
  · obtain ⟨h', hw, -⟩ := hw.keeps
    by_cases hj : w.mode = .dense ∧ w.config.lgK < s.config.lgK
    · cases (hk.absorb_of_error (hw.offered_narrow hj)).symm.trans hf
      exact .inl rfl
    · exact .inr ((hk.absorb_of_ok (hw.offered_eq hj)).error f t hf)

/-- Eight coupons that all try the first slot first. -/
def collided : List Coupon := (List.range 8).map fun i => .pack (32 * i) 1

/-- They make a table in which each of them is found. -/
theorem tables_searchable_collided :
    ∃ s, Fed s collided ∧ s.mode = .set ∧ Searchable s.region.lgArr s.region ∧
      (∀ c ∈ collided, find s.region.lgArr s.region c = .present) ∧
      Vacant s.region.lgArr s.region (.pack 256 1) := by
  obtain ⟨s, hs, -, howns⟩ := (Owns.new ⟨8, .six, by decide, by decide⟩).insertAll collided
  have hfed : Fed s collided := (Fed.new _).insertAll (by decide) hs
  have hset : s.mode = .set := howns.mode.trans (by decide +kernel)
  obtain ⟨-, -, -, hsearch, -, hfind, -⟩ := (tables_searchable hfed).1 hset
  exact ⟨s, hfed, hset, hsearch, fun c hc => (hfind c).1 hc, (hfind _).2 (by decide)⟩

end Sketch

end HyperLogLog
