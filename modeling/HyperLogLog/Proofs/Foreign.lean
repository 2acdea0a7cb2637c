import HyperLogLog.Proofs.Order
import HyperLogLog.Proofs.Widths

/-!
# Merges from images of unknown origin

Only the header of a wrapped image is checked, so its registers may hold more than a coupon can
carry. As coupons they keep the low six bits of what they hold; for a register that is a multiple of
64 that is no value at all, and its coupon is the word of an empty slot if its address is zero.

* `Sketch.Tallied`: the counts in the header are those of what the image holds;
* `Keeps.tallied`, `Keeps.restored_sameAs`: sketches that have taken in observations are tallied,
  and their compact bytes give an equal sketch;
* `empty_mem_offered`: which sources offer the word of an empty slot;
* **`absorb_tallied`**: a merge from any source leaves a tallied target that its bytes restore,
  unless the source has such a register and the target stays a list or a table;
* `absorb_blank`: a list that counts a coupon it does not hold.
-/

namespace HyperLogLog

open Registers (Dense)

/-! ## Counts in headers -/

theorem Registers.Dense.counted {cfg : Config} {g : Registry} {r : Region} (hd : Dense cfg g r) :
    r.atMinimum = level cfg.k g.values r.minimum := by
  by_cases hw : cfg.width = .four
  · exact ((Registers.packed_of_four hw).1 hd.packed).counted
  · have h := (Registers.packed_of_ne_four hw).1 hd.packed
    rw [h.minimum, h.counted]

namespace Sketch

variable {s t u : Sketch} {h h' : Holding} {cs : List Coupon} {j : Nat}

/-- The header of a list or a table counts its coupons, which are distinct; that of registers counts
those at the minimum. -/
def Tallied (s : Sketch) : Prop :=
  match s.mode with
  | .dense => ∃ vs, Registers.values s.config s.region = .ok vs ∧
    s.region.atMinimum = vs.count s.region.minimum
  | mode => (Contents.live mode s.region).Nodup ∧
    Contents.count mode s.region = (Contents.live mode s.region).length

theorem Keeps.tallied_dense {g : Registry} (hs : s.Keeps (.dense g)) : s.Tallied := by
  have hd : Dense s.config g s.region := hs.image
  unfold Tallied
  rw [hs.mode]
  refine ⟨_, hd.values_eq, ?_⟩
  rw [hd.counted, level, List.count_eq_countP, List.countP_map]
  rfl

theorem Keeps.tallied (hs : s.Keeps h) (hr : h.Regular s.config.lgK 8) : s.Tallied := by
  have himg := hs.image
  have hsound := hs.sound
  cases h with
  | dense g => exact hs.tallied_dense
  | list ds n =>
    have hl : Listed s.config ds n s.region := himg
    have hok : Holding.Listable ds n := hsound
    have hlive : Contents.live .list s.region = ds :=
      hl.live_eq hok.live (Nat.le_of_lt (Nat.lt_of_le_of_lt hok.counted hok.room))
    unfold Tallied
    rw [hs.mode]
    change (Contents.live .list s.region).Nodup ∧
      s.region.listCount = (Contents.live .list s.region).length
    rw [hlive, hl.counted]
    exact ⟨hok.nodup, hr.symm⟩
  | table L slots n =>
    have ht : Tabulated s.config L slots n s.region := himg
    have hok : Holding.Tabled s.config.lgK L slots n := hsound
    have hlive := ht.live_eq (lgArr_lt hok.most)
    unfold Tallied
    rw [hs.mode]
    change (Contents.live .set s.region).Nodup ∧
      s.region.setCount = (Contents.live .set s.region).length
    rw [hlive, ht.counted]
    exact ⟨hok.probed.nodup_live, hr.2.2.counted.symm⟩

/-- **The compact bytes of a sketch that has taken in observations give an equal sketch.** -/
theorem Keeps.restored_sameAs (hs : s.Keeps h) (hr : h.Regular s.config.lgK 8) :
    ∃ r, ofBytes s.toCompact = .ok r ∧ r.sameAs s = true := by
  obtain ⟨r, h', hread, hcfg, hr', hsim⟩ := hs.ofBytes_toCompact hr
  have ha := hsim.agree hs.sound (hcfg ▸ hr'.sound)
  refine ⟨r, hread, hr'.toKeeps.sameAs_of_perm hs hcfg ha.mode_eq.symm ?_⟩
  rw [hcfg]
  exact ha.coupons_perm.symm

theorem Keeps.restored_dense {g : Registry} (hs : s.Keeps (.dense g)) :
    ∃ r, ofBytes s.toCompact = .ok r ∧ r.sameAs s = true := by
  obtain ⟨r, hread, hcfg, hr⟩ := hs.ofBytes_markCompact
  refine ⟨r, ?_, hr.toKeeps.sameAs_of_perm hs hcfg rfl (by rw [hcfg])⟩
  unfold toCompact
  rw [hs.mode]
  exact hread

end Sketch

/-! ## Sources that offer an empty slot -/

/-- The coupons of registers have their addresses and the low six bits of what they hold. -/
theorem Registers.mem_of_coupons {cfg : Config} {r : Region} {cs : List Coupon} {c : Coupon}
    (hcs : coupons cfg r = .ok cs) (hc : c ∈ cs) :
    ∃ i v, i < cfg.k ∧ read cfg r i = .ok v ∧ v ≠ 0 ∧ c = .pack i v := by
  obtain ⟨vs, hvs, rfl⟩ := Except.map_eq_ok hcs
  obtain ⟨⟨v, i⟩, hp, rfl⟩ := List.mem_map.1 hc
  obtain ⟨hp, hv⟩ := List.mem_filter.1 hp
  obtain ⟨slot, hslot, hread⟩ := Except.getElem?_of_mapM hvs (List.mem_zipIdx_iff_getElem?.1 hp)
  obtain ⟨hi, rfl⟩ := List.getElem?_eq_some_iff.1 hslot
  rw [List.length_range] at hi
  rw [List.getElem_range] at hread
  exact ⟨i, v, hi, hread, of_decide_eq_true hv, rfl⟩

theorem Registers.lt_of_read_six {cfg : Config} {r : Region} {i v : Nat} (hw : cfg.width = .six)
    (h : read cfg r i = .ok v) : v < 64 := by
  unfold read at h
  rw [hw] at h
  cases h
  exact Nat.mod_lt _ (by decide)

theorem Coupon.pack_eq_empty {slot value : Nat} (h : pack slot value = .empty) :
    value % 64 = 0 ∧ slot % 67108864 = 0 := by
  have hnat : (pack slot value).toNat = 0 := by rw [h]; rfl
  rw [toNat_pack] at hnat
  omega

namespace Sketch

variable {s t u : Sketch} {h : Holding} {cs : List Coupon} {j : Nat}

/-- **A source offers the word of an empty slot only for a register that is a multiple of 64**,
which six bits cannot be, and whose address falls on the first of the target. -/
theorem empty_mem_offered (ho : s.offered j = .ok cs) (he : Coupon.empty ∈ cs) :
    s.mode = .dense ∧ s.config.width ≠ .six ∧ ∃ i v, i < s.config.k ∧ i % 2 ^ j = 0 ∧
      Registers.read s.config s.region i = .ok v ∧ v ≠ 0 ∧ v % 64 = 0 := by
  have hlive : ∀ mode, Coupon.empty ∉ Contents.live mode s.region := fun mode hmem => by
    rw [Contents.live, List.mem_filter] at hmem
    exact absurd hmem.2 (by decide)
  obtain ⟨cfg, mode, r⟩ := s
  unfold offered coupons at ho
  cases mode with
  | list =>
    cases ho
    exact absurd he (hlive .list)
  | set =>
    cases ho
    exact absurd he (hlive .set)
  | dense =>
    have hfound : ∀ i v, i < cfg.k → i % 2 ^ j = 0 → Registers.read cfg r i = .ok v → v ≠ 0 →
        v % 64 = 0 → Mode.dense = .dense ∧ cfg.width ≠ .six ∧ ∃ i v, i < cfg.k ∧ i % 2 ^ j = 0 ∧
          Registers.read cfg r i = .ok v ∧ v ≠ 0 ∧ v % 64 = 0 := fun i v hi hij hread hv h64 =>
      ⟨rfl, fun hw => by have := Registers.lt_of_read_six hw hread; omega,
        i, v, hi, hij, hread, hv, h64⟩
    cases hcs : Contents.coupons cfg .dense r with
    | error f =>
      rw [hcs] at ho
      cases ho
    | ok ds =>
      rw [hcs] at ho
      change (if cfg.lgK < j then throw _ else if j < cfg.lgK then
        pure (ds.map (Coupon.folded j)) else pure ds) = _ at ho
      have hk := Registers.k_le cfg
      split_ifs at ho
      · cases ho
        obtain ⟨c, hc, hfold⟩ := List.mem_map.1 he
        obtain ⟨i, v, hi, hread, hv, rfl⟩ := Registers.mem_of_coupons hcs hc
        rw [Coupon.folded, Coupon.slot_pack_of_lt v (by omega), Coupon.value_pack] at hfold
        obtain ⟨h64, hij⟩ := Coupon.pack_eq_empty hfold
        have hle := Nat.mod_le i (2 ^ j)
        rw [Nat.mod_eq_of_lt (by omega)] at hij
        exact hfound i v hi hij hread hv (by omega)
      · cases ho
        obtain ⟨i, v, hi, hread, hv, hpack⟩ := Registers.mem_of_coupons hcs he
        obtain ⟨h64, hi₀⟩ := Coupon.pack_eq_empty hpack.symm
        obtain rfl : i = 0 := by omega
        exact hfound 0 v hi (Nat.zero_mod _) hread hv h64

/-! ## Merges -/

/-- **A merge from any source leaves a target whose counts are right and which its bytes restore.**
The source may be wrapped around bytes that make sense of their header and of nothing else. If the
merge succeeds, a target that becomes or stays dense has no more to fear; a list or a table has, if
a register of the source whose address falls on the first of the target is a multiple of 64, as a
register of four or eight bits can be. -/
theorem absorb_tallied (ht : t.Evolved) (hu : absorb s t = .ok () u) :
    (u.Tallied ∧ ∃ r, ofBytes u.toCompact = .ok r ∧ r.sameAs u = true) ∨
    (u.mode ≠ .dense ∧ s.mode = .dense ∧ s.config.width ≠ .six ∧
      ∃ i v, i < s.config.k ∧ i % t.config.k = 0 ∧ Registers.read s.config s.region i = .ok v ∧
        v ≠ 0 ∧ v % 64 = 0) := by
  obtain ⟨h, ht, hr⟩ := ht.keeps
  obtain ⟨cs, ho, -⟩ := absorb_eq_ok hu
  obtain ⟨hcfg, -, hkeeps⟩ := (ht.absorb_of_ok ho).ok u hu
  by_cases he : Coupon.empty ∈ cs
  · by_cases hm : u.mode = .dense
    · -- registers take no notice of a coupon without a value
      rw [hkeeps.mode] at hm
      cases hh : h.absorb t.config.lgK cs with
      | dense g =>
        rw [hh] at hkeeps
        exact .inl ⟨hkeeps.tallied_dense, hkeeps.restored_dense⟩
      | _ =>
        rw [hh] at hm
        cases hm
    · exact .inr ⟨hm, empty_mem_offered ho he⟩
  · have hr' := Holding.regular_absorb t.config.le_twentyOne ht.sound hr
      fun c hc hempty => he (hempty ▸ hc)
    rw [← hcfg] at hr' hkeeps
    exact .inl ⟨hkeeps.tallied hr', hkeeps.restored_sameAs hr'⟩

/-- An image of 16 registers of eight bits, some of which are beyond 63. The header counts eleven at
a minimum that none of them has, and the sums and the running total are made up. -/
def muddled : ByteArray :=
  ⟨#[10, 1, 7, 4, 0, 0, 9, 10, 255, 255, 255, 255, 255, 255, 255, 255, 255, 255, 255, 255, 255, 255,
    255, 255, 255, 255, 255, 255, 255, 255, 255, 255, 11, 0, 0, 0, 0, 0, 0, 0, 200, 0, 255, 0, 0,
    64, 0, 0, 0, 0, 0, 0, 0, 0, 0, 7]⟩

/-- A list takes the four registers in, one of them as a coupon without a value. -/
theorem absorb_tallied_muddled :
    ∃ s t u : Sketch, wrap muddled = .ok s ∧ ¬ s.Tallied ∧ t.Evolved ∧ absorb s t = .ok () u ∧
      u.Tallied ∧ ∃ r, ofBytes u.toCompact = .ok r ∧ r.sameAs u = true := by
  let s : Sketch := ⟨⟨4, .eight, by decide, by decide⟩, .dense, ⟨muddled, .frozen⟩⟩
  have hwrap : wrap muddled = .ok s := by decide +kernel
  have hvalues : Registers.values s.config s.region =
      .ok [200, 0, 255, 0, 0, 64, 0, 0, 0, 0, 0, 0, 0, 0, 0, 7] := by decide +kernel
  have hmuddled : ¬ s.Tallied := by
    rintro ⟨vs, hvs, hlevel⟩
    cases hvalues.symm.trans hvs
    exact absurd hlevel (by decide +kernel)
  have ho : s.offered 4 = .ok [.pack 0 200, .pack 2 255, .pack 5 64, .pack 15 7] := by
    decide +kernel
  obtain ⟨t, ht, htcfg, ht'⟩ := (Owns.new ⟨4, .six, by decide, by decide⟩).insertAll [.pack 5 3]
  have hev : t.Evolved := (Evolved.new _).insertAll (by decide) ht
  obtain ⟨u, hu, -, -⟩ := ht'.absorb_of_ok (by rw [htcfg]; exact ho)
  obtain ⟨htallied, hread⟩ | ⟨-, -, -, i, v, hi, hi₀, hv, -, h64⟩ := absorb_tallied hev hu
  · exact ⟨s, t, u, hwrap, hmuddled, hev, hu, htallied, hread⟩
  · -- the register whose address falls on the first of the target is no multiple of 64
    rw [htcfg] at hi₀
    obtain rfl : i = 0 := (Nat.mod_eq_of_lt hi).symm.trans hi₀
    cases (show Registers.read s.config s.region 0 = .ok 200 by decide +kernel).symm.trans hv
    exact absurd h64 (by decide)

/-- An image of 16 registers of eight bits, the first of which is 64. -/
def blank : ByteArray :=
  ⟨#[10, 1, 7, 4, 0, 0, 0, 10, 0, 0, 0, 0, 0, 0, 0, 0, 0, 0, 0, 0, 0, 0, 0, 0, 0, 0, 0, 0, 0, 0, 0,
    0, 15, 0, 0, 0, 0, 0, 0, 0, 64, 0, 0, 0, 0, 0, 0, 0, 0, 0, 0, 0, 0, 0, 0, 0]⟩

/-- **A list that takes in the register counts a coupon that it does not hold**, and its compact
bytes are refused. -/
theorem absorb_blank :
    let cfg : Config := ⟨4, .eight, by decide, by decide⟩
    ∃ s u, wrap blank = .ok s ∧ absorb s (new cfg) = .ok () u ∧ ¬ u.Tallied ∧
      ofBytes u.toCompact = .error (.imageTruncated 12 8) := by
  intro cfg
  let s : Sketch := ⟨cfg, .dense, ⟨blank, .frozen⟩⟩
  have hwrap : wrap blank = .ok s := by decide +kernel
  have hu := eq_ok_of_outcome
    (show (outcome (absorb s) (new cfg)).1 = .ok () by decide +kernel)
  have hmode : (outcome (absorb s) (new cfg)).2.mode = .list := by decide +kernel
  have hcount : (outcome (absorb s) (new cfg)).2.region.listCount = 1 := by decide +kernel
  have hlive : Contents.live .list (outcome (absorb s) (new cfg)).2.region = [] := by
    decide +kernel
  have hread : ofBytes (outcome (absorb s) (new cfg)).2.toCompact =
      .error (.imageTruncated 12 8) := by decide +kernel
  generalize (outcome (absorb s) (new cfg)).2 = u at *
  refine ⟨s, u, hwrap, hu, fun htallied => ?_, hread⟩
  unfold Tallied at htallied
  rw [hmode] at htallied
  have hlen : u.region.listCount = (Contents.live .list u.region).length := htallied.2
  rw [hcount, hlive] at hlen
  cases hlen

end Sketch

end HyperLogLog
