import HyperLogLog.Proofs.Answers
import HyperLogLog.Proofs.Order
import HyperLogLog.Proofs.Widths

/-!
# What bytes preserve

A sketch that is written to bytes and read back goes on as the original would have. Compact bytes
of a table leave the places of its coupons out, so these may change.

* `Sketch.Restores`: a sketch that is another up to the places of coupons in a table;
* `Keeps.restores`: so are sketches whose holdings are similar;
* **`restored_continues`**: a sketch read from the bytes of another stays like it, whatever coupons
  are to come;
* `crowded_left_behind`: unless the other runs out of lent bytes.
-/

namespace HyperLogLog

open Registers (Dense)
open Holding (Similar Agree)

theorem Region.Holds.header_eq {cfg : Config} {r r' : Region} {h h' : Holding}
    (hr : r.Holds cfg h) (hr' : r'.Holds cfg h') (hs : h.Sound cfg.lgK) (hsim : Similar h h')
    (hstart : h.mode.dataStart ≤ r.footprint cfg h.mode) {j : Nat} (hj : j < h.mode.dataStart) :
    r.byte j = r'.byte j := by
  cases hsim with
  | refl => exact hr.byte_eq hr' hs (Nat.lt_of_lt_of_le hj hstart)
  | table =>
    have ht : Tabulated cfg _ _ _ r := hr
    have ht' : Tabulated cfg _ _ _ r' := hr'
    have hlt : j < 12 := hj
    by_cases h₆ : j = 6
    · rw [h₆, ht.spare, ht'.spare]
    by_cases h₇ : j = 7
    · rw [h₇, ht.headed.modes, ht'.headed.modes]
    by_cases hlow : j < 8
    · exact ht.headed.byte_eq ht'.headed rfl hlow h₆ h₇
    · exact byte_eq_of_word_eq (i := 8) (UInt32.toNat_inj.1 (ht.counted.trans ht'.counted.symm))
        (by omega) (by omega)

theorem Region.Holds.footprint_of_similar {cfg : Config} {r r' : Region} {h h' : Holding}
    (hr : r.Holds cfg h) (hr' : r'.Holds cfg h') (hs : h.Sound cfg.lgK) (hsim : Similar h h') :
    r.footprint cfg h.mode = r'.footprint cfg h'.mode := by
  cases hsim with
  | refl => exact hr.footprint_eq hr' hs
  | table =>
    have ht : Tabulated cfg _ _ _ r := hr
    have ht' : Tabulated cfg _ _ _ r' := hr'
    have hL := lgArr_lt (Holding.Tabled.most hs)
    exact (ht.footprint_eq hL).trans (ht'.footprint_eq hL).symm

namespace Sketch

variable {s t u : Sketch} {h h' : Holding} {cs : List Coupon}

/-- A sketch that is another, but for the places of coupons in a table. -/
structure Restores (s t : Sketch) : Prop where
  config : s.config = t.config
  mode : s.mode = t.mode
  lgArr : s.region.lgArr = t.region.lgArr
  isOutOfOrder : s.isOutOfOrder = t.isOutOfOrder
  estimate : s.estimate = t.estimate
  composite : s.composite = t.composite
  lower : ∀ c, s.lower c = t.lower c
  upper : ∀ c, s.upper c = t.upper c
  sameAs : s.sameAs t = true
  image : s.mode ≠ .set → s.image = t.image
  /-- Images of tables have the same size, the same header and the same coupons. -/
  size : s.image.size = t.image.size
  header : ∀ j, j < s.mode.dataStart → Bytes.byte s.image j = Bytes.byte t.image j
  coupons : ∃ as bs, s.coupons = .ok as ∧ t.coupons = .ok bs ∧ as.Perm bs

/-- **Sketches whose holdings are similar restore each other.** -/
theorem Keeps.restores (hs : s.Keeps h) (ht : t.Keeps h') (hcfg : s.config = t.config)
    (hsim : Similar h h') : Restores s t := by
  have hagree : Agree s.config.lgK h h' := hsim.agree hs.sound (hcfg ▸ ht.sound)
  have hmode : s.mode = t.mode := by rw [hs.mode, ht.mode, hagree.mode_eq]
  have hstart := hs.dataStart_le
  have himg' : t.region.Holds s.config h' := hcfg ▸ ht.image
  have hsize : s.imageSize = t.imageSize := by
    rw [hs.imageSize_eq, ht.imageSize_eq, ← hcfg]
    exact hs.image.footprint_of_similar himg' hs.sound hsim
  have hhead : SameHeader s t := ⟨hcfg, hmode, fun j hj => by
    rw [hs.imageSize_eq, hs.mode] at hstart
    rw [hs.mode] at hj
    exact hs.image.header_eq himg' hs.sound hsim hstart hj⟩
  constructor
  case config => exact hcfg
  case mode => exact hmode
  case lgArr => exact hhead.lgArr
  case isOutOfOrder => exact hhead.isOutOfOrder
  case estimate => exact hhead.estimate
  case composite => exact hhead.composite
  case lower => exact hhead.lower
  case upper => exact hhead.upper
  case sameAs => exact hs.sameAs_of_agree ht hcfg hagree
  case image =>
    intro hm
    rw [hs.mode] at hm
    cases hsim with
    | refl => exact hs.image_eq ht hcfg
    | table => exact absurd rfl hm
  case size => rw [hs.size_image, ht.size_image, hsize]
  case header =>
    intro j hj
    rw [byte_image, byte_image, if_pos (by omega), if_pos (by omega)]
    exact hhead.byte j hj
  case coupons => exact ⟨_, _, hs.coupons_eq, ht.coupons_eq, hcfg ▸ hagree.coupons_perm⟩

/-- **A sketch read from the bytes of another stays like it.** From bytes with room for more it has
the same image. From compact bytes, only the places of coupons in a table may change. It owns its
image, so it takes in any coupons to come, and stays like the other, step by step, as long as that
one does not run out of lent bytes; one that owns its image never does. -/
theorem restored_continues (hs : s.Evolved) :
    (∃ b t, s.toUpdatable = .ok b ∧ ofBytes b = .ok t ∧ t.image = s.image) ∧
    ∃ r, ofBytes s.toCompact = .ok r ∧ r.isCompact = false ∧ Restores s r ∧
      ∀ cs : List Coupon, ∃ u, insertAll cs r = .ok () u ∧
        (∀ t, insertAll cs s = .ok () t → Restores t u) ∧
        ∀ f t, insertAll cs s = .error f t →
          s.region.backing = .lent ∧ f.report.kind = .insufficientCapacity := by
  obtain ⟨h, hs, hr⟩ := hs.keeps
  have hk := s.config.le_twentyOne
  obtain ⟨t, ht, -, -, himage⟩ := hs.ofBytes_image
  obtain ⟨r, h', hread, hcfg, howns, hsim⟩ := hs.ofBytes_toCompact hr
  refine ⟨⟨_, t, hs.toUpdatable_eq, ht, himage⟩, r, hread, howns.image.hasFlag_compact,
    hs.restores howns.toKeeps hcfg.symm hsim, fun cs => ?_⟩
  obtain ⟨u, hu, hcfg', howns'⟩ := howns.insertAll cs
  refine ⟨u, hu, fun t ht => ?_, fun f t hf => ?_⟩
  · obtain ⟨hcfg'', -, hkeeps⟩ := (hs.insertAll cs).ok t ht
    refine hkeeps.restores howns'.toKeeps (by rw [hcfg', hcfg'', hcfg]) ?_
    rw [hcfg]
    exact Holding.similar_foldl_insert hk hs.sound (hcfg ▸ howns.sound) hsim cs
  · obtain ⟨hlent, required, available, rfl⟩ := (hs.insertAll cs).error f t hf
    exact ⟨hlent, rfl⟩

/-- A table of twenty coupons, which is read from its compact bytes and goes on to registers. -/
theorem restored_continues_table :
    let cfg : Config := ⟨8, .six, by decide, by decide⟩
    let cs : List Coupon := (List.range 20).map fun i => .pack (13 * i) (1 + i % 5)
    let ds : List Coupon := (List.range 10).map fun i => .pack (13 * i + 1) 3
    ∃ s r t u, insertAll cs (new cfg) = .ok () s ∧ s.Evolved ∧ s.mode = .set ∧
      ofBytes s.toCompact = .ok r ∧ Restores s r ∧
      insertAll ds s = .ok () t ∧ t.mode = .dense ∧ insertAll ds r = .ok () u ∧ Restores t u := by
  intro cfg cs ds
  obtain ⟨s, hs, hscfg, hsowns⟩ := (Owns.new cfg).insertAll cs
  obtain ⟨t, ht, -, htowns⟩ := hsowns.insertAll ds
  have hev : s.Evolved := (Evolved.new _).insertAll (by decide) hs
  have hset : s.mode = .set := hsowns.mode.trans (by decide +kernel)
  have hdense : t.mode = .dense := by
    rw [htowns.mode, hscfg]
    decide +kernel
  obtain ⟨-, r, hread, -, hr, hcontinues⟩ := restored_continues hev
  obtain ⟨u, hu, hrestores, -⟩ := hcontinues ds
  exact ⟨s, r, t, u, hs, hev, hset, hread, hr, ht, hdense, hu, hrestores t ht⟩

/-! ## Sketches that run out of lent bytes -/

theorem length_eq_of_sameAs {n m : Nat} (hst : s.sameAs t = true)
    (hs : s.coupons.map List.length = .ok n) (ht : t.coupons.map List.length = .ok m) : n = m := by
  unfold sameAs at hst
  cases hcs : s.coupons with
  | error f =>
    rw [hcs] at hs
    cases hs
  | ok as =>
    cases hct : t.coupons with
    | error f =>
      rw [hct] at ht
      cases ht
    | ok bs =>
      rw [hcs] at hs hst
      rw [hct] at ht hst
      cases hs
      cases ht
      have hsort := of_decide_eq_true (Bool.and_eq_true_iff.1 hst).2
      have hlen := congrArg List.length hsort
      rwa [List.length_mergeSort, List.length_mergeSort] at hlen

/-- A sketch that starts in 64 lent bytes, which are all that it asks for. -/
def narrow : Sketch :=
  ⟨⟨4, .four, by decide, by decide⟩, .list,
    CouponList.clear ⟨4, .four, by decide, by decide⟩ ⟨⟨Array.replicate 64 0⟩, .lent⟩⟩

/-- Eight coupons, four of which are exceptions as registers; there is room for no more of them. -/
def crowd : List Coupon :=
  [.pack 0 20, .pack 1 20, .pack 2 20, .pack 3 20, .pack 4 1, .pack 5 1, .pack 6 1, .pack 7 1]

/-- The sketch that has taken them in. -/
def crowded : Sketch := (outcome (insertAll crowd) narrow).2

theorem evolved_crowded : crowded.Evolved := by
  have hbuild : buildIn 4 .four ⟨Array.replicate 64 0⟩ = .ok narrow := by decide +kernel
  have hrun : insertAll crowd narrow = .ok () crowded := eq_ok_of_outcome (by decide +kernel)
  exact (Evolved.buildIn hbuild).insertAll (by decide) hrun

/-- **A sketch that runs out of lent bytes is left behind** by the one read from its bytes: that
one has room for one more exception, and the two are no longer equal. -/
theorem crowded_left_behind :
    crowded.Evolved ∧ ∃ r, ofBytes crowded.toCompact = .ok r ∧
      (outcome (insert (.pack 8 20)) crowded).1 = .error (.outOfRoom 68 64) ∧
      (outcome (insert (.pack 8 20)) r).1 = .ok () ∧
      (outcome (insert (.pack 8 20)) crowded).2.sameAs (outcome (insert (.pack 8 20)) r).2 =
        false := by
  have hout : (outcome (insert (.pack 8 20)) crowded).1 = .error (.outOfRoom 68 64) := by
    decide +kernel
  have hheld : (outcome (insert (.pack 8 20)) crowded).2.coupons.map List.length = .ok 8 := by
    decide +kernel
  have hread : (ofBytes crowded.toCompact).map (fun r => ((outcome (insert (.pack 8 20)) r).1,
      (outcome (insert (.pack 8 20)) r).2.coupons.map List.length)) = .ok (.ok (), .ok 9) := by
    decide +kernel
  refine ⟨evolved_crowded, ?_⟩
  cases hr : ofBytes crowded.toCompact with
  | error f =>
    rw [hr] at hread
    cases hread
  | ok r =>
    rw [hr] at hread
    obtain ⟨hout', hheld'⟩ := Prod.mk.inj (Except.ok.inj hread)
    refine ⟨r, rfl, hout, hout', Bool.eq_false_iff.2 fun hsame => ?_⟩
    exact absurd (length_eq_of_sameAs hsame hheld hheld') (by decide)

end Sketch

end HyperLogLog
