import HyperLogLog.Proofs.Order

/-!
# Views answer like the original

The bytes of a sketch, with or without room for more, can be read where they are. A view of either
kind answers every question as the sketch does.

* `Shows.hasFlag_empty`: the empty flag tells whether anything has been seen;
* `Concur.sameAs`: sketches of one configuration that answer alike are equal;
* `Sketch.Reflects`: a read-only sketch that answers as another;
* `Keeps.shows_image`, `Keeps.shows_compact`: what the two kinds of bytes show to a reader;
* **`serialized_views`**: both kinds of bytes declare the sketch, have the size announced, and give
  views that reflect it.
-/

namespace HyperLogLog

open Registers (Dense Shown)
open Holding (Similar)

namespace Sketch

variable {s t w : Sketch} {h h' : Holding} {b : ByteArray}

/-- **The empty flag tells whether anything has been seen.** -/
theorem Shows.hasFlag_empty (hs : s.Shows h) (hr : h.Regular s.config.lgK 8)
    (hn : h.Seen s.config.lgK) : s.region.hasFlag .empty = s.isEmpty := by
  have hcontents := hs.contents
  rw [hs.hasFlag_eq (by decide), isEmpty, hs.mode]
  cases h with
  | list cs n =>
    have hcount : Contents.isEmpty s.config .list s.region = decide (n = 0) := by
      rw [← hcontents.2.1]
      rfl
    change (flagsOfList n &&& Flag.empty.mask != 0) = Contents.isEmpty s.config .list s.region
    rw [hcount, flagsOfList]
    by_cases hz : n = 0
    · simp [hz, Flag.mask]
    · simp [hz]
  | table L slots n =>
    have hn8 : 8 ≤ n := hr.2.1
    have hcount : Contents.isEmpty s.config .set s.region = decide (n = 0) := by
      rw [← hcontents.2.1]
      rfl
    have hnonempty : Contents.isEmpty s.config .set s.region = false := by
      rw [hcount]
      exact decide_eq_false (by omega)
    change (Flag.outOfOrder.mask &&& Flag.empty.mask != 0) = Contents.isEmpty s.config .set s.region
    rw [hnonempty]
    decide
  | dense g =>
    have hd : Shown s.config g s.region := hcontents
    change (Registers.flagsOf g.history.outOfOrder &&& Flag.empty.mask != 0) =
      Contents.isEmpty s.config .dense s.region
    have hlevel : level s.config.k g.values 0 ≠ s.config.k := hn.level_ne
    rw [hd.isEmpty_eq, decide_eq_false hlevel]
    cases g.history.outOfOrder <;> decide

/-! ## Sketches that answer alike are equal -/

theorem Concur.symm (hc : Concur s t) : Concur t s := by
  obtain ⟨as, bs, has, hbs, hperm⟩ := hc.coupons
  refine ⟨hc.lgK.symm, hc.mode.symm, hc.isEmpty.symm, hc.isOutOfOrder.symm, hc.estimate.symm,
    hc.composite.symm, fun c => (hc.lower c).symm, fun c => (hc.upper c).symm,
    ⟨bs, as, hbs, has, hperm.symm⟩, fun hm => ?_⟩
  obtain ⟨vs, hvs, hvs'⟩ := hc.registers (hc.mode.trans hm)
  exact ⟨vs, hvs', hvs⟩

theorem Concur.sameAs (hc : Concur s t) (hcfg : s.config = t.config) : s.sameAs t = true := by
  obtain ⟨as, bs, has, hbs, hperm⟩ := hc.coupons
  unfold Sketch.sameAs
  rw [has, hbs, decide_eq_true hcfg, decide_eq_true hc.mode, Bool.true_and, Bool.true_and]
  exact decide_eq_true (Coupon.mergeSort_eq hperm)

/-! ## Sizes -/

theorem imageSize_of_isCompact (hc : s.isCompact = true) : s.imageSize = s.compactSize := by
  obtain ⟨cfg, mode, r⟩ := s
  have hflag : r.hasFlag .compact = true := hc
  cases mode with
  | list | set =>
    simp only [imageSize, Region.footprint, Region.slots, hflag, if_true]
    rfl
  | dense => rfl

theorem imageSize_of_not_isCompact (hc : s.isCompact = false) :
    s.imageSize = s.updatableSize := by
  obtain ⟨cfg, mode, r⟩ := s
  have hflag : r.hasFlag .compact = false := hc
  cases mode with
  | list | set =>
    simp only [imageSize, Region.footprint, Region.slots, hflag, Bool.false_eq_true, if_false]
    rfl
  | dense => rfl

theorem image_of_imageSize (h : s.imageSize = s.region.size) : s.image = s.region.bytes := by
  refine Bytes.ext ?_ fun j => ?_
  · rw [image, h, ByteArray.size_extract]
    exact Nat.min_self _
  · rw [byte_image, h]
    split_ifs with hj
    · rfl
    · exact (Bytes.byte_of_size_le (Nat.le_of_not_lt hj)).symm

namespace Shows

theorem imageSize_of_dense {g : Registry} (hs : s.Shows (.dense g)) (ht : t.Shows (.dense g))
    (hcfg : s.config = t.config) : s.imageSize = t.imageSize := by
  have hd : Shown s.config g s.region := hs.contents
  have hd' : Shown t.config g t.region := ht.contents
  rw [← hcfg] at hd'
  have hcount : s.region.exceptionCount = t.region.exceptionCount :=
    hd.packed.exceptionCount_eq hd'.packed fun _ _ => rfl
  rw [imageSize, imageSize, hs.mode, ht.mode, ← hcfg]
  exact congrArg (Footprint.dense s.config) hcount

theorem updatableSize_eq (hs : s.Shows h) (ht : t.Shows h') (hcfg : s.config = t.config)
    (hsim : Similar h h') : s.updatableSize = t.updatableSize := by
  by_cases hm : h.mode = .dense
  · cases hsim with
    | table => cases hm
    | refl =>
      cases h with
      | list cs n => cases hm
      | table L slots n => cases hm
      | dense g =>
        rw [updatableSize, updatableSize, hs.mode, ht.mode]
        exact hs.imageSize_of_dense ht hcfg
  · obtain ⟨hlgArr, -⟩ := hs.counts_eq ht hsim hm
    rw [updatableSize, updatableSize, hs.mode, ht.mode, ← hsim.mode_eq, hlgArr]
    cases hmode : h.mode with
    | dense => exact absurd hmode hm
    | list | set => rfl

theorem compactSize_eq (hs : s.Shows h) (ht : t.Shows h) (hcfg : s.config = t.config) :
    s.compactSize = t.compactSize := by
  by_cases hm : h.mode = .dense
  · cases h with
    | list cs n => cases hm
    | table L slots n => cases hm
    | dense g =>
      rw [compactSize, compactSize, hs.mode, ht.mode]
      exact hs.imageSize_of_dense ht hcfg
  · obtain ⟨-, hcount⟩ := hs.counts_eq ht (.refl h) hm
    rw [compactSize, compactSize, hs.mode, ht.mode]
    cases hmode : h.mode with
    | dense => exact absurd hmode hm
    | list | set =>
      rw [hmode] at hcount
      exact congrArg (_ + 4 * ·) hcount

end Shows

/-! ## Views -/

/-- What bytes that declare a sketch are read as where they are. -/
def view (s : Sketch) (b : ByteArray) : Sketch := ⟨s.config, s.mode, ⟨b, .frozen⟩⟩

/-- A read-only sketch that answers as another, with the same sizes and an empty flag that goes
with the answers. -/
structure Reflects (s w : Sketch) : Prop where
  isReadOnly : w.isReadOnly = true
  config : s.config = w.config
  concur : Concur s w
  empty : w.region.hasFlag .empty = s.isEmpty
  updatableSize : s.updatableSize = w.updatableSize
  compactSize : s.compactSize = w.compactSize
  sameAs : s.sameAs w = true
  sameAs_symm : w.sameAs s = true

theorem Shows.reflects (hs : s.Shows h) (hw : w.Shows h) (hcfg : s.config = w.config)
    (hro : w.isReadOnly = true) (hr : h.Regular s.config.lgK 8) (hn : h.Seen s.config.lgK) :
    Reflects s w := by
  have hk : s.config.lgK = w.config.lgK := congrArg Config.lgK hcfg
  have hc : Concur s w := hs.concur hw hk (.refl h)
  have hempty : w.region.hasFlag .empty = w.isEmpty :=
    hw.hasFlag_empty (hk ▸ hr) (hk ▸ hn)
  exact ⟨hro, hcfg, hc, hempty.trans hc.isEmpty.symm, hs.updatableSize_eq hw hcfg (.refl h),
    hs.compactSize_eq hw hcfg, hc.sameAs hcfg, hc.symm.sameAs hcfg.symm⟩

theorem wrap_of_declared (hdecl : Declaration.ofBytes b = .ok ⟨s.config, s.mode⟩) :
    wrap b = .ok (s.view b) := by
  unfold wrap
  rw [hdecl]
  rfl

namespace Keeps

theorem length_coupons (hs : s.Keeps h) (hr : h.Regular s.config.lgK 8) (hm : s.mode ≠ .dense) :
    (h.coupons s.config.lgK).length = Contents.count s.mode s.region := by
  have hcontents := hs.shows.contents
  rw [hs.mode] at hm ⊢
  cases h with
  | dense g => exact absurd rfl hm
  | list cs n => exact Eq.trans hr hcontents.2.1.symm
  | table L slots n => exact hr.2.2.counted.trans hcontents.2.1.symm

theorem declared_image (hs : s.Keeps h) : Declaration.ofBytes s.image = .ok ⟨s.config, s.mode⟩ := by
  rw [hs.mode]
  exact (hs.holds_image .frozen).declared hs.sound

theorem shows_image (hs : s.Keeps h) : (s.view s.image).Shows h := by
  have himg := hs.holds_image .frozen
  exact ⟨hs.mode, hs.sound, .inl himg.flags_holding, himg.shows hs.sound⟩

theorem flags_toCompact (hs : s.Keeps h) :
    (⟨s.toCompact, .frozen⟩ : Region).flags = h.flags ||| Flag.compact.mask := by
  by_cases hm : h.mode = .dense
  · cases h with
    | list cs n => cases hm
    | table L slots n => cases hm
    | dense g =>
      have hd : Dense s.config g ⟨s.image, .frozen⟩ := hs.holds_image .frozen
      have hsize := hd.size_ge
      rw [hs.toCompact_of_dense]
      refine (Region.byte_setByte_self (r := ⟨s.image, .frozen⟩) _ (by omega)).trans ?_
      exact congrArg (· ||| Flag.compact.mask) hd.headed.flags
  · rw [← hs.image.flags_holding]
    exact (hs.compacted (by rwa [hs.mode]) .frozen).flags

theorem hasFlag_toCompact (hs : s.Keeps h) :
    (⟨s.toCompact, .frozen⟩ : Region).hasFlag .compact = true := by
  rw [Region.hasFlag, hs.flags_toCompact]
  rcases h.flags_cases with hflags | hflags | hflags
  all_goals
    rw [hflags]
    decide

theorem shown_markCompact {g : Registry} (hs : s.Keeps (.dense g)) :
    Shown s.config g ⟨markCompact s.image, .frozen⟩ := by
  have hd : Dense s.config g ⟨s.image, .frozen⟩ := hs.holds_image .frozen
  have hin : Region.Within 5 1 ⟨s.image, .frozen⟩ ⟨markCompact s.image, .frozen⟩ :=
    Region.within_setByte ..
  have hflags := hs.flags_toCompact
  rw [hs.toCompact_of_dense] at hflags
  have hpacked : Registers.Packed s.config g.values ⟨markCompact s.image, .frozen⟩ :=
    hd.packed.congr (hd.packed.fits.trans (Nat.le_of_eq hin.size.symm))
      (hin.byte 6 (.inr (by decide))) fun j hj _ => hin.byte j (.inr (by omega))
  have hflag : (⟨markCompact s.image, .frozen⟩ : Region).hasFlag .outOfOrder =
      (⟨s.image, .frozen⟩ : Region).hasFlag .outOfOrder := by
    rw [Region.hasFlag, hflags, Holding.hasFlag_compact_or _ (by decide), hd.headed.hasFlag_eq]
    rfl
  have hestimator : (⟨markCompact s.image, .frozen⟩ : Region).estimator = g.history := by
    rw [← hd.estimator, Region.estimator, Region.estimator, hin.real (.inr (by decide)),
      hin.real (.inr (by decide)), hin.real (.inr (by decide)), hflag]
  exact ⟨hpacked, hestimator⟩

/-- **Compact bytes declare the sketch and show what it keeps.** They are as many as announced. -/
theorem shows_compact (hs : s.Keeps h) (hr : h.Regular s.config.lgK 8) :
    Declaration.ofBytes s.toCompact = .ok ⟨s.config, s.mode⟩ ∧
      s.toCompact.size = s.compactSize ∧
      (s.view s.toCompact).Shows h := by
  have hflags := hs.flags_toCompact
  by_cases hm : h.mode = .dense
  · cases h with
    | list cs n => cases hm
    | table L slots n => cases hm
    | dense g =>
      have himg : Dense s.config g ⟨s.image, .frozen⟩ := hs.holds_image .frozen
      have hmode : s.mode = .dense := hs.mode
      rw [hs.toCompact_of_dense] at hflags ⊢
      rw [hmode, compactSize, hmode]
      refine ⟨(declared_markCompact himg).1, ?_, hmode, hs.sound, .inr hflags,
        hs.shown_markCompact⟩
      rw [markCompact, Bytes.size_setByte, hs.size_image]
  have hm' : s.mode ≠ .dense := by rwa [hs.mode]
  have hc := hs.compacted hm' .frozen
  obtain ⟨hdecl, -, hlive⟩ := hs.compact_reads hr hm' hc
  have hlgArr := hc.lgArr_eq
  have hcount := hc.count_eq
  have hsize : s.toCompact.size = s.mode.dataStart + 4 * (h.coupons s.config.lgK).length := hc.size
  have hlength := hs.length_coupons hr hm'
  refine ⟨hdecl, ?_, hs.mode, hs.sound, .inr hflags, ?_⟩
  · rw [hsize, hlength, compactSize]
    cases hmode : s.mode with
    | dense => exact absurd hmode hm'
    | list | set => rfl
  · have hcontents := hs.shows.contents
    rw [hs.mode] at hcount hlive
    cases h with
    | dense g => exact absurd rfl hm
    | list cs n => exact ⟨hlgArr.trans hcontents.1, hcount.trans hcontents.2.1, hlive⟩
    | table L slots n => exact ⟨hlgArr.trans hcontents.1, hcount.trans hcontents.2.1, hlive⟩

theorem size_image_eq (hs : s.Keeps h) : s.image.size = s.updatableSize := by
  rw [hs.size_image]
  exact imageSize_of_not_isCompact hs.image.hasFlag_compact

theorem image_view (hs : s.Keeps h) : (s.view s.image).image = s.image := by
  refine image_of_imageSize ?_
  have hflag : (s.view s.image).isCompact = false :=
    (hs.holds_image .frozen).hasFlag_compact
  rw [imageSize_of_not_isCompact hflag, hs.shows_image.updatableSize_eq hs.shows rfl (.refl h)]
  exact hs.size_image_eq.symm

theorem image_compactView (hs : s.Keeps h) (hr : h.Regular s.config.lgK 8) :
    (s.view s.toCompact).image = s.toCompact := by
  obtain ⟨-, hsize, hshows⟩ := hs.shows_compact hr
  refine image_of_imageSize ?_
  have hflag : (s.view s.toCompact).isCompact = true := hs.hasFlag_toCompact
  rw [imageSize_of_isCompact hflag, hshows.compactSize_eq hs.shows rfl]
  exact hsize.symm

theorem toUpdatable_compactView (hs : s.Keeps h) (hr : h.Regular s.config.lgK 8) :
    ∃ (t : Sketch) (h' : Holding), (s.view s.toCompact).toUpdatable = .ok t.image ∧
      t.config = s.config ∧ t.Owns h' ∧ Similar h h' := by
  obtain ⟨t, h', ht, hcfg, howns, hsim⟩ := hs.ofBytes_toCompact hr
  refine ⟨t, h', ?_, hcfg, howns, hsim⟩
  have hflag : (s.view s.toCompact).isCompact = true := hs.hasFlag_toCompact
  rw [toUpdatable, hflag, if_pos rfl, copy, hs.image_compactView hr, ht]
  rfl

end Keeps

/-- **What is written is accepted, and views answer like the original.** The image of an evolved
sketch, its compact bytes and its bytes with room for more each declare the configuration and the
mode of the sketch, and are as many as announced; its empty flag tells whether it is empty. The
views of both kinds of bytes reflect it, and bytes with room for more that are asked of the compact
view have the size announced and give a sketch that is equal to it. -/
theorem serialized_views (hs : s.Evolved) :
    Declaration.ofBytes s.image = .ok ⟨s.config, s.mode⟩ ∧
    s.region.hasFlag .empty = s.isEmpty ∧
    (∃ b w, s.toUpdatable = .ok b ∧ Declaration.ofBytes b = .ok ⟨s.config, s.mode⟩ ∧
      b.size = s.updatableSize ∧ wrap b = .ok w ∧ Reflects s w) ∧
    Declaration.ofBytes s.toCompact = .ok ⟨s.config, s.mode⟩ ∧
    s.toCompact.size = s.compactSize ∧
    ∃ w b t, wrap s.toCompact = .ok w ∧ Reflects s w ∧ w.toUpdatable = .ok b ∧
      b.size = s.updatableSize ∧ ofBytes b = .ok t ∧ t.sameAs s = true ∧ s.sameAs t = true := by
  obtain ⟨h, hs, hr, hn⟩ := hs.seen
  have hdecl := hs.declared_image
  obtain ⟨hdecl', hsize', hshows⟩ := hs.shows_compact hr
  obtain ⟨t, h', hupdatable, hcfg, howns, hsim⟩ := hs.toUpdatable_compactView hr
  refine ⟨hdecl, hs.shows.hasFlag_empty hr hn, ?_, hdecl', hsize', ?_⟩
  · exact ⟨_, _, hs.toUpdatable_eq, hdecl, hs.size_image_eq, wrap_of_declared hdecl,
      hs.shows.reflects hs.shows_image rfl rfl hr hn⟩
  · obtain ⟨u, hread, hcfg', howns', -⟩ := howns.toKeeps.ofBytes_image
    have hsame : s.config = u.config := (hcfg'.trans hcfg).symm
    have hconcur : Concur s u := hs.shows.concur howns'.shows (congrArg Config.lgK hsame) hsim
    refine ⟨_, _, u, wrap_of_declared hdecl', hs.shows.reflects hshows rfl rfl hr hn, hupdatable,
      ?_, hread, hconcur.symm.sameAs hsame.symm, hconcur.sameAs hsame⟩
    rw [howns.size_image_eq]
    exact (hs.shows.updatableSize_eq howns.shows hcfg.symm hsim).symm

/-- A sketch that has taken in eight coupons, some of which are exceptions as registers. -/
theorem serialized_views_eight :
    ∃ s : Sketch, s.Evolved ∧ s.region.hasFlag .empty = s.isEmpty ∧
      ∃ w, wrap s.toCompact = .ok w ∧ Reflects s w := by
  obtain ⟨s, hs, -, -⟩ := (Owns.new ⟨4, .four, by decide, by decide⟩).insertAll
    ((List.range 8).map fun i => .pack i (1 + 7 * i))
  have hev : s.Evolved := (Evolved.new _).insertAll (by decide) hs
  obtain ⟨-, hempty, -, -, -, w, -, -, hw, hreflects, -⟩ := serialized_views hev
  exact ⟨s, hev, hempty, w, hw, hreflects⟩

end Sketch

end HyperLogLog
