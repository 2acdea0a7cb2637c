import HyperLogLog.Proofs.Answers
import HyperLogLog.Proofs.Readings

/-!
# What passes the check can be read

* **`gives_declaration`**: the check reads no byte that is not there, whatever the bytes;
* **`gives_register`**, `gives_contents`: after it, neither are registers and coupons;
* `gives_answer`: nor do the estimates and bounds take more from a count than it is;
* **`gives_ofBytes`**: any bytes give a sketch of their own or a fault;
* **`Accepted.readable`**: every question to accepted bytes has the answer of the sketch over them.
-/

namespace HyperLogLog

open Guarded
open Declaration (Accepted Plausible)
open Estimate (Confidence)

variable {b : ByteArray} {cfg : Config} {mode : Mode} {d : Declaration} {slot i : Nat}

/-! ## The check -/

theorem gives_field {β : Type} (h : i < b.size) (f : UInt8 → β) :
    Gives (f <$> Guarded.byte i) b (.ok (f ((Region.over b).byte i))) :=
  (gives_byte h).map f

theorem gives_number (h : i + 4 ≤ b.size) :
    Gives (UInt32.toNat <$> Guarded.word i) b (.ok ((Region.over b).word i).toNat) :=
  (gives_word h).map _

theorem gives_hasFlag (h : 8 ≤ b.size) (f : Flag) :
    Gives (Guarded.hasFlag f) b (.ok ((Region.over b).hasFlag f)) :=
  gives_field (by omega) _

theorem gives_slots (h : mode.dataStart ≤ b.size) :
    Gives (Guarded.slots mode) b (.ok ((Region.over b).slots mode)) := by
  have h8 : 8 ≤ b.size := Nat.le_trans mode.eight_le_dataStart h
  apply (gives_hasFlag h8 .compact).andThen
  unfold Region.slots
  split_ifs
  · cases mode with
    | list | dense => exact gives_field (i := 6) (by omega) UInt8.toNat
    | set => exact gives_number (i := 8) h
  · exact (gives_field (i := 4) (by omega) UInt8.toNat).map _

theorem gives_footprint (h : mode.dataStart ≤ b.size) :
    Gives (Guarded.footprint cfg mode) b (.ok ((Region.over b).footprint cfg mode)) := by
  cases mode with
  | list | set => exact (gives_slots h).map _
  | dense => exact (gives_number (i := 36) h).map _

theorem gives_checkSparse {count : Guarded Nat} {n : Nat} (h : 8 ≤ b.size)
    (hn : Gives count b (.ok n)) :
    Gives (Guarded.checkSparse cfg mode count) b
      (Declaration.checkSparse (Region.over b) cfg mode n) := by
  unfold Guarded.checkSparse Declaration.checkSparse
  apply (gives_field (by omega) _).andThen
  apply (gives_ofExcept _).bind
  intro _ _
  exact hn.andThen (gives_ofExcept _)

theorem gives_checkDense (h : 40 ≤ b.size) :
    Gives (Guarded.checkDense cfg) b (Declaration.checkDense (Region.over b) cfg) := by
  unfold Guarded.checkDense Declaration.checkDense
  apply (gives_number (by omega)).andThen
  apply (gives_number (by omega)).andThen
  apply (gives_ofExcept _).bind
  intro _ _
  apply (gives_field (by omega) _).andThen
  apply (gives_ofExcept _).bind
  intro _ _
  exact gives_ofExcept _

/-- **The check reads no byte that is not there**, whatever the bytes. -/
theorem gives_declaration (b : ByteArray) :
    Gives Guarded.declaration b (Declaration.ofBytes b) := by
  unfold Guarded.declaration Declaration.ofBytes Declaration.ofRegion
  apply gives_size.andThen
  apply (gives_ofExcept _).bind
  intro _ hsize
  have h8 : 8 ≤ b.size := of_decide_eq_true (Declaration.require_eq_ok.1 hsize)
  apply (gives_field (by omega) _).andThen
  apply (gives_ofExcept _).bind
  intro _ hpre
  apply (gives_field (by omega) _).andThen
  apply (gives_ofExcept _).bind
  intro _ _
  apply (gives_field (by omega) _).andThen
  apply (gives_ofExcept _).bind
  intro _ _
  apply (gives_field (by omega) _).andThen
  apply (gives_ofExcept _).bind
  rintro ⟨lgK, hmin, hmax⟩ _
  apply (gives_hasFlag h8 .bigEndian).andThen
  apply (gives_ofExcept _).bind
  intro _ _
  apply (gives_field (by omega) _).andThen
  apply (gives_ofExcept _).bind
  intro mode _
  apply (gives_field (by omega) _).andThen
  apply (gives_ofExcept _).bind
  intro width _
  apply (gives_ofExcept _).bind
  intro _ hints
  -- the preamble is there, and so is all that the mode keeps before its coupons or registers
  have hstart : mode.dataStart ≤ b.size := by
    have hpre' := of_decide_eq_true (Declaration.require_eq_ok.1 hpre)
    have hints' := of_decide_eq_true (Declaration.require_eq_ok.1 hints)
    rw [hints'] at hpre'
    cases mode <;> exact hpre'
  have hlast : ∀ cfg, Gives (do
      let need ← Guarded.footprint cfg mode
      ofExcept (Declaration.require (need ≤ b.size) (.imageTruncated need b.size))
      return (⟨cfg, mode⟩ : Declaration)) b (do
      Declaration.require ((Region.over b).footprint cfg mode ≤ b.size)
        (.imageTruncated ((Region.over b).footprint cfg mode) b.size)
      return (⟨cfg, mode⟩ : Declaration)) := by
    intro cfg
    apply (gives_footprint hstart).andThen
    apply (gives_ofExcept _).bind
    intro _ _
    exact gives_pure _
  cases mode with
  | list =>
    apply (gives_checkSparse h8 (gives_field (by omega) _)).bind
    intro _ _
    exact hlast _
  | set =>
    apply (gives_checkSparse h8 (gives_number hstart)).bind
    intro _ _
    exact hlast _
  | dense =>
    apply (gives_checkDense hstart).bind
    intro _ _
    exact hlast _

theorem gives_minimum (h : 8 ≤ b.size) :
    Gives Guarded.minimum b (.ok (Region.over b).minimum) :=
  gives_field (by omega) _

theorem gives_atMinimum (h : 40 ≤ b.size) :
    Gives Guarded.atMinimum b (.ok (Region.over b).atMinimum) :=
  gives_number (by omega)

theorem gives_estimator (h : 40 ≤ b.size) :
    Gives Guarded.estimator b (.ok (Region.over b).estimator) := by
  apply (gives_real (by omega)).andThen
  apply (gives_real (by omega)).andThen
  apply (gives_real (by omega)).andThen
  apply (gives_hasFlag (by omega) _).andThen
  exact gives_pure _

theorem gives_lgK (ha : Accepted d (Region.over b)) :
    Gives Guarded.lgK b (.ok d.config.lgK) := by
  have h8 : 8 ≤ b.size := ha.shared
  rw [← ha.lgK]
  exact gives_field (by omega) _

theorem gives_count (ha : Accepted d (Region.over b)) :
    Gives (Guarded.count d.mode) b (.ok (Contents.count d.mode (Region.over b))) := by
  have hstart : d.mode.dataStart ≤ b.size := ha.dataStart_le
  cases hm : d.mode with
  | list =>
    rw [hm] at hstart
    exact gives_field (Nat.lt_of_lt_of_le (by decide) hstart) _
  | set =>
    rw [hm] at hstart
    exact gives_number hstart
  | dense => exact gives_pure 0

/-! ## Coupons and registers -/

theorem gives_live (ha : Accepted ⟨cfg, mode⟩ (Region.over b)) (hm : mode ≠ .dense) :
    Gives (Guarded.live mode) b (.ok (Contents.live mode (Region.over b))) := by
  have hfits := ha.fits
  apply (gives_slots ha.dataStart_le).andThen
  refine (gives_coupons ?_).map _
  cases mode with
  | list | set => exact hfits
  | dense => exact absurd rfl hm

theorem gives_searchBetween {low high : Nat}
    (h : ∀ i, i < high → Exceptions.offset cfg i + 4 ≤ b.size) :
    Gives (Guarded.searchBetween cfg slot low high) b
      (.ok (Exceptions.searchBetween cfg (Region.over b) slot low high)) := by
  fun_induction Exceptions.searchBetween cfg (Region.over b) slot low high with
  | case1 low high hlt middle here hhere ih =>
    rw [Guarded.searchBetween, dif_pos hlt]
    refine (gives_coupon (h _ (by omega))).andThen ?_
    rw [if_pos hhere]
    exact ih h
  | case2 low high hlt middle here hle hhere ih =>
    rw [Guarded.searchBetween, dif_pos hlt]
    refine (gives_coupon (h _ (by omega))).andThen ?_
    rw [if_neg hle, if_pos hhere]
    exact ih fun i hi => h i (by omega)
  | case3 low high hlt middle here hle hge =>
    rw [Guarded.searchBetween, dif_pos hlt]
    refine (gives_coupon (h _ (by omega))).andThen ?_
    rw [if_neg hle, if_neg hge]
    exact gives_pure _
  | case4 low high hlt =>
    rw [Guarded.searchBetween, dif_neg hlt]
    exact gives_pure _

theorem Exceptions.lt_of_searchBetween {r : Region} {low high : Nat}
    (h : searchBetween cfg r slot low high = .found i) : i < high := by
  fun_induction searchBetween cfg r slot low high with
  | case1 low high hlt middle here hhere ih => exact ih h
  | case2 low high hlt middle here hle hhere ih =>
    have := ih h
    omega
  | case3 low high hlt middle here hle hge =>
    have hi : middle = i := Exceptions.Place.found.inj h
    omega
  | case4 low high hlt => cases h

/-- The bytes reach to the end of the registers, and past the exceptions of four-bit ones. -/
theorem registers_le (ha : Accepted ⟨cfg, .dense⟩ (Region.over b)) :
    40 + Footprint.registers cfg +
      (if cfg.width = .four then 4 * (Region.over b).exceptionCount else 0) ≤ b.size := ha.fits

theorem gives_exception? (ha : Accepted ⟨cfg, .dense⟩ (Region.over b)) (hw : cfg.width = .four)
    (slot : Nat) :
    Gives (Guarded.exception? cfg slot) b
      (.ok (Exceptions.get? cfg (Region.over b) slot)) := by
  have hsize := registers_le ha
  rw [if_pos hw, Footprint.registers, hw] at hsize
  have hentry : ∀ i, i < (Region.over b).exceptionCount →
      Exceptions.offset cfg i + 4 ≤ b.size := by
    intro i hi
    unfold Exceptions.offset
    dsimp only at hsize
    omega
  unfold Guarded.exception? Exceptions.get? Exceptions.search
  apply (gives_number (i := 36) (by omega)).andThen
  apply (gives_searchBetween hentry).andThen
  cases hs : Exceptions.searchBetween cfg (Region.over b) slot 0
      (Region.over b).exceptionCount with
  | found i => exact (gives_coupon (hentry i (Exceptions.lt_of_searchBetween hs))).map _
  | missing i => exact gives_pure _

theorem gives_nibble (h : 40 + slot / 2 < b.size) :
    Gives (Guarded.nibble slot) b (.ok ((Region.over b).nibble slot)) :=
  gives_field h _

theorem gives_sixBits (h : Region.windowStart slot + 1 < b.size) :
    Gives (Guarded.sixBits slot) b (.ok ((Region.over b).sixBits slot)) := by
  apply (gives_byte (by omega)).andThen
  apply (gives_byte h).andThen
  exact gives_pure _

/-- **A register is read without a trap**, whatever its field and the exceptions say. -/
theorem gives_register (ha : Accepted ⟨cfg, .dense⟩ (Region.over b)) (hslot : slot < cfg.k) :
    Gives (Guarded.register cfg slot) b (Registers.read cfg (Region.over b) slot) := by
  have hsize := registers_le ha
  have h8 : 8 ≤ b.size := ha.shared
  have hmin : (Region.over b).minimum ≤ 63 := ha.counts.2.1
  obtain ⟨q, hq⟩ := cfg.sixteen_dvd_k
  unfold Guarded.register Registers.read
  cases hw : cfg.width with
  | four =>
    rw [Footprint.registers, hw] at hsize
    dsimp only at hsize ⊢
    apply (gives_nibble (by omega)).andThen
    by_cases hraw : (Region.over b).nibble slot < Registers.mark
    · have hmark : Registers.mark = 15 := rfl
      rw [if_pos hraw, if_pos hraw]
      apply (gives_minimum h8).andThen
      exact gives_provided (by omega)
    · rw [if_neg hraw, if_neg hraw]
      apply (gives_exception? ha hw slot).andThen
      cases Exceptions.get? cfg (Region.over b) slot with
      | some v => exact gives_pure v
      | none => exact gives_throw _
  | six =>
    rw [Footprint.registers, hw] at hsize
    dsimp only at hsize ⊢
    apply gives_sixBits
    unfold Region.windowStart
    omega
  | eight =>
    rw [Footprint.registers, hw] at hsize
    dsimp only at hsize ⊢
    exact gives_field (by omega) _

theorem gives_risen (ha : Accepted ⟨cfg, .dense⟩ (Region.over b)) :
    Gives (Guarded.risen cfg) b (Registers.coupons cfg (Region.over b)) := by
  unfold Guarded.risen Registers.coupons Registers.values
  apply (gives_lgK ha).andThen
  have hall : Gives ((List.range cfg.k).mapM (Guarded.register cfg)) b
      ((List.range cfg.k).mapM (Registers.read cfg (Region.over b))) :=
    gives_mapM fun slot hslot => gives_register ha (List.mem_range.1 hslot)
  exact hall.map _

/-- **The coupons of accepted bytes are read without a trap.** -/
theorem gives_contents (ha : Accepted d (Region.over b)) :
    Gives (Guarded.coupons d.config d.mode) b
      (Contents.coupons d.config d.mode (Region.over b)) := by
  obtain ⟨cfg, mode⟩ := d
  cases mode with
  | list => exact gives_live ha (by decide)
  | set => exact gives_live ha (by decide)
  | dense => exact gives_risen ha

/-! ## Questions -/

theorem atMinimum_le (ha : Accepted ⟨cfg, .dense⟩ (Region.over b)) :
    (Region.over b).atMinimum ≤ 2 ^ cfg.lgK := ha.counts.1.1

theorem count_le (ha : Accepted d (Region.over b)) :
    Contents.count d.mode (Region.over b) ≤ Estimate.couponSpace := by
  obtain ⟨cfg, mode⟩ := d
  have hk := cfg.le_twentyOne
  have hcounts := ha.counts
  have hlist : Footprint.lgList = 3 := rfl
  have hle : ∀ {n}, n ≤ 2 ^ (Region.over b).lgArr → (Region.over b).lgArr ≤ 18 →
      n ≤ Estimate.couponSpace := by
    intro n hn hlgArr
    calc n ≤ 2 ^ (Region.over b).lgArr := hn
      _ ≤ 2 ^ 18 := Nat.pow_le_pow_right (by decide) hlgArr
      _ ≤ Estimate.couponSpace := by decide
  cases mode with
  | list =>
    have hlgArr : (Region.over b).lgArr ≤ Footprint.lgList := hcounts.1.2
    exact hle hcounts.2 (by omega)
  | set =>
    have hlgArr : (Region.over b).lgArr ≤ cfg.lgK - 3 := hcounts.1.2
    exact hle hcounts.2 (by omega)
  | dense => exact Nat.zero_le _

theorem gives_isEmpty (ha : Accepted d (Region.over b)) :
    Gives (Guarded.isEmpty d.mode) b
      (.ok (Contents.isEmpty d.config d.mode (Region.over b))) := by
  have hcount := gives_count ha
  have h8 : 8 ≤ b.size := ha.shared
  have hstart : d.mode.dataStart ≤ b.size := ha.dataStart_le
  obtain ⟨cfg, mode⟩ := d
  cases mode with
  | list | set => exact hcount.map _
  | dense =>
    apply (gives_lgK ha).andThen
    apply (gives_minimum h8).andThen
    apply (gives_atMinimum hstart).andThen
    exact gives_pure _

theorem gives_answer {f : Nat → Guarded Double}
    {g : Estimator Double → Nat → Nat → Nat → Guarded Double} {p : Nat → Double}
    {q : Estimator Double → Nat → Nat → Nat → Double} (ha : Accepted d (Region.over b))
    (hf : ∀ n, n ≤ Estimate.couponSpace → Gives (f n) b (.ok (p n)))
    (hg : ∀ e k m n, n ≤ 2 ^ k → Gives (g e k m n) b (.ok (q e k m n))) :
    Gives (Guarded.answer f g d.mode) b (.ok (match d.mode with
      | .dense => q (Region.over b).estimator d.config.lgK (Region.over b).minimum
          (Region.over b).atMinimum
      | m => p (Contents.count m (Region.over b)))) := by
  have hcount := gives_count ha
  have hle := count_le ha
  have h8 : 8 ≤ b.size := ha.shared
  have hstart : d.mode.dataStart ≤ b.size := ha.dataStart_le
  obtain ⟨cfg, mode⟩ := d
  cases mode with
  | list | set => exact hcount.andThen (hf _ hle)
  | dense =>
    apply (gives_lgK ha).andThen
    apply (gives_minimum h8).andThen
    apply (gives_atMinimum hstart).andThen
    apply (gives_estimator hstart).andThen
    exact hg _ _ _ _ (atMinimum_le ha)

section Answers

variable {n cells lgK m : Nat} {e : Estimator Double} {c : Confidence}

theorem gives_occupancy (h : n ≤ cells) :
    Gives (Guarded.occupancy cells n) b (.ok (Estimate.occupancy cells n)) := by
  unfold Guarded.occupancy Estimate.occupancy
  split_ifs with hn
  · exact gives_pure _
  · exact (gives_provided h).map _

theorem gives_ofCoupons (h : n ≤ Estimate.couponSpace) :
    Gives (Guarded.ofCoupons n) b (.ok (Estimate.ofCoupons n)) := by
  unfold Guarded.ofCoupons Estimate.ofCoupons
  split_ifs with hn
  · exact gives_pure _
  · exact (gives_occupancy h).map _

/-- The registers that are not at the minimum are counted twice, and neither difference is
negative. -/
theorem gives_compositeOf (h : n ≤ 2 ^ lgK) :
    Gives (Guarded.compositeOf e lgK m n) b (.ok (e.composite lgK m n)) := by
  unfold Guarded.compositeOf Estimator.composite
  split_ifs with hfresh hempty
  · exact gives_pure _
  · apply (gives_provided h).andThen
    exact gives_occupancy (Nat.sub_le ..)
  · exact gives_pure _

theorem gives_estimateOf (h : n ≤ 2 ^ lgK) :
    Gives (Guarded.estimateOf e lgK m n) b (.ok (e.estimate lgK m n)) := by
  unfold Guarded.estimateOf Estimator.estimate
  split_ifs with ho
  · exact gives_compositeOf h
  · exact gives_pure _

theorem gives_lowerOf (h : n ≤ 2 ^ lgK) :
    Gives (Guarded.lowerOf e lgK m n c) b (.ok (e.lower lgK m n c)) := by
  unfold Guarded.lowerOf Estimator.lower
  apply (gives_estimateOf h).andThen
  split_ifs with hm
  · apply (gives_provided h).andThen
    exact gives_pure _
  · exact gives_pure _

end Answers

/-! ## Bytes and sketches -/

theorem gives_image (ha : Accepted d (Region.over b)) :
    Gives (Guarded.image d.config d.mode) b
      (.ok (b.extract 0 ((Region.over b).footprint d.config d.mode))) :=
  (gives_footprint ha.dataStart_le).andThen (gives_front ha.fits)

theorem gives_wrap (b : ByteArray) : Gives (Guarded.wrap b) b (Sketch.wrap b) := by
  have hmap : Sketch.wrap b =
      (fun d : Declaration => (⟨d.config, d.mode, Region.over b⟩ : Sketch)) <$>
        Declaration.ofBytes b := by
    unfold Sketch.wrap
    cases Declaration.ofBytes b <;> rfl
  rw [hmap]
  exact (gives_declaration b).map _

theorem gives_summary (b : ByteArray) :
    Gives Guarded.summary b (Sketch.preambleSummary b) := by
  unfold Guarded.summary Sketch.preambleSummary
  apply (gives_declaration b).bind
  intro d hd
  have ha : Accepted d (Region.over b) := Declaration.ofRegion_eq_ok.1 hd
  have hstart : d.mode.dataStart ≤ b.size := ha.dataStart_le
  have hsame : (Region.over b).summary =
      (Region.over (b.extract 0 d.mode.dataStart)).summary :=
    Region.summary_congr ha.mode fun j hj =>
      ((Bytes.byte_extract b d.mode.dataStart j).trans (if_pos hj)).symm
  rw [hsame]
  exact (gives_front hstart).map _

/-- **Bytes give a sketch of their own without a trap**, or a fault. -/
theorem gives_ofBytes (b : ByteArray) : Gives Guarded.ofBytes b (Sketch.ofBytes b) := by
  unfold Guarded.ofBytes Sketch.ofBytes
  apply (gives_declaration b).bind
  intro d hd
  have ha : Accepted d (Region.over b) := Declaration.ofRegion_eq_ok.1 hd
  have h8 : 8 ≤ b.size := ha.shared
  obtain ⟨cfg, mode⟩ := d
  apply (gives_hasFlag h8 _).andThen
  dsimp only
  split_ifs with hc
  · apply (gives_live ha hc.1).andThen
    exact gives_ofExcept _
  · apply (gives_image ha).andThen
    exact gives_pure _

theorem gives_copy (ha : Accepted d (Region.over b)) :
    Gives (Guarded.copy d.config d.mode) b
      (Sketch.copy ⟨d.config, d.mode, Region.over b⟩) :=
  (gives_image ha).andThen (gives_inside (gives_ofBytes _))

theorem gives_toUpdatable (ha : Accepted d (Region.over b)) :
    Gives (Guarded.toUpdatable d.config d.mode) b
      (Sketch.toUpdatable ⟨d.config, d.mode, Region.over b⟩) := by
  have h8 : 8 ≤ b.size := ha.shared
  unfold Guarded.toUpdatable Sketch.toUpdatable
  apply (gives_hasFlag h8 _).andThen
  unfold Sketch.isCompact
  split_ifs with hc
  · exact (gives_copy ha).map _
  · exact gives_image ha

theorem gives_toCompact (ha : Accepted d (Region.over b)) :
    Gives (Guarded.toCompact d.config d.mode) b
      (.ok (Sketch.toCompact ⟨d.config, d.mode, Region.over b⟩)) := by
  have hstart : d.mode.dataStart ≤ b.size := ha.dataStart_le
  obtain ⟨cfg, mode⟩ := d
  cases mode with
  | list | set =>
    apply (gives_live ha (by decide)).andThen
    apply (gives_front hstart).andThen
    exact gives_pure _
  | dense => exact (gives_image ha).map _

theorem gives_offered (ha : Accepted d (Region.over b)) (j : Nat) :
    Gives (Guarded.offered d.config d.mode j) b
      (Sketch.offered ⟨d.config, d.mode, Region.over b⟩ j) := by
  obtain ⟨cfg, mode⟩ := d
  unfold Guarded.offered Sketch.offered
  apply (gives_contents ha).bind
  intro cs _
  cases mode with
  | list | set => exact gives_pure _
  | dense =>
    apply (gives_lgK ha).andThen
    dsimp only
    split_ifs with hlt hgt
    · exact gives_throw _
    · exact gives_pure _
    · exact gives_pure _

/-- Every question to a sketch over lent bytes is answered without a trap: no byte is read that is
not there, no difference of counts is negative and no sum of bytes exceeds a byte. -/
structure Sketch.Readable (s : Sketch) : Prop where
  isEmpty : Gives (Guarded.isEmpty s.mode) s.region.bytes (.ok s.isEmpty)
  estimate : Gives (Guarded.estimate s.mode) s.region.bytes (.ok s.estimate)
  composite : Gives (Guarded.composite s.mode) s.region.bytes (.ok s.composite)
  upper : ∀ c, Gives (Guarded.upper s.mode c) s.region.bytes (.ok (s.upper c))
  lower : ∀ c, Gives (Guarded.lower s.mode c) s.region.bytes (.ok (s.lower c))
  coupons : Gives (Guarded.coupons s.config s.mode) s.region.bytes s.coupons
  offered : ∀ j, Gives (Guarded.offered s.config s.mode j) s.region.bytes (s.offered j)
  image : Gives (Guarded.image s.config s.mode) s.region.bytes (.ok s.image)
  toCompact : Gives (Guarded.toCompact s.config s.mode) s.region.bytes (.ok s.toCompact)
  toUpdatable : Gives (Guarded.toUpdatable s.config s.mode) s.region.bytes s.toUpdatable
  copy : Gives (Guarded.copy s.config s.mode) s.region.bytes s.copy

/-- **Accepted bytes can be read**, whatever their registers, exceptions and coupons are. -/
theorem Declaration.Accepted.readable (ha : Accepted d (Region.over b)) :
    Sketch.Readable ⟨d.config, d.mode, Region.over b⟩ where
  isEmpty := gives_isEmpty ha
  estimate := gives_answer ha (fun _ => gives_ofCoupons) fun _ _ _ _ => gives_estimateOf
  composite := gives_answer ha (fun _ => gives_ofCoupons) fun _ _ _ _ => gives_compositeOf
  upper c := gives_answer (p := fun n => Estimate.couponsUpper n c)
    (q := fun e k m n => e.upper k m n c) ha (fun _ hn => (gives_ofCoupons hn).map _)
    fun _ _ _ _ hn => (gives_estimateOf hn).map _
  lower c := gives_answer (p := fun n => Estimate.couponsLower n c)
    (q := fun e k m n => e.lower k m n c) ha (fun _ hn => (gives_ofCoupons hn).map _)
    fun _ _ _ _ => gives_lowerOf
  coupons := gives_contents ha
  offered := gives_offered ha
  image := gives_image ha
  toCompact := gives_toCompact ha
  toUpdatable := gives_toUpdatable ha
  copy := gives_copy ha

end HyperLogLog
