import HyperLogLog.Proofs.Dense

/-!
# Dense images are canonical

Nothing of how registers came to be shows in the bytes that code them: not the order in which
fields were written, nor when the minimum rose or an exception was moved.

* `Region.byte_eq_of_nibbles`, `Region.byte_eq_of_sixBits`: bytes are told by the fields in them;
* `Relative.minimum_eq`, `Relative.entries_eq`: registers tell the minimum and the exceptions;
* **`Packed.byte_eq`**: registers tell every byte that codes them;
* **`Dense.byte_eq`**: registries that differ in the running total differ in its eight bytes alone.
-/

namespace HyperLogLog

namespace Region

variable {r r' : Region}

/-! ## Bytes are told by the fields in them -/

theorem byte_eq_of_nibbles {i : Nat} (h₀ : r.nibble (2 * i) = r'.nibble (2 * i))
    (h₁ : r.nibble (2 * i + 1) = r'.nibble (2 * i + 1)) : r.byte (40 + i) = r'.byte (40 + i) := by
  have heven : 2 * i % 2 = 0 := by omega
  have hodd : (2 * i + 1) % 2 ≠ 0 := by omega
  unfold nibble at h₀ h₁
  dsimp only at h₀ h₁
  rw [if_pos heven, if_pos heven, show 2 * i / 2 = i by omega] at h₀
  rw [if_neg hodd, if_neg hodd, show (2 * i + 1) / 2 = i by omega] at h₁
  apply UInt8.toNat_inj.1
  omega

theorem byte_eq_of_sixBits {q j : Nat}
    (h : ∀ i, 4 * q ≤ i → i < 4 * q + 4 → r.sixBits i = r'.sixBits i)
    (hj : 40 + 3 * q ≤ j) (hj' : j < 43 + 3 * q) : r.byte j = r'.byte j := by
  have h₀ := h (4 * q) (by omega) (by omega)
  have h₁ := h (4 * q + 1) (by omega) (by omega)
  have h₂ := h (4 * q + 2) (by omega) (by omega)
  have h₃ := h (4 * q + 3) (by omega) (by omega)
  rw [sixBits_zero, sixBits_zero] at h₀
  rw [sixBits_one, sixBits_one] at h₁
  rw [sixBits_two, sixBits_two] at h₂
  rw [sixBits_three, sixBits_three] at h₃
  have a₀ := (r.byte (40 + 3 * q)).toNat_lt
  have a₁ := (r.byte (41 + 3 * q)).toNat_lt
  have b₀ := (r'.byte (40 + 3 * q)).toNat_lt
  have b₁ := (r'.byte (41 + 3 * q)).toNat_lt
  apply UInt8.toNat_inj.1
  obtain rfl | rfl | rfl : j = 40 + 3 * q ∨ j = 41 + 3 * q ∨ j = 42 + 3 * q := by omega
  all_goals omega

theorem byte_eq_of_real_eq {i j : Nat} (h : r.real i = r'.real i) (hj : i ≤ j) (hj' : j < i + 8) :
    r.byte j = r'.byte j := by
  have hlong : (Bytes.long r.bytes i).toNat = (Bytes.long r'.bytes i).toNat :=
    congrArg (fun x : Double => x.bits.toNat) h
  have hw := (r.word i).toNat_lt
  have hw' := (r'.word i).toNat_lt
  rw [Bytes.toNat_long, Bytes.toNat_long] at hlong
  change (r.word i).toNat + _ * (r.word (i + 4)).toNat =
    (r'.word i).toNat + _ * (r'.word (i + 4)).toNat at hlong
  by_cases hlow : j < i + 4
  · exact byte_eq_of_word_eq (UInt32.toNat_inj.1 (by omega)) hj hlow
  · exact byte_eq_of_word_eq (i := i + 4) (UInt32.toNat_inj.1 (by omega)) (by omega) (by omega)

theorem byte_eq_of_coupon_eq {i j : Nat} (h : r.coupon i = r'.coupon i) (hj : i ≤ j)
    (hj' : j < i + 4) : r.byte j = r'.byte j :=
  byte_eq_of_word_eq (congrArg Coupon.word h) hj hj'

end Region

namespace Registers

open Exceptions (offset entries)

variable {cfg : Config} {r r' : Region} {v v' : Nat → Nat} {g g' : Registry}

/-! ## Fields relative to the minimum -/

section Relative

variable (h : Relative cfg v r) (h' : Relative cfg v' r') (hv : ∀ i, i < cfg.k → v i = v' i)

include h h' hv

theorem Relative.minimum_eq : r.minimum = r'.minimum := by
  obtain ⟨i, hi, hmin⟩ := level_pos.1 (h.counted ▸ h.attained)
  obtain ⟨j, hj, hmin'⟩ := level_pos.1 (h'.counted ▸ h'.attained)
  have hle := h'.least i hi
  have hle' := h.least j hj
  have := hv i hi
  have := hv j hj
  omega

theorem Relative.entries_eq : entries cfg r = entries cfg r' := by
  have hmin := h.minimum_eq h' hv
  refine Exceptions.Ascending.ext h.sorted h'.sorted fun c => ?_
  rw [h.exceptional, h'.exceptional, ← hmin]
  refine and_congr_right fun hc => ?_
  rw [hv _ hc]

theorem Relative.byte_eq {j : Nat} (hj : j = 6 ∨ 32 ≤ j ∧ j < offset cfg r.exceptionCount) :
    r.byte j = r'.byte j := by
  have hmin := h.minimum_eq h' hv
  have hent := h.entries_eq h' hv
  have hexc : r.exceptionCount = r'.exceptionCount := by
    rw [← Exceptions.length_entries cfg, ← Exceptions.length_entries cfg, hent]
  have hoff : ∀ i, offset cfg i = 40 + cfg.k / 2 + 4 * i := fun _ => rfl
  have hlast := hoff r.exceptionCount
  rcases hj with rfl | ⟨hlow, hhigh⟩
  · exact UInt8.toNat_inj.1 hmin
  by_cases hcount : j < 36
  · refine Region.byte_eq_of_word_eq (i := 32) (UInt32.toNat_inj.1 ?_) hlow hcount
    refine h.counted.trans (Eq.trans ?_ h'.counted.symm)
    rw [hmin]
    exact level_congr fun i hi => by rw [hv i hi]
  by_cases hexc' : j < 40
  · exact Region.byte_eq_of_word_eq (i := 36) (UInt32.toNat_inj.1 hexc) (by omega) hexc'
  by_cases hfield : j < 40 + cfg.k / 2
  · obtain ⟨i, rfl⟩ := Nat.exists_eq_add_of_le (Nat.le_of_not_lt hexc')
    have hnib : ∀ l, l < cfg.k → r.nibble l = r'.nibble l := fun l hl => by
      rw [h.nibble l hl, h'.nibble l hl, hmin, hv l hl]
    exact Region.byte_eq_of_nibbles (hnib _ (by omega)) (hnib _ (by omega))
  · obtain ⟨i, hi⟩ : ∃ i, i = (j - (40 + cfg.k / 2)) / 4 := ⟨_, rfl⟩
    have hlen : i < r.exceptionCount := by omega
    have hcoupon : r.coupon (offset cfg i) = r'.coupon (offset cfg i) := by
      rw [← Exceptions.getElem_entries i (by rwa [Exceptions.length_entries]),
        ← Exceptions.getElem_entries i (by rwa [Exceptions.length_entries, ← hexc])]
      simp only [hent]
    have := hoff i
    exact Region.byte_eq_of_coupon_eq hcoupon (by omega) (by omega)

end Relative

/-! ## Fields that hold registers -/

theorem Whole.byte_eq (hw : cfg.width ≠ .four) (h : Whole cfg v r) (h' : Whole cfg v' r')
    (hv : ∀ i, i < cfg.k → v i = v' i) {j : Nat}
    (hj : j = 6 ∨ 32 ≤ j ∧ j < 40 + Footprint.registers cfg) : r.byte j = r'.byte j := by
  obtain ⟨m, hm⟩ := cfg.sixteen_dvd_k
  rcases hj with rfl | ⟨hlow, hhigh⟩
  · exact UInt8.toNat_inj.1 (h.minimum.trans h'.minimum.symm)
  by_cases hcount : j < 36
  · refine Region.byte_eq_of_word_eq (i := 32) (UInt32.toNat_inj.1 ?_) hlow hcount
    refine h.counted.trans (Eq.trans ?_ h'.counted.symm)
    exact level_congr fun i hi => by rw [hv i hi]
  by_cases hexc : j < 40
  · exact Region.byte_eq_of_word_eq (i := 36)
      (UInt32.toNat_inj.1 (h.exceptions.trans h'.exceptions.symm)) (by omega) hexc
  have hfield : ∀ i, i < cfg.k → r.field cfg.width i = r'.field cfg.width i := fun i hi => by
    rw [h.field i hi, h'.field i hi, hv i hi]
  have hspare := h.spare
  have hspare' := h'.spare
  unfold Footprint.registers at hhigh
  unfold Region.field at hfield
  cases hwidth : cfg.width with
  | four => exact absurd hwidth hw
  | six =>
    rw [hwidth] at hhigh hfield hspare hspare'
    dsimp only at hhigh hfield
    by_cases hlast : j = 40 + cfg.k * 3 / 4
    · rw [hlast, hspare rfl, hspare' rfl]
    · exact Region.byte_eq_of_sixBits (q := (j - 40) / 3) (fun i _ _ => hfield i (by omega))
        (by omega) (by omega)
  | eight =>
    rw [hwidth] at hhigh hfield
    dsimp only at hhigh hfield
    obtain ⟨i, rfl⟩ := Nat.exists_eq_add_of_le (Nat.le_of_not_lt hexc)
    exact UInt8.toNat_inj.1 (hfield i (by omega))

/-! ## Every width -/

/-- **Registers tell every byte that codes them.** -/
theorem Packed.byte_eq (h : Packed cfg v r) (h' : Packed cfg v' r')
    (hv : ∀ i, i < cfg.k → v i = v' i) {j : Nat}
    (hj : j = 6 ∨ 32 ≤ j ∧ j < Footprint.dense cfg r.exceptionCount) : r.byte j = r'.byte j := by
  by_cases hw : cfg.width = .four
  · rw [packed_of_four hw] at h h'
    rw [footprint_of_four hw] at hj
    exact h.byte_eq h' hv hj
  · rw [packed_of_ne_four hw] at h h'
    rw [Footprint.dense, if_neg hw, Nat.add_zero] at hj
    exact h.byte_eq hw h' hv hj

theorem Packed.exceptionCount_eq (h : Packed cfg v r) (h' : Packed cfg v' r')
    (hv : ∀ i, i < cfg.k → v i = v' i) : r.exceptionCount = r'.exceptionCount :=
  congrArg UInt32.toNat (Region.word_congr (i := 36) fun j h₁ h₂ =>
    (h'.byte_eq h (fun i hi => (hv i hi).symm) (.inr ⟨by omega,
      Nat.lt_of_lt_of_le h₂ (Nat.le_add_right_of_le (Nat.le_add_right ..))⟩)).symm)

namespace Dense

theorem exceptionCount_eq (h : Dense cfg g r) (h' : Dense cfg g' r')
    (hv : ∀ i, i < cfg.k → g.values i = g'.values i) : r.exceptionCount = r'.exceptionCount :=
  h.packed.exceptionCount_eq h'.packed hv

/-- **The bytes of an image depend on the registers and their sums alone**; the running total has
eight bytes of its own. -/
theorem byte_eq (h : Dense cfg g r) (h' : Dense cfg g' r')
    (hv : ∀ i, i < cfg.k → g.values i = g'.values i)
    (hlow : g.history.lowSum = g'.history.lowSum) (hhigh : g.history.highSum = g'.history.highSum)
    (ho : g.history.outOfOrder = g'.history.outOfOrder) {j : Nat}
    (hj : j < Footprint.dense cfg r.exceptionCount)
    (ht : 8 ≤ j → j < 16 → g.history.total = g'.history.total) : r.byte j = r'.byte j := by
  have hreal : ∀ i, r.real i = r'.real i → i ≤ j → j < i + 8 → r.byte j = r'.byte j :=
    fun i => Region.byte_eq_of_real_eq
  have he := h.estimator
  have he' := h'.estimator
  have hhead := h'.headed
  rw [← ho] at hhead
  by_cases h₆ : j = 6 ∨ 32 ≤ j
  · exact h.packed.byte_eq h'.packed hv (by omega)
  by_cases h₇ : j = 7
  · rw [h₇, h.headed.modes, hhead.modes]
  by_cases h₈ : j < 8
  · exact h.headed.byte_eq hhead rfl h₈ (by omega) h₇
  by_cases h₁₆ : j < 16
  · refine hreal 8 ?_ (by omega) h₁₆
    exact (congrArg Estimator.total he).trans ((ht (by omega) h₁₆).trans
      (congrArg Estimator.total he').symm)
  by_cases h₂₄ : j < 24
  · exact hreal 16 ((congrArg Estimator.lowSum he).trans (hlow.trans
      (congrArg Estimator.lowSum he').symm)) (by omega) h₂₄
  · exact hreal 24 ((congrArg Estimator.highSum he).trans (hhigh.trans
      (congrArg Estimator.highSum he').symm)) (by omega) (by omega)

end Dense

end Registers

end HyperLogLog
