import HyperLogLog.Estimate.Registers
import HyperLogLog.Footprint
import HyperLogLog.Proofs.Region

/-!
# Reads after writes in the header

* `Region.Headed`: what the first eight bytes declare, the count or minimum in byte 6 left aside;
* `Headed.mode?_eq`, `Headed.lgArr_eq`, `Headed.slots_eq`: what is read from such a header;
* **`headed_putHeader`**: writing a header makes the image declare it;
* `within_putEstimator`, **`estimator_putEstimator`**: the sums of a dense image.
-/

namespace HyperLogLog

@[simp] theorem Estimator.outOfOrder_raise {α : Type} [Scalar α] (e : Estimator α)
    (lgK old new : Nat) : (e.raise lgK old new).outOfOrder = e.outOfOrder := by
  unfold Estimator.raise Estimator.deposit Estimator.withdraw Estimator.advance
  split_ifs <;> rfl

namespace Region

variable {cfg : Config} {mode : Mode} {lgArr n : Nat} {flags flags' : UInt8} {r r' : Region}

/-! ## Declarations -/

/-- The image declares a configuration, a mode, log2 of its coupon slots and flags. -/
structure Headed (cfg : Config) (mode : Mode) (lgArr : Nat) (flags : UInt8) (r : Region) :
    Prop where
  preamble : r.byte 0 = UInt8.ofNat mode.preambleInts
  version : r.byte 1 = UInt8.ofNat formatVersion
  family : r.byte 2 = UInt8.ofNat Family.hll.id
  lgK : r.byte 3 = UInt8.ofNat cfg.lgK
  lgArr : r.byte 4 = UInt8.ofNat lgArr
  flags : r.byte 5 = flags
  modes : r.byte 7 = UInt8.ofNat (mode.code + 4 * cfg.width.code)

namespace Headed

theorem withFlags (h : Headed cfg mode lgArr flags r)
    (hb : ∀ j, j < 8 → j ≠ 5 → j ≠ 6 → r'.byte j = r.byte j) (hf : r'.byte 5 = flags') :
    Headed cfg mode lgArr flags' r' where
  preamble := (hb 0 (by decide) (by decide) (by decide)).trans h.preamble
  version := (hb 1 (by decide) (by decide) (by decide)).trans h.version
  family := (hb 2 (by decide) (by decide) (by decide)).trans h.family
  lgK := (hb 3 (by decide) (by decide) (by decide)).trans h.lgK
  lgArr := (hb 4 (by decide) (by decide) (by decide)).trans h.lgArr
  flags := hf
  modes := (hb 7 (by decide) (by decide) (by decide)).trans h.modes

theorem congr (h : Headed cfg mode lgArr flags r)
    (hb : ∀ j, j < 8 → j ≠ 6 → r'.byte j = r.byte j) : Headed cfg mode lgArr flags r' :=
  h.withFlags (fun j hj _ => hb j hj) ((hb 5 (by decide) (by decide)).trans h.flags)

theorem mode?_eq (h : Headed cfg mode lgArr flags r) : r.mode? = some mode := by
  rw [mode?, h.modes]
  cases mode <;> cases cfg.width <;> rfl

theorem lgArr_eq (h : Headed cfg mode lgArr flags r) (hl : lgArr < 256) : r.lgArr = lgArr := by
  rw [Region.lgArr, h.lgArr, UInt8.toNat_ofNat_of_lt' hl]

theorem hasFlag_eq (h : Headed cfg mode lgArr flags r) (f : Flag) :
    r.hasFlag f = (flags &&& f.mask != 0) := by
  rw [hasFlag, Region.flags, h.flags]

theorem slots_eq (h : Headed cfg mode lgArr flags r) (hl : lgArr < 256)
    (hf : flags &&& Flag.compact.mask = 0) (m : Mode) : r.slots m = 2 ^ lgArr := by
  unfold slots
  rw [if_neg (by rw [h.hasFlag_eq, hf]; decide), h.lgArr_eq hl]

theorem putFlag (h : Headed cfg mode lgArr flags r) (hs : 8 ≤ r.size) (f : Flag) (on : Bool)
    (hf : (if on then flags ||| f.mask else flags &&& ~~~ f.mask) &&& ~~~ Flag.bigEndian.mask =
      flags') : Headed cfg mode lgArr flags' (r.putFlag f on) := by
  refine h.withFlags (fun j _ h₅ _ => byte_setByte_of_ne _ (Ne.symm h₅)) ?_
  rw [Region.putFlag, putFlags, byte_setByte_self _ (by omega), Region.flags, h.flags, hf]

theorem putLgArr (h : Headed cfg mode lgArr flags r) (hs : 8 ≤ r.size) (lgArr' : Nat) :
    Headed cfg mode lgArr' flags (r.putLgArr lgArr') := by
  have hb : ∀ j, j ≠ 4 → (r.putLgArr lgArr').byte j = r.byte j := fun j hj =>
    byte_setByte_of_ne _ (Ne.symm hj)
  refine ⟨?_, ?_, ?_, ?_, byte_setByte_self _ (by omega), ?_, ?_⟩
  · rw [hb 0 (by decide), h.preamble]
  · rw [hb 1 (by decide), h.version]
  · rw [hb 2 (by decide), h.family]
  · rw [hb 3 (by decide), h.lgK]
  · rw [hb 5 (by decide), h.flags]
  · rw [hb 7 (by decide), h.modes]

theorem byte_eq {cfg' : Config} (h : Headed cfg mode lgArr flags r)
    (h' : Headed cfg' mode lgArr flags r')
    (hk : cfg.lgK = cfg'.lgK) {j : Nat} (hj : j < 8) (h₆ : j ≠ 6) (h₇ : j ≠ 7) :
    r.byte j = r'.byte j := by
  obtain rfl | rfl | rfl | rfl | rfl | rfl : j = 0 ∨ j = 1 ∨ j = 2 ∨ j = 3 ∨ j = 4 ∨ j = 5 := by
    omega
  · rw [h.preamble, h'.preamble]
  · rw [h.version, h'.version]
  · rw [h.family, h'.family]
  · rw [h.lgK, h'.lgK, hk]
  · rw [h.lgArr, h'.lgArr]
  · rw [h.flags, h'.flags]

end Headed

theorem within_putFlag (r : Region) (f : Flag) (on : Bool) : Within 5 1 r (r.putFlag f on) :=
  within_setByte ..

theorem within_putHeader (r : Region) (cfg : Config) (mode : Mode) (lgArr : Nat) (flags : UInt8) :
    Within 0 8 r (r.putHeader cfg mode lgArr flags) := by
  have hb : ∀ (q : Region) (i : Nat) (v : UInt8), i < 8 → Within 0 8 q (q.setByte i v) :=
    fun q i v hi => (within_setByte q i v).mono (Nat.zero_le _) (by omega)
  exact (((((((hb _ 0 _ (by decide)).trans (hb _ 1 _ (by decide))).trans
    (hb _ 2 _ (by decide))).trans (hb _ 3 _ (by decide))).trans (hb _ 4 _ (by decide))).trans
    (hb _ 5 _ (by decide))).trans (hb _ 6 _ (by decide))).trans (hb _ 7 _ (by decide))

theorem byte_six_putHeader (hs : 8 ≤ r.size) :
    (r.putHeader cfg mode lgArr flags).byte 6 = 0 := by
  unfold putHeader
  dsimp only
  rw [putModes, byte_setByte_of_ne _ (by decide), byte_setByte_self]
  rw [putFlags, putLgArr]
  simp only [size_setByte]
  omega

/-- **An image declares the header written to it.** -/
theorem headed_putHeader (hs : 8 ≤ r.size) (hf : flags &&& ~~~ Flag.bigEndian.mask = flags) :
    Headed cfg mode lgArr flags (r.putHeader cfg mode lgArr flags) := by
  have h₀ : 0 < r.size := by omega
  have h₁ : 1 < r.size := by omega
  have h₂ : 2 < r.size := by omega
  have h₃ : 3 < r.size := by omega
  have h₄ : 4 < r.size := by omega
  have h₅ : 5 < r.size := by omega
  have h₇ : 7 < r.size := by omega
  refine ⟨?_, ?_, ?_, ?_, ?_, ?_, ?_⟩ <;>
    simp [putHeader, putModes, putFlags, putLgArr, byte_setByte, h₀, h₁, h₂, h₃, h₄, h₅, h₇, hf]

/-! ## The fields of a dense image -/

theorem size_putMinimum (n : Nat) : (r.putMinimum n).size = r.size := size_setByte ..

theorem within_putAtMinimum (r : Region) (n : Nat) : Within 32 4 r (r.putAtMinimum n) :=
  within_setWord ..

theorem minimum_putMinimum (hs : 6 < r.size) (hn : n < 256) : (r.putMinimum n).minimum = n := by
  rw [minimum, putMinimum, byte_setByte_self _ hs, UInt8.toNat_ofNat_of_lt' hn]

theorem atMinimum_putAtMinimum (hs : 36 ≤ r.size) (hn : n < 4294967296) :
    (r.putAtMinimum n).atMinimum = n := by
  rw [atMinimum, putAtMinimum, word_setWord_self _ hs, UInt32.toNat_ofNat_of_lt' hn]

theorem estimator_congr (h₅ : r'.byte 5 = r.byte 5)
    (h : ∀ j, 8 ≤ j → j < 32 → r'.byte j = r.byte j) : r'.estimator = r.estimator := by
  unfold estimator hasFlag Region.flags
  rw [real_congr (i := 8) fun j h₁ h₂ => h j h₁ (by omega),
    real_congr (i := 16) fun j h₁ h₂ => h j (by omega) (by omega),
    real_congr (i := 24) fun j h₁ h₂ => h j (by omega) (by omega), h₅]

theorem within_putEstimator (r : Region) (e : Estimator Double) :
    Within 8 24 r (r.putEstimator e) := by
  unfold putEstimator
  exact (((within_setReal ..).mono (by decide) (by decide)).trans
    ((within_setReal ..).mono (by decide) (by decide))).trans
    ((within_setReal ..).mono (by decide) (by decide))

/-- **The sums read are the sums written**; the flag is where it was. -/
theorem estimator_putEstimator (hs : 32 ≤ r.size) (e : Estimator Double)
    (ho : e.outOfOrder = r.hasFlag .outOfOrder) : (r.putEstimator e).estimator = e := by
  have hflag : (r.putEstimator e).hasFlag .outOfOrder = e.outOfOrder := by
    rw [ho, hasFlag, hasFlag, Region.flags, Region.flags,
      (within_putEstimator r e).byte 5 (.inl (by decide))]
  have h₈ : (r.putEstimator e).real 8 = e.total := by
    rw [putEstimator, (within_setReal ..).real (.inl (by decide)),
      (within_setReal ..).real (.inl (by decide)), real_setReal_self _ (by omega)]
  have h₁₆ : (r.putEstimator e).real 16 = e.lowSum := by
    rw [putEstimator, (within_setReal ..).real (.inl (by decide)),
      real_setReal_self _ (by rw [size_setReal]; omega)]
  have h₂₄ : (r.putEstimator e).real 24 = e.highSum := by
    rw [putEstimator, real_setReal_self _ (by simp only [size_setReal]; omega)]
  rw [estimator, hflag, h₈, h₁₆, h₂₄]

theorem within_putTotal (r : Region) (x : Double) : Within 8 8 r (r.putTotal x) :=
  within_setReal ..

theorem estimator_putTotal (hs : 32 ≤ r.size) (x : Double) :
    (r.putTotal x).estimator = { r.estimator with total := x } := by
  have hflag : (r.putTotal x).hasFlag .outOfOrder = r.hasFlag .outOfOrder := by
    rw [hasFlag, hasFlag, Region.flags, Region.flags,
      (within_putTotal r x).byte 5 (.inl (by decide))]
  have h₈ : (r.putTotal x).real 8 = x := real_setReal_self _ (by omega)
  have h₁₆ : (r.putTotal x).real 16 = r.real 16 :=
    (within_putTotal r x).real (.inr (Nat.le_refl _))
  have h₂₄ : (r.putTotal x).real 24 = r.real 24 := (within_putTotal r x).real (.inr (by decide))
  rw [estimator, hflag, h₈, h₁₆, h₂₄, estimator]

theorem within_raiseEstimator (r : Region) (lgK old new : Nat) :
    Within 8 24 r (r.raiseEstimator lgK old new) :=
  within_putEstimator ..

theorem estimator_raiseEstimator (hs : 32 ≤ r.size) (lgK old new : Nat) :
    (r.raiseEstimator lgK old new).estimator = r.estimator.raise lgK old new :=
  estimator_putEstimator hs _ (Estimator.outOfOrder_raise ..)

end Region

end HyperLogLog
