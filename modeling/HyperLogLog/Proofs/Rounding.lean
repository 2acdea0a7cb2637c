import HyperLogLog.Config
import HyperLogLog.Double
import Mathlib

/-!
# Doubles and the numbers they unpack to

An operation on doubles unpacks its operands, computes on integers and rounds once.

* `Double.normal`: the double with a given exponent field and a given mantissa of 53 bits;
* `Double.round_exact`: a number of 53 bits is not rounded, whatever power of two it comes with;
* `Double.round_normal`: a number of 53 bits or more is rounded to one of 53 bits;
* `Double.Unpacks`: a double and the number it stands for;
* **`Unpacks.add_eq`**, **`Unpacks.sub_eq`**: doubles are added as their numbers are.
-/

namespace HyperLogLog.Double

open Float.Model (Format UnpackedFloat totalExponent)
open Float.Model.UnpackedFloat

/-- The double `mantissa * 2 ^ (exponent - 1075)`, if the mantissa has 53 bits. -/
def normal (exponent mantissa : Nat) : Double :=
  ⟨UInt64.ofNat (2 ^ 52 * exponent + (mantissa - 2 ^ 52))⟩

variable {e m : Nat}

theorem toBitVec_normal (he : e < 2048) (hm : 2 ^ 52 ≤ m) (hm' : m < 2 ^ 53) :
    (normal e m).bits.toBitVec =
      packComponents Format.binary64 .positive (BitVec.ofNat 11 e) (BitVec.ofNat 52 m) := by
  refine BitVec.eq_of_toNat_eq ?_
  have hlow : (BitVec.ofNat 52 m).toNat = m - 2 ^ 52 := by
    rw [BitVec.toNat_ofNat]
    omega
  have hhigh : (0#1 ++ BitVec.ofNat 11 e).toNat = e := by
    rw [BitVec.toNat_append, BitVec.toNat_ofNat, BitVec.toNat_ofNat, Nat.mod_eq_of_lt he]
    simp
  have hsum : (0#1 ++ BitVec.ofNat 11 e ++ BitVec.ofNat 52 m).toNat =
      2 ^ 52 * e + (m - 2 ^ 52) := by
    rw [BitVec.toNat_append, hlow, hhigh, ← Nat.shiftLeft_add_eq_or_of_lt (by omega),
      Nat.shiftLeft_eq, Nat.mul_comm]
  have hbits : (normal e m).bits.toBitVec.toNat = 2 ^ 52 * e + (m - 2 ^ 52) := by
    rw [UInt64.toNat_toBitVec, normal, UInt64.toNat_ofNat', Nat.mod_eq_of_lt (by omega)]
  exact hbits.trans hsum.symm

theorem toNat_implicit_append (hm : 2 ^ 52 ≤ m) (hm' : m < 2 ^ 53) :
    (1#1 ++ BitVec.ofNat 52 m).toNat = m := by
  rw [BitVec.toNat_append, BitVec.toNat_ofNat, ← Nat.shiftLeft_add_eq_or_of_lt (by omega),
    Nat.shiftLeft_eq]
  change 1 * 2 ^ 52 + m % 2 ^ 52 = m
  omega

theorem exponent_ne (he : e < 2047) : BitVec.ofNat 11 e ≠ -1#11 := by
  intro h
  have hexp : (BitVec.ofNat 11 e).toNat = e := Nat.mod_eq_of_lt (by omega)
  have hall : (-1#11).toNat = 2047 := by decide
  have := congrArg BitVec.toNat h
  omega

theorem unpack_normal (he : 0 < e) (he' : e < 2047) (hm : 2 ^ 52 ≤ m) (hm' : m < 2 ^ 53) :
    unpack Format.binary64 (normal e m).bits.toBitVec =
      .finite .positive m ((e : Int) - 1075) (by omega) := by
  have hexp : (BitVec.ofNat 11 e).toNat = e := Nat.mod_eq_of_lt (by omega)
  have hnz : BitVec.ofNat 11 e ≠ 0#11 := fun h => by
    have := congrArg BitVec.toNat h
    rw [hexp] at this
    exact Nat.ne_of_gt he this
  have hbias : (Format.binary64.exponentBias : Int) +
    Format.binary64.mantissaBitsWithoutImplicit = 1075 := by decide
  have hm₁ := toNat_implicit_append hm hm'
  rw [toBitVec_normal (by omega) hm hm']
  unfold unpack
  simp only [unpackMantissa_packComponents, unpackExponent_packComponents,
    unpackSign_packComponents, Sign.ofBitVec_toBitVec, if_neg (exponent_ne he'), if_neg hnz, hexp,
    hbias, hm₁]

theorem pack_normal (he : 0 < e) (he' : e < 2047) (hm : 2 ^ 52 ≤ m) (hm' : m < 2 ^ 53) :
    pack Format.binary64 (.finite .positive m ((e : Int) - 1075) (by omega)) =
      (normal e m).bits.toBitVec := by
  have hnan : ¬ @isNaNBits Format.binary64 (normal e m).bits.toBitVec := by
    rw [toBitVec_normal (by omega) hm hm', isNaNBits, unpackExponent_packComponents]
    exact fun h => exponent_ne he' (of_decide_eq_true h).1
  rw [← unpack_normal he he' hm hm', pack_unpack, if_neg hnan]

/-! ## Rounding -/

section Round

variable {n t : Nat} {x : Int}

theorem shiftRight_exact (m t : Nat) :
    (⟨m * 2 ^ t, false, false⟩ : ExtendedMantissa) >>> t = ⟨m, false, false⟩ := by
  induction t generalizing m with
  | zero =>
    rw [Nat.pow_zero, Nat.mul_one]
    rfl
  | succ t ih =>
    have hstep : (⟨m * 2 ^ (t + 1), false, false⟩ : ExtendedMantissa) >>> (t + 1) =
        ((⟨m * 2 ^ (t + 1), false, false⟩ : ExtendedMantissa) >>> t).shiftRightOne := rfl
    rw [hstep, Nat.pow_succ', ← Nat.mul_assoc, ih]
    simp [ExtendedMantissa.shiftRightOne]

theorem mantissa_shiftRight (a : ExtendedMantissa) (t : Nat) :
    (a >>> t).mantissa = a.mantissa / 2 ^ t := by
  induction t with
  | zero =>
    rw [Nat.pow_zero, Nat.div_one]
    rfl
  | succ t ih =>
    have hstep : (a >>> (t + 1)).mantissa = (a >>> t).mantissa / 2 := rfl
    rw [hstep, ih, Nat.div_div_eq_div_mul, Nat.pow_succ]

theorem roundedMantissa_cases (a : ExtendedMantissa) :
    a.roundedMantissa = a.mantissa ∨ a.roundedMantissa = a.mantissa + 1 := by
  obtain ⟨m, r, s⟩ := a
  cases r <;> cases s <;>
    simp [ExtendedMantissa.roundedMantissa, ExtendedMantissa.accuracy,
      Accuracy.roundToNearestEven]
  omega

/-- The exponent at which a number has 53 bits. -/
theorem targetExponent_eq (hn : n.log2 = 52 + t) (x : Int) (hx : -1074 ≤ x + t) :
    Format.binary64.targetExponent (totalExponent n x) = x + t := by
  unfold Format.targetExponent totalExponent
  rw [hn]
  change max (((52 + t : Nat) : Int) + 1 + x - 53) (-1074) = x + t
  omega

theorem shiftToTargetExponent_eq (hn : n.log2 = 52 + t) (x : Int) (hx : -1074 ≤ x + t) :
    shiftToTargetExponent Format.binary64 n x .exact =
      ((⟨n, false, false⟩ : ExtendedMantissa) >>> t, x + t) := by
  have ht : (x + t - x).toNat = t := by omega
  unfold shiftToTargetExponent shiftToExponent
  dsimp only
  rw [targetExponent_eq hn x hx, ht]
  rfl

theorem log2_of_normal (hm : 2 ^ 52 ≤ m) (hm' : m < 2 ^ 53) : m.log2 = 52 :=
  (Nat.log2_eq_iff (by omega)).2 ⟨hm, hm'⟩

theorem log2_mul_two_pow (hn : n ≠ 0) (t : Nat) : (n * 2 ^ t).log2 = n.log2 + t := by
  obtain ⟨hlow, hhigh⟩ := (Nat.log2_eq_iff hn).1 rfl
  have ht := Nat.two_pow_pos t
  refine (Nat.log2_eq_iff (Nat.mul_ne_zero hn (Nat.ne_of_gt ht))).2 ⟨?_, ?_⟩
  · rw [Nat.pow_add]
    exact Nat.mul_le_mul_right _ hlow
  · rw [Nat.add_right_comm, Nat.pow_add]
    exact Nat.mul_lt_mul_of_pos_right hhigh ht

/-- What a mantissa of 53 bits becomes in the second shift, which is made in case the rounding has
carried. -/
theorem roundWithAccuracy_eq {x' : Int} {a : ExtendedMantissa}
    (hfirst : shiftToTargetExponent Format.binary64 n x .exact = (a, x'))
    (ha : a.roundedMantissa = m) (hm : 2 ^ 52 ≤ m) (hm' : m < 2 ^ 53) (hx : -1074 ≤ x') :
    roundWithAccuracy Format.binary64 .positive n x .exact =
      .finite .positive m x' (by omega) := by
  have hsecond := shiftToTargetExponent_eq (t := 0) (log2_of_normal hm hm') x' (by omega)
  have hzero : (⟨m, false, false⟩ : ExtendedMantissa) >>> 0 = ⟨m, false, false⟩ := rfl
  rw [hzero, Int.natCast_zero, Int.add_zero] at hsecond
  unfold roundWithAccuracy
  simp only [hfirst, ha, hsecond]
  exact dif_neg (by omega)

/-- **A number of 53 bits and a power of two is not rounded.** -/
theorem round_exact (hm : 2 ^ 52 ≤ m) (hm' : m < 2 ^ 53) (t : Nat) (x : Int) (hx : -1074 ≤ x) :
    roundWithAccuracy Format.binary64 .positive (m * 2 ^ t) (x - t) .exact =
      .finite .positive m x (by omega) := by
  have hlog : (m * 2 ^ t).log2 = 52 + t := by
    rw [log2_mul_two_pow (by omega), log2_of_normal hm hm']
  have hfirst := shiftToTargetExponent_eq hlog (x - t) (by omega)
  rw [shiftRight_exact, Int.sub_add_cancel] at hfirst
  exact roundWithAccuracy_eq hfirst rfl hm hm' hx

/-- **A number with 53 bits or more is rounded to one of 53 bits.** -/
theorem round_normal (hn : n.log2 = 52 + t) (x : Int) (hx : -1074 ≤ x + t) :
    ∃ m, ∃ hm : 2 ^ 52 ≤ m, ∃ y : Int, m < 2 ^ 53 ∧ x + t ≤ y ∧ y ≤ x + t + 1 ∧
      roundWithAccuracy Format.binary64 .positive n x .exact =
        .finite .positive m y (by omega) := by
  have hfirst := shiftToTargetExponent_eq hn x hx
  have hn₀ : n ≠ 0 := by
    rintro rfl
    rw [Nat.log2_zero] at hn
    omega
  obtain ⟨hlow, hhigh⟩ := (Nat.log2_eq_iff hn₀).1 hn
  have ht := Nat.two_pow_pos t
  have hquot : 2 ^ 52 ≤ n / 2 ^ t ∧ n / 2 ^ t < 2 ^ 53 := by
    rw [Nat.le_div_iff_mul_le ht, Nat.div_lt_iff_lt_mul ht, ← Nat.pow_add, ← Nat.pow_add]
    exact ⟨hlow, by rwa [Nat.add_right_comm] at hhigh⟩
  have hmant : ((⟨n, false, false⟩ : ExtendedMantissa) >>> t).mantissa = n / 2 ^ t :=
    mantissa_shiftRight ..
  have hround := roundedMantissa_cases ((⟨n, false, false⟩ : ExtendedMantissa) >>> t)
  by_cases hcarry : ((⟨n, false, false⟩ : ExtendedMantissa) >>> t).roundedMantissa = 2 ^ 53
  · -- the rounding carries into a 54th bit, so half of the mantissa is kept
    have hsecond := shiftToTargetExponent_eq (n := 2 ^ 53) (t := 1) Nat.log2_two_pow (x + t)
      (by omega)
    have hhalf : (⟨2 ^ 53, false, false⟩ : ExtendedMantissa) >>> 1 = ⟨2 ^ 52, false, false⟩ := rfl
    refine ⟨2 ^ 52, Nat.le_refl _, x + t + 1, by decide, by omega, Int.le_refl _, ?_⟩
    unfold roundWithAccuracy
    simp only [hfirst, hcarry, hsecond, hhalf]
    exact dif_neg (by decide)
  · exact ⟨_, by omega, _, by omega, Int.le_refl _, by omega,
      roundWithAccuracy_eq hfirst rfl (by omega) (by omega) hx⟩

end Round

/-! ## Operations -/

/-- The double and the unpacked number are each other's. -/
structure Unpacks (x : Double) (u : UnpackedFloat) : Prop where
  isNaN : x.isNaN = false
  unpack : unpack Format.binary64 x.bits.toBitVec = u
  pack : pack Format.binary64 u = x.bits.toBitVec
  number : u.isNaN = false

namespace Unpacks

variable {x y z : Double} {u w : UnpackedFloat}

theorem zero : Unpacks ⟨0⟩ (.zero .positive) where
  isNaN := by decide
  unpack := rfl
  pack := rfl
  number := rfl

theorem normal (he : 0 < e) (he' : e < 2047) (hm : 2 ^ 52 ≤ m) (hm' : m < 2 ^ 53) :
    Unpacks (normal e m) (.finite .positive m ((e : Int) - 1075) (by omega)) where
  isNaN := by
    have hbits : (Double.normal e m).bits.toNat = 2 ^ 52 * e + (m - 2 ^ 52) := by
      rw [Double.normal, UInt64.toNat_ofNat', Nat.mod_eq_of_lt (by omega)]
    have hand : ((Double.normal e m).bits &&& 0x7fffffffffffffff).toNat ≤
        (Double.normal e m).bits.toNat := by
      rw [UInt64.toNat_and]
      exact Nat.and_le_left
    unfold Double.isNaN
    rw [decide_eq_false_iff_not, UInt64.lt_iff_toNat_lt]
    change ¬ 9218868437227405312 < _
    omega
  unpack := unpack_normal he he' hm hm'
  pack := pack_normal he he' hm hm'
  number := rfl

theorem toFloat (h : Unpacks x u) : x.toFloat = .ofModel (.pack u) := by
  rw [Double.toFloat, Float.ofBits, Float.Model.ofBits, h.unpack]

theorem unpack_pack (h : Unpacks x u) : (Float.Model.pack u).unpack = u := by
  change UnpackedFloat.unpack Format.binary64 (UnpackedFloat.pack Format.binary64 u) = u
  rw [h.pack, h.unpack]

theorem ofFloat (h : Unpacks x u) : Double.ofFloat (.ofModel (.pack u)) = x := by
  have hbits : Float.toBits (.ofModel (.pack u)) = x.bits := by
    change UInt64.ofBitVec (UnpackedFloat.pack Format.binary64 u) = x.bits
    rw [h.pack, UInt64.ofBitVec_toBitVec]
  rw [Double.ofFloat, hbits]

theorem ofResult (h : Unpacks x u) : Double.ofResult (.ofModel (.pack u)) = x := by
  have hnum : Float.isNaN (.ofModel (.pack u)) = false := by
    change (Float.Model.pack u).unpack.isNaN = false
    rw [h.unpack_pack, h.number]
  rw [Double.ofResult, hnum, if_neg Bool.false_ne_true, h.ofFloat]

theorem combine_eq {op : Float → Float → Float} (hx : Unpacks x u) (hy : Unpacks y w) :
    combine op x y = Double.ofResult (op (.ofModel (.pack u)) (.ofModel (.pack w))) := by
  rw [combine, hx.isNaN, hy.isNaN, if_neg Bool.false_ne_true, if_neg Bool.false_ne_true,
    hx.toFloat, hy.toFloat]

theorem add_eq (hx : Unpacks x u) (hy : Unpacks y w)
    (hz : Unpacks z (add Format.binary64 u w)) : x + y = z := by
  have hsum : (Float.ofModel (.pack u) + Float.ofModel (.pack w)) =
      .ofModel (.pack (add Format.binary64 (Float.Model.pack u).unpack
        (Float.Model.pack w).unpack)) := rfl
  refine (combine_eq hx hy).trans ?_
  rw [hsum, hx.unpack_pack, hy.unpack_pack]
  exact hz.ofResult

theorem sub_eq (hx : Unpacks x u) (hy : Unpacks y w)
    (hz : Unpacks z (sub Format.binary64 u w)) : x - y = z := by
  have hdiff : (Float.ofModel (.pack u) - Float.ofModel (.pack w)) =
      .ofModel (.pack (sub Format.binary64 (Float.Model.pack u).unpack
        (Float.Model.pack w).unpack)) := rfl
  refine (combine_eq hx hy).trans ?_
  rw [hdiff, hx.unpack_pack, hy.unpack_pack]
  exact hz.ofResult

end Unpacks

end HyperLogLog.Double
