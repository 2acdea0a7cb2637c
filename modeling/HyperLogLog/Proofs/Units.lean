import HyperLogLog.Proofs.Rounding

/-!
# Doubles that count units

The double `n * 2 ^ -p` counts `n` units of `2 ^ -p`. Up to 53 bits such doubles are added and
subtracted as their counts are.

* `Double.units`: the double of a number of units;
* **`Double.units_add`**, **`Double.units_sub`**: their sums and differences are exact;
* `Double.ofCount_eq`, `Double.invPow_eq`: counts and powers are numbers of units;
* `Double.value`: the number that a double stands for;
* **`Double.value_units_add_pos`**: a sum of units of different sizes is positive.
-/

namespace HyperLogLog.Double

open Float.Model (Format UnpackedFloat)
open Float.Model.UnpackedFloat

variable {a b n p : Nat}

/-- The double `n * 2 ^ -p`. -/
def units (p n : Nat) : Double :=
  if n = 0 then ⟨0⟩ else normal (1023 + n.log2 - p) (n * 2 ^ (52 - n.log2))

theorem log2_le_of_lt (hn : n ≠ 0) (h : n < 2 ^ 53) : n.log2 ≤ 52 :=
  Nat.le_of_lt_succ ((Nat.log2_lt hn).2 h)

theorem mantissa_bounds (hn : n ≠ 0) (h : n < 2 ^ 53) :
    2 ^ 52 ≤ n * 2 ^ (52 - n.log2) ∧ n * 2 ^ (52 - n.log2) < 2 ^ 53 := by
  have hle := log2_le_of_lt hn h
  have hlog : (n * 2 ^ (52 - n.log2)).log2 = 52 := by
    rw [log2_mul_two_pow hn]
    omega
  exact (Nat.log2_eq_iff (Nat.mul_ne_zero hn (Nat.ne_of_gt (Nat.two_pow_pos _)))).1 hlog

theorem finite_congr {m m' : Nat} {x x' : Int} {h : 0 < m} {k : 0 < m'} (hm : m = m')
    (hx : x = x') : UnpackedFloat.finite .positive m x h = .finite .positive m' x' k := by
  subst hm hx
  rfl

theorem mantissa_pos (hn : n ≠ 0) (t : Nat) : 0 < n * 2 ^ t :=
  Nat.mul_pos (Nat.pos_of_ne_zero hn) (Nat.two_pow_pos _)

theorem Unpacks.units (hn : n ≠ 0) (h : n < 2 ^ 53) (hp : p ≤ 1000) :
    Unpacks (units p n)
      (.finite .positive (n * 2 ^ (52 - n.log2)) (n.log2 - p - 52) (mantissa_pos hn _)) := by
  obtain ⟨hlow, hhigh⟩ := mantissa_bounds hn h
  have hle := log2_le_of_lt hn h
  have := Unpacks.normal (e := 1023 + n.log2 - p) (by omega) (by omega) hlow hhigh
  rw [Double.units, if_neg hn]
  rwa [finite_congr (k := mantissa_pos hn _) rfl
    (show ((1023 + n.log2 - p : Nat) : Int) - 1075 = n.log2 - p - 52 by omega)] at this

/-- **A number of up to 53 bits is not rounded**, whatever power of two it comes with. -/
theorem round_units (hn : n ≠ 0) (h : n < 2 ^ 53) (hp : p ≤ 1000) (j : Nat) :
    round Format.binary64 .positive (n * 2 ^ j) (-p - j) =
      .finite .positive (n * 2 ^ (52 - n.log2)) (n.log2 - p - 52) (mantissa_pos hn _) := by
  obtain ⟨hlow, hhigh⟩ := mantissa_bounds hn h
  have hle := log2_le_of_lt hn h
  have htarget : Format.binary64.targetExponent
      (Float.Model.totalExponent (n * 2 ^ j) (-p - j)) = n.log2 - p - 52 := by
    unfold Format.targetExponent Float.Model.totalExponent
    rw [log2_mul_two_pow hn]
    change max (((n.log2 + j : Nat) : Int) + 1 + (-p - j) - 53) (-1074) = _
    omega
  have hshift : ((-p - j : Int) - (n.log2 - p - 52)).toNat = 52 - n.log2 - j := by omega
  have hmant : n * 2 ^ j * 2 ^ (52 - n.log2 - j) =
      n * 2 ^ (52 - n.log2) * 2 ^ (n.log2 + j - 52) := by
    rw [Nat.mul_assoc, Nat.mul_assoc, ← Nat.pow_add, ← Nat.pow_add]
    congr 2
    omega
  have hexp : (-p - j : Int) - ((52 - n.log2 - j : Nat) : Int) =
      n.log2 - p - 52 - ((n.log2 + j - 52 : Nat) : Int) := by omega
  unfold Float.Model.UnpackedFloat.round decreaseExponent
  dsimp only
  rw [htarget, hshift, Nat.shiftLeft_eq, hmant, hexp]
  exact round_exact hlow hhigh _ _ (by omega)

theorem mantissa_decreased (hn : n ≠ 0) (h : n < 2 ^ 53) {l : Nat} (hl : l ≤ n.log2) :
    decreaseExponent (n * 2 ^ (52 - n.log2)) (n.log2 - p - 52) (l - p - 52) =
      (n * 2 ^ (52 - l), (l - p - 52 : Int)) := by
  have hle := log2_le_of_lt hn h
  have hshift : ((n.log2 - p - 52 : Int) - (l - p - 52)).toNat = n.log2 - l := by omega
  unfold decreaseExponent
  dsimp only
  rw [hshift, Nat.shiftLeft_eq, Nat.mul_assoc, ← Nat.pow_add]
  refine Prod.ext ?_ ?_
  · change n * 2 ^ (52 - n.log2 + (n.log2 - l)) = _
    congr 2
    omega
  · change (n.log2 - p - 52 : Int) - ((n.log2 - l : Nat) : Int) = _
    omega

/-! ## Sums and differences -/

@[simp] theorem units_zero (p : Nat) : units p 0 = ⟨0⟩ := if_pos rfl

theorem normalize_pos {m : Nat} (hm : 0 < m) (x : Int) :
    UnpackedFloat.normalize Format.binary64 (m : Int) x .positive =
      round Format.binary64 .positive m x := by
  have hcmp : compare (m : Int) 0 = .gt := by
    rw [Int.compare_eq_gt]
    omega
  unfold UnpackedFloat.normalize
  rw [hcmp]
  rfl

theorem decreaseExponent_pos {m : Nat} (hm : 0 < m) (x y : Int) :
    0 < (decreaseExponent m x y).1 := by
  unfold decreaseExponent
  dsimp only
  rw [Nat.shiftLeft_eq]
  exact Nat.mul_pos hm (Nat.two_pow_pos _)

theorem add_finite {m m' : Nat} (x z : Int) (hm : 0 < m) (hm' : 0 < m') :
    add Format.binary64 (.finite .positive m x hm) (.finite .positive m' z hm') =
      round Format.binary64 .positive ((decreaseExponent m x (min x z)).1 +
        (decreaseExponent m' z (min x z)).1) (min x z) := by
  have hpos := decreaseExponent_pos hm x (min x z)
  refine Eq.trans ?_ (normalize_pos (Nat.add_pos_left hpos _) _)
  rw [Int.natCast_add]
  rfl

theorem sub_finite {m m' : Nat} {x x' : Int} (hm : 0 < m) (hm' : 0 < m') :
    sub Format.binary64 (.finite .positive m x hm) (.finite .positive m' x' hm') =
      UnpackedFloat.normalize Format.binary64 ((decreaseExponent m x (min x x')).1 -
        (decreaseExponent m' x' (min x x')).1) (min x x') .positive :=
  rfl

theorem decreased (ha : a ≠ 0) (ha' : a < 2 ^ 53) (hb : b ≠ 0) (hb' : b < 2 ^ 53) :
    let x : Int := min (a.log2 - p - 52) (b.log2 - p - 52)
    ∃ j : Nat, x = -p - j ∧
      (decreaseExponent (a * 2 ^ (52 - a.log2)) (a.log2 - p - 52) x).1 = a * 2 ^ j ∧
      (decreaseExponent (b * 2 ^ (52 - b.log2)) (b.log2 - p - 52) x).1 = b * 2 ^ j := by
  have hla := log2_le_of_lt ha ha'
  have hlb := log2_le_of_lt hb hb'
  have hmin : min (a.log2 - p - 52 : Int) (b.log2 - p - 52) =
      ((min a.log2 b.log2 : Nat) : Int) - p - 52 := by omega
  dsimp only
  refine ⟨52 - min a.log2 b.log2, by omega, ?_, ?_⟩
  · rw [hmin, mantissa_decreased ha ha' (Nat.min_le_left ..)]
  · rw [hmin, mantissa_decreased hb hb' (Nat.min_le_right ..)]

/-- **Adding whole numbers of units is exact** up to 53 bits. -/
theorem units_add (h : a + b < 2 ^ 53) (hp : p ≤ 1000) :
    units p a + units p b = units p (a + b) := by
  by_cases ha : a = 0
  · rw [ha, units_zero, Nat.zero_add]
    by_cases hb : b = 0
    · rw [hb, units_zero]
      exact Unpacks.zero.add_eq Unpacks.zero Unpacks.zero
    · have hy := Unpacks.units (p := p) hb (by omega) hp
      exact Unpacks.zero.add_eq hy hy
  have hx := Unpacks.units (p := p) ha (by omega) hp
  by_cases hb : b = 0
  · rw [hb, units_zero, Nat.add_zero]
    exact hx.add_eq Unpacks.zero hx
  have hy := Unpacks.units (p := p) hb (by omega) hp
  have hz := Unpacks.units (p := p) (n := a + b) (by omega) h hp
  obtain ⟨j, hx', hja, hjb⟩ := decreased (p := p) ha (by omega) hb (by omega)
  refine hx.add_eq hy ?_
  rw [add_finite, hja, hjb, hx', ← Nat.add_mul, round_units (by omega) h hp]
  exact hz

/-- **Subtracting whole numbers of units is exact.** -/
theorem units_sub (h : b ≤ a) (ha : a < 2 ^ 53) (hp : p ≤ 1000) :
    units p a - units p b = units p (a - b) := by
  by_cases hb : b = 0
  · rw [hb, units_zero, Nat.sub_zero]
    by_cases ha₀ : a = 0
    · rw [ha₀, units_zero]
      exact Unpacks.zero.sub_eq Unpacks.zero Unpacks.zero
    · have hx := Unpacks.units (p := p) ha₀ ha hp
      exact hx.sub_eq Unpacks.zero hx
  have hx := Unpacks.units (p := p) (n := a) (by omega) ha hp
  have hy := Unpacks.units (p := p) hb (by omega) hp
  obtain ⟨j, hx', hja, hjb⟩ := decreased (p := p) (a := a) (by omega) ha hb (by omega)
  refine hx.sub_eq hy ?_
  rw [sub_finite, hja, hjb, hx']
  by_cases heq : a = b
  · rw [heq, Int.sub_self, Nat.sub_self, units_zero]
    exact Unpacks.zero
  · have hdiff : ((a * 2 ^ j : Nat) : Int) - ((b * 2 ^ j : Nat) : Int) =
        (((a - b) * 2 ^ j : Nat) : Int) := by
      rw [Nat.sub_mul, Int.natCast_sub (Nat.mul_le_mul_right _ h)]
    rw [hdiff, normalize_pos (mantissa_pos (by omega) j), round_units (by omega) (by omega) hp]
    exact Unpacks.units (by omega) (by omega) hp

/-! ## Counts and powers -/

theorem units_shift (i : Nat) (hi : n.log2 + i ≤ 52) : units p n = units (p + i) (n * 2 ^ i) := by
  by_cases hn : n = 0
  · rw [hn, Nat.zero_mul, units_zero, units_zero]
  have hexp : 1023 + (n.log2 + i) - (p + i) = 1023 + n.log2 - p := by omega
  have hmant : i + (52 - (n.log2 + i)) = 52 - n.log2 := by omega
  unfold units
  rw [if_neg hn, if_neg (Nat.ne_of_gt (mantissa_pos hn i)), log2_mul_two_pow hn, Nat.mul_assoc,
    ← Nat.pow_add, hexp, hmant]

/-- **A count is not rounded** up to 53 bits. -/
theorem ofCount_eq (h : n < 2 ^ 53) : ofCount n = units 0 n := by
  have hbits : n.toUInt64.toNat = n := UInt64.toNat_ofNat_of_lt' (Nat.lt_trans h (by decide))
  have hfloat : n.toUInt64.toFloat = .ofModel (.pack
      (UnpackedFloat.normalize Format.binary64 (n.toUInt64.toNat : Int) 0 .positive)) := rfl
  rw [ofCount, hfloat, hbits]
  by_cases hn : n = 0
  · rw [hn, units_zero]
    exact Unpacks.zero.ofFloat
  have hround := round_units (p := 0) hn h (by decide) 0
  rw [Nat.pow_zero, Nat.mul_one] at hround
  rw [normalize_pos (Nat.pos_of_ne_zero hn)]
  exact (congrArg (fun u => ofFloat (.ofModel (.pack u))) hround).trans
    (Unpacks.units hn h (by decide)).ofFloat

theorem invPow_eq {v : Nat} (hv : v ≤ p) (hp : p ≤ 63) (hi : p - v ≤ 52) :
    invPow v = units p (2 ^ (p - v)) := by
  have hexp : 1023 + (p - v) - p = 1023 - v := by omega
  have hmant : p - v + (52 - (p - v)) = 52 := by omega
  unfold units
  rw [if_neg (Nat.ne_of_gt (Nat.two_pow_pos _)), Nat.log2_two_pow, ← Nat.pow_add, hexp, hmant,
    normal, invPow, Nat.sub_self, Nat.add_zero]
  refine congrArg Double.mk (UInt64.toNat_inj.1 ?_)
  have hsmall : (1023 - v).toUInt64.toNat = 1023 - v :=
    UInt64.toNat_ofNat_of_lt' (Nat.lt_of_le_of_lt (Nat.sub_le ..) (by decide))
  rw [UInt64.toNat_shiftLeft, hsmall, UInt64.toNat_ofNat', Nat.shiftLeft_eq, Nat.mul_comm]
  rfl

/-! ## Values -/

/-- The number that a double stands for; zero if it stands for none. -/
def value (x : Double) : ℚ :=
  let e : Nat := x.bits.toNat / 2 ^ 52 % 2048
  let f : Nat := x.bits.toNat % 2 ^ 52
  let magnitude : ℚ :=
    if e = 2047 then 0
    else if e = 0 then f * 2 ^ (-1074 : ℤ)
    else (2 ^ 52 + f : Nat) * 2 ^ ((e : ℤ) - 1075)
  if x.bits.toNat < 2 ^ 63 then magnitude else -magnitude

theorem value_normal {e m : Nat} (he : 0 < e) (he' : e < 2047) (hm : 2 ^ 52 ≤ m)
    (hm' : m < 2 ^ 53) : (normal e m).value = m * 2 ^ ((e : ℤ) - 1075) := by
  have hbits : (normal e m).bits.toNat = 2 ^ 52 * e + (m - 2 ^ 52) := by
    rw [normal, UInt64.toNat_ofNat', Nat.mod_eq_of_lt (by omega)]
  have he₀ : (2 ^ 52 * e + (m - 2 ^ 52)) / 2 ^ 52 % 2048 = e := by omega
  have hf₀ : (2 ^ 52 * e + (m - 2 ^ 52)) % 2 ^ 52 = m - 2 ^ 52 := by omega
  unfold value
  rw [hbits]
  dsimp only
  rw [he₀, hf₀, if_pos (by omega), if_neg (by omega), if_neg (by omega), Nat.add_sub_of_le hm]

theorem value_units (h : n < 2 ^ 53) (hp : p ≤ 1000) : (units p n).value = n * 2 ^ (-p : ℤ) := by
  by_cases hn : n = 0
  · rw [hn, units_zero]
    simp [value]
  obtain ⟨hlow, hhigh⟩ := mantissa_bounds hn h
  have hle := log2_le_of_lt hn h
  rw [units, if_neg hn, value_normal (by omega) (by omega) hlow hhigh]
  have hexp : ((52 - n.log2 : Nat) : ℤ) + (((1023 + n.log2 - p : Nat) : ℤ) - 1075) = -p := by omega
  rw [Nat.cast_mul, Nat.cast_pow, Nat.cast_ofNat, mul_assoc, ← zpow_natCast,
    ← zpow_add₀ two_ne_zero, hexp]

/-! ## A sum of positive numbers is positive -/

theorem round_of_le {x : Int} {t : Nat} (hn : n.log2 = 52 + t) (hx : -1074 ≤ x + t) :
    round Format.binary64 .positive n x =
      roundWithAccuracy Format.binary64 .positive n x .exact := by
  have hshift : (x - (x + t)).toNat = 0 := by omega
  unfold Float.Model.UnpackedFloat.round decreaseExponent
  dsimp only
  rw [targetExponent_eq hn x hx, hshift, Nat.shiftLeft_zero, Int.natCast_zero, Int.sub_zero]

theorem decreaseExponent_bounds {m : Nat} (hm : 2 ^ 52 ≤ m) (hm' : m < 2 ^ 53) {x y : Int}
    (hy : x - y ≤ 200) :
    2 ^ 52 ≤ (decreaseExponent m x y).1 ∧ (decreaseExponent m x y).1 < 2 ^ 253 := by
  have hpow : 2 ^ (x - y).toNat ≤ 2 ^ 200 := Nat.pow_le_pow_right (by decide) (by omega)
  have hone := Nat.two_pow_pos (x - y).toNat
  unfold decreaseExponent
  dsimp only
  rw [Nat.shiftLeft_eq]
  constructor
  · exact Nat.le_trans hm (Nat.le_mul_of_pos_right _ hone)
  · calc m * 2 ^ (x - y).toNat ≤ m * 2 ^ 200 := Nat.mul_le_mul_left _ hpow
      _ < 2 ^ 53 * 2 ^ 200 := Nat.mul_lt_mul_of_pos_right hm' (by decide)

theorem value_normal_pos {e m : Nat} (he : 0 < e) (he' : e < 2047) (hm : 2 ^ 52 ≤ m)
    (hm' : m < 2 ^ 53) : 0 < (normal e m).value := by
  have hpos : 0 < m := by omega
  rw [value_normal he he' hm hm']
  positivity

theorem value_normal_add_pos {e m e' m' : Nat} (he : 900 ≤ e) (he₁ : e ≤ 1100) (hm : 2 ^ 52 ≤ m)
    (hm₁ : m < 2 ^ 53) (he' : 900 ≤ e') (he₁' : e' ≤ 1100) (hm' : 2 ^ 52 ≤ m')
    (hm₁' : m' < 2 ^ 53) : 0 < (normal e m + normal e' m').value := by
  have hx := Unpacks.normal (e := e) (by omega) (by omega) hm hm₁
  have hy := Unpacks.normal (e := e') (by omega) (by omega) hm' hm₁'
  have hadd := add_finite ((e : Int) - 1075) ((e' : Int) - 1075) (show 0 < m by omega)
    (show 0 < m' by omega)
  obtain ⟨y, hy₁⟩ : ∃ y : Int, y = min ((e : Int) - 1075) ((e' : Int) - 1075) := ⟨_, rfl⟩
  rw [← hy₁] at hadd
  obtain ⟨hlow, hhigh⟩ := decreaseExponent_bounds (x := (e : Int) - 1075) (y := y) hm hm₁ (by omega)
  obtain ⟨hlow', hhigh'⟩ :=
    decreaseExponent_bounds (x := (e' : Int) - 1075) (y := y) hm' hm₁' (by omega)
  generalize (decreaseExponent m ((e : Int) - 1075) y).1 = a at *
  generalize (decreaseExponent m' ((e' : Int) - 1075) y).1 = b at *
  have hlog : 52 ≤ (a + b).log2 := (Nat.le_log2 (by omega)).2 (by omega)
  have hlog' : (a + b).log2 < 254 := (Nat.log2_lt (by omega)).2 (by omega)
  obtain ⟨t, ht⟩ := Nat.exists_eq_add_of_le hlog
  obtain ⟨q, hq, z, hq', hz, hz', hround⟩ := round_normal ht y (by omega)
  obtain ⟨f, hf⟩ : ∃ f : Nat, (f : Int) = z + 1075 := ⟨(z + 1075).toNat, by omega⟩
  have hsum := Unpacks.normal (e := f) (by omega) (by omega) hq hq'
  rw [finite_congr (k := (by omega)) rfl (show (f : Int) - 1075 = z by omega)] at hsum
  rw [← hround, ← round_of_le ht (by omega), ← hadd] at hsum
  rw [hx.add_eq hy hsum]
  exact value_normal_pos (by omega) (by omega) hq hq'

/-- **The sum of two numbers of units is positive** unless both are zero. -/
theorem value_units_add_pos {q : Nat} (ha : a < 2 ^ 53) (hb : b < 2 ^ 53) (h : 0 < a + b)
    (hp : p ≤ 100) (hq : q ≤ 100) : 0 < (units p a + units q b).value := by
  have hunits : ∀ {p n : Nat}, n ≠ 0 → n < 2 ^ 53 → p ≤ 100 → 0 < (units p n).value := by
    intro p n hn hn' hp
    have : 0 < n := Nat.pos_of_ne_zero hn
    rw [value_units hn' (by omega)]
    positivity
  by_cases ha₀ : a = 0
  · have hy := Unpacks.units (p := q) (n := b) (by omega) hb (by omega)
    rw [ha₀, units_zero, Unpacks.zero.add_eq hy hy]
    exact hunits (by omega) hb hq
  have hx := Unpacks.units (p := p) ha₀ ha (by omega)
  by_cases hb₀ : b = 0
  · rw [hb₀, units_zero, hx.add_eq Unpacks.zero hx]
    exact hunits ha₀ ha hp
  have hla := log2_le_of_lt ha₀ ha
  have hlb := log2_le_of_lt hb₀ hb
  obtain ⟨hlow, hhigh⟩ := mantissa_bounds ha₀ ha
  obtain ⟨hlow', hhigh'⟩ := mantissa_bounds hb₀ hb
  rw [units, units, if_neg ha₀, if_neg hb₀]
  exact value_normal_add_pos (by omega) (by omega) hlow hhigh (by omega) (by omega) hlow' hhigh'

end HyperLogLog.Double
