import HyperLogLog.Proofs.Header
import HyperLogLog.Proofs.Registry
import HyperLogLog.Proofs.Units

/-!
# The sums of registers are exact

A register of value `v` adds `2⁻ᵛ` to one of two sums, which is a whole number of units of that
sum. There are never more units than a double can count.

* `lowShare`, `highShare`: what a register adds to either sum;
* `tally`: what all registers add;
* `Estimator.Counts`: sums that count given numbers of units;
* **`Counts.withdraw`**, **`Counts.deposit`**: a register leaves and enters without rounding;
* `Registry.Exact`: the sums of a registry are those of its registers;
* **`Exact.raise`**, **`exact_replay`**: registers keep their sums exact, at every step;
* **`replay_congr`**: the order in which coupons are taken in does not show in the registry;
* **`cast_tally_lowShare`**, **`cast_tally_highShare`**: units as the numbers they stand for.
-/

namespace HyperLogLog

open Double (units)

/-! ## Shares -/

/-- What a register of value `v` adds to the lower sum, in units of `2 ^ -31`. -/
def lowShare (v : Nat) : Nat := if v < 32 then 2 ^ (31 - v) else 0

/-- What a register of value `v` adds to the upper sum, in units of `2 ^ -63`. -/
def highShare (v : Nat) : Nat := if v < 32 then 0 else 2 ^ (63 - v)

/-- What the first `n` registers have of some share. -/
def tally (share : Nat → Nat) (n : Nat) (v : Nat → Nat) : Nat :=
  ∑ i ∈ Finset.range n, share (v i)

section Shares

variable {share : Nat → Nat} {n i x b : Nat} {v : Nat → Nat}

theorem lowShare_le (v : Nat) : lowShare v ≤ 2 ^ 31 := by
  unfold lowShare
  split_ifs
  · exact Nat.pow_le_pow_right (by decide) (Nat.sub_le ..)
  · exact Nat.zero_le _

theorem highShare_le (v : Nat) : highShare v ≤ 2 ^ 31 := by
  unfold highShare
  split_ifs
  · exact Nat.zero_le _
  · exact Nat.pow_le_pow_right (by decide) (by omega)

theorem share_pos (v : Nat) : 0 < lowShare v + highShare v := by
  unfold lowShare highShare
  split_ifs
  · exact Nat.add_pos_left (Nat.two_pow_pos _) _
  · exact Nat.add_pos_right _ (Nat.two_pow_pos _)

theorem tally_update (share : Nat → Nat) (hi : i < n) :
    tally share n (Function.update v i x) + share (v i) = tally share n v + share x := by
  have hmem : i ∈ Finset.range n := Finset.mem_range.2 hi
  have hu : (fun j => share (Function.update v i x j)) =
      Function.update (fun j => share (v j)) i (share x) := by
    funext j
    exact Function.apply_update (fun _ => share) v i x j
  rw [tally, tally, hu, Finset.sum_update_of_mem hmem,
    Finset.sum_eq_add_sum_sdiff_singleton_of_mem hmem fun j => share (v j)]
  omega

theorem share_le_tally (share : Nat → Nat) (hi : i < n) : share (v i) ≤ tally share n v :=
  Finset.single_le_sum (f := fun j => share (v j)) (fun _ _ => Nat.zero_le _)
    (Finset.mem_range.2 hi)

theorem tally_le (h : ∀ x, share x ≤ 2 ^ 31) (hn : n ≤ 2 ^ 21) : tally share n v ≤ 2 ^ 52 := by
  have hsum := Finset.sum_le_card_nsmul (Finset.range n) (fun i => share (v i)) (2 ^ 31)
    fun i _ => h (v i)
  rw [Finset.card_range, nsmul_eq_mul, Nat.cast_id] at hsum
  exact Nat.le_trans hsum (Nat.mul_le_mul_right _ hn)

theorem tally_congr {w : Nat → Nat} (h : ∀ i, i < n → v i = w i) :
    tally share n v = tally share n w :=
  Finset.sum_congr rfl fun i hi => congrArg share (h i (Finset.mem_range.1 hi))

end Shares

/-! ## Sums that count units -/

/-- The sums count `a` and `b` units. -/
structure Estimator.Counts (e : Estimator Double) (a b : Nat) : Prop where
  lowSum : e.lowSum = units 31 a
  highSum : e.highSum = units 63 b

namespace Estimator

variable {e e' : Estimator Double} {a b v : Nat}

theorem Counts.advance (h : e.Counts a b) (lgK : Nat) : (e.advance lgK).Counts a b := by
  unfold Estimator.advance
  split_ifs
  · exact h
  · exact ⟨h.lowSum, h.highSum⟩

/-- **A register leaves the sums without rounding.** -/
theorem Counts.withdraw (h : e.Counts a b) (ha : a < 2 ^ 53) (hb : b < 2 ^ 53)
    (hla : lowShare v ≤ a) (hhb : highShare v ≤ b) (hv : v ≤ 63) :
    (e.withdraw v).Counts (a - lowShare v) (b - highShare v) := by
  unfold Estimator.withdraw lowShare highShare at *
  split_ifs at * with hlt
  · refine ⟨?_, h.highSum⟩
    change e.lowSum - Double.invPow v = _
    rw [h.lowSum, Double.invPow_eq (p := 31) (by omega) (by decide) (by omega),
      Double.units_sub hla ha (by decide)]
  · refine ⟨h.lowSum, ?_⟩
    change e.highSum - Double.invPow v = _
    rw [h.highSum, Double.invPow_eq (p := 63) hv (by decide) (by omega),
      Double.units_sub hhb hb (by decide)]

/-- **A register enters the sums without rounding.** -/
theorem Counts.deposit (h : e.Counts a b) (ha : a + lowShare v < 2 ^ 53)
    (hb : b + highShare v < 2 ^ 53) (hv : v ≤ 63) :
    (e.deposit v).Counts (a + lowShare v) (b + highShare v) := by
  unfold Estimator.deposit lowShare highShare at *
  split_ifs at * with hlt
  · refine ⟨?_, h.highSum⟩
    change e.lowSum + Double.invPow v = _
    rw [h.lowSum, Double.invPow_eq (p := 31) (by omega) (by decide) (by omega),
      Double.units_add ha (by decide)]
  · refine ⟨h.lowSum, ?_⟩
    change e.highSum + Double.invPow v = _
    rw [h.highSum, Double.invPow_eq (p := 63) hv (by decide) (by omega),
      Double.units_add hb (by decide)]

theorem composite_congr (hlow : e.lowSum = e'.lowSum) (hhigh : e.highSum = e'.highSum)
    (lgK m n : Nat) : e.composite lgK m n = e'.composite lgK m n := by
  have hraw : e.rawEstimate lgK = e'.rawEstimate lgK := by
    rw [rawEstimate, rawEstimate, hlow, hhigh]
  rw [composite, composite, hraw]

end Estimator

/-! ## Registries -/

namespace Registry

variable {lgK : Nat} {g g' : Registry} {cs ds : List Coupon}

/-- The sums of a registry are those of its registers. -/
def Exact (lgK : Nat) (g : Registry) : Prop :=
  g.history.Counts (tally lowShare (2 ^ lgK) g.values) (tally highShare (2 ^ lgK) g.values)

theorem two_pow_le (hk : lgK ≤ 21) : 2 ^ lgK ≤ 2 ^ 21 := Nat.pow_le_pow_right (by decide) hk

theorem exact_fresh (hk : lgK ≤ 21) : (fresh lgK).Exact lgK := by
  have hle := two_pow_le hk
  have hlow : tally lowShare (2 ^ lgK) (fresh lgK).values = 2 ^ lgK * 2 ^ 31 := by
    refine (Finset.sum_const_nat (m := 2 ^ 31) fun _ _ => rfl).trans ?_
    rw [Finset.card_range]
  have hhigh : tally highShare (2 ^ lgK) (fresh lgK).values = 0 :=
    Finset.sum_eq_zero fun _ _ => rfl
  have hcount : Double.ofCount (2 ^ lgK) = units 31 (2 ^ lgK * 2 ^ 31) := by
    rw [Double.ofCount_eq (by omega), Double.units_shift 31 (by rw [Nat.log2_two_pow]; omega)]
  constructor
  · rw [hlow]
    exact hcount
  · rw [hhigh, Double.units_zero]
    rfl

/-- **A register that rises keeps the sums exact**, and so does each step of it. -/
theorem Exact.raise (h : g.Exact lgK) (hk : lgK ≤ 21) {i x : Nat} (hi : i < 2 ^ lgK)
    (hv : g.values i ≤ 63) (hx : x ≤ 63) :
    ∃ a b, a ≤ 2 ^ 52 ∧ b ≤ 2 ^ 52 ∧ a + lowShare (g.values i) = tally lowShare (2 ^ lgK) g.values ∧
      b + highShare (g.values i) = tally highShare (2 ^ lgK) g.values ∧
      ((g.history.advance lgK).withdraw (g.values i)).Counts a b ∧
      a + lowShare x ≤ 2 ^ 52 ∧ b + highShare x ≤ 2 ^ 52 ∧
      (g.history.raise lgK (g.values i) x).Counts (a + lowShare x) (b + highShare x) := by
  have hle := two_pow_le hk
  have hlow := tally_le (v := g.values) lowShare_le hle
  have hhigh := tally_le (v := g.values) highShare_le hle
  have hlow' := tally_le (v := Function.update g.values i x) lowShare_le hle
  have hhigh' := tally_le (v := Function.update g.values i x) highShare_le hle
  have hl := share_le_tally lowShare (v := g.values) hi
  have hh := share_le_tally highShare (v := g.values) hi
  have hul := tally_update lowShare (v := g.values) (x := x) hi
  have huh := tally_update highShare (v := g.values) (x := x) hi
  have hout := (h.advance lgK).withdraw (by omega) (by omega) hl hh hv
  exact ⟨_, _, by omega, by omega, by omega, by omega, hout, by omega, by omega,
    hout.deposit (by omega) (by omega) hx⟩

theorem Exact.take (h : g.Exact lgK) (hk : lgK ≤ 21) (hv : ∀ i, g.values i ≤ 63) (c : Coupon) :
    (Registry.take lgK g c).Exact lgK := by
  have hi : c.slot % 2 ^ lgK < 2 ^ lgK := Nat.mod_lt _ (Nat.two_pow_pos _)
  by_cases hle : c.value ≤ g.values (c.slot % 2 ^ lgK)
  · rwa [show Registry.take lgK g c = g from if_pos hle]
  rw [show Registry.take lgK g c = _ from if_neg hle]
  obtain ⟨a, b, -, -, ha, hb, -, -, -, hraise⟩ := h.raise hk hi (hv _) c.value_le
  have hul := tally_update lowShare (v := g.values) (x := c.value) hi
  have huh := tally_update highShare (v := g.values) (x := c.value) hi
  unfold Exact
  dsimp only
  convert hraise using 1
  · omega
  · omega

theorem Exact.foldl_take (h : g.Exact lgK) (hk : lgK ≤ 21) (hv : ∀ i, g.values i ≤ 63) :
    (cs.foldl (Registry.take lgK) g).Exact lgK := by
  induction cs generalizing g with
  | nil => exact h
  | cons c cs ih => exact ih (h.take hk hv c) (values_take_le c hv)

theorem Exact.putHistory (h : g.Exact lgK) (x : Double) (o : Bool) :
    Exact lgK ⟨g.values, ⟨x, g.history.lowSum, g.history.highSum, o⟩⟩ :=
  ⟨h.lowSum, h.highSum⟩

theorem exact_replay (hk : lgK ≤ 21) (x : Double) : (replay lgK cs x).Exact lgK :=
  ((exact_fresh hk).foldl_take hk fun _ => Nat.zero_le _).putHistory x _

theorem outOfOrder_take (lgK : Nat) (g : Registry) (c : Coupon) :
    (g.take lgK c).history.outOfOrder = g.history.outOfOrder := by
  unfold take
  dsimp only
  split_ifs
  · rfl
  · exact Estimator.outOfOrder_raise ..

theorem outOfOrder_foldl_take (lgK : Nat) (g : Registry) (cs : List Coupon) :
    (cs.foldl (take lgK) g).history.outOfOrder = g.history.outOfOrder := by
  induction cs generalizing g with
  | nil => rfl
  | cons c cs ih => rw [List.foldl_cons, ih, outOfOrder_take]

/-- Exact sums depend on the registers alone. -/
theorem Exact.sums_congr (h : g.Exact lgK) (h' : g'.Exact lgK)
    (hv : ∀ i, i < 2 ^ lgK → g.values i = g'.values i) :
    g.history.lowSum = g'.history.lowSum ∧ g.history.highSum = g'.history.highSum := by
  rw [h.lowSum, h'.lowSum, h.highSum, h'.highSum, tally_congr hv, tally_congr hv]
  exact ⟨rfl, rfl⟩

theorem ext_of_exact (h : g.Exact lgK) (h' : g'.Exact lgK) (hv : g.values = g'.values)
    (ht : g.history.total = g'.history.total)
    (ho : g.history.outOfOrder = g'.history.outOfOrder) : g = g' := by
  obtain ⟨hlow, hhigh⟩ := h.sums_congr h' fun i _ => congrFun hv i
  obtain ⟨v, x, low, high, o⟩ := g
  obtain ⟨v', x', low', high', o'⟩ := g'
  dsimp only at hv ht ho hlow hhigh
  rw [hv, ht, ho, hlow, hhigh]

/-- **What coupons turn into does not depend on their order**, since the sums are exact. -/
theorem replay_congr (hk : lgK ≤ 21) (x : Double) (h : ∀ c, c.value ≠ 0 → (c ∈ cs ↔ c ∈ ds)) :
    replay lgK cs x = replay lgK ds x := by
  refine ext_of_exact (exact_replay hk x) (exact_replay hk x) (funext fun i => ?_) rfl ?_
  · rw [values_replay, values_replay, peak_congr h]
  · exact (outOfOrder_foldl_take lgK _ cs).trans (outOfOrder_foldl_take lgK _ ds).symm

end Registry

/-! ## The numbers that the sums stand for -/

section Values

variable {n x : Nat} {v : Nat → Nat}

/-- What a register of value `v` adds to the lower sum. -/
def lowPart (v : Nat) : ℚ := if v < 32 then 2 ^ (-v : ℤ) else 0

/-- What a register of value `v` adds to the upper sum. -/
def highPart (v : Nat) : ℚ := if 32 ≤ v then 2 ^ (-v : ℤ) else 0

theorem cast_lowShare (x : Nat) : (lowShare x : ℚ) * 2 ^ (-31 : ℤ) = lowPart x := by
  unfold lowShare lowPart
  split_ifs with hlt
  · have hexp : ((31 - x : Nat) : ℤ) + -31 = -x := by omega
    rw [Nat.cast_pow, Nat.cast_ofNat, ← zpow_natCast, ← zpow_add₀ two_ne_zero, hexp]
  · rw [Nat.cast_zero, zero_mul]

theorem cast_highShare (hx : x ≤ 63) : (highShare x : ℚ) * 2 ^ (-63 : ℤ) = highPart x := by
  unfold highShare highPart
  by_cases hlt : x < 32
  · rw [if_pos hlt, if_neg (by omega), Nat.cast_zero, zero_mul]
  · have hexp : ((63 - x : Nat) : ℤ) + -63 = -x := by omega
    rw [if_neg hlt, if_pos (by omega), Nat.cast_pow, Nat.cast_ofNat, ← zpow_natCast,
      ← zpow_add₀ two_ne_zero, hexp]

theorem cast_tally (share : Nat → Nat) (n : Nat) (v : Nat → Nat) (x : ℚ) :
    (tally share n v : ℚ) * x = ∑ i ∈ Finset.range n, (share (v i) : ℚ) * x := by
  rw [tally, Nat.cast_sum, Finset.sum_mul]

/-- **The lower sum is the sum of `2⁻ᵛ` over the registers below 32.** -/
theorem cast_tally_lowShare (n : Nat) (v : Nat → Nat) :
    (tally lowShare n v : ℚ) * 2 ^ (-31 : ℤ) =
      ∑ i ∈ Finset.range n with v i < 32, 2 ^ (-v i : ℤ) := by
  rw [cast_tally, Finset.sum_filter]
  exact Finset.sum_congr rfl fun i _ => cast_lowShare (v i)

/-- **The upper sum is the sum of `2⁻ᵛ` over the registers from 32 on.** -/
theorem cast_tally_highShare (hv : ∀ i, i < n → v i ≤ 63) :
    (tally highShare n v : ℚ) * 2 ^ (-63 : ℤ) =
      ∑ i ∈ Finset.range n with 32 ≤ v i, 2 ^ (-v i : ℤ) := by
  rw [cast_tally, Finset.sum_filter]
  exact Finset.sum_congr rfl fun i hi => cast_highShare (hv i (Finset.mem_range.1 hi))

end Values

end HyperLogLog
