import HyperLogLog.Estimate.Registers
import Mathlib.Data.List.Basic
import Mathlib.Logic.Function.Basic
import Mathlib.Order.MinMax
import Mathlib.Tactic.SplitIfs

/-!
# Registers, whatever their width

What the registers of a dense image stand for is a function from slots to values, of which the
width is only a coding.

* `level`: how many registers hold a given value;
* `Registry`, `Registry.take`: registers with the sums of their history, and what a coupon does;
* `peak`: the largest value among the coupons that fall on a slot;
* **`values_foldl_take`**: registers that start at zero end at the peaks of the coupons taken in;
* **`le_peak_iff`**, `peak_map_folded`: peaks depend on the set of coupons, and fold to smaller
  sizes.
-/

namespace HyperLogLog

/-! ## How many registers hold a value -/

/-- How many of the first `n` registers hold `m`. -/
def level (n : Nat) (v : Nat → Nat) (m : Nat) : Nat := (List.range n).countP fun i => v i = m

section Level

variable {n m : Nat} {v w : Nat → Nat}

theorem level_succ : level (n + 1) v m = level n v m + if v n = m then 1 else 0 := by
  simp [level, List.range_succ, List.countP_append, List.countP_cons]

theorem level_congr (h : ∀ i, i < n → (v i = m ↔ w i = m)) : level n v m = level n w m :=
  List.countP_congr fun i hi => by simpa using h i (List.mem_range.1 hi)

theorem level_le : level n v m ≤ n := by
  simpa [level] using List.countP_le_length (p := fun i => decide (v i = m)) (l := List.range n)

theorem level_pos : 0 < level n v m ↔ ∃ i, i < n ∧ v i = m := by
  simp [level, List.countP_pos_iff]

theorem level_of_forall (h : ∀ i, i < n → v i = m) : level n v m = n := by
  have := List.countP_eq_length (p := fun i => decide (v i = m)) (l := List.range n)
  rw [level, this.2 fun i hi => decide_eq_true (h i (List.mem_range.1 hi)), List.length_range]

theorem level_update {i : Nat} (x : Nat) (hi : i < n) :
    level n (Function.update v i x) m + (if v i = m then 1 else 0) =
      level n v m + if x = m then 1 else 0 := by
  induction n with
  | zero => omega
  | succ n ih =>
    rw [level_succ, level_succ]
    by_cases h : i = n
    · subst h
      have hw : level i (Function.update v i x) m = level i v m :=
        level_congr fun j hj => by rw [Function.update_of_ne (by omega)]
      rw [hw, Function.update_self]
      omega
    · rw [Function.update_of_ne (Ne.symm h)]
      have := ih (by omega)
      omega

end Level

/-! ## Registers and their history -/

/-- What the registers of a dense image hold, with the sums of their history. -/
structure Registry where
  values : Nat → Nat
  history : Estimator Double

namespace Registry

/-- Registers that are all zero. -/
def fresh (lgK : Nat) : Registry := ⟨fun _ => 0, Estimator.fresh lgK⟩

/-- A coupon raises the register of its slot to its value, if that is more. -/
def take (lgK : Nat) (g : Registry) (c : Coupon) : Registry :=
  let slot := c.slot % 2 ^ lgK
  if c.value ≤ g.values slot then g
  else ⟨Function.update g.values slot c.value, g.history.raise lgK (g.values slot) c.value⟩

theorem values_take (lgK : Nat) (g : Registry) (c : Coupon) (i : Nat) :
    (g.take lgK c).values i =
      max (g.values i) (if c.slot % 2 ^ lgK = i then c.value else 0) := by
  unfold take
  dsimp only
  split_ifs with h hi hi
  · rw [← hi]
    omega
  · omega
  · rw [hi] at h ⊢
    simp only [Function.update_self]
    omega
  · simp only [Function.update_of_ne (Ne.symm hi)]
    omega

theorem values_take_le {lgK : Nat} {g : Registry} (c : Coupon) (h : ∀ i, g.values i ≤ 63)
    (i : Nat) : (g.take lgK c).values i ≤ 63 := by
  have := h i
  have := c.value_le
  rw [values_take]
  split_ifs <;> omega

end Registry

/-! ## Peaks -/

/-- The largest value among the coupons that fall on a slot, `2 ^ lgK` slots being told apart. -/
def peak (lgK : Nat) (cs : List Coupon) (i : Nat) : Nat :=
  ((cs.filter fun c => c.slot % 2 ^ lgK = i).map Coupon.value).foldr max 0

section Peak

variable {lgK : Nat} {cs ds : List Coupon} {i : Nat}

@[simp] theorem peak_nil : peak lgK [] i = 0 := rfl

theorem peak_cons (c : Coupon) :
    peak lgK (c :: cs) i = max (if c.slot % 2 ^ lgK = i then c.value else 0) (peak lgK cs i) := by
  unfold peak
  rw [List.filter_cons]
  split_ifs with h₁ h₂ h₂
  · rfl
  · exact absurd (of_decide_eq_true h₁) h₂
  · exact absurd (decide_eq_true h₂) h₁
  · exact (Nat.zero_max _).symm

/-- **A peak reaches a height exactly if some coupon on its slot does.** -/
theorem le_peak_iff {x : Nat} (hx : 0 < x) :
    x ≤ peak lgK cs i ↔ ∃ c ∈ cs, c.slot % 2 ^ lgK = i ∧ x ≤ c.value := by
  induction cs with
  | nil => simp only [peak_nil, List.not_mem_nil, false_and, exists_false, iff_false]; omega
  | cons c cs ih =>
    rw [peak_cons, le_max_iff, ih, List.exists_mem_cons_iff]
    refine or_congr ?_ Iff.rfl
    split_ifs with h
    · exact ⟨fun hc => ⟨h, hc⟩, fun hc => hc.2⟩
    · exact ⟨fun hc => by omega, fun hc => absurd hc.1 h⟩

theorem value_le_peak {c : Coupon} (hc : c ∈ cs) : c.value ≤ peak lgK cs (c.slot % 2 ^ lgK) := by
  rcases Nat.eq_zero_or_pos c.value with h₀ | hpos
  · exact h₀ ▸ Nat.zero_le _
  · exact (le_peak_iff hpos).2 ⟨c, hc, rfl, Nat.le_refl _⟩

theorem peak_append : peak lgK (cs ++ ds) i = max (peak lgK cs i) (peak lgK ds i) := by
  induction cs with
  | nil => rw [List.nil_append, peak_nil, Nat.zero_max]
  | cons c cs ih => rw [List.cons_append, peak_cons, peak_cons, ih, Nat.max_assoc]

theorem peak_le (lgK : Nat) (cs : List Coupon) (i : Nat) : peak lgK cs i ≤ 63 := by
  induction cs with
  | nil => exact Nat.zero_le _
  | cons c cs ih =>
    have := c.value_le
    rw [peak_cons]
    split_ifs <;> omega

theorem eq_of_forall_le_iff {a b : Nat} (h : ∀ x, 0 < x → (x ≤ a ↔ x ≤ b)) : a = b := by
  rcases Nat.lt_trichotomy a b with hab | hab | hab
  · exact absurd ((h b (by omega)).2 (Nat.le_refl _)) (by omega)
  · exact hab
  · exact absurd ((h a (by omega)).1 (Nat.le_refl _)) (by omega)

theorem peak_congr (h : ∀ c, c.value ≠ 0 → (c ∈ cs ↔ c ∈ ds)) : peak lgK cs i = peak lgK ds i := by
  refine eq_of_forall_le_iff fun x hx => ?_
  rw [le_peak_iff hx, le_peak_iff hx]
  constructor
  · rintro ⟨c, hc, hi, hxc⟩
    exact ⟨c, (h c (by omega)).1 hc, hi, hxc⟩
  · rintro ⟨c, hc, hi, hxc⟩
    exact ⟨c, (h c (by omega)).2 hc, hi, hxc⟩

/-- **Registers end at the larger of what they held and the peaks of the coupons taken in.** -/
theorem values_foldl_take (g : Registry) :
    (cs.foldl (Registry.take lgK) g).values i = max (g.values i) (peak lgK cs i) := by
  induction cs generalizing g with
  | nil => rw [List.foldl_nil, peak_nil, Nat.max_zero]
  | cons c cs ih => rw [List.foldl_cons, ih, Registry.values_take, peak_cons, Nat.max_assoc]

/-- The registers of coupons, with a running total from elsewhere. -/
def Registry.replay (lgK : Nat) (cs : List Coupon) (total : Double) : Registry :=
  let g := cs.foldl (Registry.take lgK) (Registry.fresh lgK)
  { g with history := { g.history with total } }

@[simp] theorem Registry.values_replay (lgK : Nat) (cs : List Coupon) (x : Double) (i : Nat) :
    (Registry.replay lgK cs x).values i = peak lgK cs i :=
  (values_foldl_take (Registry.fresh lgK)).trans (Nat.zero_max _)

theorem slot_mod_of_le {j : Nat} (hj : j ≤ lgK) (s : Nat) : s % 2 ^ lgK % 2 ^ j = s % 2 ^ j :=
  Nat.mod_mod_of_dvd s (Nat.pow_dvd_pow 2 hj)

/-- The registers that have risen, as coupons. -/
def risen (lgK : Nat) (v : Nat → Nat) : List Coupon :=
  ((List.range (2 ^ lgK)).filter fun i => v i ≠ 0).map fun i => Coupon.pack i (v i)

theorem mem_risen {v : Nat → Nat} {c : Coupon} :
    c ∈ risen lgK v ↔ ∃ s, s < 2 ^ lgK ∧ v s ≠ 0 ∧ c = Coupon.pack s (v s) := by
  simp [risen, and_assoc, eq_comm (a := c)]

/-- **The coupons of registers have the peaks of the coupons that raised them**, at the size of the
registers and at every smaller size. -/
theorem peak_risen {v : Nat → Nat} {j : Nat} (hj : j ≤ lgK) (hk : lgK ≤ 26)
    (hv : ∀ s, s < 2 ^ lgK → v s = peak lgK cs s) : peak j (risen lgK v) i = peak j cs i := by
  have hpow : 2 ^ lgK ≤ 67108864 := Nat.pow_le_pow_right (by decide) hk
  refine eq_of_forall_le_iff fun x hx => ?_
  rw [le_peak_iff hx, le_peak_iff hx]
  constructor
  · rintro ⟨_, hc, hi, hxc⟩
    obtain ⟨s, hs, -, rfl⟩ := mem_risen.1 hc
    have hvs := hv s hs
    have := peak_le lgK cs s
    rw [Coupon.value_pack_of_le _ (by omega), hvs, le_peak_iff hx] at hxc
    obtain ⟨c, hc, hcs, hxc⟩ := hxc
    refine ⟨c, hc, ?_, hxc⟩
    rwa [Coupon.slot_pack_of_lt _ (by omega), ← hcs, slot_mod_of_le hj] at hi
  · rintro ⟨c, hc, hi, hxc⟩
    have hs : c.slot % 2 ^ lgK < 2 ^ lgK := Nat.mod_lt _ (Nat.two_pow_pos _)
    have hvs := hv _ hs
    have hle : x ≤ peak lgK cs (c.slot % 2 ^ lgK) := (le_peak_iff hx).2 ⟨c, hc, rfl, hxc⟩
    have := peak_le lgK cs (c.slot % 2 ^ lgK)
    refine ⟨_, mem_risen.2 ⟨_, hs, by omega, rfl⟩, ?_, ?_⟩
    · rwa [Coupon.slot_pack_of_lt _ (by omega), slot_mod_of_le hj]
    · rwa [Coupon.value_pack_of_le _ (by omega), hvs]

theorem peak_risen_self {v : Nat → Nat} (hk : lgK ≤ 26) (hv : ∀ s, s < 2 ^ lgK → v s ≤ 63)
    (hi : i < 2 ^ lgK) : peak lgK (risen lgK v) i = v i := by
  have hpow : 2 ^ lgK ≤ 67108864 := Nat.pow_le_pow_right (by decide) hk
  refine eq_of_forall_le_iff fun x hx => ?_
  rw [le_peak_iff hx]
  constructor
  · rintro ⟨_, hc, hs, hxc⟩
    obtain ⟨s, hs', -, rfl⟩ := mem_risen.1 hc
    rw [Coupon.slot_pack_of_lt _ (by omega), Nat.mod_eq_of_lt hs'] at hs
    rw [Coupon.value_pack_of_le _ (hv s hs')] at hxc
    rwa [← hs]
  · intro hx'
    refine ⟨_, mem_risen.2 ⟨i, hi, by omega, rfl⟩, ?_, ?_⟩
    · rw [Coupon.slot_pack_of_lt _ (by omega), Nat.mod_eq_of_lt hi]
    · rwa [Coupon.value_pack_of_le _ (hv i hi)]

theorem peak_map_folded {j : Nat} (hj : j ≤ lgK) (hk : lgK ≤ 26) :
    peak j (cs.map (Coupon.folded lgK)) i = peak j cs i := by
  have hpow : 2 ^ lgK ≤ 67108864 := Nat.pow_le_pow_right (by decide) hk
  induction cs with
  | nil => rfl
  | cons c cs ih =>
    have hs : c.slot % 2 ^ lgK < 2 ^ lgK := Nat.mod_lt _ (Nat.two_pow_pos _)
    rw [List.map_cons, peak_cons, peak_cons, ih, Coupon.folded,
      Coupon.slot_pack_of_lt _ (by omega), Coupon.value_pack_of_le _ c.value_le, slot_mod_of_le hj]

end Peak

end HyperLogLog
