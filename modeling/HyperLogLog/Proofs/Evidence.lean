import HyperLogLog.Proofs.Ledger
import Mathlib.Analysis.SpecialFunctions.Log.Basic
import Mathlib.Analysis.SpecialFunctions.Sqrt

/-!
# Estimates and the evidence for them, in exact arithmetic

Read over the real numbers, the running total of registers never falls behind the number of those
that have risen: each of them added at least one to it, or came from coupons that it started with.

* `Ledger.weight`: the sum of `2⁻ᵛ` over registers of values `v`;
* `Ledger.hits`: how many registers have risen;
* `Ledger.Weighed`: the sums of a ledger are those of its registers;
* `Ledger.Backed`: moreover, the running total is no less than the number that has risen;
* **`invariant_backed`**: coupons, promotions and merges keep it so;
* `Estimator.relativeError_lt_one`, `Estimate.couponsError_lt_one`: bounds never divide by zero;
* `Sketch.Bracketed`: an estimate that has the evidence behind it and lies within its bounds;
* **`evidence_bracketed`**: every sketch that knows its history has such an estimate.
-/

namespace HyperLogLog

open Registers (Dense)
open Estimate (Confidence)

/-- The real numbers, with exact operations. -/
noncomputable instance : Scalar ℝ where
  ofCount n := n
  invPow v := (2 ^ v)⁻¹
  sqrt := Real.sqrt
  log := Real.log
  larger := max
  atMost x y := decide (x ≤ y)

variable {lgK i : Nat} {v : Nat → Nat} {c : Coupon}

/-! ## Registers -/

namespace Ledger

/-- The sum of `2⁻ᵛ` over registers of values `v`. -/
noncomputable def weight (lgK : Nat) (v : Nat → Nat) : ℝ :=
  ∑ i ∈ Finset.range (2 ^ lgK), (2 ^ v i)⁻¹

/-- How many registers have risen. -/
def hits (lgK : Nat) (v : Nat → Nat) : Nat := (List.range (2 ^ lgK)).countP fun i => v i ≠ 0

theorem weight_pos (lgK : Nat) (v : Nat → Nat) : 0 < weight lgK v :=
  Finset.sum_pos (fun _ _ => inv_pos.2 (by positivity))
    ⟨0, Finset.mem_range.2 (Nat.two_pow_pos lgK)⟩

theorem weight_le (lgK : Nat) (v : Nat → Nat) : weight lgK v ≤ 2 ^ lgK := by
  have hsum := Finset.sum_le_card_nsmul (Finset.range (2 ^ lgK)) (fun i => ((2 : ℝ) ^ v i)⁻¹) 1
    fun i _ => inv_le_one_of_one_le₀ (one_le_pow₀ one_le_two)
  simpa [weight] using hsum

theorem weight_zero (lgK : Nat) : weight lgK (fun _ => 0) = 2 ^ lgK := by
  simp [weight]

theorem weight_update (x : Nat) (hi : i < 2 ^ lgK) :
    weight lgK (Function.update v i x) = weight lgK v - (2 ^ v i)⁻¹ + (2 ^ x)⁻¹ := by
  have hmem : i ∈ Finset.range (2 ^ lgK) := Finset.mem_range.2 hi
  have hu : (fun j => ((2 : ℝ) ^ Function.update v i x j)⁻¹) =
      Function.update (fun j => ((2 : ℝ) ^ v j)⁻¹) i (2 ^ x)⁻¹ := by
    funext j
    exact Function.apply_update (fun _ y => ((2 : ℝ) ^ y)⁻¹) v i x j
  rw [weight, weight, hu, Finset.sum_update_of_mem hmem,
    Finset.sum_eq_add_sum_sdiff_singleton_of_mem hmem fun j => ((2 : ℝ) ^ v j)⁻¹]
  ring

theorem hits_add_level (lgK : Nat) (v : Nat → Nat) :
    hits lgK v + level (2 ^ lgK) v 0 = 2 ^ lgK := by
  have h := List.length_eq_countP_add_countP (l := List.range (2 ^ lgK)) fun i => v i ≠ 0
  rw [List.length_range] at h
  rw [hits, level]
  convert h.symm using 3
  simp

theorem hits_update_le (x : Nat) (hi : i < 2 ^ lgK) :
    hits lgK (Function.update v i x) ≤ hits lgK v + 1 := by
  have hold := hits_add_level lgK v
  have hnew := hits_add_level lgK (Function.update v i x)
  have hlevel := level_update (v := v) (m := 0) x hi
  split_ifs at hlevel <;> omega

theorem hits_take_le (lgK : Nat) {α : Type} [Scalar α] (l : Ledger α) (c : Coupon) :
    hits lgK (l.take lgK c).values ≤ hits lgK l.values + 1 := by
  unfold take
  dsimp only
  split_ifs
  · exact Nat.le_succ _
  · exact hits_update_le _ (Nat.mod_lt _ (Nat.two_pow_pos _))

theorem hits_foldl_take_le (lgK : Nat) {α : Type} [Scalar α] (cs : List Coupon) (l : Ledger α) :
    hits lgK (cs.foldl (take lgK) l).values ≤ hits lgK l.values + cs.length := by
  induction cs generalizing l with
  | nil => exact Nat.le_refl _
  | cons c cs ih =>
    have := hits_take_le lgK l c
    rw [List.foldl_cons, List.length_cons]
    exact (ih _).trans (by omega)

end Ledger

/-! ## Sums -/

namespace Estimator

variable (e : Estimator ℝ)

theorem sum_advance (lgK : Nat) :
    (e.advance lgK).lowSum + (e.advance lgK).highSum = e.lowSum + e.highSum := by
  unfold advance
  split_ifs <;> rfl

theorem sum_withdraw (v : Nat) :
    (e.withdraw v).lowSum + (e.withdraw v).highSum = e.lowSum + e.highSum - (2 ^ v)⁻¹ := by
  unfold withdraw
  split_ifs
  · exact sub_add_eq_add_sub _ _ _
  · exact (add_sub_assoc _ _ _).symm

theorem sum_deposit (v : Nat) :
    (e.deposit v).lowSum + (e.deposit v).highSum = e.lowSum + e.highSum + (2 ^ v)⁻¹ := by
  unfold deposit
  split_ifs
  · exact add_right_comm _ _ _
  · exact (add_assoc _ _ _).symm

theorem sum_raise (lgK old new : Nat) : (e.raise lgK old new).lowSum +
    (e.raise lgK old new).highSum = e.lowSum + e.highSum - (2 ^ old)⁻¹ + (2 ^ new)⁻¹ := by
  rw [raise, sum_deposit, sum_withdraw, sum_advance]

/-- A total that counts grows by the inverse of the chance that a register rises. -/
theorem total_raise_of_known (ho : e.outOfOrder = false) (lgK old new : Nat) :
    (e.raise lgK old new).total = e.total + 2 ^ lgK * (e.lowSum + e.highSum)⁻¹ := by
  have hcount : Scalar.ofCount (2 ^ lgK) = (2 ^ lgK : ℝ) := Nat.cast_pow 2 lgK
  rw [total_raise, advance, if_neg (ne_true_of_eq_false ho), hcount]
  exact congrArg (e.total + ·) (div_eq_mul_inv _ _)

end Estimator

namespace Ledger

variable {g : Registry} {l : Ledger ℝ}

/-- The sums are those of the registers. -/
def Weighed (lgK : Nat) (l : Ledger ℝ) : Prop :=
  l.sums.lowSum + l.sums.highSum = weight lgK l.values

theorem weighed_fresh (lgK : Nat) : (fresh lgK : Ledger ℝ).Weighed lgK := by
  have hcount : (Estimator.fresh lgK : Estimator ℝ).lowSum = 2 ^ lgK := Nat.cast_pow 2 lgK
  have hzero : (Estimator.fresh lgK : Estimator ℝ).highSum = 0 := by
    change (0.0 : ℝ) = 0
    norm_num
  change (Estimator.fresh lgK : Estimator ℝ).lowSum + (Estimator.fresh lgK : Estimator ℝ).highSum =
    weight lgK fun _ => 0
  rw [weight_zero, hcount, hzero, add_zero]

theorem Weighed.take (hl : l.Weighed lgK) (c : Coupon) : (l.take lgK c).Weighed lgK := by
  unfold Ledger.take
  dsimp only
  split_ifs
  · exact hl
  · unfold Weighed
    dsimp only
    rw [Estimator.sum_raise, weight_update _ (Nat.mod_lt _ (Nat.two_pow_pos _)), hl]

theorem weighed_foldl_take (hl : l.Weighed lgK) (cs : List Coupon) :
    (cs.foldl (take lgK) l).Weighed lgK := by
  induction cs generalizing l with
  | nil => exact hl
  | cons c cs ih => exact ih (hl.take c)

/-- **A register that rises adds at least one** to a total that counts. -/
theorem Weighed.total_take (hl : l.Weighed lgK) (ho : l.sums.outOfOrder = false)
    (hc : ¬ c.value ≤ l.values (c.slot % 2 ^ lgK)) :
    l.sums.total + 1 ≤ (l.take lgK c).sums.total := by
  have htake : (l.take lgK c).sums = l.sums.raise lgK _ c.value :=
    congrArg Ledger.sums (if_neg hc)
  have hone : 1 ≤ 2 ^ lgK * (weight lgK l.values)⁻¹ :=
    (le_mul_inv_iff₀ (weight_pos lgK _)).2 ((one_mul _).trans_le (weight_le lgK _))
  rw [htake, Estimator.total_raise_of_known _ ho, hl]
  exact add_le_add_right hone _

/-- A ledger has the registers of a registry, and its total counts if and only if that of the
registry does. -/
structure Alike {α : Type} (g : Registry) (l : Ledger α) : Prop where
  values : l.values = g.values
  outOfOrder : l.sums.outOfOrder = g.history.outOfOrder

theorem Alike.take {α : Type} [Scalar α] {l : Ledger α} (hl : Alike g l) (c : Coupon) :
    Alike (g.take lgK c) (l.take lgK c) := by
  unfold Ledger.take Registry.take
  dsimp only
  rw [hl.values]
  split_ifs
  · exact hl
  · refine ⟨rfl, ?_⟩
    rw [Estimator.outOfOrder_raise, Estimator.outOfOrder_raise, hl.outOfOrder]

theorem Alike.foldl_take {α : Type} [Scalar α] {l : Ledger α} (hl : Alike g l)
    (cs : List Coupon) : Alike (cs.foldl (Registry.take lgK) g) (cs.foldl (Ledger.take lgK) l) := by
  induction cs generalizing g l with
  | nil => exact hl
  | cons c cs ih => exact ih (hl.take c)

/-- The sums of a ledger are those of its registers, and a total that counts is no less than the
number of those that have risen. -/
structure Backed (lgK : Nat) (g : Registry) (l : Ledger ℝ) : Prop where
  alike : Alike g l
  weighed : l.Weighed lgK
  hits_le : l.sums.outOfOrder = false → (hits lgK l.values : ℝ) ≤ l.sums.total

theorem Backed.take (hl : Backed lgK g l) (c : Coupon) :
    Backed lgK (g.take lgK c) (l.take lgK c) := by
  refine ⟨hl.alike.take c, hl.weighed.take c, fun ho => ?_⟩
  have hknown : l.sums.outOfOrder = false := by
    rw [(hl.alike.take c).outOfOrder, Registry.outOfOrder_take] at ho
    rw [hl.alike.outOfOrder, ho]
  by_cases hc : c.value ≤ l.values (c.slot % 2 ^ lgK)
  · rw [show l.take lgK c = l from if_pos hc]
    exact hl.hits_le hknown
  · have hhits : (hits lgK (l.take lgK c).values : ℝ) ≤ hits lgK l.values + 1 := by
      exact_mod_cast hits_take_le lgK l c
    have hrose := hl.weighed.total_take hknown hc
    have hold := hl.hits_le hknown
    linarith

end Ledger

/-! ## Bounds -/

theorem Estimate.Confidence.deviations_le (c : Confidence) : (c.deviations : ℝ) ≤ 3 := by
  cases c <;> norm_num [deviations]

namespace Estimate

/-- The relative error of an estimate from coupons, at a given confidence. -/
noncomputable def couponsError (c : Confidence) : ℝ := Scalar.ofCount c.deviations * couponError

theorem mul_couponError : 8192000 * (couponError : ℝ) = 409 := by
  change 8192000 * ((0.409 : ℝ) / (8192.0 : ℝ)) = 409
  norm_num

theorem couponError_nonneg : 0 ≤ (couponError : ℝ) := by
  have hscaled := mul_couponError
  linarith

theorem couponsError_nonneg (c : Confidence) : 0 ≤ couponsError c :=
  mul_nonneg (Nat.cast_nonneg c.deviations) couponError_nonneg

theorem couponsError_lt_one (c : Confidence) : couponsError c < 1 := by
  have hscaled := mul_couponError
  have hproduct : couponsError c ≤ 3 * couponError :=
    mul_le_mul_of_nonneg_right c.deviations_le couponError_nonneg
  linarith

theorem le_ofCoupons (n : Nat) : (n : ℝ) ≤ ofCoupons n := by
  unfold ofCoupons
  split_ifs with hn
  · have hzero : (0.0 : ℝ) = 0 := by norm_num
    rw [hn, Nat.cast_zero]
    exact hzero.ge
  · exact le_max_left _ _

end Estimate

namespace Estimator

variable (e : Estimator ℝ)

theorem spread_nonneg : 0 ≤ e.spread := by
  change (0 : ℝ) ≤ if e.outOfOrder then 1.03896 else 0.8326
  split_ifs <;> norm_num

theorem three_mul_spread_lt : 3 * e.spread < 4 := by
  change 3 * (if e.outOfOrder then (1.03896 : ℝ) else 0.8326) < 4
  split_ifs <;> norm_num

theorem relativeError_eq (lgK : Nat) (c : Confidence) :
    e.relativeError lgK c = c.deviations * e.spread * (√(2 ^ lgK))⁻¹ := by
  have hcount : Scalar.ofCount (2 ^ lgK) = (2 ^ lgK : ℝ) := Nat.cast_pow 2 lgK
  rw [relativeError, hcount]
  exact div_eq_mul_inv _ _

theorem relativeError_nonneg (lgK : Nat) (c : Confidence) : 0 ≤ e.relativeError lgK c := by
  have hspread := e.spread_nonneg
  rw [relativeError_eq]
  positivity

/-- **The relative error is less than one**, from 16 registers on. -/
theorem relativeError_lt_one (hk : 4 ≤ lgK) (c : Confidence) : e.relativeError lgK c < 1 := by
  have hregisters : (4 : ℝ) ^ 2 ≤ 2 ^ lgK := by
    calc (4 : ℝ) ^ 2 = 2 ^ 4 := by norm_num
      _ ≤ 2 ^ lgK := pow_le_pow_right₀ one_le_two hk
  have hroot : 4 ≤ √((2 : ℝ) ^ lgK) := (Real.le_sqrt' four_pos).2 hregisters
  have hproduct : (c.deviations : ℝ) * e.spread ≤ 3 * e.spread :=
    mul_le_mul_of_nonneg_right c.deviations_le e.spread_nonneg
  have hspread := e.three_mul_spread_lt
  rw [relativeError_eq, mul_inv_lt_iff₀ (four_pos.trans_le hroot), one_mul]
  linarith

end Estimator

section Brackets

variable {α : Type} [Scalar α]

/-- The lower bound of an estimate with a relative error. -/
def Estimate.below (x error : α) : α := x / (1.0 + error)

/-- The upper bound of an estimate with a relative error. -/
def Estimate.above (x error : α) : α := x / (1.0 - error)

end Brackets

theorem Estimate.bracket {x error : ℝ} (hx : 0 ≤ x) (h₀ : 0 ≤ error) (h₁ : error < 1) :
    below x error ≤ x ∧ x ≤ above x error := by
  have hone : (1.0 : ℝ) = 1 := by norm_num
  change x / (1.0 + error) ≤ x ∧ x ≤ x / (1.0 - error)
  rw [hone]
  refine ⟨div_le_self hx (by linarith), ?_⟩
  rw [le_div_iff₀ (by linarith)]
  exact mul_le_of_le_one_right hx (by linarith)

/-- **An estimate from coupons lies within its bounds.** -/
theorem Estimate.ofCoupons_bracketed (n : Nat) (c : Confidence) :
    (couponsLower n c : ℝ) ≤ ofCoupons n ∧ (ofCoupons n : ℝ) ≤ couponsUpper n c := by
  have hle := le_ofCoupons n
  obtain ⟨hdown, hup⟩ := bracket ((Nat.cast_nonneg n).trans hle) (couponsError_nonneg c)
    (couponsError_lt_one c)
  exact ⟨max_le hle hdown, hup.trans (le_max_right _ _)⟩

/-- **A total that is no less than the number of registers that have risen lies within its
bounds.** -/
theorem Estimator.total_bracketed {e : Estimator ℝ} {m n : Nat} (hk : 4 ≤ lgK)
    (ho : e.outOfOrder = false)
    (hx : ((if m = 0 then 2 ^ lgK - n else 2 ^ lgK : Nat) : ℝ) ≤ e.total) (c : Confidence) :
    e.lower lgK m n c ≤ e.total ∧ e.total ≤ e.upper lgK m n c := by
  have hestimate : e.estimate lgK m n = e.total := if_neg (ne_true_of_eq_false ho)
  obtain ⟨hdown, hup⟩ := Estimate.bracket ((Nat.cast_nonneg _).trans hx)
    (e.relativeError_nonneg lgK c) (e.relativeError_lt_one hk c)
  rw [lower, upper, hestimate]
  exact ⟨max_le hdown hx, hup⟩

/-! ## Runs -/

namespace Ledger

/-- **Coupons, promotions and merges keep a total backed.** -/
theorem invariant_backed (lgK : Nat) : Invariant lgK (Backed lgK) where
  take := fun _ _ c hl => hl.take c
  replay := fun cs => by
    have halike : Alike (cs.foldl (Registry.take lgK) (Registry.fresh lgK))
        (cs.foldl (take lgK) (fresh lgK : Ledger ℝ)) :=
      Alike.foldl_take ⟨rfl, rfl⟩ cs
    refine ⟨⟨halike.values, halike.outOfOrder⟩, weighed_foldl_take (weighed_fresh lgK) cs,
      fun _ => ?_⟩
    have hnone : hits lgK (fresh lgK : Ledger ℝ).values = 0 := by
      have hlevel : level (2 ^ lgK) (fun _ => 0) 0 = 2 ^ lgK := level_of_forall fun _ _ => rfl
      have hsum := hits_add_level lgK fun _ => 0
      change hits lgK (fun _ => 0) = 0
      omega
    have hle := hits_foldl_take_le lgK cs (fresh lgK : Ledger ℝ)
    rw [hnone, Nat.zero_add] at hle
    exact (Nat.cast_le.2 hle).trans (Estimate.le_ofCoupons cs.length)
  forget := fun _ _ hl => ⟨⟨hl.alike.values, rfl⟩, hl.weighed, nofun⟩

end Ledger

namespace Sketch

/-- The estimate of a sketch by some sums is no less than the evidence, and within its bounds. -/
structure Bracketed (s : Sketch) (e : Estimator ℝ) (evidence : Nat) : Prop where
  evidence : (evidence : ℝ) ≤ s.estimateBy e
  lower : ∀ c, s.lowerBy e c ≤ s.estimateBy e
  upper : ∀ c, s.estimateBy e ≤ s.upperBy e c

variable {s : Sketch} {g : Registry} {l : Ledger ℝ}

theorem bracketed_of_sparse (hm : s.mode ≠ .dense) (e : Estimator ℝ) :
    s.Bracketed e (Contents.count s.mode s.region) := by
  obtain ⟨cfg, mode, r⟩ := s
  cases mode with
  | dense => exact absurd rfl hm
  | list | set =>
    exact ⟨Estimate.le_ofCoupons _, fun c => (Estimate.ofCoupons_bracketed _ c).1,
      fun c => (Estimate.ofCoupons_bracketed _ c).2⟩

theorem Keeps.hits_eq (hs : s.Keeps (.dense g)) :
    (if s.region.minimum = 0 then 2 ^ s.config.lgK - s.region.atMinimum else 2 ^ s.config.lgK) =
      Ledger.hits s.config.lgK g.values := by
  have hd : Dense s.config g s.region := hs.image
  have hsum := Ledger.hits_add_level s.config.lgK g.values
  have hk : s.config.k = 2 ^ s.config.lgK := rfl
  obtain ⟨hm, hn⟩ | ⟨hm, hn⟩ := hd.packed.header
  · rw [if_pos hm, hn, hk]
    omega
  · rw [hk] at hn
    rw [if_neg (by omega)]
    omega

theorem Keeps.known (hs : s.Keeps (.dense g)) (hl : l.Alike g) (ho : s.isOutOfOrder = false) :
    l.sums.outOfOrder = false := by
  have hd : Dense s.config g s.region := hs.image
  rw [hl.outOfOrder, ← hd.estimator]
  exact ho

theorem Keeps.bracketed (hs : s.Keeps (.dense g)) (hl : l.Backed s.config.lgK g)
    (ho : s.isOutOfOrder = false) :
    s.Bracketed l.sums (Ledger.hits s.config.lgK g.values) := by
  have hmode : s.mode = .dense := hs.mode
  have hknown := hs.known hl.alike ho
  have hhits : (Ledger.hits s.config.lgK g.values : ℝ) ≤ l.sums.total := by
    rw [← hl.alike.values]
    exact hl.hits_le hknown
  have hestimate : s.estimateBy l.sums = l.sums.total := by
    unfold estimateBy
    rw [hmode]
    exact if_neg (ne_true_of_eq_false hknown)
  have hbounds := Estimator.total_bracketed s.config.four_le hknown (hs.hits_eq ▸ hhits)
  constructor
  · rwa [hestimate]
  · intro c
    rw [hestimate, lowerBy, hmode]
    exact (hbounds c).1
  · intro c
    rw [hestimate, upperBy, hmode]
    exact (hbounds c).2

theorem Keeps.registers_eq (hs : s.Keeps (.dense g)) : ∃ vs, s.registers = .ok vs ∧
    vs.countP (· ≠ 0) = Ledger.hits s.config.lgK g.values := by
  have hd : Dense s.config g s.region := hs.image
  refine ⟨_, hd.values_eq, ?_⟩
  rw [List.countP_map]
  rfl

theorem Owns.total_booked (hs : s.Owns (.dense g)) (hl : l.Backed s.config.lgK g)
    (ho : s.isOutOfOrder = false)
    (hne : s.registers ≠ (outcome (Sketch.insert c) s).2.registers) :
    l.sums.total + 1 ≤ (s.booked l c).sums.total := by
  have hmode : s.mode = .dense := hs.mode
  have hrose : ¬ c.value ≤ l.values (c.slot % 2 ^ s.config.lgK) := by
    intro hc
    rw [hl.alike.values] at hc
    rw [outcome_of_ok (hs.toKeeps.insert_known hc)] at hne
    exact hne rfl
  rw [booked, if_pos hmode]
  exact hl.weighed.total_take (hs.toKeeps.known hl.alike ho) hrose

/-- **Estimates dominate the evidence and are bracketed by their bounds.** A new sketch goes through
any updates, merges and resets. Its sums are kept by the same formulas in two kinds of numbers: in
doubles, they give the answers that the sketch gives; over the real numbers, nothing is rounded.
There, no bound divides by zero or less. A list or a table estimates no fewer items than it has
distinct coupons. Registers that know their history estimate no fewer than those that are not zero;
each that changes adds at least one to the running total, the sum of `2⁻ᵛ` being positive and at
most the number of registers. Either way the estimate lies within its bounds. -/
theorem evidence_bracketed (cfg : Config) (as : List Action) (has : ∀ a ∈ as, a.Proper) :
    let s := (run as (new cfg)).2
    let doubles : Ledger Double := ledger as (new cfg) (.fresh cfg.lgK)
    let reals : Ledger ℝ := ledger as (new cfg) (.fresh cfg.lgK)
    s.Answers doubles.sums ∧
    (∀ c : Confidence, 0 < 1 - Estimate.couponsError c ∧
      ∀ e : Estimator ℝ, 0 < 1 - e.relativeError cfg.lgK c) ∧
    (s.mode ≠ .dense →
      ∃ cs, s.coupons = .ok cs ∧ cs.Nodup ∧ s.Bracketed reals.sums cs.length) ∧
    (s.mode = .dense → s.isOutOfOrder = false →
      (∃ vs, s.registers = .ok vs ∧ s.Bracketed reals.sums (vs.countP (· ≠ 0))) ∧
      0 < reals.sums.lowSum + reals.sums.highSum ∧
      reals.sums.lowSum + reals.sums.highSum ≤ 2 ^ cfg.lgK ∧
      ∀ c, s.registers ≠ (outcome (insert c) s).2.registers →
        reals.sums.total + 1 ≤ (s.booked reals c).sums.total) := by
  intro s doubles reals
  have hdoubles : s.mode = .dense → doubles.sums = s.region.estimator :=
    ledger_eq_estimator cfg has
  obtain ⟨h, hcfg, hs, hr, hl⟩ := (Ledger.invariant_backed cfg.lgK).run (Owns.new cfg) rfl has
    (l := .fresh cfg.lgK) trivial
  change s.config = cfg at hcfg
  change s.Owns h at hs
  change h.Tracked _ reals at hl
  refine ⟨answers_of_eq hdoubles, fun c => ⟨sub_pos.2 (Estimate.couponsError_lt_one c),
    fun e => sub_pos.2 (e.relativeError_lt_one cfg.four_le c)⟩, fun hm => ?_, fun hm ho => ?_⟩
  · have hr' : h.Regular s.config.lgK 8 := hcfg ▸ hr
    refine ⟨_, hs.coupons_eq, Holding.nodup_coupons hs.sound (hs.mode ▸ hm), ?_⟩
    rw [hs.toKeeps.length_coupons hr' hm]
    exact bracketed_of_sparse hm _
  · cases h with
    | list | table => cases hs.mode.symm.trans hm
    | dense g =>
      have hl' : reals.Backed s.config.lgK g := hcfg ▸ hl
      obtain ⟨vs, hvs, hcount⟩ := hs.toKeeps.registers_eq
      have hsum : reals.sums.lowSum + reals.sums.highSum = Ledger.weight cfg.lgK reals.values :=
        hl.weighed
      rw [hsum]
      exact ⟨⟨vs, hvs, hcount ▸ hs.toKeeps.bracketed hl' ho⟩, Ledger.weight_pos cfg.lgK _,
        Ledger.weight_le cfg.lgK _, fun c => hs.total_booked hl' ho⟩

/-- Nine updates that raise nine registers, the last of them after there are registers. -/
theorem evidence_bracketed_ninth :
    let cfg : Config := ⟨4, .eight, by decide, by decide⟩
    let as : List Action := ((List.range 9).map fun i => .pack i (i + 1)).map .insert
    let s := (run as (new cfg)).2
    let reals : Ledger ℝ := ledger as (new cfg) (.fresh cfg.lgK)
    (∀ a ∈ as, a.Proper) ∧ s.mode = .dense ∧ s.isOutOfOrder = false ∧
      s.Bracketed reals.sums 9 := by
  intro cfg as s reals
  have hcs : ∀ c ∈ (List.range 9).map fun i => Coupon.pack i (i + 1), 0 < c.value := by decide
  have has : ∀ a ∈ as, a.Proper := List.forall_mem_map.2 hcs
  have hdense : s.mode = .dense := by decide +kernel
  have hknown : s.isOutOfOrder = false := by decide +kernel
  have hnine : s.registers.map (List.countP (· ≠ 0)) = .ok 9 := by decide +kernel
  obtain ⟨-, -, -, hregisters⟩ := evidence_bracketed cfg as has
  obtain ⟨⟨vs, hvs, hbracketed⟩, -⟩ := hregisters hdense hknown
  rw [hvs] at hnine
  rw [Except.ok.inj hnine] at hbracketed
  exact ⟨has, hdense, hknown, hbracketed⟩

end Sketch

end HyperLogLog
