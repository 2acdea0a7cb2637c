import Mathlib.Order.Bounds.Basic
import HyperLogLog.Proofs.Order

/-!
# The thresholds of the representations

The number of distinct coupons that a sketch has taken in since it was new, or since its last reset,
decides its mode, the size of its table and the count in its header.

* `Sketch.Blank`: the sketches in which nothing has been seen;
* `Sketch.Scheduled`: the mode, the table and the count that go with a number of distinct coupons;
* `stage_mono`: with more coupons the mode only moves forward;
* **`insertAll_scheduled`**: every run of coupons on a blank sketch keeps to the schedule.
-/

namespace HyperLogLog

open Registers (Dense)
open CouponList (lgTableFrom)
open Footprint (lgTable)

/-! ## The mode that goes with a number of coupons -/

namespace Holding

variable {lgK L n d e : Nat} {slots : Nat → Coupon}

theorem stage_eq_list_iff : stage lgK d = .list ↔ d ≤ 7 := by
  unfold stage
  split_ifs with hlist <;> simp <;> omega

theorem stage_eq_dense_iff :
    stage lgK d = .dense ↔ 8 ≤ d ∧ (lgK < lgTableFrom ∨ 3 * 2 ^ (lgK - 3) < 4 * d) := by
  unfold stage
  split_ifs with hlist hdense
  · simp only [false_iff]
    omega
  · simp only [true_iff]
    exact ⟨by omega, hdense⟩
  · simp only [false_iff]
    exact fun h => hdense h.2

theorem four_mul_le_iff (hlg : lgTableFrom ≤ lgK) :
    4 * d ≤ 3 * 2 ^ (lgK - 3) ↔ d ≤ 3 * 2 ^ (lgK - 5) := by
  have hlg' : 8 ≤ lgK := hlg
  have hpow : 2 ^ (lgK - 3) = 2 ^ (lgK - 5) * 4 := by
    rw [show lgK - 3 = lgK - 5 + 2 by omega, Nat.pow_add]
  omega

theorem eight_le_three_mul (hlg : lgTableFrom ≤ lgK) : 8 ≤ 3 * 2 ^ (lgK - 5) := by
  have hlg' : 8 ≤ lgK := hlg
  have hpow : 2 ^ 3 ≤ 2 ^ (lgK - 5) := Nat.pow_le_pow_right (by decide) (by omega)
  omega

theorem stage_eq_dense_iff_lt (hlg : lgTableFrom ≤ lgK) :
    stage lgK d = .dense ↔ 3 * 2 ^ (lgK - 5) < d := by
  have h8 := eight_le_three_mul hlg
  have hquarter := four_mul_le_iff (d := d) hlg
  rw [stage_eq_dense_iff]
  omega

theorem stage_eq_set_iff (hlg : lgTableFrom ≤ lgK) :
    stage lgK d = .set ↔ 8 ≤ d ∧ d ≤ 3 * 2 ^ (lgK - 5) := by
  have hlist : stage lgK d = .list ↔ d ≤ 7 := stage_eq_list_iff
  have hdense := stage_eq_dense_iff_lt (d := d) hlg
  have h8 := eight_le_three_mul hlg
  cases h : stage lgK d <;> simp only [h, reduceCtorEq, true_iff, false_iff] at hlist hdense ⊢ <;>
    omega

theorem stage_ne_set (hlg : lgK < lgTableFrom) : stage lgK d ≠ .set := by
  unfold stage
  split_ifs with hlist hdense
  · exact nofun
  · exact nofun
  · exact absurd (.inl hlg) hdense

/-- **With more distinct coupons the mode only moves forward.** -/
theorem stage_mono (h : d ≤ e) : (stage lgK d).code ≤ (stage lgK e).code := by
  have hmost : ∀ m : Mode, m.code ≤ Mode.dense.code := fun m => by cases m <;> decide
  have hleast : ∀ m : Mode, Mode.list.code ≤ m.code := fun m => Nat.zero_le _
  by_cases hlist : d < 8
  · rw [stage_eq_list hlist]
    exact hleast _
  by_cases hdense : lgK < lgTableFrom ∨ 3 * 2 ^ (lgK - 3) < 4 * e
  · rw [stage_eq_dense (by omega) hdense]
    exact hmost _
  · rw [stage_eq_set (d := d) (by omega) (by omega) (by omega),
      stage_eq_set (d := e) (by omega) (by omega) (by omega)]

theorem isLeast_lgArr (t : Tabled lgK L slots n) (hm : Measured L slots n) :
    IsLeast {l | 5 ≤ l ∧ 4 * n ≤ 3 * 2 ^ l} L := by
  constructor
  · exact ⟨t.least, t.room⟩
  · intro l hl
    exact hm.le_of_room hl.1 hl.2

/-- **More coupons lead a holding forward.** -/
theorem Follows.code_le {cs ds : List Coupon} {h h' : Holding} (hf : Follows lgK cs h)
    (hf' : Follows lgK ds h') (hsub : cs ⊆ ds) : h.mode.code ≤ h'.mode.code := by
  rw [hf.mode, hf'.mode]
  exact stage_mono (Finset.card_le_card fun c hc =>
    List.mem_toFinset.2 (hsub (List.mem_toFinset.1 hc)))

end Holding

namespace Sketch

open Holding (Follows)

variable {cfg : Config} {n : Nat} {s t s₀ : Sketch} {h : Holding} {cs : List Coupon}

/-! ## Sketches in which nothing has been seen -/

/-- A sketch in which nothing has been seen: a new one, or one of any history just after a reset. -/
def Blank (cfg : Config) (s : Sketch) : Prop :=
  s.Fresh cfg ∨ ∃ s₀, s₀.config = cfg ∧ reset s₀ = .ok () s

theorem writable_of_reset (hs : reset s = .ok () t) : s.region.backing ≠ .frozen := by
  intro hfrozen
  have hro : s.isReadOnly = true := decide_eq_true hfrozen
  obtain ⟨a, u, hcheck, -⟩ := EStateM.bind_eq_ok hs
  have hthrow : checkWritable s = .error .noWriteAccess s := by
    unfold checkWritable
    rw [EStateM.get_bind, hro]
    rfl
  cases hthrow.symm.trans hcheck

theorem Blank.keeps (hs : s.Blank cfg) : s.config = cfg ∧ s.Keeps (.list [] 0) := by
  rcases hs with hfresh | ⟨s₀, hcfg, hreset⟩
  · exact hfresh.keeps
  · obtain ⟨hcfg', -, hkeeps⟩ := (leads_reset (writable_of_reset hreset)).ok s hreset
    exact ⟨hcfg'.trans hcfg, hkeeps⟩

theorem Blank.follows (hs : s₀.Blank cfg) (hcs : ∀ c ∈ cs, c ≠ .empty)
    (hrun : insertAll cs s₀ = .ok () s) :
    s.config = cfg ∧ ∃ h, s.Keeps h ∧ Follows cfg.lgK cs h := by
  obtain ⟨rfl, hkeeps⟩ := hs.keeps
  obtain ⟨hcfg, -, hkeeps'⟩ := (hkeeps.insertAll cs).ok s hrun
  exact ⟨hcfg, _, hkeeps', Holding.follows_run s₀.config.le_twentyOne hcs⟩

/-! ## The schedule -/

/-- The mode, the size of the table and the count that go with `n` distinct coupons. -/
structure Scheduled (cfg : Config) (n : Nat) (s : Sketch) : Prop where
  list : s.mode = .list ↔ n ≤ 7
  dense_of_lt : cfg.lgK < 8 → (s.mode = .dense ↔ 8 ≤ n)
  ne_set : cfg.lgK < 8 → s.mode ≠ .set
  set_of_le : 8 ≤ cfg.lgK → (s.mode = .set ↔ 8 ≤ n ∧ n ≤ 3 * 2 ^ (cfg.lgK - 5))
  dense_of_le : 8 ≤ cfg.lgK → (s.mode = .dense ↔ 3 * 2 ^ (cfg.lgK - 5) < n)
  least : s.mode = .set → IsLeast {l | 5 ≤ l ∧ 4 * n ≤ 3 * 2 ^ l} s.region.lgArr
  most : s.mode = .set ∨ 6 ≤ cfg.lgK → s.region.lgArr ≤ cfg.lgK - 3
  counted : s.mode ≠ .dense → Contents.count s.mode s.region = n

namespace Keeps

theorem count_eq (hs : s.Keeps h) (hf : Follows s.config.lgK cs h) (hm : s.mode ≠ .dense) :
    Contents.count s.mode s.region = cs.toFinset.card := by
  have himg := hs.image
  rw [hs.mode] at hm ⊢
  cases h with
  | dense g => exact absurd rfl hm
  | list as n =>
    have hl : Listed s.config as n s.region := himg
    exact hl.counted.trans (Holding.list_count hf.sound hf.regular hf.records)
  | table L slots n =>
    have ht : Tabulated s.config L slots n s.region := himg
    exact ht.counted.trans (Holding.table_count hf.sound hf.regular hf.records)

theorem isLeast_lgArr (hs : s.Keeps h) (hf : Follows s.config.lgK cs h) (hm : s.mode = .set) :
    IsLeast {l | 5 ≤ l ∧ 4 * cs.toFinset.card ≤ 3 * 2 ^ l} s.region.lgArr := by
  have himg := hs.image
  have hsound := hf.sound
  have hregular := hf.regular
  rw [hs.mode] at hm
  cases h with
  | list as n => cases hm
  | dense g => cases hm
  | table L slots n =>
    have ht : Tabulated s.config L slots n s.region := himg
    have t : Holding.Tabled s.config.lgK L slots n := hsound
    rw [ht.headed.lgArr_eq (lgArr_lt t.most),
      ← Holding.table_count hsound hregular hf.records]
    exact Holding.isLeast_lgArr t hregular.2.2

theorem lgArr_le (hs : s.Keeps h) (hm : s.mode = .set ∨ 6 ≤ s.config.lgK) :
    s.region.lgArr ≤ s.config.lgK - 3 := by
  have himg := hs.image
  have hsound := hs.sound
  rw [hs.mode] at hm
  cases h with
  | list as n =>
    have hl : Listed s.config as n s.region := himg
    have hlg : 6 ≤ s.config.lgK := hm.resolve_left nofun
    rw [hl.headed.lgArr_eq (by decide)]
    exact Nat.le_sub_of_add_le hlg
  | table L slots n =>
    have ht : Tabulated s.config L slots n s.region := himg
    have t : Holding.Tabled s.config.lgK L slots n := hsound
    rw [ht.headed.lgArr_eq (lgArr_lt t.most)]
    exact t.most
  | dense g =>
    have hd : Dense s.config g s.region := himg
    rw [hd.headed.lgArr_eq (by decide)]
    exact Nat.zero_le _

/-- **A sketch that follows some coupons keeps to the schedule.** -/
theorem scheduled (hs : s.Keeps h) (hf : Follows s.config.lgK cs h) :
    Scheduled s.config cs.toFinset.card s := by
  have hmode : s.mode = Holding.stage s.config.lgK cs.toFinset.card := hs.mode.trans hf.mode
  refine ⟨?_, ?_, ?_, ?_, ?_, hs.isLeast_lgArr hf, hs.lgArr_le, hs.count_eq hf⟩
  · rw [hmode]
    exact Holding.stage_eq_list_iff
  · intro hlg
    rw [hmode, Holding.stage_eq_dense_iff]
    exact and_iff_left (.inl hlg)
  · intro hlg
    rw [hmode]
    exact Holding.stage_ne_set hlg
  · intro hlg
    rw [hmode]
    exact Holding.stage_eq_set_iff hlg
  · intro hlg
    rw [hmode]
    exact Holding.stage_eq_dense_iff_lt hlg

end Keeps

/-- **The schedule is a function of the number of distinct coupons.** A blank sketch that has taken
in coupons is in the mode that goes with the number of distinct ones, its table has the least size
that holds them, and its header counts them. With further coupons the mode only moves forward. A
sketch that owns its image takes in all coupons. -/
theorem insertAll_scheduled (hs₀ : s₀.Blank cfg) (hcs : ∀ c ∈ cs, c ≠ .empty) :
    (s₀.region.backing = .owned → ∃ s, insertAll cs s₀ = .ok () s) ∧
    ∀ s, insertAll cs s₀ = .ok () s →
      s.config = cfg ∧ Scheduled cfg cs.toFinset.card s ∧
      ∀ ds t, (∀ d ∈ ds, d ≠ .empty) → insertAll ds s = .ok () t → s.mode.code ≤ t.mode.code := by
  constructor
  · intro howned
    obtain ⟨s, hs, -, -⟩ := (hs₀.keeps.2.insertAll cs).total howned
    exact ⟨s, hs⟩
  intro s hs
  obtain ⟨rfl, h, hkeeps, hf⟩ := hs₀.follows hcs hs
  refine ⟨rfl, hkeeps.scheduled hf, ?_⟩
  intro ds t hds ht
  obtain ⟨-, -, hkeeps'⟩ := (hkeeps.insertAll ds).ok t ht
  rw [hkeeps.mode, hkeeps'.mode]
  exact hf.code_le (hf.foldl_insert s.config.le_twentyOne hds) (List.subset_append_left cs ds)

/-- Eight coupons turn a list into the smallest table. -/
theorem insertAll_scheduled_table :
    let cfg : Config := ⟨8, .four, by decide, by decide⟩
    let cs : List Coupon := (List.range 8).map fun i => .pack i 1
    Blank cfg (new cfg) ∧ (∀ c ∈ cs, c ≠ .empty) ∧
      ∃ s, insertAll cs (new cfg) = .ok () s ∧ s.mode = .set ∧
        Contents.count s.mode s.region = 8 ∧
        IsLeast {l | 5 ≤ l ∧ 4 * 8 ≤ 3 * 2 ^ l} s.region.lgArr := by
  intro cfg cs
  have hblank : Blank cfg (new cfg) := .inl (.inl rfl)
  have hcs : ∀ c ∈ cs, c ≠ .empty := by decide
  have hcard : cs.toFinset.card = 8 := by decide
  obtain ⟨hrun, hall⟩ := insertAll_scheduled hblank hcs
  obtain ⟨s, hs⟩ := hrun (Owns.new cfg).owned
  obtain ⟨-, hsched, -⟩ := hall s hs
  rw [hcard] at hsched
  have hset : s.mode = .set := (hsched.set_of_le (by decide)).2 (by decide)
  have hcount : Contents.count s.mode s.region = 8 := hsched.counted (by rw [hset]; decide)
  exact ⟨hblank, hcs, s, hs, hset, hcount, hsched.least hset⟩

end Sketch

end HyperLogLog
