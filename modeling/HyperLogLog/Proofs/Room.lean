import HyperLogLog.Proofs.Edit
import HyperLogLog.Proofs.Fields
import HyperLogLog.Proofs.Header
import HyperLogLog.Sparse.CouponList

/-!
# Room in lent regions

A lent region keeps its size whatever is done to it. The bytes that a sketch must be lent to start
in them are enough for every list, every table and, if fields hold whole registers, for all
registers, so nothing that is taken in can then fail for want of room.

* `Steady`: a computation that stays among some states and does not fail there for want of room;
* `Steady.bind`, `Steady.write`, …: one rule for each way to build computations;
* `Region.Roomy`: a lent region of at least so many bytes;
* `Footprint.sparse_le_most`, `Footprint.dense_le_most`: the room that each mode needs;
* **`CouponList.steady_insertList`**, `CouponTable.steady_insertTable`, `Registers.steady_insert`:
  coupons are taken in without running out of it.
-/

namespace HyperLogLog

/-! ## Computations that have room enough -/

section Steady

variable {σ α β : Type} {P : σ → Prop} {x : EStateM Fault σ α}

/-- What a computation comes to, if it stays within `P` and does not fail for want of room. -/
def Stays (P : σ → Prop) : EStateM.Result Fault σ α → Prop
  | .ok _ s => P s
  | .error f s => P s ∧ f.report.kind ≠ .insufficientCapacity

/-- From states that satisfy `P`, the computation leads to such states, and it does not fail there
for want of room. -/
def Steady (P : σ → Prop) (x : EStateM Fault σ α) : Prop := ∀ s, P s → Stays P (x s)

namespace Steady

theorem done (a : α) : Steady P (pure a) := fun _ hs => hs

theorem fault {f : Fault} (hf : f.report.kind ≠ .insufficientCapacity) :
    Steady P (throw f : EStateM Fault σ α) := fun _ hs => ⟨hs, hf⟩

theorem bind {f : α → EStateM Fault σ β} (hx : Steady P x) (hf : ∀ a, Steady P (f a)) :
    Steady P (x >>= f) := by
  intro s hs
  have hrun := hx s hs
  cases hxs : x s with
  | ok a s' =>
    rw [hxs] at hrun
    rw [EStateM.bind_of_ok hxs]
    exact hf a s' hrun
  | error e s' =>
    rw [hxs] at hrun
    rw [EStateM.bind_of_error hxs]
    exact hrun

theorem read_bind {f : σ → EStateM Fault σ α} (hf : ∀ s, Steady P (f s)) :
    Steady P ((get : EStateM Fault σ σ) >>= f) :=
  bind (fun _ hs => hs) hf

theorem write {g : σ → σ} (hg : ∀ s, P s → P (g s)) :
    Steady P (modify g : EStateM Fault σ PUnit) := hg

theorem ofExcept_bind {e : Except Fault α} {f : α → EStateM Fault σ β}
    (he : ∀ g, e = .error g → g.report.kind ≠ .insufficientCapacity)
    (hf : ∀ a, Steady P (f a)) : Steady P ((ofExcept e : EStateM Fault σ α) >>= f) := by
  refine bind ?_ hf
  cases e with
  | ok a => exact done a
  | error g => exact fault (he g rfl)

theorem forM {f : α → EStateM Fault σ PUnit} (hf : ∀ a, Steady P (f a)) :
    ∀ as : List α, Steady P (as.forM f)
  | [] => done _
  | a :: as => bind (hf a) fun _ => forM hf as

theorem foldlM {f : β → α → EStateM Fault σ β} (hf : ∀ b a, Steady P (f b a)) :
    ∀ (as : List α) (b : β), Steady P (as.foldlM f b)
  | [], b => done b
  | a :: as, b => by
    rw [List.foldlM_cons]
    exact bind (hf b a) fun b' => foldlM hf as b'

end Steady

end Steady

/-! ## Lent regions -/

namespace Region

variable {n m : Nat} {r r' : Region}

/-- A lent region of at least `n` bytes. -/
structure Roomy (n : Nat) (r : Region) : Prop where
  lent : r.backing = .lent
  room : n ≤ r.size

theorem Roomy.within {i : Nat} (hr : Roomy n r) (h : Within i m r r') : Roomy n r' :=
  ⟨h.backing.trans hr.lent, hr.room.trans (Nat.le_of_eq h.size.symm)⟩

theorem Roomy.zero (hr : Roomy n r) (i m : Nat) : Roomy n (r.zero i m) :=
  hr.within (within_zero ..)

theorem Roomy.shrink (hr : Roomy n r) (m : Nat) : Roomy n (r.shrink m) := by
  obtain ⟨bytes, backing⟩ := r
  obtain rfl : backing = .lent := hr.lent
  exact hr

theorem steady_reserve (hm : m ≤ n) : Steady (Roomy n) (reserve m) := by
  intro r hr
  have hlt : ¬ r.size < m := Nat.not_lt.2 (hm.trans hr.room)
  unfold reserve
  rw [hr.lent]
  dsimp only
  rw [if_neg hlt]
  exact hr

end Region

/-! ## The room that each mode needs -/

namespace Footprint

variable {cfg : Config}

theorem list_le_most (cfg : Config) : CouponList.bytes ≤ most cfg := Nat.le_max_right ..

theorem dense_le_most (cfg : Config) : dense cfg 0 ≤ most cfg := by
  refine Nat.le_trans ?_ (Nat.le_max_left ..)
  unfold dense
  split_ifs <;> omega

theorem sparse_le_most {L : Nat} (hL : L ≤ lgLargestTable cfg) : sparse .set L ≤ most cfg := by
  have hpow : 2 ^ L ≤ 2 ^ (cfg.lgK - 3) := Nat.pow_le_pow_right (by decide) hL
  have hk : cfg.k = 2 ^ (cfg.lgK - 3) * 8 := by
    have := cfg.four_le
    rw [Config.k, show cfg.lgK = cfg.lgK - 3 + 3 by omega, Nat.pow_add]
    rfl
  have hsparse : sparse .set L = 12 + 4 * 2 ^ L := rfl
  have hdense := dense_le_most cfg
  have hzero : 40 + registers cfg ≤ dense cfg 0 := Nat.le_add_right ..
  have hregisters : cfg.k / 2 ≤ registers cfg := by
    unfold registers
    cases cfg.width with
    | four => exact Nat.le_refl _
    | six => dsimp only; omega
    | eight => dsimp only; omega
  omega

end Footprint

/-! ## Coupons -/

section Coupons

open Region (Roomy)

variable {cfg : Config} (hw : cfg.width ≠ .four)

namespace Registers

theorem kind_of_read {r : Region} {i : Nat} {f : Fault} (h : read cfg r i = .error f) :
    f.report.kind ≠ .insufficientCapacity := by
  unfold read at h
  dsimp only at h
  split at h
  · split_ifs at h
    split at h
    · cases h
    · cases h
      exact nofun
  · cases h
  · cases h

/-- Registers that cannot be read are not too many for their bytes. -/
theorem kind_of_coupons {r : Region} {f : Fault} (h : coupons cfg r = .error f) :
    f.report.kind ≠ .insufficientCapacity := by
  unfold coupons at h
  cases hv : values cfg r with
  | ok vs =>
    rw [hv] at h
    cases h
  | error g =>
    rw [hv] at h
    cases h
    obtain ⟨i, -, hi⟩ := Except.error_of_mapM hv
    exact kind_of_read hi

include hw

theorem steady_insert (n : Nat) (c : Coupon) : Steady (Roomy n) (insert cfg c) := by
  have hwhole : Steady (Roomy n) (insertWhole cfg c) := by
    have hput : ∀ (old : Nat) (r : Region), Roomy n r → Roomy n
        ((r.putField cfg.width (c.slot % cfg.k) c.value).raiseEstimator cfg.lgK old c.value) :=
      fun old r hr => (hr.within (Region.within_putField _
        (Nat.mod_lt _ (Nat.two_pow_pos _)))).within (Region.within_raiseEstimator ..)
    refine Steady.read_bind fun r => ?_
    dsimp only
    split_ifs
    · exact Steady.done _
    · exact Steady.write (hput _)
    · exact Steady.fault nofun
    · exact Steady.write fun r hr => (hput _ r hr).within (Region.within_putAtMinimum ..)
  unfold insert
  cases hw' : cfg.width with
  | four => exact absurd hw' hw
  | six | eight => exact hwhole

end Registers

theorem Contents.kind_of_coupons {mode : Mode} {r : Region} {f : Fault}
    (h : coupons cfg mode r = .error f) : f.report.kind ≠ .insufficientCapacity := by
  cases mode with
  | list => cases h
  | set => cases h
  | dense => exact Registers.kind_of_coupons h

include hw

theorem Promotion.steady_toDense : Steady (Roomy (Footprint.most cfg)) (toDense cfg) := by
  refine Steady.read_bind fun r => ?_
  cases r.mode? with
  | none => exact Steady.fault nofun
  | some mode =>
    refine Steady.ofExcept_bind (fun f hf => Contents.kind_of_coupons hf) fun cs => ?_
    refine Steady.bind ?_ fun _ => Steady.bind ?_ fun _ => Steady.bind ?_ fun _ => ?_
    · refine Steady.bind (Region.steady_reserve (Footprint.dense_le_most cfg)) fun _ => ?_
      exact Steady.write fun r hr => (((hr.within (Region.within_putHeader ..)).zero _ _).within
        (Region.within_putAtMinimum ..)).within (Region.within_putEstimator ..)
    · exact Steady.write fun r hr => hr.zero _ _
    · exact Steady.forM (Registers.steady_insert hw _) cs
    · exact Steady.write fun r hr => hr.within (Region.within_putTotal ..)

namespace CouponTable

omit hw in
theorem steady_place (n L : Nat) (c : Coupon) : Steady (Roomy n) (place L c) := by
  refine Steady.read_bind fun r => ?_
  split
  · exact Steady.write fun r hr => hr.within (Region.within_setCoupon ..)
  · exact Steady.fault nofun
  · exact Steady.fault nofun

theorem steady_insertTable (c : Coupon) : Steady (Roomy (Footprint.most cfg)) (insert cfg c) := by
  refine Steady.read_bind fun r => ?_
  dsimp only
  split
  · exact Steady.done _
  · exact Steady.fault nofun
  refine Steady.bind (Steady.write fun r hr => hr.within (Region.within_setCoupon ..)) fun _ =>
    Steady.read_bind fun r' => Steady.bind ?_ fun _ => ?_
  · exact Steady.write fun r hr =>
      (hr.within (Region.within_setWord ..)).within (Region.within_putFlag ..)
  split_ifs with hfull hmost
  · exact Steady.bind (Promotion.steady_toDense hw) fun _ => Steady.done _
  · refine Steady.bind ?_ fun _ => Steady.done _
    -- the table that grows is not the largest
    have hroom := Footprint.sparse_le_most (Nat.lt_of_not_le hmost)
    refine Steady.read_bind fun r' => Steady.bind (Region.steady_reserve hroom) fun _ =>
      Steady.bind ?_ fun _ => Steady.forM (steady_place _ _) _
    exact Steady.write fun r hr => (hr.within (Region.within_setByte ..)).zero _ _
  · exact Steady.done _

theorem steady_insertOrRaise (mode : Mode) (c : Coupon) :
    Steady (Roomy (Footprint.most cfg)) (insertOrRaise cfg mode c) := by
  cases mode with
  | dense => exact Steady.bind (Registers.steady_insert hw _ c) fun _ => Steady.done _
  | list => exact steady_insertTable hw c
  | set => exact steady_insertTable hw c

end CouponTable

theorem CouponList.steady_insertList (c : Coupon) :
    Steady (Roomy (Footprint.most cfg)) (insert cfg c) := by
  refine Steady.read_bind fun r => ?_
  dsimp only
  split
  · exact Steady.done _
  · exact Steady.fault nofun
  refine Steady.bind (Steady.write fun r hr => hr.within (Region.within_setCoupon ..)) fun _ =>
    Steady.read_bind fun r' => Steady.bind ?_ fun _ => ?_
  · exact Steady.write fun r hr =>
      (hr.within (Region.within_setByte ..)).within (Region.within_putFlag ..)
  split_ifs with hfull hsmall
  · exact Steady.bind (Promotion.steady_toDense hw) fun _ => Steady.done _
  · have hlg : Footprint.lgTable ≤ Footprint.lgLargestTable cfg := by
      have h8 : lgTableFrom = 8 := rfl
      unfold Footprint.lgTable Footprint.lgLargestTable
      omega
    refine Steady.read_bind fun r' =>
      Steady.bind (Region.steady_reserve (Footprint.sparse_le_most hlg)) fun _ =>
      Steady.bind ?_ fun _ => Steady.foldlM (CouponTable.steady_insertOrRaise hw) _ _
    exact Steady.write fun r hr => (hr.within (Region.within_putHeader ..)).zero _ _
  · exact Steady.done _

end Coupons

end HyperLogLog
