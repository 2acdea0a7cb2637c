import HyperLogLog.Proofs.Room
import HyperLogLog.Proofs.Sparse

/-!
# Where lent bytes run short

An edit that makes room in lent bytes may find too few. What it then leaves behind depends on how
far it had come: `Ends` states both, what holds when a computation succeeds and what holds when it
fails.

* `Ends` and its rules, one for each way to build computations;
* `Region.Tenure`: a region stays in the same hands, and a lent one keeps its size;
* `Fault.OfRaise`: the faults that are found while the minimum of four-bit registers rises;
* `Registers.tall`: how many registers may have to be exceptions;
* `Registers.ends_insertRelative`, `Registers.ends_insertWhole`: what registers leave when they
  fail to take in a coupon;
* **`Dense.ends_insert`**: registers that lack the room for an exception are left as they were;
* **`Promotion.ends_toDense`**: a promotion that lacks room has changed nothing yet, or leaves the
  registers of some of the coupons.
-/

namespace HyperLogLog

/-! ## Computations and what they leave when they fail -/

section Ends

variable {σ α β : Type} {R : σ → σ → Prop}

/-- Run from `s`, the computation leads to a state that is related to `s`. It succeeds with an
outcome and a state that satisfy `post`, or it fails with a fault and a state that satisfy
`fail`. -/
structure Ends (R : σ → σ → Prop) (x : EStateM Fault σ α) (s : σ) (post : α → σ → Prop)
    (fail : Fault → σ → Prop) : Prop where
  ok : ∀ a s', x s = .ok a s' → R s s' ∧ post a s'
  error : ∀ f s', x s = .error f s' → R s s' ∧ fail f s'

namespace Ends

variable {x : EStateM Fault σ α} {s : σ} {post post' : α → σ → Prop} {fail fail' : Fault → σ → Prop}

theorem of_ok {a : α} {s' : σ} (hx : x s = .ok a s') (hr : R s s') (h : post a s') :
    Ends R x s post fail := by
  constructor
  · intro a₁ s₁ h₁
    obtain ⟨rfl, rfl⟩ := EStateM.Result.ok.inj (hx.symm.trans h₁)
    exact ⟨hr, h⟩
  · intro f s₁ h₁
    cases hx.symm.trans h₁

theorem of_error {f : Fault} {s' : σ} (hx : x s = .error f s') (hr : R s s') (h : fail f s') :
    Ends R x s post fail := by
  constructor
  · intro a s₁ h₁
    cases hx.symm.trans h₁
  · intro f₁ s₁ h₁
    obtain ⟨rfl, rfl⟩ := EStateM.Result.error.inj (hx.symm.trans h₁)
    exact ⟨hr, h⟩

theorem mono (h : Ends R x s post fail) (hp : ∀ a s', R s s' → post a s' → post' a s')
    (hf : ∀ f s', R s s' → fail f s' → fail' f s') : Ends R x s post' fail' :=
  ⟨fun a s' hx => (h.ok a s' hx).imp_right (hp a s' (h.ok a s' hx).1),
    fun f s' hx => (h.error f s' hx).imp_right (hf f s' (h.error f s' hx).1)⟩

variable [IsPreorder σ R]

theorem done {a : α} (h : post a s) : Ends R (pure a) s post fail :=
  of_ok rfl (Std.Refl.refl s) h

theorem fault {f : Fault} (h : fail f s) : Ends R (throw f : EStateM Fault σ α) s post fail :=
  of_error rfl (Std.Refl.refl s) h

theorem bind {f : α → EStateM Fault σ β} {post : β → σ → Prop}
    (h : Ends R x s (fun a s' => Ends R (f a) s' post fail) fail) :
    Ends R (x >>= f) s post fail := by
  cases hx : x s with
  | error e s₁ =>
    obtain ⟨hr, hfail⟩ := h.error e s₁ hx
    exact of_error (EStateM.bind_of_error hx) hr hfail
  | ok a s₁ =>
    obtain ⟨hr₁, h₁⟩ := h.ok a s₁ hx
    have hrun : (x >>= f) s = f a s₁ := EStateM.bind_of_ok hx
    constructor
    · intro b s₂ hb
      obtain ⟨hr₂, h₂⟩ := h₁.ok b s₂ (hrun.symm.trans hb)
      exact ⟨IsTrans.trans _ _ _ hr₁ hr₂, h₂⟩
    · intro e s₂ he
      obtain ⟨hr₂, h₂⟩ := h₁.error e s₂ (hrun.symm.trans he)
      exact ⟨IsTrans.trans _ _ _ hr₁ hr₂, h₂⟩

theorem read_bind {f : σ → EStateM Fault σ α} (h : Ends R (f s) s post fail) :
    Ends R ((get : EStateM Fault σ σ) >>= f) s post fail :=
  bind (of_ok rfl (Std.Refl.refl s) h)

omit [IsPreorder σ R] in
theorem write {g : σ → σ} {post : PUnit → σ → Prop} (hr : R s (g s)) (h : post () (g s)) :
    Ends R (modify g : EStateM Fault σ PUnit) s post fail :=
  of_ok rfl hr h

theorem write_bind {g : σ → σ} {f : PUnit → EStateM Fault σ α} (hr : R s (g s))
    (h : Ends R (f ()) (g s) post fail) :
    Ends R ((modify g : EStateM Fault σ PUnit) >>= f) s post fail :=
  bind (write hr h)

theorem ofExcept_bind {e : Except Fault β} {f : β → EStateM Fault σ α}
    (hf : ∀ g, e = .error g → fail g s) (h : ∀ a, e = .ok a → Ends R (f a) s post fail) :
    Ends R ((ofExcept e : EStateM Fault σ β) >>= f) s post fail := by
  cases e with
  | ok a => exact bind (of_ok rfl (Std.Refl.refl s) (h a rfl))
  | error g => exact bind (of_error rfl (Std.Refl.refl s) (hf g rfl))

theorem forM {f : α → EStateM Fault σ PUnit} (inv : σ → Prop) : ∀ (as : List α) (s : σ),
    (∀ a s', a ∈ as → R s s' → inv s' → Ends R (f a) s' (fun _ => inv) fail) →
    inv s → Ends R (as.forM f) s (fun _ => inv) fail
  | [], _, _, h => done h
  | a :: as, s, hf, h => by
    refine bind ((hf a s List.mem_cons_self (Std.Refl.refl s) h).mono (fun _ s₁ hr h₁ => ?_)
      fun _ _ _ hfail => hfail)
    exact forM inv as s₁ (fun a' s' ha hr' => hf a' s' (List.mem_cons_of_mem _ ha)
      (IsTrans.trans _ _ _ hr hr')) h₁

end Ends

end Ends

/-! ## Regions that stay where they are -/

namespace Region

variable {r r' r'' : Region}

/-- A region in the same hands as another, and of the same size if it is lent. -/
structure Tenure (r r' : Region) : Prop where
  backing : r'.backing = r.backing
  size : r.backing = .lent → r'.size = r.size

theorem Tenure.refl (r : Region) : Tenure r r := ⟨rfl, fun _ => rfl⟩

theorem Tenure.trans (h : Tenure r r') (h' : Tenure r' r'') : Tenure r r'' :=
  ⟨h'.backing.trans h.backing, fun hb => (h'.size (h.backing.trans hb)).trans (h.size hb)⟩

instance : IsPreorder Region Tenure where
  refl := Tenure.refl
  trans _ _ _ := Tenure.trans

theorem Within.tenure {i n : Nat} (h : Within i n r r') : Tenure r r' :=
  ⟨h.backing, fun _ => h.size⟩

theorem tenure_shrink (n : Nat) : Tenure r (r.shrink n) :=
  ⟨backing_shrink .., fun hb => by
    obtain ⟨bytes, backing⟩ := r
    obtain rfl : backing = .lent := hb
    rfl⟩

end Region

open Region (Tenure)

namespace Edit

variable {α : Type} {x : Edit α} {r : Region} {post post' : α → Region → Prop}
  {fail : Fault → Region → Prop}

theorem Meets.ends (hm : x.Meets r post') (h : Ends Tenure x r post fail) :
    Ends Tenure x r (fun a r' => post a r' ∧ post' a r') fun f r' =>
      fail f r' ∧ f.report.kind = .insufficientCapacity := by
  refine ⟨fun a r' hx => ?_, fun f r' hx => ?_⟩
  · obtain ⟨ht, hpost⟩ := h.ok a r' hx
    exact ⟨ht, hpost, (hm.ok a r' hx).2⟩
  · obtain ⟨ht, hfail⟩ := h.error f r' hx
    obtain ⟨-, required, available, rfl⟩ := hm.error f r' hx
    exact ⟨ht, hfail, rfl⟩

theorem ends_reserve (n : Nat) (hw : r.backing ≠ .frozen) :
    Ends Tenure (Region.reserve n) r (fun _ r' => n ≤ r'.size ∧ ∀ j, r'.byte j = r.byte j)
      fun _ r' => r' = r ∧ r.size < n := by
  have hm := meets_reserve n hw
  cases hb : r.backing with
  | owned =>
    obtain ⟨a, r', hx, hb', hs, -, hj⟩ := hm.total hb
    exact .of_ok hx ⟨hb'.trans hb.symm, fun hl => absurd (hb.symm.trans hl) (by decide)⟩ ⟨hs, hj⟩
  | lent =>
    have hx : Region.reserve n r =
        if r.size < n then .error (.outOfRoom n r.size) r else .ok () r := by
      rw [Region.reserve, hb]
    by_cases h : r.size < n
    · rw [if_pos h] at hx
      exact .of_error hx (.refl r) ⟨rfl, h⟩
    · rw [if_neg h] at hx
      exact .of_ok hx (.refl r) ⟨Nat.le_of_not_lt h, fun _ => rfl⟩
  | frozen => exact absurd hb hw

end Edit

/-! ## Registers -/

/-- The faults that are found while the minimum rises. -/
def Fault.OfRaise : Fault → Prop
  | minimumStuck _ | registerBelowMinimum _ | exceptionBelowMinimum _ => True
  | _ => False

theorem Fault.OfRaise.kind_ne {f : Fault} (h : f.OfRaise) :
    f.report.kind ≠ .insufficientCapacity := by
  cases f with
  | outOfRoom => exact h.elim
  | _ => exact nofun

namespace Registers

open Exceptions (offset entries)

variable {cfg : Config} {r : Region} {m : Nat}

/-- How many of the first `n` registers exceed `m` by so much that they may have to be
exceptions. -/
def tall (n m : Nat) (v : Nat → Nat) : Nat := (List.range n).countP fun i => mark + m ≤ v i

theorem tall_mono {n m : Nat} {v w : Nat → Nat} (h : ∀ i, v i ≤ w i) : tall n m v ≤ tall n m w :=
  List.countP_mono_left fun i _ hi => decide_eq_true ((of_decide_eq_true hi).trans (h i))

/-! Raising the minimum makes no room. -/

theorem ends_lowerFields : ∀ (n slot count : Nat) (r : Region),
    Ends Tenure (lowerFields n slot count) r (fun _ _ => True) fun f _ => f.OfRaise
  | 0, _, _, _ => .done trivial
  | n + 1, slot, count, r => by
    refine .read_bind ?_
    dsimp only
    split_ifs
    · exact .fault trivial
    · exact .write_bind (Region.within_putNibble ..).tenure (ends_lowerFields n _ _ _)
    · exact .write_bind (Region.within_putNibble ..).tenure (ends_lowerFields n _ _ _)
    · exact ends_lowerFields n _ _ r

theorem ends_rehome (minimum : Nat) : ∀ (cs kept : List Coupon) (r : Region),
    Ends Tenure (rehome minimum cs kept) r (fun _ _ => True) fun f _ => f.OfRaise
  | [], _, _ => .done trivial
  | c :: cs, kept, r => by
    unfold rehome
    split_ifs
    · exact .fault trivial
    · exact .write_bind (Region.within_putNibble ..).tenure (ends_rehome minimum cs kept _)
    · exact ends_rehome minimum cs _ r

theorem ends_raiseMinimum (minimum : Nat) (r : Region) :
    Ends Tenure (raiseMinimum cfg minimum) r (fun _ _ => True) fun f _ => f.OfRaise := by
  refine .bind ((ends_lowerFields _ _ _ r).mono (fun count r₁ _ _ => .read_bind ?_)
    fun _ _ _ h => h)
  refine .bind ((ends_rehome _ _ _ r₁).mono (fun kept r₂ _ _ => .write ?_ trivial)
    fun _ _ _ h => h)
  have hret : r₂.Tenure (Exceptions.retain cfg kept r₂) :=
    ⟨Exceptions.backing_retain kept, fun _ => Exceptions.size_retain kept⟩
  exact (hret.trans (Region.within_setByte ..).tenure).trans (Region.within_putAtMinimum ..).tenure

theorem ends_settle : ∀ (room : Nat) (r : Region),
    Ends Tenure (settle cfg room) r (fun _ _ => True) fun f _ => f.OfRaise
  | 0, r => by
    refine .read_bind ?_
    split_ifs
    · exact .fault trivial
    · exact .done trivial
  | room + 1, r => by
    refine .read_bind ?_
    split_ifs
    · exact .bind ((ends_raiseMinimum _ r).mono (fun _ r₁ _ _ => ends_settle room r₁)
        fun _ _ _ h => h)
    · exact .done trivial

/-- A register that is to become an exception, where there is no room for one more. -/
structure Crowded (cfg : Config) (slot minimum value : Nat) (r : Region) : Prop where
  unmarked : r.nibble slot ≠ mark
  marked : mark ≤ value - minimum
  scant : r.size < offset cfg (r.exceptionCount + 1)

theorem ends_insertException (slot value : Nat) (hw : r.backing ≠ .frozen) :
    Ends Tenure (Exceptions.insert cfg slot value) r (fun _ _ => True) fun f r' =>
      r' = r ∧ (f.report.kind = .insufficientCapacity →
        r.size < offset cfg (r.exceptionCount + 1)) := by
  refine .read_bind ?_
  split
  · exact .fault ⟨rfl, nofun⟩
  · refine .bind ((Edit.ends_reserve _ hw).mono (fun _ r₁ _ _ => ?_)
      fun _ _ _ h => ⟨h.1, fun _ => h.2⟩)
    refine .write ?_ trivial
    exact ((Exceptions.within_openGap ..).tenure.trans (Region.within_setCoupon ..).tenure).trans
      (Region.within_setWord ..).tenure

/-- **A register is stored, or left as it was**: for want of room only if it is to become an
exception. -/
theorem ends_store (slot minimum value : Nat) (hw : r.backing ≠ .frozen) :
    Ends Tenure (store cfg slot (r.nibble slot) minimum value) r (fun _ _ => True) fun f r' =>
      r' = r ∧ (f.report.kind = .insufficientCapacity → Crowded cfg slot minimum value r) := by
  unfold store
  split_ifs with hraw hfar hfar
  · refine .read_bind ?_
    split
    · exact .write (Region.within_setCoupon ..).tenure trivial
    · exact .fault ⟨rfl, nofun⟩
  · exact .fault ⟨rfl, nofun⟩
  · exact .bind ((ends_insertException slot value hw).mono
      (fun _ r₁ _ _ => .write (Region.within_putNibble ..).tenure trivial)
      fun _ _ _ h => h.imp_right fun hscant hkind => ⟨hraw, hfar, hscant hkind⟩)
  · exact .write (Region.within_putNibble ..).tenure trivial

theorem ends_insertRelative (c : Coupon) (hw : r.backing ≠ .frozen) :
    Ends Tenure (insertRelative cfg c) r (fun _ _ => True) fun f r' =>
      r' = r ∧ (f.report.kind = .insufficientCapacity →
        Crowded cfg (c.slot % cfg.k) r.minimum c.value r) ∨ f.OfRaise := by
  have hstore := @ends_store cfg r (c.slot % cfg.k) r.minimum c.value hw
  refine .read_bind ?_
  dsimp only
  by_cases hle : c.value ≤ r.minimum
  · rw [if_pos hle]
    exact .done trivial
  rw [if_neg hle]
  refine .ofExcept_bind
    (fun _ hg => .inl ⟨rfl, fun hkind => absurd hkind (kind_of_read hg)⟩) fun old _ => ?_
  split_ifs
  · exact .done trivial
  · exact .bind (hstore.mono
      (fun _ r₁ _ _ => .write (Region.within_raiseEstimator ..).tenure trivial)
      fun _ _ _ h => .inl h)
  · exact .fault (.inl ⟨rfl, nofun⟩)
  · -- all that can fail from here on is the rise of the minimum
    refine .bind (hstore.mono (fun _ r₁ _ _ => ?_) fun _ _ _ h => .inl h)
    refine .write_bind ((Region.within_raiseEstimator ..).tenure.trans
      (Region.within_putAtMinimum ..).tenure) ?_
    exact (ends_settle _ _).mono (fun _ _ _ h => h) fun _ _ _ h => .inr h

theorem ends_insertWhole (c : Coupon) :
    Ends Tenure (insertWhole cfg c) r (fun _ _ => True) fun f r' =>
      r' = r ∧ f.report.kind ≠ .insufficientCapacity := by
  have ht : r.Tenure ((r.putField cfg.width (c.slot % cfg.k) c.value).raiseEstimator
      cfg.lgK (r.field cfg.width (c.slot % cfg.k)) c.value) :=
    (Region.within_putField _ (Nat.mod_lt _ (k_pos cfg))).tenure.trans
      (Region.within_raiseEstimator ..).tenure
  refine .read_bind ?_
  dsimp only
  split_ifs
  · exact .done trivial
  · exact .write ht trivial
  · exact .fault ⟨rfl, nofun⟩
  · exact .write (ht.trans (Region.within_putAtMinimum ..).tenure) trivial

/-! What the exceptions are at most. -/

theorem length_le_tall {n m : Nat} {v : Nat → Nat} {slots : List Nat} (hnd : slots.Nodup)
    (hslots : ∀ i ∈ slots, i < n ∧ mark + m ≤ v i) : slots.length ≤ tall n m v := by
  rw [tall, List.countP_eq_length_filter]
  refine (hnd.subperm fun i hi => ?_).length_le
  rw [List.mem_filter, List.mem_range, decide_eq_true_eq]
  exact hslots i hi

section Tall

variable {v w : Nat → Nat} {slot value m : Nat}

theorem Coded.tall_entry (h : Coded cfg v r) :
    ∀ i ∈ (entries cfg r).map Coupon.slot, i < cfg.k ∧ mark ≤ v i - r.minimum := by
  intro i hi
  obtain ⟨c, hc, rfl⟩ := List.mem_map.1 hi
  obtain ⟨hs, hx, -⟩ := (h.exceptional c).1 hc
  exact ⟨hs, hx⟩

/-- A new exception is one more register that is tall. -/
theorem Relative.succ_le_tall (h : Relative cfg v r) (hs : slot < cfg.k)
    (hc : Crowded cfg slot r.minimum value r) (hm : ∀ i, i < cfg.k → m ≤ v i)
    (hw : ∀ i, i < cfg.k → v i ≤ w i) (hvalue : value ≤ w slot) :
    r.exceptionCount + 1 ≤ tall cfg.k m w := by
  obtain ⟨j, hj, hmin⟩ := level_pos.1 (h.counted ▸ h.attained)
  have hle : m ≤ r.minimum := hmin ▸ hm j hj
  have hmarked := hc.marked
  have hpos : 0 < mark := by decide
  have hnew : slot ∉ (entries cfg r).map Coupon.slot := fun hmem => by
    have := (h.tall_entry slot hmem).2
    have := h.nibble slot hs
    exact hc.unmarked (by omega)
  rw [← Exceptions.length_entries cfg, ← List.length_map Coupon.slot,
    ← List.length_cons (a := slot)]
  refine length_le_tall (List.nodup_cons.2 ⟨hnew, h.sorted.nodup_slots⟩) fun i hi => ?_
  rcases List.mem_cons.1 hi with rfl | hi
  · exact ⟨hs, by omega⟩
  · obtain ⟨hi, hx⟩ := h.tall_entry i hi
    have := hw i hi
    exact ⟨hi, by omega⟩

/-- **Registers that lack the room for an exception are left as they were**, and the exceptions
would have been no more than the registers that are tall. -/
theorem Dense.ends_insert {g : Registry} (h : Dense cfg g r) (hb : r.backing ≠ .frozen) (c : Coupon)
    (hm : ∀ i, i < cfg.k → m ≤ g.values i) (hv : ∀ i, i < cfg.k → g.values i ≤ v i)
    (hc : c.value ≤ v (c.slot % cfg.k)) :
    Ends Tenure (insert cfg c) r (fun _ r' => Dense cfg (g.take cfg.lgK c) r') fun _ r' =>
      r' = r ∧ cfg.width = .four ∧ r.size < Footprint.dense cfg (tall cfg.k m v) := by
  have hmeets := h.meets_insert hb c
  have hs : c.slot % cfg.k < cfg.k := Nat.mod_lt _ (k_pos cfg)
  by_cases hw : cfg.width = .four
  · have hends := @ends_insertRelative cfg r c hb
    rw [← insert_of_four hw] at hends
    refine (hmeets.ends hends).mono (fun _ r' _ hr' => hr'.2) fun f r' _ ⟨hfail, hkind⟩ => ?_
    obtain ⟨rfl, hcrowded⟩ := hfail.resolve_right fun hraise => hraise.kind_ne hkind
    have hle := ((packed_of_four hw).1 h.packed).succ_le_tall hs (hcrowded hkind) hm hv hc
    have hscant := (hcrowded hkind).scant
    refine ⟨rfl, hw, ?_⟩
    rw [footprint_of_four hw]
    unfold offset at hscant ⊢
    omega
  · have hends := @ends_insertWhole cfg r c
    rw [← insert_of_ne_four hw] at hends
    exact (hmeets.ends hends).mono (fun _ r' _ hr' => hr'.2) fun f r' _ hfail =>
      absurd hfail.2 hfail.1.2

end Tall

theorem ends_clear (hb : r.backing ≠ .frozen) :
    Ends Tenure (clear cfg) r (fun _ r' => Dense cfg (Registry.fresh cfg.lgK) r') fun _ r' =>
      r' = r ∧ r.size < Footprint.dense cfg 0 := by
  have hends : Ends Tenure (clear cfg) r (fun _ _ => True) fun _ r' =>
      r' = r ∧ r.size < Footprint.dense cfg 0 := by
    refine .bind ((Edit.ends_reserve _ hb).mono (fun _ r₁ _ _ => ?_) fun _ _ _ hfail => hfail)
    exact .write ((((Region.within_putHeader ..).tenure.trans (Region.within_zero ..).tenure).trans
      (Region.within_putAtMinimum ..).tenure).trans (Region.within_putEstimator ..).tenure) trivial
  exact ((meets_clear cfg hb).ends hends).mono (fun _ _ _ h => h.2) fun _ _ _ h => h.1

end Registers

/-! ## Promotion -/

open Registers (Dense tall)

variable {cfg : Config} {r : Region} {v : Nat → Nat} {cs : List Coupon}

/-- **A promotion that lacks room** has changed nothing, if that is for the registers, or leaves
the registers of some of the coupons, if it is for an exception. -/
theorem Promotion.ends_toDense {mode : Mode} (hm : r.mode? = some mode)
    (hc : Contents.coupons cfg mode r = .ok cs) (hb : r.backing ≠ .frozen)
    (hv : ∀ c ∈ cs, c.value ≤ v (c.slot % cfg.k)) :
    Ends Tenure (toDense cfg) r (fun _ r' => ∃ g, Dense cfg g r') fun f r' =>
      f.report.kind = .insufficientCapacity ∧
      (r' = r ∧ r.size < Footprint.dense cfg 0 ∨
        (∃ g, Dense cfg g r') ∧ cfg.width = .four ∧
          r'.size < Footprint.dense cfg (tall cfg.k 0 v)) := by
  have hends : Ends Tenure (toDense cfg) r (fun _ _ => True) fun _ r' =>
      r' = r ∧ r.size < Footprint.dense cfg 0 ∨
        (∃ g, Dense cfg g r') ∧ cfg.width = .four ∧
          r'.size < Footprint.dense cfg (tall cfg.k 0 v) := by
    refine .read_bind ?_
    rw [hm]
    refine .ofExcept_bind (fun g hg => absurd (hc.symm.trans hg) nofun) fun cs' hcs' => ?_
    cases hc.symm.trans hcs'
    refine .bind ((Registers.ends_clear hb).mono (fun _ r₁ ht₁ hfresh => ?_)
      fun _ _ _ hfail => .inl hfail)
    have hzero := Region.within_zero r₁ (Footprint.dense cfg 0)
      (r.footprint cfg mode - Footprint.dense cfg 0)
    have hfresh' := hfresh.zero_fresh (r.footprint cfg mode - Footprint.dense cfg 0)
    refine .write_bind hzero.tenure ?_
    generalize r₁.zero (Footprint.dense cfg 0) _ = r₂ at hzero hfresh' ⊢
    have hb₂ : r₂.backing ≠ .frozen := by rwa [hzero.backing, ht₁.backing]
    -- no register rises above `v`, whatever coupons have been taken in
    refine .bind ((Ends.forM (fun r => ∃ g, Dense cfg g r ∧
      ∀ i, i < cfg.k → g.values i ≤ v i) cs r₂ (fun c r' hcmem ht' ⟨g, hd, hg⟩ => ?_)
      ⟨_, hfresh', fun i _ => Nat.zero_le _⟩).mono (fun _ r₃ _ _ => ?_)
      fun _ _ _ hfail => .inr hfail)
    · have hinsert := hd.ends_insert (by rwa [ht'.backing]) c (fun _ _ => Nat.zero_le _) hg
        (hv c hcmem)
      refine hinsert.mono (fun _ r'' _ hd' => ⟨_, hd', fun i hi => ?_⟩)
        fun _ r'' _ ⟨hr'', hw, hscant⟩ => ?_
      · rw [Registry.values_take]
        refine Nat.max_le.2 ⟨hg i hi, ?_⟩
        split_ifs with hslot
        · exact hslot ▸ hv c hcmem
        · exact Nat.zero_le _
      · subst hr''
        exact ⟨⟨g, hd⟩, hw, hscant⟩
    · exact .write (Region.within_putTotal ..).tenure trivial
  exact ((meets_toDense hm hc hb).ends hends).mono (fun _ _ _ h => ⟨_, h.2⟩)
    fun _ _ _ ⟨hfail, hkind⟩ => ⟨hkind, hfail⟩

end HyperLogLog
