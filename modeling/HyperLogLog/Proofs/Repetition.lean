import HyperLogLog.Proofs.Handle

/-!
# What a sketch has taken in already

* `Holding.Knows`: a holding has the observation of a coupon;
* `Keeps.insert_known`, `Keeps.absorb_absorb`: taking that coupon in again, or what a source has,
  changes nothing, not even a byte beyond the image;
* **`repeats_change_nothing`**: updates and merges that are repeated leave a sketch as it is.
-/

namespace HyperLogLog

open Registers (Dense Relative Whole packed_of_four packed_of_ne_four)

/-! ## Holdings -/

namespace Holding

variable {lgK : Nat} {h : Holding} {c : Coupon} {cs : List Coupon}

/-- The holding has the observation of the coupon. -/
def Knows (lgK : Nat) (c : Coupon) : Holding → Prop
  | list cs _ => c ∈ cs
  | table L slots _ => c ∈ Slots.live (2 ^ L) slots
  | dense g => c.value ≤ g.values (c.slot % 2 ^ lgK)

/-- **A holding knows the coupons whose observations it has.** -/
theorem Records.knows (hr : h.Records lgK cs) (hc : c ∈ cs) : h.Knows lgK c := by
  cases h with
  | list ds n =>
    have hds : ds = cs.eraseDups := hr
    change c ∈ ds
    rwa [hds, List.mem_eraseDups]
  | table L slots n => exact (hr c).2 hc
  | dense g =>
    change c.value ≤ g.values (c.slot % 2 ^ lgK)
    rw [hr _ (Nat.mod_lt _ (Nat.two_pow_pos lgK))]
    exact value_le_peak hc

theorem knows_absorb (hk : lgK ≤ 26) (hs : h.Sound lgK) (hcs : ∀ c ∈ cs, c ≠ .empty) :
    ∀ c ∈ cs, (h.absorb lgK cs).Knows lgK c := fun _ hc =>
  (records_absorb hs (records_coupons hk hs) hcs).knows (List.mem_append_right _ hc)

theorem forget_forget (h : Holding) : h.forget.forget = h.forget := by
  cases h <;> rfl

end Holding

/-! ## Images -/

section Images

variable {cfg : Config} {r : Region} {g : Registry} {v : Nat → Nat} {L n : Nat}
  {slots : Nat → Coupon} {c : Coupon} {cs : List Coupon}

namespace Registers

theorem Relative.insert_known (h : Relative cfg v r) (hw : cfg.width = .four)
    (hc : c.value ≤ v (c.slot % cfg.k)) : insertRelative cfg c r = .ok () r := by
  have hread := h.read_eq hw (Nat.mod_lt c.slot (k_pos cfg))
  refine EStateM.get_bind.trans ?_
  dsimp only
  by_cases hm : c.value ≤ r.minimum
  · rw [if_pos hm]
    rfl
  · rw [if_neg hm, hread]
    refine EStateM.ofExcept_bind.trans ?_
    rw [if_pos hc]
    rfl

theorem Whole.insert_known (h : Whole cfg v r) (hc : c.value ≤ v (c.slot % cfg.k)) :
    insertWhole cfg c r = .ok () r := by
  have hfield := h.field _ (Nat.mod_lt c.slot (k_pos cfg))
  refine EStateM.get_bind.trans ?_
  dsimp only
  rw [hfield, if_pos hc]
  rfl

theorem Dense.insert_known (h : Dense cfg g r) (hc : c.value ≤ g.values (c.slot % cfg.k)) :
    insert cfg c r = .ok () r := by
  have hp := h.packed
  by_cases hw : cfg.width = .four
  · rw [insert_of_four hw]
    exact ((packed_of_four hw).1 hp).insert_known hw hc
  · rw [insert_of_ne_four hw]
    exact ((packed_of_ne_four hw).1 hp).insert_known hc

end Registers

theorem Tabulated.insert_known (h : Tabulated cfg L slots n r) (hL : L < 256)
    (hp : Slots.Probed (CouponTable.position L) (2 ^ L) slots)
    (hc : c ∈ Slots.live (2 ^ L) slots) : CouponTable.insert cfg c r = .ok .set r := by
  refine EStateM.get_bind.trans ?_
  dsimp only
  rw [h.headed.lgArr_eq hL, h.find_eq, hp.seek_of_mem hc]
  rfl

theorem Listed.insert_known (h : Listed cfg cs n r) (hcs : ∀ c ∈ cs, c ≠ .empty)
    (hlen : cs.length ≤ 8) (hc : c ∈ cs) : CouponList.insert cfg c r = .ok .list r := by
  have hslots : 2 ^ r.lgArr = 8 := by rw [h.headed.lgArr_eq (by decide)]; rfl
  refine EStateM.get_bind.trans ?_
  dsimp only
  rw [hslots, h.find_of_mem hcs hlen hc]
  rfl

theorem Registers.Dense.forget_forgotten (h : Dense cfg g r) (htotal : g.history.total = 0.0)
    (hflag : g.history.outOfOrder = true) : (r.putTotal 0.0).putFlag .outOfOrder true = r := by
  have hin := Region.within_putTotal r 0.0
  have hin' := Region.within_putFlag (r.putTotal 0.0) .outOfOrder true
  have hsame : Dense cfg g ((r.putTotal 0.0).putFlag .outOfOrder true) := by
    refine ((h.putTotal 0.0).putFlag true).congr_registry (fun _ _ => rfl) ?_
    rw [← htotal, ← hflag]
  have hfoot : 40 + Footprint.registers cfg ≤ Footprint.dense cfg r.exceptionCount :=
    Registers.registers_le_footprint _
  refine Region.ext_byte (hin'.size.trans hin.size) (hin'.backing.trans hin.backing) fun j => ?_
  by_cases hj : j < Footprint.dense cfg r.exceptionCount
  · exact (h.byte_eq hsame (fun _ _ => rfl) rfl rfl rfl hj fun _ _ => rfl).symm
  · rw [hin'.byte j (.inr (by omega)), hin.byte j (.inr (by omega))]

end Images

/-! ## Sketches -/

namespace Sketch

variable {s t u : Sketch} {h : Holding} {c : Coupon} {cs ds : List Coupon}

namespace Keeps

/-- **A coupon that a sketch knows is taken in, and leaves it as it is.** -/
theorem insert_known (hs : s.Keeps h) (hc : h.Knows s.config.lgK c) :
    Sketch.insert c s = .ok () s := by
  have himg := hs.image
  have hsound := hs.sound
  have hedit : edit s.config c s.mode s.region = .ok s.mode s.region := by
    rw [hs.mode]
    cases h with
    | list ds n =>
      have l : Holding.Listable ds n := hsound
      have hlen : ds.length ≤ 8 := Nat.le_of_lt (Nat.lt_of_le_of_lt l.counted l.room)
      exact Listed.insert_known himg l.live hlen hc
    | table L slots n =>
      have t : Holding.Tabled s.config.lgK L slots n := hsound
      exact Tabulated.insert_known himg (lgArr_lt t.most) t.probed hc
    | dense g =>
      have hd : Dense s.config g s.region := himg
      exact (EStateM.bind_of_ok (hd.insert_known hc)).trans rfl
  rw [insert_eq hs.writable, hedit]

theorem insertAll_known (hs : s.Keeps h) (hcs : ∀ c ∈ cs, h.Knows s.config.lgK c) :
    Sketch.insertAll cs s = .ok () s := by
  induction cs with
  | nil => rfl
  | cons c cs ih =>
    obtain ⟨hc, hcs⟩ := List.forall_mem_cons.1 hcs
    exact (EStateM.bind_of_ok (hs.insert_known hc)).trans (ih hcs)

theorem forgetHistory_forgotten (hs : s.Keeps h) (hf : h.forget = h) :
    Sketch.forgetHistory s = .ok () s := by
  have himg := hs.image
  have hmode := hs.mode
  unfold Sketch.forgetHistory
  cases h with
  | list ds n => exact EStateM.get_bind.trans (by rw [hmode]; rfl)
  | table L slots n => exact EStateM.get_bind.trans (by rw [hmode]; rfl)
  | dense g =>
    have hd : Dense s.config g s.region := himg
    have hg : { g with history := { g.history with total := 0.0, outOfOrder := true } } = g :=
      Holding.dense.inj hf
    have hhist := congrArg Registry.history hg
    have hsame := hd.forget_forgotten (congrArg Estimator.total hhist).symm
      (congrArg Estimator.outOfOrder hhist).symm
    have hrun : editing (modify fun r => (r.putTotal 0.0).putFlag .outOfOrder true) s =
        .ok () ⟨s.config, s.mode, (s.region.putTotal 0.0).putFlag .outOfOrder true⟩ :=
      editing_of_ok rfl
    rw [hsame] at hrun
    refine EStateM.get_bind.trans ?_
    rw [hmode, if_pos (show (Holding.dense g).mode = .dense from rfl)]
    exact hrun

/-- **A target that takes in the same of a source again** is left as it is. -/
theorem absorb_absorb (ht : t.Keeps h) (hs : s.offered t.config.lgK = .ok cs)
    (hcs : ∀ c ∈ cs, c ≠ .empty) (hu : Sketch.absorb s t = .ok () u) :
    Sketch.absorb s u = .ok () u := by
  obtain ⟨hcfg, -, hk⟩ := (ht.absorb_of_ok hs).ok u hu
  have hknown := Holding.knows_absorb (lgK_le t) ht.sound hcs
  rw [← hcfg] at hs hk hknown
  have hrun := absorb_eq hk.writable hs
  cases cs with
  | nil => exact hrun
  | cons c cs =>
    have hforget : (h.absorb u.config.lgK (c :: cs)).forget = h.absorb u.config.lgK (c :: cs) := by
      rw [Holding.absorb, if_neg (List.cons_ne_nil c cs), Holding.forget_forget]
    exact hrun.trans ((EStateM.bind_of_ok (hk.insertAll_known hknown)).trans
      (hk.forgetHistory_forgotten hforget))

end Keeps

/-- **What a sketch has taken in already leaves it as it is**, whichever representation it is in by
now. Any coupon that it took in since it was empty is accepted again, and changes neither the handle
nor a byte. If a merge succeeds, the same merge right after it succeeds, and changes neither. -/
theorem repeats_change_nothing :
    (∀ (s : Sketch) (cs : List Coupon), Fed s cs → ∀ c ∈ cs, insert c s = .ok () s) ∧
      ∀ s t u : Sketch, s.Reachable → t.Reachable → absorb s t = .ok () u →
        absorb s u = .ok () u := by
  refine ⟨fun s cs hs c hc => ?_, fun s t u hs ht hu => ?_⟩
  · obtain ⟨h, hs, hst⟩ := hs.keeps
    exact hs.insert_known (hst.records.knows hc)
  · obtain ⟨h', hs⟩ := hs.owns
    obtain ⟨h, ht⟩ := ht.owns
    obtain ⟨cs, ho, -⟩ := absorb_eq_ok hu
    refine ht.toKeeps.absorb_absorb ho ?_ hu
    rw [hs.toKeeps.eq_offer ho]
    exact Holding.ne_empty_offer _ hs.sound

/-- A list that takes in a coupon and another list, both twice. -/
theorem repeats_change_nothing_lists :
    ∃ s t u, Fed t [.pack 5 3] ∧ s.Reachable ∧ t.Reachable ∧ insert (.pack 5 3) t = .ok () t ∧
      absorb s t = .ok () u ∧ absorb s u = .ok () u := by
  have hc : 0 < (Coupon.pack 5 3).value := by decide
  have hd : 0 < (Coupon.pack 19 2).value := by decide
  obtain ⟨s, hs, -, hsowns⟩ := (Owns.new ⟨5, .six, by decide, by decide⟩).insert (.pack 19 2)
  obtain ⟨t, ht, -, htowns⟩ := (Owns.new ⟨4, .four, by decide, by decide⟩).insert (.pack 5 3)
  obtain ⟨honce, hmerge⟩ := repeats_change_nothing
  have hfed : Fed t [.pack 5 3] := (Fed.new _).insert hc ht
  have hsr := (Reachable.new _).insert hd hs
  have htr := (Reachable.new _).insert hc ht
  have hsmode : s.mode = .list := hsowns.mode
  have hlist := hsowns.offered_eq (j := t.config.lgK) fun hm => nomatch hm.1.symm.trans hsmode
  obtain ⟨u, hu, -, -⟩ := htowns.absorb_of_ok hlist
  exact ⟨s, t, u, hfed, hsr, htr, honce t _ hfed _ List.mem_cons_self, hu, hmerge s t u hsr htr hu⟩

end Sketch

end HyperLogLog
