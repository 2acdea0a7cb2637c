import HyperLogLog.Proofs.Capacity
import HyperLogLog.Proofs.Repetition
import HyperLogLog.Proofs.Union

/-!
# The running total over whole runs

A dense sketch adds to its running total before each register that rises. Promotions and merges
take coupons in the same way and say nothing about the order of arrival, so what they added is
overwritten or declared void afterwards.

* `Sketch.increment`: what a register that rises adds;
* `Sketch.trace`, `Sketch.accrued`: the changes of a run that raised a register, added up;
* `Action.Merges`, `Sketch.Merged`: merges that make the total void;
* `Holding.joined`: the coupons of a list or a table that is given one more;
* `Holding.insert_promotes`: which coupon turns a list or a table into registers;
* `Sketch.Moves`: all that an action does to a sketch that owns its image;
* `Moves.totals`, `Moves.voided`: what it does to a total that counts, and to one that is void;
* **`running_total`**: the total of a dense sketch at any moment of any run.
-/

namespace HyperLogLog

open Registers (Dense)

/-! ## Sums and registers -/

/-- A register that rises leaves the total as it is once it has been advanced. -/
theorem Estimator.total_raise {α : Type} [Scalar α] (e : Estimator α) (lgK old new : Nat) :
    (e.raise lgK old new).total = (e.advance lgK).total := by
  unfold Estimator.raise Estimator.deposit Estimator.withdraw
  split_ifs <;> rfl

namespace Holding

variable {lgK j L n : Nat} {slots : Nat → Coupon} {h h' : Holding} {c : Coupon}
  {cs : List Coupon}

/-- Registers whose total is void. -/
def Void : Holding → Prop
  | dense g => g.history.outOfOrder = true ∧ g.history.total = 0.0
  | _ => False

theorem void_forget (hm : h.mode = .dense) : h.forget.Void := by
  cases h with
  | list cs n => cases hm
  | table L slots n => cases hm
  | dense g => exact ⟨rfl, rfl⟩

theorem Void.insert (hv : h.Void) (c : Coupon) : (h.insert lgK c).Void := by
  cases h with
  | list cs n => cases hv
  | table L slots n => cases hv
  | dense g =>
    obtain ⟨ho, ht⟩ := hv
    refine ⟨(Registry.outOfOrder_take lgK g c).trans ho, ?_⟩
    unfold Registry.take
    dsimp only
    split_ifs
    · exact ht
    · rw [Estimator.total_raise, Estimator.advance, if_pos ho, ht]

theorem mode_absorb_of_ne_nil (hcs : cs ≠ []) (hm : (h.absorb lgK cs).mode = .dense) :
    (h.absorb lgK cs).Void := by
  rw [absorb, if_neg hcs] at hm ⊢
  rw [mode_forget] at hm
  exact void_forget hm

theorem offer_eq_nil : h.offer lgK j = [] ↔ h.coupons lgK = [] := by
  cases h with
  | list cs n => rfl
  | table L slots n => rfl
  | dense g =>
    change (if j < lgK then (risen lgK g.values).map (Coupon.folded j) else risen lgK g.values) =
      [] ↔ risen lgK g.values = []
    split_ifs
    · exact List.map_eq_nil_iff
    · rfl

theorem nodup_coupons (hs : h.Sound lgK) (hm : h.mode ≠ .dense) : (h.coupons lgK).Nodup := by
  cases h with
  | dense g => exact absurd rfl hm
  | list cs n => exact Listable.nodup hs
  | table L slots n => exact (Tabled.probed hs).nodup_live

/-- The coupons of a list or a table that is given one more, in the order of their slots. -/
def joined (c : Coupon) : Holding → List Coupon
  | list cs _ => append cs c
  | table L slots _ => Slots.live (2 ^ L) (Slots.put (CouponTable.position L) (2 ^ L) slots c)
  | dense _ => []

theorem length_joined (hs : h.Sound lgK) (hm : h.mode ≠ .dense) (hne : c ≠ .empty)
    (hc : c ∉ h.coupons lgK) : (h.joined c).length = (h.coupons lgK).length + 1 := by
  cases h with
  | dense g => exact absurd rfl hm
  | list cs n =>
    rw [joined, append, if_neg hne, List.length_append, List.length_singleton]
    rfl
  | table L slots n =>
    have t : Tabled lgK L slots n := hs
    exact Slots.Probed.length_put (Slots.covers_position L) hne hc t.lt_room

/-- A list or a table that turns into registers turns into those of all its coupons. -/
theorem insert_eq_promote (hk : lgK ≤ 21) (hs : h.Sound lgK) (hr : h.Regular lgK 8)
    (hne : c ≠ .empty) (hm : h.mode ≠ .dense) (hd : (h.insert lgK c).mode = .dense) :
    c ∉ h.coupons lgK ∧
      h.insert lgK c = promote lgK (h.joined c) ((h.coupons lgK).length + 1) := by
  cases h with
  | dense g => exact absurd rfl hm
  | list cs n =>
    have l : Listable cs n := hs
    have hlen : cs.length = n := hr
    have hn := l.room
    unfold insert at hd ⊢
    dsimp only at hd ⊢
    split_ifs at hd ⊢ with hmem hroom
    · cases hd
    · cases hd
    refine ⟨hmem, ?_⟩
    by_cases hlg : lgK < CouponList.lgTableFrom
    · rw [spill, if_pos hlg, coupons, hlen, joined]
    · have happ : append cs c = cs ++ [c] := if_neg hne
      obtain ⟨slots, hspill, -⟩ := spill_eq_table (m := n + 1) (Nat.le_of_not_lt hlg) hk
        (ne_empty_append l.live c) (nodup_append l.nodup hmem)
        (by rw [happ, List.length_append, List.length_singleton]; omega)
      rw [hspill] at hd
      cases hd
  | table L slots n =>
    have hcounted := hr.2.2.counted
    change (raise lgK (table L slots n) c).mode = .dense at hd
    change _ ∧ raise lgK (table L slots n) c = _
    by_cases hc : c ∈ Slots.live (2 ^ L) slots
    · rw [raise_of_mem hc] at hd
      cases hd
    rw [raise_of_not_mem hc] at hd ⊢
    dsimp only at hd ⊢
    split_ifs at hd ⊢ with hfull hmost
    · exact ⟨hc, congrArg (promote lgK _) (congrArg (· + 1) hcounted.symm)⟩
    · cases hd
    · cases hd

/-- **The coupon that turns a list or a table into registers** is new to it. The total of the
registers starts from the estimate of the coupons there are then. -/
theorem insert_promotes (hk : lgK ≤ 21) (hs : h.Sound lgK) (hr : h.Regular lgK 8)
    (hne : c ≠ .empty) (hm : h.mode ≠ .dense) (hd : (h.insert lgK c).mode = .dense) :
    (c :: h.coupons lgK).Nodup ∧
      ∃ ds, h.insert lgK c = promote lgK ds (c :: h.coupons lgK).length := by
  obtain ⟨hc, hpromote⟩ := insert_eq_promote hk hs hr hne hm hd
  exact ⟨List.nodup_cons.2 ⟨hc, nodup_coupons hs hm⟩, _, hpromote⟩

end Holding

namespace Sketch

variable {s t u : Sketch} {h h' : Holding} {a : Action} {as bs : List Action} {x : Double}

/-! ## What is said of a run -/

/-- The registers, in the order of their slots. -/
def registers (s : Sketch) : Except Fault (List Nat) := Registers.values s.config s.region

/-- What is added to the running total when a register rises: the inverse of the chance that it
does, by the sums as they are before. -/
def increment (s : Sketch) : Double :=
  Scalar.ofCount s.config.k / (s.region.estimator.lowSum + s.region.estimator.highSum)

/-- The sketches before and after each change of a run. -/
def trace : List Action → Sketch → List (Sketch × Sketch)
  | [], _ => []
  | a :: as, s => (s, (outcome a.change s).2) :: trace as (outcome a.change s).2

/-- What a running total that starts at `x` is after the changes of a run that raised a register. -/
def accrued (x : Double) (as : List Action) (s : Sketch) : Double :=
  ((trace as s).filter fun p => p.1.registers ≠ p.2.registers).foldl
    (fun x p => x + p.1.increment) x

/-- The action is a merge that succeeds, from a source with at least one coupon. -/
def Action.Merges (s : Sketch) : Action → Prop
  | absorb source =>
    (∃ c cs, source.coupons = .ok (c :: cs)) ∧ ∃ t, Sketch.absorb source s = .ok () t
  | _ => False

/-- Some action of a run is such a merge. -/
def Merged : List Action → Sketch → Prop
  | [], _ => False
  | a :: as, s => a.Merges s ∨ Merged as (outcome a.change s).2

/-- The running total is that of a known history, and is the estimate. -/
structure Totals (x : Double) (s : Sketch) : Prop where
  known : s.isOutOfOrder = false
  total : s.region.estimator.total = x
  estimate : s.estimate = x

/-- The running total is void, and the estimate leaves it aside. -/
structure Voided (s : Sketch) : Prop where
  void : s.isOutOfOrder = true
  total : s.region.estimator.total = 0.0
  estimate : s.estimate = s.composite

theorem run_append (as bs : List Action) (s : Sketch) :
    (run (as ++ bs) s).2 = (run bs (run as s).2).2 := by
  induction as generalizing s with
  | nil => rfl
  | cons a as ih => exact ih (outcome a.change s).2

theorem trace_append (as bs : List Action) (s : Sketch) :
    trace (as ++ bs) s = trace as s ++ trace bs (run as s).2 := by
  induction as generalizing s with
  | nil => rfl
  | cons a as ih => exact congrArg _ (ih (outcome a.change s).2)

theorem accrued_append (x : Double) (as bs : List Action) (s : Sketch) :
    accrued x (as ++ bs) s = accrued (accrued x as s) bs (run as s).2 := by
  rw [accrued, trace_append, List.filter_append, List.foldl_append]
  rfl

theorem accrued_singleton (x : Double) (a : Action) (s : Sketch) :
    accrued x [a] s =
      if s.registers = (outcome a.change s).2.registers then x else x + s.increment := by
  unfold accrued trace trace
  rw [List.filter_cons]
  split_ifs with h₁ h₂ h₂
  · exact absurd h₂ (of_decide_eq_true h₁)
  · rfl
  · rfl
  · exact absurd (decide_eq_true h₂) h₁

theorem merged_append (as bs : List Action) (s : Sketch) :
    Merged (as ++ bs) s ↔ Merged as s ∨ Merged bs (run as s).2 := by
  induction as generalizing s with
  | nil => exact (or_iff_right id).symm
  | cons a as ih => exact (or_congr_right (ih (outcome a.change s).2)).trans or_assoc.symm

theorem Keeps.totals {g : Registry} (hs : s.Keeps (.dense g))
    (ho : g.history.outOfOrder = false) : s.Totals g.history.total := by
  have hd : Dense s.config g s.region := hs.image
  have hmode : s.mode = .dense := hs.mode
  refine ⟨(congrArg Estimator.outOfOrder hd.estimator).trans ho,
    congrArg Estimator.total hd.estimator, ?_⟩
  rw [estimate, hmode, Contents.estimate, hd.estimator, Estimator.estimate]
  exact if_neg (ne_true_of_eq_false ho)

theorem Keeps.voided (hs : s.Keeps h) (hv : h.Void) : s.Voided := by
  cases h with
  | list cs n => cases hv
  | table L slots n => cases hv
  | dense g =>
    have hd : Dense s.config g s.region := hs.image
    have hmode : s.mode = .dense := hs.mode
    refine ⟨(congrArg Estimator.outOfOrder hd.estimator).trans hv.1,
      (congrArg Estimator.total hd.estimator).trans hv.2, ?_⟩
    rw [estimate, composite, hmode, Contents.estimate, Contents.composite, hd.estimator,
      Estimator.estimate]
    exact if_pos hv.1

/-! ## What an action does -/

/-- What an action that observations lead to makes of a sketch with a holding. -/
inductive Moves (s : Sketch) (h : Holding) : Action → Sketch → Holding → Prop
  | insert {c : Coupon} {t : Sketch} : c ≠ .empty → insert c s = .ok () t →
    Moves s h (.insert c) t (h.insert s.config.lgK c)
  | spared {source : Sketch} : ¬ Action.Merges s (.absorb source) →
    Moves s h (.absorb source) s h
  | absorb {source t : Sketch} {cs : List Coupon} : Action.Merges s (.absorb source) → cs ≠ [] →
    (∀ c ∈ cs, c ≠ .empty) → Moves s h (.absorb source) t (h.absorb s.config.lgK cs)
  | reset {t : Sketch} : Moves s h .reset t (.list [] 0)

/-- **All that an action does to a sketch that owns its image.** -/
theorem Owns.moves (hs : s.Owns h) (ha : a.Proper) :
    ∃ h', Moves s h a (outcome a.change s).2 h' ∧ (outcome a.change s).2.config = s.config ∧
      (outcome a.change s).2.Owns h' := by
  cases a with
  | insert c =>
    obtain ⟨t, ht, hcfg, howns⟩ := hs.insert c
    rw [Action.change, outcome_of_ok ht]
    exact ⟨_, .insert (Coupon.ne_empty ha) ht, hcfg, howns⟩
  | reset =>
    obtain ⟨t, ht, hcfg, howns⟩ := hs.reset
    rw [Action.change, outcome_of_ok ht]
    exact ⟨_, .reset, hcfg, howns⟩
  | absorb source =>
    obtain ⟨h', hsource, -⟩ := Evolved.keeps ha
    by_cases hj : source.mode = .dense ∧ source.config.lgK < s.config.lgK
    · have hrun := hs.absorb_of_error (hsource.offered_narrow hj)
      rw [Action.change, outcome_of_error hrun]
      refine ⟨_, .spared fun hm => ?_, rfl, hs⟩
      obtain ⟨-, t, ht⟩ := hm
      cases hrun.symm.trans ht
    have ho := hsource.offered_eq hj
    obtain ⟨t, ht, hcfg, howns⟩ := hs.absorb_of_ok ho
    have hoffer : h'.offer source.config.lgK s.config.lgK = [] ↔
        h'.coupons source.config.lgK = [] := Holding.offer_eq_nil
    rw [Action.change, outcome_of_ok ht]
    by_cases hnil : h'.offer source.config.lgK s.config.lgK = []
    · -- nothing is offered, so the target is not even read
      rw [hnil] at ho
      cases (absorb_eq hs.writable ho).symm.trans ht
      refine ⟨h, .spared fun hm => ?_, rfl, hs⟩
      obtain ⟨⟨c, cs, hcs⟩, -⟩ := hm
      rw [hsource.coupons_eq, hoffer.1 hnil] at hcs
      cases hcs
    · refine ⟨_, .absorb ⟨?_, t, ht⟩ hnil (Holding.ne_empty_offer _ hsource.sound), hcfg, howns⟩
      obtain ⟨c, cs, hcs⟩ := List.exists_cons_of_ne_nil (mt hoffer.2 hnil)
      exact ⟨c, cs, hsource.coupons_eq.trans (congrArg Except.ok hcs)⟩

namespace Moves

theorem regular (hm : Moves s h a t h') (hs : h.Sound s.config.lgK)
    (hr : h.Regular s.config.lgK 8) : h'.Regular s.config.lgK 8 := by
  have hk := s.config.le_twentyOne
  cases hm with
  | insert hne _ => exact Holding.regular_insert hk hs hr hne
  | spared _ => exact hr
  | absorb _ _ hne => exact Holding.regular_absorb hk hs hr hne
  | reset => rfl

theorem voided_of_merges (hm : Moves s h a t h') (ha : a.Merges s) (hd : h'.mode = .dense) :
    h'.Void := by
  cases hm with
  | insert _ _ => cases ha
  | spared hnot => exact absurd ha hnot
  | absorb _ hcs _ => exact Holding.mode_absorb_of_ne_nil hcs hd
  | reset => cases ha

/-- **A total that is void stays so** until there are no registers. -/
theorem voided (hm : Moves s h a t h') (hv : h.Void) (hd : h'.mode = .dense) : h'.Void := by
  cases hm with
  | insert _ _ => exact hv.insert _
  | spared _ => exact hv
  | absorb _ hcs _ => exact Holding.mode_absorb_of_ne_nil hcs hd
  | reset => cases hd

end Moves

/-- **An update of registers** leaves the sketch as it is, or raises a register and adds to the
total what is due before that. -/
theorem Owns.insert_dense {g : Registry} (hs : s.Owns (.dense g)) (c : Coupon) :
    Sketch.insert c s = .ok () s ∨
      ∃ t, Sketch.insert c s = .ok () t ∧ s.registers ≠ t.registers ∧
        (s.Totals x → t.Totals (x + s.increment)) := by
  by_cases hc : c.value ≤ g.values (c.slot % s.config.k)
  · exact .inl (hs.toKeeps.insert_known hc)
  obtain ⟨t, ht, hcfg, howns⟩ := hs.insert c
  have hd : Dense s.config g s.region := hs.image
  have hd' : Dense s.config (g.take s.config.lgK c) t.region := hcfg ▸ howns.image
  refine .inr ⟨t, ht, fun heq => hc ?_, fun hx => ?_⟩
  · have hslot : c.slot % s.config.k < s.config.k := Nat.mod_lt _ (Registers.k_pos s.config)
    rw [registers, registers, hcfg, hd.values_eq, hd'.values_eq] at heq
    have hsame := List.map_inj_left.1 (Except.ok.inj heq) _ (List.mem_range.2 hslot)
    rw [Registry.values_take,
      if_pos (show c.slot % 2 ^ s.config.lgK = c.slot % s.config.k from rfl)] at hsame
    rw [hsame]
    exact Nat.le_max_right ..
  · have hknown : g.history.outOfOrder = false :=
      (congrArg Estimator.outOfOrder hd.estimator).symm.trans hx.known
    have htotal : (g.take s.config.lgK c).history.total = x + s.increment := by
      have htake : g.take s.config.lgK c = ⟨_, g.history.raise s.config.lgK _ c.value⟩ := if_neg hc
      rw [htake, Estimator.total_raise, Estimator.advance,
        if_neg (ne_true_of_eq_false hknown), increment, hd.estimator, ← hx.total, hd.estimator]
      rfl
    rw [← htotal]
    exact howns.toKeeps.totals ((Registry.outOfOrder_take ..).trans hknown)

/-- **A total that counts** goes on counting, until a merge makes it void. -/
theorem Owns.totals_step {g : Registry} (hs : s.Owns (.dense g))
    (hm : Moves s (.dense g) a (outcome a.change s).2 h') (hd : h'.mode = .dense)
    (hx : s.Totals x) (ha : ¬ a.Merges s) : (outcome a.change s).2.Totals (accrued x [a] s) := by
  rw [accrued_singleton]
  generalize hu : (outcome a.change s).2 = u at hm ⊢
  cases hm with
  | @insert c t hne ht =>
    obtain hsame | ⟨t', ht', hrose, htotal⟩ := hs.insert_dense (x := x) c
    · cases ht.symm.trans hsame
      rw [if_pos rfl]
      exact hx
    · cases ht.symm.trans ht'
      rw [if_neg hrose]
      exact htotal hx
  | spared _ =>
    rw [if_pos rfl]
    exact hx
  | absorb hmerges _ _ => exact absurd hmerges ha
  | reset => cases hd

/-! ## Runs -/

/-- How the running total of a dense sketch `s` came about: the action `a` made registers of what
the sketch `t` held, and the run `as` led from there to `s`. -/
structure Account (t : Sketch) (a : Action) (as : List Action) (s : Sketch) : Prop where
  before : t.mode ≠ .dense
  /-- There were registers at every moment since. -/
  since : ∀ bs, bs <+: as → (run (a :: bs) t).2.mode = .dense
  /-- An update leaves the estimate of the coupons that were held, with its own. What is due for
  registers that rise is added to it, until there is a merge. -/
  counts : ∀ c, a = .insert c → ∃ cs, t.coupons = .ok cs ∧ (c :: cs).Nodup ∧
    (run [a] t).2.Totals (Estimate.ofCoupons (c :: cs).length) ∧
    (¬ Merged as (run [a] t).2 →
      s.Totals (accrued (Estimate.ofCoupons (c :: cs).length) as (run [a] t).2))
  /-- A merge leaves nothing to add to. -/
  void : (∀ c, a ≠ .insert c) ∨ Merged as (run [a] t).2 → s.Voided

theorem owns_run (cfg : Config) (has : ∀ a ∈ as, a.Proper) :
    ∃ h, (run as (new cfg)).2.config = cfg ∧ (run as (new cfg)).2.Owns h ∧
      h.Regular cfg.lgK 8 := by
  induction as using List.reverseRecOn with
  | nil => exact ⟨_, rfl, Owns.new cfg, rfl⟩
  | append_singleton as a ih =>
    obtain ⟨h, hcfg, hs, hr⟩ := ih fun b hb => has b (List.mem_append_left _ hb)
    rw [run_append]
    generalize (run as (new cfg)).2 = s at hcfg hs ⊢
    obtain ⟨h', hm, hcfg', hs'⟩ := hs.moves (has a (List.mem_append_right _ List.mem_cons_self))
    subst hcfg
    exact ⟨h', hcfg', hs', hm.regular hs.sound hr⟩

/-- **The action that makes registers** opens the account. -/
theorem Moves.account (hm : Moves s h a (outcome a.change s).2 h') (hs : s.Owns h)
    (hs' : (outcome a.change s).2.Owns h') (hr : h.Regular s.config.lgK 8)
    (hsparse : h.mode ≠ .dense) (hdense : h'.mode = .dense) :
    Account s a [] (outcome a.change s).2 := by
  have hmode : (outcome a.change s).2.mode = .dense := hs'.mode.trans hdense
  refine ⟨hs.mode ▸ hsparse, fun bs hbs => ?_, fun c hc => ?_, fun hvoid => ?_⟩
  · rw [List.prefix_nil.1 hbs]
    exact hmode
  · subst hc
    change ∃ cs, _ ∧ _ ∧ Totals _ (outcome (Action.insert c).change s).2 ∧
      (_ → Totals _ (outcome (Action.insert c).change s).2)
    generalize (outcome (Action.insert c).change s).2 = u at hm hs' hmode ⊢
    cases hm with
    | insert hne _ =>
      obtain ⟨hnodup, ds, hds⟩ :=
        Holding.insert_promotes s.config.le_twentyOne hs.sound hr hne hsparse hdense
      rw [hds] at hs'
      have htotals := hs'.toKeeps.totals (Holding.orderly_promote s.config.lgK ds _)
      exact ⟨_, hs.coupons_eq, hnodup, htotals, fun _ => htotals⟩
  · obtain hvoid | hvoid := hvoid
    · generalize (outcome a.change s).2 = u at hm hs' ⊢
      cases hm with
      | insert hne _ => exact absurd rfl (hvoid _)
      | spared _ => exact absurd hdense hsparse
      | absorb _ hcs _ => exact hs'.toKeeps.voided (Holding.mode_absorb_of_ne_nil hcs hdense)
      | reset => cases hdense
    · cases hvoid

/-- **Every action after that** keeps the account, as long as there are registers. -/
theorem Account.snoc {b : Action} {g : Registry} (hacc : Account t a as s)
    (hrun : (run (a :: as) t).2 = s) (hs : s.Owns (.dense g))
    (hm : Moves s (.dense g) b (outcome b.change s).2 h') (hs' : (outcome b.change s).2.Owns h')
    (hdense : h'.mode = .dense) : Account t a (as ++ [b]) (outcome b.change s).2 := by
  have hlast : (run (a :: (as ++ [b])) t).2 = (outcome b.change s).2 := by
    rw [← List.cons_append, run_append, hrun]
    rfl
  have hmid : (run as (run [a] t).2).2 = s := hrun
  have hmerged : Merged (as ++ [b]) (run [a] t).2 ↔ Merged as (run [a] t).2 ∨ b.Merges s := by
    rw [merged_append, hmid]
    exact or_congr_right (or_iff_left id)
  refine ⟨hacc.before, fun bs hbs => ?_, fun c hc => ?_, fun hvoid => ?_⟩
  · obtain rfl | hbs := List.prefix_concat_iff.1 hbs
    · rw [hlast]
      exact hs'.mode.trans hdense
    · exact hacc.since bs hbs
  · obtain ⟨cs, hcs, hnodup, hfirst, hcounts⟩ := hacc.counts c hc
    refine ⟨cs, hcs, hnodup, hfirst, fun hnot => ?_⟩
    rw [hmerged, not_or] at hnot
    rw [accrued_append, hmid]
    exact hs.totals_step hm hdense (hcounts hnot.1) hnot.2
  · rw [hmerged, ← or_assoc] at hvoid
    obtain hvoid | hmerges := hvoid
    · have hd : Dense s.config g s.region := hs.image
      have hv := hacc.void hvoid
      refine hs'.toKeeps.voided (hm.voided ⟨?_, ?_⟩ hdense)
      · exact (congrArg Estimator.outOfOrder hd.estimator).symm.trans hv.void
      · exact (congrArg Estimator.total hd.estimator).symm.trans hv.total
    · exact hs'.toKeeps.voided (hm.voided_of_merges hmerges hdense)

theorem exists_account (cfg : Config) (has : ∀ a ∈ as, a.Proper)
    (hdense : (run as (new cfg)).2.mode = .dense) :
    ∃ pre a post, as = pre ++ a :: post ∧
      Account (run pre (new cfg)).2 a post (run as (new cfg)).2 := by
  induction as using List.reverseRecOn with
  | nil => cases hdense
  | append_singleton as b ih =>
    have has' : ∀ a ∈ as, a.Proper := fun a ha => has a (List.mem_append_left _ ha)
    have hb := has b (List.mem_append_right _ List.mem_cons_self)
    obtain ⟨h, hcfg, hs, hr⟩ := owns_run cfg has'
    obtain ⟨h', hm, -, hs'⟩ := hs.moves hb
    have hlast : (run (as ++ [b]) (new cfg)).2 = (outcome b.change (run as (new cfg)).2).2 :=
      run_append as [b] (new cfg)
    rw [hlast] at hdense ⊢
    rw [hs'.mode] at hdense
    by_cases hd : h.mode = .dense
    · obtain ⟨pre, a, post, hsplit, hacc⟩ := ih has' (hs.mode.trans hd)
      refine ⟨pre, a, post ++ [b], by rw [hsplit, List.append_assoc]; rfl, ?_⟩
      cases h with
      | list cs n => cases hd
      | table L slots n => cases hd
      | dense g => exact hacc.snoc (by rw [hsplit, run_append]) hs hm hs' hdense
    · exact ⟨as, b, [], rfl, hm.account hs hs' (by rwa [hcfg]) hd hdense⟩

/-- **The running total over whole runs.** A new sketch goes through any updates, merges and resets,
some of which may be refused, and has registers in the end. If it was an update that made them, and
no merge since from a source with a coupon has succeeded, the total is known. It is then the
estimate of the distinct coupons that were held, the last among them, to which each later update
that raised a register has added what was due before it. Otherwise it is void, and the estimate is
what the registers say. An update that raises no register changes no byte. -/
theorem running_total (cfg : Config) (as : List Action) (has : ∀ a ∈ as, a.Proper)
    (hdense : (run as (new cfg)).2.mode = .dense) :
    (∃ pre a post, as = pre ++ a :: post ∧
      Account (run pre (new cfg)).2 a post (run as (new cfg)).2) ∧
    ∀ c, ∃ t, insert c (run as (new cfg)).2 = .ok () t ∧
      (t.registers = (run as (new cfg)).2.registers → t = (run as (new cfg)).2) := by
  refine ⟨exists_account cfg has hdense, fun c => ?_⟩
  obtain ⟨h, -, hs, -⟩ := owns_run cfg has
  cases h with
  | list cs n => cases hs.mode.symm.trans hdense
  | table L slots n => cases hs.mode.symm.trans hdense
  | dense g =>
    obtain hsame | ⟨t, ht, hrose, -⟩ := hs.insert_dense (x := 0.0) c
    · exact ⟨_, hsame, fun _ => rfl⟩
    · exact ⟨t, ht, fun heq => absurd heq.symm hrose⟩

/-- Eight updates make registers, a ninth raises one of them. -/
theorem running_total_ninth :
    let cfg : Config := ⟨4, .eight, by decide, by decide⟩
    let as : List Action := ((List.range 9).map fun i => .insert (.pack i (i + 1)))
    (∀ a ∈ as, a.Proper) ∧ (run as (new cfg)).2.mode = .dense ∧
      ∃ pre a post, as = pre ++ a :: post ∧
        Account (run pre (new cfg)).2 a post (run as (new cfg)).2 := by
  intro cfg as
  have has : ∀ a ∈ as, a.Proper := by
    intro a ha
    obtain ⟨i, hi, rfl⟩ := List.mem_map.1 ha
    have hlt := List.mem_range.1 hi
    change 0 < (Coupon.pack i (i + 1)).value
    rw [Coupon.value_pack_of_le _ (by omega)]
    exact Nat.succ_pos i
  have hdense : (run as (new cfg)).2.mode = .dense := by decide +kernel
  exact ⟨has, hdense, (running_total cfg as has hdense).1⟩

end Sketch

end HyperLogLog
