import HyperLogLog.Proofs.RunningTotal
import HyperLogLog.Proofs.Views

/-!
# The sums of a sketch, in numbers of any type

What a sketch does never depends on its sums, so these may be kept in other numbers along with it:
by the same formulas, in the same order. Kept in doubles, they are those in the image.

* `Ledger`: registers with the sums of their history;
* `Ledger.take`, `Ledger.replay`, `Ledger.forget`: what a coupon, a promotion and a merge do;
* `Sketch.joined`: the coupons that a promotion replays;
* `Sketch.ledger`: the sums along a run;
* `Sketch.estimateBy`, `Sketch.upperBy`, `Sketch.lowerBy`: answers by such sums;
* `Ledger.Invariant`: what coupons, promotions and merges keep true of registers and their sums;
* **`Invariant.run`**: it is true at the end of every run;
* **`ledger_eq_estimator`**: kept in doubles, the sums are those in the image.
-/

namespace HyperLogLog

open Registers (Dense)

variable {α : Type} [Scalar α] {lgK L n : Nat} {slots : Nat → Coupon} {c : Coupon}
  {cs : List Coupon}

/-! ## Ledgers -/

/-- Registers with the sums of their history. -/
structure Ledger (α : Type) where
  values : Nat → Nat
  sums : Estimator α

namespace Ledger

/-- Registers that are all zero. -/
def fresh (lgK : Nat) : Ledger α := ⟨fun _ => 0, Estimator.fresh lgK⟩

/-- A coupon raises the register of its slot to its value, if that is more. -/
def take (lgK : Nat) (l : Ledger α) (c : Coupon) : Ledger α :=
  let slot := c.slot % 2 ^ lgK
  if c.value ≤ l.values slot then l
  else ⟨Function.update l.values slot c.value, l.sums.raise lgK (l.values slot) c.value⟩

/-- The registers of coupons, with a running total from elsewhere. -/
def replay (lgK : Nat) (cs : List Coupon) (total : α) : Ledger α :=
  let l := cs.foldl (take lgK) (fresh lgK)
  { l with sums := { l.sums with total } }

/-- The running total is declared void. -/
def forget (l : Ledger α) : Ledger α :=
  { l with sums := { l.sums with total := 0.0, outOfOrder := true } }

end Ledger

namespace Sketch

/-! ## Along a run -/

/-- Where the search for a coupon in a list or a table ends. -/
def probe (s : Sketch) (c : Coupon) : Probe :=
  match s.mode with
  | .list => CouponList.find (2 ^ s.region.lgArr) s.region c
  | _ => CouponTable.find s.region.lgArr s.region c

/-- The coupons of a list or a table that is given one more, in the order of their slots. -/
def joined (s : Sketch) (c : Coupon) : List Coupon :=
  match s.probe c with
  | .free i => Contents.live s.mode (s.region.setCoupon i c)
  | _ => Contents.live s.mode s.region

/-- The ledger of a sketch that takes in a coupon. As long as there are no registers, nothing is
entered; the coupon that makes them replays all coupons, and the total starts from their number. -/
def booked (s : Sketch) (l : Ledger α) (c : Coupon) : Ledger α :=
  if s.mode = .dense then l.take s.config.lgK c
  else if (outcome (insert c) s).2.mode = .dense then
    .replay s.config.lgK (s.joined c)
      (Estimate.ofCoupons (Contents.count s.mode s.region + 1))
  else l

/-- The ledger of a sketch that takes in coupons one after the other. -/
def bookedAll : List Coupon → Sketch → Ledger α → Ledger α
  | [], _, l => l
  | c :: cs, s, l => bookedAll cs (outcome (insert c) s).2 (s.booked l c)

/-- The ledger of a sketch that an action changes. -/
def Action.booked (a : Action) (s : Sketch) (l : Ledger α) : Ledger α :=
  match a with
  | insert c => s.booked l c
  | absorb source =>
    match source.offered s.config.lgK with
    | .ok (c :: cs) => (bookedAll (c :: cs) s l).forget
    | _ => l
  | reset => .fresh s.config.lgK

/-- The ledger of a sketch that goes through a run. -/
def ledger : List Action → Sketch → Ledger α → Ledger α
  | [], _, l => l
  | a :: as, s, l => ledger as (outcome a.change s).2 (a.booked s l)

end Sketch

namespace Sketch

/-! ## Answers -/

open Estimate (Confidence)

/-- The estimate by other sums than those in the image. -/
def estimateBy (s : Sketch) (e : Estimator α) : α :=
  match s.mode with
  | .dense => e.estimate s.config.lgK s.region.minimum s.region.atMinimum
  | m => Estimate.ofCoupons (Contents.count m s.region)

/-- The upper bound by other sums. -/
def upperBy (s : Sketch) (e : Estimator α) (c : Confidence) : α :=
  match s.mode with
  | .dense => e.upper s.config.lgK s.region.minimum s.region.atMinimum c
  | m => Estimate.couponsUpper (Contents.count m s.region) c

/-- The lower bound by other sums. -/
def lowerBy (s : Sketch) (e : Estimator α) (c : Confidence) : α :=
  match s.mode with
  | .dense => e.lower s.config.lgK s.region.minimum s.region.atMinimum c
  | m => Estimate.couponsLower (Contents.count m s.region) c

/-- The answers by some sums in doubles are those that the sketch gives. -/
structure Answers (s : Sketch) (e : Estimator Double) : Prop where
  estimate : s.estimateBy e = s.estimate
  upper : ∀ c, s.upperBy e c = s.upper c
  lower : ∀ c, s.lowerBy e c = s.lower c

/-- They are so by the sums in the image; a list or a table has none. -/
theorem answers_of_eq {s : Sketch} {e : Estimator Double}
    (he : s.mode = .dense → e = s.region.estimator) : s.Answers e := by
  obtain ⟨cfg, mode, r⟩ := s
  cases mode with
  | list | set => exact ⟨rfl, fun _ => rfl, fun _ => rfl⟩
  | dense =>
    cases he rfl
    exact ⟨rfl, fun _ => rfl, fun _ => rfl⟩

end Sketch

/-! ## The coupons of a promotion -/

theorem Listed.setCoupon {cfg : Config} {r : Region} (h : Listed cfg cs n r) (hlen : cs.length < 8)
    (c : Coupon) : Listed cfg (Holding.append cs c) n
      (r.setCoupon (CouponList.offset cs.length) c) := by
  have hbytes : CouponList.bytes = 40 := rfl
  have hfits := h.fits
  have hin := Region.within_setCoupon r (CouponList.offset cs.length) c
  have hoff : ∀ i, CouponList.offset i = 8 + 4 * i := fun _ => rfl
  have hlast := hoff cs.length
  refine ⟨h.headed.congr fun j hj _ => hin.byte j (.inl (by omega)), ?_, ?_, fun i hi => ?_⟩
  · rw [hin.size]
    exact hfits
  · exact (congrArg UInt8.toNat (hin.byte 6 (.inl (by omega)))).trans h.counted
  · rw [hoff i, hlast, Region.coupon_setCoupon c (by omega), Holding.getD_append, ← hoff,
      h.slot i hi]

namespace Sketch

variable {s : Sketch} {h : Holding}

theorem Keeps.probe_list (hs : s.Keeps (.list cs n)) (hc : c ∉ cs) :
    s.probe c = .free (CouponList.offset cs.length) := by
  have himg : Listed s.config cs n s.region := hs.image
  have l : Holding.Listable cs n := hs.sound
  have hslots : 2 ^ s.region.lgArr = 8 := by rw [himg.headed.lgArr_eq (by decide)]; rfl
  have hmode : s.mode = .list := hs.mode
  unfold probe
  rw [hmode]
  dsimp only
  rw [hslots, himg.find_eq l.live (Nat.lt_of_le_of_lt l.counted l.room), if_neg hc]

theorem Keeps.probe_table (hs : s.Keeps (.table L slots n)) {i : Nat}
    (hseek : Slots.seek slots c (CouponTable.position L c) (2 ^ L) 0 = .free i) :
    s.probe c = .free (CouponTable.offset i) := by
  have himg : Tabulated s.config L slots n s.region := hs.image
  have t : Holding.Tabled s.config.lgK L slots n := hs.sound
  have hmode : s.mode = .set := hs.mode
  unfold probe
  rw [hmode]
  dsimp only
  rw [himg.headed.lgArr_eq (lgArr_lt t.most), himg.find_eq, hseek]

theorem Keeps.joined_eq (hs : s.Keeps h) (hm : h.mode ≠ .dense)
    (hc : c ∉ h.coupons s.config.lgK) : s.joined c = h.joined c := by
  have hmode := hs.mode
  cases h with
  | dense g => exact absurd rfl hm
  | list cs n =>
    have himg : Listed s.config cs n s.region := hs.image
    have l : Holding.Listable cs n := hs.sound
    have hlen : cs.length < 8 := Nat.lt_of_le_of_lt l.counted l.room
    unfold joined
    rw [hs.probe_list hc, hmode]
    exact (himg.setCoupon hlen c).live_eq (Holding.ne_empty_append l.live c)
      (Nat.le_trans (Holding.length_append_le cs c) hlen)
  | table L slots n =>
    have himg : Tabulated s.config L slots n s.region := hs.image
    have t : Holding.Tabled s.config.lgK L slots n := hs.sound
    obtain ⟨i, -, hseek, hi, -⟩ :=
      Slots.Probed.seek_of_not_mem (Slots.covers_position L) hc t.lt_room
    unfold joined
    rw [hs.probe_table hseek, hmode, Holding.joined, Slots.put, hseek]
    exact (himg.setCoupon hi c).live_eq (lgArr_lt t.most)

/-- **The coupon that makes registers** replays the coupons that there are then. -/
theorem Keeps.insert_joined (hs : s.Keeps h) (hr : h.Regular s.config.lgK 8) (hne : c ≠ .empty)
    (hm : h.mode ≠ .dense) (hd : (h.insert s.config.lgK c).mode = .dense) :
    h.insert s.config.lgK c =
        .promote s.config.lgK (s.joined c) (Contents.count s.mode s.region + 1) ∧
      (s.joined c).length = Contents.count s.mode s.region + 1 := by
  obtain ⟨hc, hpromote⟩ :=
    Holding.insert_eq_promote s.config.le_twentyOne hs.sound hr hne hm hd
  have hcount := hs.length_coupons hr (by rwa [hs.mode])
  rw [hs.joined_eq hm hc, ← hcount]
  exact ⟨hpromote, Holding.length_joined hs.sound hm hne hc⟩

end Sketch

/-! ## Invariants of runs -/

/-- What coupons, promotions and merges keep true of registers and a ledger of theirs. -/
structure Ledger.Invariant (lgK : Nat) (P : Registry → Ledger α → Prop) : Prop where
  take : ∀ g l c, P g l → P (g.take lgK c) (l.take lgK c)
  /-- A promotion starts the total from the number of coupons that it replays. -/
  replay : ∀ cs, P (Registry.replay lgK cs (Estimate.ofCoupons cs.length))
    (.replay lgK cs (Estimate.ofCoupons cs.length))
  forget : ∀ g l, P g l →
    P { g with history := { g.history with total := 0.0, outOfOrder := true } } l.forget

/-- The statement is true of the registers and the ledger, if there are registers. -/
def Holding.Tracked (P : Registry → Ledger α → Prop) (l : Ledger α) : Holding → Prop
  | dense g => P g l
  | _ => True

omit [Scalar α] in
theorem Holding.tracked_of_ne_dense {P : Registry → Ledger α → Prop} {l : Ledger α} {h : Holding}
    (hm : h.mode ≠ .dense) : h.Tracked P l := by
  cases h with
  | dense g => exact absurd rfl hm
  | list | table => trivial

namespace Ledger.Invariant

open Sketch

variable {P : Registry → Ledger α → Prop} {s : Sketch} {h : Holding} {l : Ledger α}

theorem insert (hP : Invariant s.config.lgK P) (hs : s.Owns h) (hr : h.Regular s.config.lgK 8)
    (hne : c ≠ .empty) (hl : h.Tracked P l) :
    (h.insert s.config.lgK c).Tracked P (s.booked l c) := by
  obtain ⟨t, ht, -, howns⟩ := hs.insert c
  have hmode := hs.mode
  unfold booked
  by_cases hm : h.mode = .dense
  · rw [if_pos (hmode.trans hm)]
    cases h with
    | list | table => cases hm
    | dense g => exact hP.take g l c hl
  rw [if_neg (by rwa [hmode]), outcome_of_ok ht]
  dsimp only
  by_cases hd : (h.insert s.config.lgK c).mode = .dense
  · obtain ⟨hpromote, hlen⟩ := hs.toKeeps.insert_joined hr hne hm hd
    rw [if_pos (howns.mode.trans hd), hpromote, ← hlen]
    exact hP.replay (s.joined c)
  · exact Holding.tracked_of_ne_dense hd

theorem insertAll (hP : Invariant s.config.lgK P) (hs : s.Owns h)
    (hr : h.Regular s.config.lgK 8) (hcs : ∀ c ∈ cs, c ≠ .empty) (hl : h.Tracked P l) :
    (cs.foldl (Holding.insert s.config.lgK) h).Tracked P (bookedAll cs s l) := by
  induction cs generalizing s h l with
  | nil => exact hl
  | cons c cs ih =>
    obtain ⟨hne, hcs⟩ := List.forall_mem_cons.1 hcs
    obtain ⟨t, ht, hcfg, howns⟩ := hs.insert c
    have hnext := hP.insert hs hr hne hl
    have hreg := Holding.regular_insert s.config.le_twentyOne hs.sound hr hne
    unfold bookedAll
    rw [List.foldl_cons, outcome_of_ok ht]
    rw [← hcfg] at hP hreg hnext howns ⊢
    exact ih hP howns hreg hcs hnext

theorem absorb (hP : Invariant lgK P) (hl : (cs.foldl (Holding.insert lgK) h).Tracked P l)
    (hcs : cs ≠ []) : (h.absorb lgK cs).Tracked P l.forget := by
  rw [Holding.absorb, if_neg hcs]
  generalize cs.foldl (Holding.insert lgK) h = h' at hl ⊢
  cases h' with
  | list | table => trivial
  | dense g => exact hP.forget g l hl

/-- **One action** keeps an invariant. -/
theorem step (hP : Invariant s.config.lgK P) (hs : s.Owns h) (hr : h.Regular s.config.lgK 8)
    {a : Action} (ha : a.Proper) (hl : h.Tracked P l) :
    ∃ h', (outcome a.change s).2.config = s.config ∧ (outcome a.change s).2.Owns h' ∧
      h'.Regular s.config.lgK 8 ∧ h'.Tracked P (a.booked s l) := by
  have hk := s.config.le_twentyOne
  cases a with
  | insert c =>
    have hne := Coupon.ne_empty ha
    obtain ⟨t, ht, hcfg, howns⟩ := hs.insert c
    rw [Action.change, outcome_of_ok ht]
    exact ⟨_, hcfg, howns, Holding.regular_insert hk hs.sound hr hne, hP.insert hs hr hne hl⟩
  | reset =>
    obtain ⟨t, ht, hcfg, howns⟩ := hs.reset
    rw [Action.change, outcome_of_ok ht]
    exact ⟨_, hcfg, howns, rfl, trivial⟩
  | absorb source =>
    obtain ⟨h', hsource, -⟩ := Evolved.keeps ha
    unfold Action.booked
    dsimp only
    by_cases hj : source.mode = .dense ∧ source.config.lgK < s.config.lgK
    · have ho := hsource.offered_narrow hj
      rw [Action.change, outcome_of_error (hs.absorb_of_error ho), ho]
      exact ⟨h, rfl, hs, hr, hl⟩
    have ho := hsource.offered_eq hj
    have hne := Holding.ne_empty_offer s.config.lgK hsource.sound
    obtain ⟨t, ht, hcfg, howns⟩ := hs.absorb_of_ok ho
    rw [Action.change, outcome_of_ok ht, ho]
    refine ⟨_, hcfg, howns, Holding.regular_absorb hk hs.sound hr hne, ?_⟩
    cases hcs : h'.offer source.config.lgK s.config.lgK with
    | nil => exact hl
    | cons c cs =>
      rw [hcs] at hne
      exact hP.absorb (hP.insertAll hs hr hne hl) (List.cons_ne_nil c cs)

/-- **An invariant is true at the end of every run.** -/
theorem run {as : List Action} (hP : Invariant s.config.lgK P) (hs : s.Owns h)
    (hr : h.Regular s.config.lgK 8) (has : ∀ a ∈ as, a.Proper) (hl : h.Tracked P l) :
    ∃ h', (Sketch.run as s).2.config = s.config ∧ (Sketch.run as s).2.Owns h' ∧
      h'.Regular s.config.lgK 8 ∧ h'.Tracked P (ledger as s l) := by
  induction as generalizing s h l with
  | nil => exact ⟨h, rfl, hs, hr, hl⟩
  | cons a as ih =>
    obtain ⟨ha, has⟩ := List.forall_mem_cons.1 has
    obtain ⟨h', hcfg, howns, hr', hl'⟩ := hP.step hs hr ha hl
    rw [← hcfg] at hP hr' ⊢
    exact ih hP howns hr' has hl'

end Ledger.Invariant

/-! ## Ledgers in doubles -/

/-- Registers with their history. -/
def Ledger.toRegistry (l : Ledger Double) : Registry := ⟨l.values, l.sums⟩

theorem Ledger.toRegistry_take (lgK : Nat) (l : Ledger Double) (c : Coupon) :
    (l.take lgK c).toRegistry = l.toRegistry.take lgK c := by
  unfold take Registry.take toRegistry
  dsimp only
  split_ifs <;> rfl

theorem Ledger.toRegistry_foldl_take (lgK : Nat) (cs : List Coupon) (l : Ledger Double) :
    (cs.foldl (take lgK) l).toRegistry = cs.foldl (Registry.take lgK) l.toRegistry := by
  induction cs generalizing l with
  | nil => rfl
  | cons c cs ih => rw [List.foldl_cons, List.foldl_cons, ih, toRegistry_take]

theorem Ledger.invariant_toRegistry (lgK : Nat) :
    Invariant lgK fun g (l : Ledger Double) => l.toRegistry = g where
  take := fun g l c hl => by rw [toRegistry_take, hl]
  replay := fun cs => by
    have hfold := toRegistry_foldl_take lgK cs (fresh lgK)
    unfold replay Registry.replay
    dsimp only
    rw [show Registry.fresh lgK = (fresh lgK).toRegistry from rfl, ← hfold]
    rfl
  forget := fun g l hl => by
    subst hl
    rfl

namespace Sketch

variable {as : List Action}

/-- **Kept in doubles, the sums are those in the image**, at the end of every run that leads to
registers. -/
theorem ledger_eq_estimator (cfg : Config) (has : ∀ a ∈ as, a.Proper)
    (hdense : (run as (new cfg)).2.mode = .dense) :
    (ledger as (new cfg) (.fresh cfg.lgK)).sums = (run as (new cfg)).2.region.estimator := by
  obtain ⟨h, -, hs, -, hl⟩ :=
    (Ledger.invariant_toRegistry cfg.lgK).run (Owns.new cfg) rfl has (l := .fresh cfg.lgK) trivial
  cases h with
  | list | table => cases hs.mode.symm.trans hdense
  | dense g =>
    have hd : Dense _ g _ := hs.image
    exact (congrArg Registry.history hl).trans hd.estimator.symm

end Sketch

end HyperLogLog
