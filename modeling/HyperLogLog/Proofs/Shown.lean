import HyperLogLog.Proofs.Schedule
import HyperLogLog.Proofs.Sketch

/-!
# What a sketch shows to a reader

A reader of a sketch finds a holding there, whoever owns the bytes and whether or not there are
empty coupon slots among them. All that a sketch answers depends on what it shows.

* `Sketch.Shows`: the holding that a reader finds in a sketch;
* `Keeps.shows`: a sketch that may be written to shows the holding that it keeps;
* `Sketch.Concur`: sketches that answer alike and hold the same coupons and registers;
* **`Shows.concur`**: so do sketches that show similar holdings.
-/

namespace HyperLogLog

open Registers (Dense Shown)
open Estimate (Confidence)
open Holding (Similar)

variable {cfg cfg' : Config} {r r' : Region} {h h' : Holding}

/-! ## Holdings and flags -/

/-- The flags of the image of a holding. -/
def Holding.flags : Holding → UInt8
  | list _ n => flagsOfList n
  | table .. => Flag.outOfOrder.mask
  | dense g => Registers.flagsOf g.history.outOfOrder

/-- Whether the image of a holding has a flag. -/
def Holding.hasFlag (h : Holding) (f : Flag) : Bool := h.flags &&& f.mask != 0

theorem Holding.flags_cases (h : Holding) :
    h.flags = 0 ∨ h.flags = Flag.empty.mask ∨ h.flags = Flag.outOfOrder.mask := by
  cases h with
  | list cs n =>
    simp only [flags, flagsOfList]
    split_ifs <;> simp
  | table L slots n => exact .inr (.inr rfl)
  | dense g =>
    simp only [flags, Registers.flagsOf]
    split_ifs <;> simp

theorem Holding.hasFlag_compact_or (h : Holding) {f : Flag} (hf : f ≠ .compact) :
    ((h.flags ||| Flag.compact.mask) &&& f.mask != 0) = h.hasFlag f := by
  unfold hasFlag
  rcases h.flags_cases with hflags | hflags | hflags
  all_goals
    rw [hflags]
    cases f <;> first | decide | exact absurd rfl hf

theorem Holding.Similar.flags_eq (hsim : Similar h h') : h.flags = h'.flags := by
  cases hsim <;> rfl

/-! ## What a region shows -/

/-- A region shows a holding to a reader: a count and coupons, or registers and their history. -/
def Region.Shows (cfg : Config) (r : Region) : Holding → Prop
  | .list cs n => r.lgArr = Footprint.lgList ∧ r.listCount = n ∧ Contents.live .list r = cs
  | .table L slots n =>
    r.lgArr = L ∧ r.setCount = n ∧ Contents.live .set r = Slots.live (2 ^ L) slots
  | .dense g => Shown cfg g r

theorem Region.Holds.flags_holding (hr : r.Holds cfg h) : r.flags = h.flags := by
  cases h with
  | list cs n =>
    have hl : Listed cfg cs n r := hr
    exact hl.headed.flags
  | table L slots n =>
    have ht : Tabulated cfg L slots n r := hr
    exact ht.headed.flags
  | dense g =>
    have hd : Dense cfg g r := hr
    exact hd.headed.flags

theorem Region.Holds.shows (hr : r.Holds cfg h) (hs : h.Sound cfg.lgK) : r.Shows cfg h := by
  cases h with
  | list cs n =>
    have hl : Listed cfg cs n r := hr
    have l : Holding.Listable cs n := hs
    have hlen : cs.length ≤ 8 := l.counted.trans (Nat.le_of_lt l.room)
    exact ⟨hl.headed.lgArr_eq (by decide), hl.counted, hl.live_eq l.live hlen⟩
  | table L slots n =>
    have ht : Tabulated cfg L slots n r := hr
    have hL : L < 256 := lgArr_lt (Holding.Tabled.most hs)
    exact ⟨ht.headed.lgArr_eq hL, ht.counted, ht.live_eq hL⟩
  | dense g =>
    have hd : Dense cfg g r := hr
    exact hd.shown

namespace Sketch

variable {s t : Sketch}

/-- The holding that a reader finds in a sketch. The compact flag may be set. -/
structure Shows (s : Sketch) (h : Holding) : Prop where
  mode : s.mode = h.mode
  sound : h.Sound s.config.lgK
  flags : s.region.flags = h.flags ∨ s.region.flags = h.flags ||| Flag.compact.mask
  contents : s.region.Shows s.config h

theorem Keeps.shows (hs : s.Keeps h) : s.Shows h :=
  ⟨hs.mode, hs.sound, .inl hs.image.flags_holding, hs.image.shows hs.sound⟩

namespace Shows

theorem hasFlag_eq (hs : s.Shows h) {f : Flag} (hf : f ≠ .compact) :
    s.region.hasFlag f = h.hasFlag f := by
  rcases hs.flags with hflags | hflags
  · rw [Region.hasFlag, hflags]
    rfl
  · rw [Region.hasFlag, hflags]
    exact h.hasFlag_compact_or hf

theorem coupons_eq (hs : s.Shows h) : s.coupons = .ok (h.coupons s.config.lgK) := by
  have hcontents := hs.contents
  rw [coupons, hs.mode]
  cases h with
  | list cs n => exact congrArg Except.ok hcontents.2.2
  | table L slots n => exact congrArg Except.ok hcontents.2.2
  | dense g =>
    have hd : Shown s.config g s.region := hcontents
    exact hd.coupons_eq

theorem counts_eq (hs : s.Shows h) (ht : t.Shows h') (hsim : Similar h h') (hm : h.mode ≠ .dense) :
    s.region.lgArr = t.region.lgArr ∧
      Contents.count h.mode s.region = Contents.count h.mode t.region := by
  have hcontents := hs.contents
  have hcontents' := ht.contents
  cases hsim with
  | table => exact ⟨hcontents.1.trans hcontents'.1.symm, hcontents.2.1.trans hcontents'.2.1.symm⟩
  | refl =>
    cases h with
    | dense g => exact absurd rfl hm
    | list cs n =>
      exact ⟨hcontents.1.trans hcontents'.1.symm, hcontents.2.1.trans hcontents'.2.1.symm⟩
    | table L slots n =>
      exact ⟨hcontents.1.trans hcontents'.1.symm, hcontents.2.1.trans hcontents'.2.1.symm⟩

end Shows

/-! ## Sketches that answer alike -/

/-- Two sketches of one size that answer alike and hold the same coupons or registers, whatever
their register width. -/
structure Concur (s t : Sketch) : Prop where
  lgK : s.config.lgK = t.config.lgK
  mode : s.mode = t.mode
  isEmpty : s.isEmpty = t.isEmpty
  isOutOfOrder : s.isOutOfOrder = t.isOutOfOrder
  estimate : s.estimate = t.estimate
  composite : s.composite = t.composite
  lower : ∀ c, s.lower c = t.lower c
  upper : ∀ c, s.upper c = t.upper c
  coupons : ∃ as bs, s.coupons = .ok as ∧ t.coupons = .ok bs ∧ as.Perm bs
  registers : s.mode = .dense → ∃ vs,
    Registers.values s.config s.region = .ok vs ∧ Registers.values t.config t.region = .ok vs

theorem concur_of_count {mode : Mode} (hm : mode ≠ .dense) (hk : cfg.lgK = cfg'.lgK)
    (hcount : Contents.count mode r = Contents.count mode r')
    (hflag : r.hasFlag .outOfOrder = r'.hasFlag .outOfOrder)
    (hcoupons : ∃ as bs, Contents.coupons cfg mode r = .ok as ∧
      Contents.coupons cfg' mode r' = .ok bs ∧ as.Perm bs) :
    Concur ⟨cfg, mode, r⟩ ⟨cfg', mode, r'⟩ := by
  have hestimate : (Estimate.ofCoupons (Contents.count mode r) : Double) =
      Estimate.ofCoupons (Contents.count mode r') := by rw [hcount]
  have hlower : ∀ c, (Estimate.couponsLower (Contents.count mode r) c : Double) =
      Estimate.couponsLower (Contents.count mode r') c := fun c => by rw [hcount]
  have hupper : ∀ c, (Estimate.couponsUpper (Contents.count mode r) c : Double) =
      Estimate.couponsUpper (Contents.count mode r') c := fun c => by rw [hcount]
  have hempty : decide (Contents.count mode r = 0) = decide (Contents.count mode r' = 0) := by
    rw [hcount]
  cases mode with
  | dense => exact absurd rfl hm
  | list | set =>
    exact ⟨hk, rfl, hempty, hflag, hestimate, hestimate, hlower, hupper, hcoupons,
      fun hd => absurd hd hm⟩

theorem concur_of_shown {g : Registry} (hk : cfg.lgK = cfg'.lgK) (h : Shown cfg g r)
    (h' : Shown cfg' g r') : Concur ⟨cfg, .dense, r⟩ ⟨cfg', .dense, r'⟩ := by
  have hkk : cfg.k = cfg'.k := congrArg (2 ^ ·) hk
  constructor
  case lgK => exact hk
  case mode => rfl
  case isEmpty =>
    change Contents.isEmpty cfg .dense r = Contents.isEmpty cfg' .dense r'
    rw [h.isEmpty_eq, h'.isEmpty_eq, hkk]
  case isOutOfOrder =>
    exact congrArg Estimator.outOfOrder (h.estimator.trans h'.estimator.symm)
  case estimate =>
    change Contents.estimate cfg .dense r = Contents.estimate cfg' .dense r'
    rw [h.estimate_eq, h'.estimate_eq, hk, hkk]
  case composite =>
    change Contents.composite cfg .dense r = Contents.composite cfg' .dense r'
    rw [h.composite_eq, h'.composite_eq, hk, hkk]
  case lower =>
    intro c
    change Contents.lower cfg .dense r c = Contents.lower cfg' .dense r' c
    rw [h.lower_eq, h'.lower_eq, hk, hkk]
  case upper =>
    intro c
    change Contents.upper cfg .dense r c = Contents.upper cfg' .dense r' c
    rw [h.upper_eq, h'.upper_eq, hk, hkk]
  case coupons => exact ⟨_, _, h.coupons_eq, h'.coupons_eq, .of_eq (by rw [hk])⟩
  case registers => exact fun _ => ⟨_, h.values_eq, by rw [hkk]; exact h'.values_eq⟩

/-- **Sketches that show similar holdings answer alike.** -/
theorem Shows.concur (hs : s.Shows h) (ht : t.Shows h') (hk : s.config.lgK = t.config.lgK)
    (hsim : Similar h h') : Concur s t := by
  have hsound := ht.sound
  rw [← hk] at hsound
  have hperm := hsim.coupons_perm hs.sound hsound
  have hflag : s.region.hasFlag .outOfOrder = t.region.hasFlag .outOfOrder := by
    rw [hs.hasFlag_eq (by decide), ht.hasFlag_eq (by decide), Holding.hasFlag, Holding.hasFlag,
      hsim.flags_eq]
  have hcoupons := hs.coupons_eq
  have hcoupons' := ht.coupons_eq
  have hmode' := ht.mode.trans hsim.mode_eq.symm
  obtain ⟨cfg, mode, r⟩ := s
  obtain ⟨cfg', mode', r'⟩ := t
  obtain rfl : mode = h.mode := hs.mode
  obtain rfl : mode' = h.mode := hmode'
  by_cases hm : h.mode = .dense
  · cases hsim with
    | table => cases hm
    | refl =>
      cases h with
      | list cs n => cases hm
      | table L slots n => cases hm
      | dense g => exact concur_of_shown hk hs.contents ht.contents
  · exact concur_of_count hm hk (hs.counts_eq ht hsim hm).2 hflag
      ⟨_, _, hcoupons, hcoupons', hk ▸ hperm⟩

end Sketch

end HyperLogLog
