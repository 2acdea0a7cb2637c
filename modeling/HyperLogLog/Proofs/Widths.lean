import HyperLogLog.Proofs.Images
import HyperLogLog.Proofs.Shown

/-!
# The register width shows nowhere but in the image

* `Sketch.Action`, `Sketch.run`: changes, and runs of them with their outcomes;
* `Sketch.Alike`: two sketches that no question but for the image of registers tells apart;
* `Sketch.Twins`: two sketches of one size that own the same holding;
* `Twins.step`: each change has the same outcome for both and leaves twins;
* **`Twins.alike`**: twins are alike;
* **`run_alike`**: sketches that differ in the register width stay alike in every run.
-/

namespace HyperLogLog

open Estimate (Confidence)

theorem Region.Headed.modes_eq {cfg : Config} {r : Region} {mode : Mode} {L : Nat} {flags : UInt8}
    (h : r.Headed cfg mode L flags) : r.byte 7 &&& 0xf3 = UInt8.ofNat mode.code := by
  rw [h.modes]
  cases mode <;> cases cfg.width <;> decide

namespace Sketch

variable {s t : Sketch} {h : Holding}

/-! ## What can be told of a sketch -/

/-- The image, the bits that tell the register width cleared. -/
def widthless (s : Sketch) : ByteArray :=
  Bytes.setByte s.image 7 (Bytes.byte s.image 7 &&& 0xf3)

/-- Two sketches that answer every question alike. While they are lists or tables, their images
differ at most in the bits for the register width; then their registers and sums are the same. -/
structure Alike (s t : Sketch) : Prop where
  mode : s.mode = t.mode
  isEmpty : s.isEmpty = t.isEmpty
  isOutOfOrder : s.isOutOfOrder = t.isOutOfOrder
  image : s.mode ≠ .dense → s.widthless = t.widthless
  registers : s.mode = .dense → ∃ vs,
    Registers.values s.config s.region = .ok vs ∧ Registers.values t.config t.region = .ok vs
  sums : s.mode = .dense → s.region.estimator = t.region.estimator
  estimate : s.estimate = t.estimate
  composite : s.composite = t.composite
  lower : ∀ c, s.lower c = t.lower c
  upper : ∀ c, s.upper c = t.upper c

theorem widthless_congr (hi : s.imageSize = t.imageSize) (hs : s.imageSize ≤ s.region.size)
    (ht : t.imageSize ≤ t.region.size)
    (hb : ∀ j, j < s.imageSize → j ≠ 7 → s.region.byte j = t.region.byte j)
    (h₇ : s.region.byte 7 &&& 0xf3 = t.region.byte 7 &&& 0xf3) (hlt : 7 < s.imageSize) :
    s.widthless = t.widthless := by
  have hsize : s.image.size = s.imageSize := by
    have : s.image.size = min s.imageSize s.region.size - 0 := ByteArray.size_extract
    omega
  have hsize' : t.image.size = s.imageSize := by
    have : t.image.size = min t.imageSize t.region.size - 0 := ByteArray.size_extract
    omega
  have hbyte : ∀ j, Bytes.byte s.image j = if j < s.imageSize then s.region.byte j else 0 :=
    Bytes.byte_extract _ _
  have hbyte' : ∀ j, Bytes.byte t.image j = if j < s.imageSize then t.region.byte j else 0 := by
    rw [hi]
    exact Bytes.byte_extract _ _
  refine Bytes.ext ?_ fun j => ?_
  · rw [widthless, widthless, Bytes.size_setByte, Bytes.size_setByte, hsize, hsize']
  rw [widthless, widthless, Bytes.byte_setByte, Bytes.byte_setByte, hsize, hsize']
  by_cases hj : 7 = j
  · rw [if_pos ⟨hj, by omega⟩, if_pos ⟨hj, by omega⟩, hbyte, hbyte', if_pos hlt, if_pos hlt, h₇]
  · rw [if_neg fun h => hj h.1, if_neg fun h => hj h.1, hbyte, hbyte']
    split_ifs with hin
    · exact hb j hin (Ne.symm hj)
    · rfl

theorem Keeps.widthless_eq (hs : s.Keeps h) (ht : t.Keeps h) (hk : s.config.lgK = t.config.lgK)
    (hm : s.mode ≠ .dense) : s.widthless = t.widthless := by
  have himg := hs.image
  have himg' := ht.image
  have hsound := hs.sound
  have hsize : s.imageSize = s.region.footprint s.config h.mode := by rw [imageSize, hs.mode]
  have hsize' : t.imageSize = t.region.footprint t.config h.mode := by rw [imageSize, ht.mode]
  rw [hs.mode] at hm
  cases h with
  | dense g => exact absurd rfl hm
  | list cs n =>
    have hl : Listed s.config cs n s.region := himg
    have hl' : Listed t.config cs n t.region := himg'
    replace hsize := hsize.trans hl.footprint_eq
    replace hsize' := hsize'.trans hl'.footprint_eq
    refine widthless_congr (hsize.trans hsize'.symm) (hsize ▸ hl.fits) (hsize' ▸ hl'.fits)
      (fun j hj h₇ => ?_) ?_ ?_
    · exact hl.byte_eq hl' hk (hsize ▸ hj) h₇
    · exact hl.headed.modes_eq.trans hl'.headed.modes_eq.symm
    · exact Nat.lt_of_lt_of_eq (by decide) hsize.symm
  | table L slots n =>
    have hl : Tabulated s.config L slots n s.region := himg
    have hl' : Tabulated t.config L slots n t.region := himg'
    have hL : L < 256 := lgArr_lt (Holding.Tabled.most hsound)
    replace hsize := hsize.trans (hl.footprint_eq hL)
    replace hsize' := hsize'.trans (hl'.footprint_eq hL)
    refine widthless_congr (hsize.trans hsize'.symm) (hsize ▸ hl.fits) (hsize' ▸ hl'.fits)
      (fun j hj h₇ => ?_) ?_ ?_
    · exact hl.byte_eq hl' hk (hsize ▸ hj) h₇
    · exact hl.headed.modes_eq.trans hl'.headed.modes_eq.symm
    · rw [hsize]
      change 7 < 12 + 4 * 2 ^ L
      omega

/-! ## Sketches that own the same holding -/

/-- Two sketches of one size that own the same holding. -/
def Twins (s t : Sketch) : Prop := s.config.lgK = t.config.lgK ∧ ∃ h, s.Owns h ∧ t.Owns h

/-- **Twins are alike.** -/
theorem Twins.alike (ht : Twins s t) : Alike s t := by
  obtain ⟨hk, h, hs, ht⟩ := ht
  have hc : Concur s t := hs.shows.concur ht.shows hk (.refl h)
  have hsums : s.mode = .dense → s.region.estimator = t.region.estimator := by
    intro hm
    have himg := hs.image
    have himg' := ht.image
    rw [hs.mode] at hm
    cases h with
    | list cs n => cases hm
    | table L slots n => cases hm
    | dense g =>
      have hd : Registers.Dense s.config g s.region := himg
      have hd' : Registers.Dense t.config g t.region := himg'
      exact hd.estimator.trans hd'.estimator.symm
  exact ⟨hc.mode, hc.isEmpty, hc.isOutOfOrder, hs.widthless_eq ht.toKeeps hk, hc.registers, hsums,
    hc.estimate, hc.composite, hc.lower, hc.upper⟩

/-! ## Runs -/

/-- A change that a sketch may be put through. -/
inductive Action where
  | insert (c : Coupon)
  | absorb (source : Sketch)
  | reset

/-- What an action does. -/
def Action.change : Action → Change Unit
  | insert c => Sketch.insert c
  | absorb source => Sketch.absorb source
  | reset => Sketch.reset

/-- Whether a change succeeds, and the sketch that it leaves in any case. -/
def outcome (x : Change Unit) (s : Sketch) : Except Fault Unit × Sketch :=
  match x s with
  | .ok _ t => (.ok (), t)
  | .error f t => (.error f, t)

/-- Actions one after the other, whether or not they succeed. -/
def run : List Action → Sketch → List (Except Fault Unit) × Sketch
  | [], s => ([], s)
  | a :: as, s =>
    let (o, t) := outcome a.change s
    let (os, u) := run as t
    (o :: os, u)

theorem outcome_of_ok {x : Change Unit} (hx : x s = .ok () t) : outcome x s = (.ok (), t) := by
  rw [outcome, hx]

theorem outcome_of_error {x : Change Unit} {f : Fault} (hx : x s = .error f t) :
    outcome x s = (.error f, t) := by
  rw [outcome, hx]

theorem eq_ok_of_outcome {x : Change Unit} (hx : (outcome x s).1 = .ok ()) :
    x s = .ok () (outcome x s).2 := by
  cases hrun : x s with
  | ok _ t => rw [outcome_of_ok hrun]
  | error f t =>
    rw [outcome_of_error hrun] at hx
    cases hx

theorem eq_error_of_outcome {x : Change Unit} {f : Fault} (hx : (outcome x s).1 = .error f) :
    x s = .error f (outcome x s).2 := by
  cases hrun : x s with
  | ok _ t =>
    rw [outcome_of_ok hrun] at hx
    cases hx
  | error g t =>
    rw [outcome_of_error hrun] at hx ⊢
    cases hx
    rfl

/-- **Each change has the same outcome for twins, and leaves twins.** -/
theorem Twins.step (ht : Twins s t) (a : Action) :
    (outcome a.change s).1 = (outcome a.change t).1 ∧
      Twins (outcome a.change s).2 (outcome a.change t).2 := by
  obtain ⟨hk, h, hs, ht⟩ := ht
  cases a with
  | insert c =>
    obtain ⟨s', hs', hcfg, howns⟩ := hs.insert c
    obtain ⟨t', ht', hcfg', howns'⟩ := ht.insert c
    rw [Action.change, outcome_of_ok hs', outcome_of_ok ht']
    refine ⟨rfl, ?_, _, howns, ?_⟩
    · rw [hcfg, hcfg', hk]
    · rwa [hk]
  | absorb source =>
    cases ho : source.offered s.config.lgK with
    | error f =>
      have hs' := hs.absorb_of_error ho
      rw [hk] at ho
      have ht' := ht.absorb_of_error ho
      rw [Action.change, outcome_of_error hs', outcome_of_error ht']
      exact ⟨rfl, hk, h, hs, ht⟩
    | ok cs =>
      obtain ⟨s', hs', hcfg, howns⟩ := hs.absorb_of_ok ho
      rw [hk] at ho
      obtain ⟨t', ht', hcfg', howns'⟩ := ht.absorb_of_ok ho
      rw [Action.change, outcome_of_ok hs', outcome_of_ok ht']
      refine ⟨rfl, ?_, _, howns, ?_⟩
      · rw [hcfg, hcfg', hk]
      · rwa [hk]
  | reset =>
    obtain ⟨s', hs', hcfg, howns⟩ := hs.reset
    obtain ⟨t', ht', hcfg', howns'⟩ := ht.reset
    rw [Action.change, outcome_of_ok hs', outcome_of_ok ht']
    exact ⟨rfl, by rw [hcfg, hcfg', hk], _, howns, howns'⟩

theorem Twins.run (ht : Twins s t) (as : List Action) :
    (Sketch.run as s).1 = (Sketch.run as t).1 ∧ Twins (Sketch.run as s).2 (Sketch.run as t).2 := by
  induction as generalizing s t with
  | nil => exact ⟨rfl, ht⟩
  | cons a as ih =>
    obtain ⟨hfirst, hnext⟩ := ht.step a
    obtain ⟨hrest, hlast⟩ := ih hnext
    exact ⟨congrArg₂ List.cons hfirst hrest, hlast⟩

theorem twins_new (cfg : Config) (w w' : Width) :
    Twins (new (cfg.withWidth w)) (new (cfg.withWidth w')) :=
  ⟨rfl, _, Owns.new _, Owns.new _⟩

/-- **Sketches that differ in the register width stay alike in every run.** Whatever coupons they
take in, whatever sources they absorb and however often they are reset, each change has the same
outcome for both, and no question tells them apart. -/
theorem run_alike (cfg : Config) (w w' : Width) (as : List Action) :
    (run as (new (cfg.withWidth w))).1 = (run as (new (cfg.withWidth w'))).1 ∧
      Alike (run as (new (cfg.withWidth w))).2 (run as (new (cfg.withWidth w'))).2 := by
  obtain ⟨hout, htwins⟩ := (twins_new cfg w w').run as
  exact ⟨hout, htwins.alike⟩

end Sketch

end HyperLogLog
