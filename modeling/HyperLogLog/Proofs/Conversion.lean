import HyperLogLog.Proofs.Views

/-!
# Conversion of the register width loses nothing

A copy of another width takes the registers in anew, one after the other, through the coding of that
width. Since sums are exact, what comes out is the registry that went in, and the way back ends at
the very image that a plain copy has.

* `Similar.regular`: a holding similar to a regular one is regular;
* `Shows.reversible`: the way there and back, for any sketch of which a copy can be made;
* **`withWidth_reversible`**: the way there and back, for evolved sketches and their views.
-/

namespace HyperLogLog

open Registers (Shown)
open Holding (Similar)

theorem Holding.Similar.regular {lgK m : Nat} {h h' : Holding} (hsim : Similar h h')
    (hs : h.Sound lgK) (hs' : h'.Sound lgK) (hr : h.Regular lgK m) : h'.Regular lgK m := by
  have hperm := hsim.coupons_perm hs hs'
  cases hsim with
  | refl => exact hr
  | table =>
    obtain ⟨hlg, hle, hm⟩ := hr
    exact ⟨hlg, hle, hperm.length_eq.symm.trans hm.counted, hm.least⟩

namespace Sketch

variable {s t u w c : Sketch} {h h' : Holding} {b : ByteArray}

/-- The way to another width and back, of which `t` is the turning point: the copies answer as the
sketch does, registers keep their sums, and the last image is that of a plain copy. -/
structure Reverses (w c t u : Sketch) (x : Width) : Prop where
  copy : w.copy = .ok c
  there : w.withWidth x = .ok t
  config : t.config = w.config.withWidth x
  concur : Concur w t
  sums : w.mode = .dense → w.region.estimator = t.region.estimator
  back : t.withWidth w.config.width = .ok u
  image : u.image = c.image

theorem Shows.estimator_eq (hs : s.Shows h) (ht : t.Shows h') (hsim : Similar h h')
    (hm : s.mode = .dense) : s.region.estimator = t.region.estimator := by
  have hcontents := hs.contents
  have hcontents' := ht.contents
  rw [hs.mode] at hm
  cases hsim with
  | table => cases hm
  | refl =>
    cases h with
    | list cs n => cases hm
    | table L slots n => cases hm
    | dense g =>
      have hd : Shown s.config g s.region := hcontents
      have hd' : Shown t.config g t.region := hcontents'
      exact hd.estimator.trans hd'.estimator.symm

/-- **Whatever a copy keeps, it keeps on the way to another width and back.** -/
theorem Shows.reversible (hs : w.Shows h) (hr : h.Regular w.config.lgK 8) (hcopy : w.copy = .ok c)
    (hcfg : c.config = w.config) (hc : c.Owns h') (hsim : Similar h h') (x : Width) :
    ∃ t u, Reverses w c t u x := by
  obtain ⟨t, ht, htcfg, howns⟩ := hs.withWidth_eq hr hcopy hcfg hc hsim x
  have hk : t.config.lgK = w.config.lgK := by rw [htcfg]; rfl
  have hsound : h'.Sound w.config.lgK := hk ▸ howns.sound
  have hr' : h'.Regular t.config.lgK 8 := hk ▸ hsim.regular hs.sound hsound hr
  obtain ⟨u, hu, hucfg, howns'⟩ := howns.withWidth_eq hr' w.config.width
  have hsame : u.config = c.config := by rw [hucfg, htcfg, hcfg]; rfl
  exact ⟨t, u, hcopy, ht, htcfg, hs.concur howns.shows hk.symm hsim,
    hs.estimator_eq howns.shows hsim, hu, howns'.image_eq hc.toKeeps hsame⟩

/-- A sketch, a view of its bytes with room for more, or a view of its compact bytes. -/
inductive Facet (s : Sketch) : Sketch → Prop
  | self : Facet s s
  | updatable {b : ByteArray} {w : Sketch} : s.toUpdatable = .ok b → wrap b = .ok w → Facet s w
  | compact {w : Sketch} : wrap s.toCompact = .ok w → Facet s w

/-- **Each facet of a sketch shows what the sketch keeps**, and a copy of it keeps that or the like
of it. -/
theorem Facet.shows (hf : Facet s w) (hs : s.Keeps h) (hr : h.Regular s.config.lgK 8) :
    w.config = s.config ∧ w.Shows h ∧
      ∃ c h', w.copy = .ok c ∧ c.config = s.config ∧ c.Owns h' ∧ Similar h h' := by
  obtain ⟨c, hcopy, hcfg, howns, -⟩ := hs.ofBytes_image
  cases hf with
  | self => exact ⟨rfl, hs.shows, c, h, hcopy, hcfg, howns, .refl h⟩
  | @updatable b w hb hw =>
    cases hs.toUpdatable_eq.symm.trans hb
    cases (wrap_of_declared hs.declared_image).symm.trans hw
    refine ⟨rfl, hs.shows_image, c, h, ?_, hcfg, howns, .refl h⟩
    rw [copy, hs.image_view]
    exact hcopy
  | @compact w hw =>
    obtain ⟨hdecl, -, hshows⟩ := hs.shows_compact hr
    obtain ⟨c', h', hread, hcfg', howns', hsim⟩ := hs.ofBytes_toCompact hr
    cases (wrap_of_declared hdecl).symm.trans hw
    refine ⟨rfl, hshows, c', h', ?_, hcfg', howns', hsim⟩
    rw [copy, hs.image_compactView hr]
    exact hread

/-- **Conversion of the register width is lossless and reversible.** A sketch, or a view of its
bytes of either kind, can be copied with any width. The copy has that width and answers as the
sketch does, with the same coupons or the same registers and sums. A copy of it with the width that
the sketch has is byte by byte the image of a plain copy. -/
theorem withWidth_reversible (hs : s.Evolved) (hf : Facet s w) (x : Width) :
    ∃ c t u, Reverses w c t u x := by
  obtain ⟨h, hs, hr⟩ := hs.keeps
  obtain ⟨hcfg, hshows, c, h', hcopy, hcfg', howns, hsim⟩ := hf.shows hs hr
  have hr' : h.Regular w.config.lgK 8 := hcfg ▸ hr
  obtain ⟨t, u, hreverses⟩ := hshows.reversible hr' hcopy (hcfg'.trans hcfg.symm) howns hsim x
  exact ⟨c, t, u, hreverses⟩

/-- Eight coupons, some of which are exceptions as registers, to eight bits and back. -/
theorem withWidth_reversible_eight :
    ∃ s : Sketch, s.Evolved ∧ Facet s s ∧ ∃ c t u, Reverses s c t u .eight := by
  obtain ⟨s, hs, -, -⟩ := (Owns.new ⟨4, .four, by decide, by decide⟩).insertAll
    ((List.range 8).map fun i => .pack i (1 + 7 * i))
  have hev : s.Evolved := (Evolved.new _).insertAll (by decide) hs
  exact ⟨s, hev, .self, withWidth_reversible hev .self .eight⟩

end Sketch

end HyperLogLog
