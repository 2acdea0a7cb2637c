import HyperLogLog.Proofs.Grown
import HyperLogLog.Proofs.Serial
import HyperLogLog.Proofs.Shown

/-!
# Sketches that evolve from new ones

* `Registry.rebuilt`: what registers turn into when they are taken in anew;
* **`rebuilt_agrees`**: they turn into themselves, sums included;
* `Shows.convert_eq`: registers in an image of another width are the same registers;
* **`Keeps.withWidth_eq`**: a copy of any width keeps the same holding;
* `Sketch.Evolved`: the sketches that grow, in bytes of their own or in lent ones, and are copied;
* **`Evolved.stems`**: each of them keeps a sound holding that stems from some coupons.
-/

namespace HyperLogLog

open Registers (Dense Shown)
open Holding (Similar)

variable {cfg : Config} {r : Region} {h h' : Holding}

/-! ## The register width -/

theorem Region.Headed.putModes {mode : Mode} {L : Nat} {flags : UInt8}
    (h : r.Headed cfg mode L flags) (hs : 8 ≤ r.size) (w : Width) :
    (r.putModes mode w).Headed (cfg.withWidth w) mode L flags := by
  have hb : ∀ j, j ≠ 7 → (r.putModes mode w).byte j = r.byte j := fun j hj =>
    byte_setByte_of_ne _ (Ne.symm hj)
  refine ⟨?_, ?_, ?_, ?_, ?_, ?_, byte_setByte_self _ (by omega)⟩
  · rw [hb 0 (by decide), h.preamble]
  · rw [hb 1 (by decide), h.version]
  · rw [hb 2 (by decide), h.family]
  · rw [hb 3 (by decide), h.lgK]
    rfl
  · rw [hb 4 (by decide), h.lgArr]
  · rw [hb 5 (by decide), h.flags]

theorem Region.Holds.putModes (hr : r.Holds cfg h) (hm : h.mode ≠ .dense) (w : Width) :
    (r.putModes h.mode w).Holds (cfg.withWidth w) h := by
  have hb : ∀ j, j ≠ 7 → (r.putModes h.mode w).byte j = r.byte j := fun j hj =>
    byte_setByte_of_ne _ (Ne.symm hj)
  have hsize : (r.putModes h.mode w).size = r.size := size_setByte ..
  cases h with
  | dense g => exact absurd rfl hm
  | list cs n =>
    have hl : Listed cfg cs n r := hr
    have hfits := hl.fits
    have hbytes : CouponList.bytes = 40 := rfl
    refine ⟨hl.headed.putModes (by omega) w, hsize ▸ hl.fits, ?_, fun i hi => ?_⟩
    · exact (congrArg UInt8.toNat (hb 6 (by decide))).trans hl.counted
    · rw [← hl.slot i hi]
      refine coupon_congr fun j hj _ => hb j ?_
      unfold CouponList.offset at hj
      omega
  | table L slots n =>
    have ht : Tabulated cfg L slots n r := hr
    have hfits := ht.fits
    have hbytes : Footprint.sparse .set L = 12 + 4 * 2 ^ L := rfl
    refine ⟨ht.headed.putModes (by omega) w, hsize ▸ ht.fits, ?_, ?_, fun i hi => ?_⟩
    · rw [hb 6 (by decide), ht.spare]
    · exact (congrArg UInt32.toNat (word_congr fun j hj _ => hb j (by omega))).trans ht.counted
    · rw [← ht.slot i hi]
      refine coupon_congr fun j hj _ => hb j ?_
      unfold CouponTable.offset at hj
      omega

/-- What registers turn into when they are taken in as coupons, with the history they had. -/
def Registry.rebuilt (lgK : Nat) (g : Registry) : Registry :=
  let g' := replay lgK (risen lgK g.values) g.history.total
  { g' with history := { g'.history with outOfOrder := g.history.outOfOrder } }

theorem Registry.sound_rebuilt (lgK : Nat) (g : Registry) (i : Nat) :
    (g.rebuilt lgK).values i ≤ 63 := by
  change (replay lgK (risen lgK g.values) g.history.total).values i ≤ 63
  rw [values_replay]
  exact peak_le _ _ _

theorem Registry.exact_rebuilt {lgK : Nat} (hk : lgK ≤ 21) (g : Registry) :
    (g.rebuilt lgK).Exact lgK :=
  (exact_replay hk _).putHistory _ _

/-- **Registers that are taken in anew are the same, and so are their sums**, if these are exact. -/
theorem Registry.Exact.rebuilt_agrees {lgK : Nat} {g : Registry} (hg : g.Exact lgK) (hk : lgK ≤ 21)
    (hv : ∀ i, g.values i ≤ 63) :
    (∀ i, i < 2 ^ lgK → (g.rebuilt lgK).values i = g.values i) ∧
      (g.rebuilt lgK).history = g.history := by
  have hvalues : ∀ i, i < 2 ^ lgK → (g.rebuilt lgK).values i = g.values i := by
    intro i hi
    change (replay lgK (risen lgK g.values) g.history.total).values i = g.values i
    rw [values_replay, peak_risen_self (by omega) (fun j _ => hv j) hi]
  have htotal : (g.rebuilt lgK).history.total = g.history.total := rfl
  have hflag : (g.rebuilt lgK).history.outOfOrder = g.history.outOfOrder := rfl
  obtain ⟨hlow, hhigh⟩ := (exact_rebuilt hk g).sums_congr hg hvalues
  refine ⟨hvalues, ?_⟩
  generalize (g.rebuilt lgK).history = e at htotal hflag hlow hhigh ⊢
  obtain ⟨total, low, high, flag⟩ := e
  subst htotal hflag hlow hhigh
  rfl

namespace Sketch

variable {s t c : Sketch}

theorem Owns.of_rebuilt {g : Registry} (ht : t.Owns (.dense (g.rebuilt t.config.lgK)))
    (hg : g.Exact t.config.lgK) (hv : ∀ i, g.values i ≤ 63) : t.Owns (.dense g) := by
  have hd : Dense t.config (g.rebuilt t.config.lgK) t.region := ht.image
  obtain ⟨hvalues, hhistory⟩ := hg.rebuilt_agrees t.config.le_twentyOne hv
  exact ⟨⟨ht.writable, ht.mode, hd.congr_registry hvalues hhistory, hv⟩, ht.owned⟩

/-- **Registers in an image of another width** are taken in anew, with the history they had. -/
theorem Shows.convert_eq {g : Registry} (hs : s.Shows (.dense g)) (hg : g.Exact s.config.lgK)
    (w : Width) :
    ∃ t, s.convert w = .ok t ∧ t.config = s.config.withWidth w ∧ t.Owns (.dense g) := by
  have hd : Shown s.config g s.region := hs.contents
  have hrisen : s.coupons = .ok (risen s.config.lgK g.values) := hs.coupons_eq
  have hflag : s.isOutOfOrder = g.history.outOfOrder := congrArg Estimator.outOfOrder hd.estimator
  have htotal : s.region.estimator.total = g.history.total := by rw [hd.estimator]
  obtain ⟨a, r, hrun, hown, hdense⟩ := Edit.Meets.total (r := ⟨.empty, .owned⟩)
    (Edit.Meets.bind ((Registers.meets_clear (s.config.withWidth w)
      (by decide : Backing.owned ≠ .frozen)).mono fun _ r' hb hd' => hd'.meets_insertAll
        (by rw [hb]; decide) (risen s.config.lgK g.values))) rfl
  have hfinal := (hdense.putTotal g.history.total).putFlag g.history.outOfOrder
  have hback : ((r.putTotal g.history.total).putFlag .outOfOrder
      g.history.outOfOrder).backing = .owned := by
    rw [(Region.within_putFlag ..).backing, (Region.within_putTotal ..).backing, hown]
  have hconvert : s.convert w = .ok ⟨s.config.withWidth w, .dense,
      (r.putTotal g.history.total).putFlag .outOfOrder g.history.outOfOrder⟩ := by
    unfold convert
    rw [hrisen, hflag, htotal]
    change (match (Registers.clear _ >>= fun _ => (risen _ _).forM (Registers.insert _))
      ⟨.empty, .owned⟩ with | .ok _ r => _ | .error e _ => _) = _
    rw [hrun]
    rfl
  generalize (r.putTotal g.history.total).putFlag .outOfOrder g.history.outOfOrder = q at *
  have howns : Owns ⟨s.config.withWidth w, .dense, q⟩ (.dense (g.rebuilt s.config.lgK)) :=
    ⟨⟨by rw [hback]; decide, rfl, hfinal, g.sound_rebuilt _⟩, hback⟩
  exact ⟨_, hconvert, rfl, howns.of_rebuilt hg hs.sound⟩

theorem withWidth_of_copy {w : Width} (hw : w ≠ s.config.width) (hm : s.mode ≠ .dense)
    (hcopy : s.copy = .ok c) :
    s.withWidth w = .ok ⟨c.config.withWidth w, c.mode, c.region.putModes c.mode w⟩ := by
  rw [withWidth, if_neg hw, hcopy]
  cases hmode : s.mode with
  | dense => exact absurd hmode hm
  | list | set => rfl

theorem Owns.putModes (hc : c.Owns h) (hm : h.mode ≠ .dense) (w : Width) :
    Owns ⟨c.config.withWidth w, c.mode, c.region.putModes c.mode w⟩ h := by
  have himg : (c.region.putModes h.mode w).Holds (c.config.withWidth w) h := hc.image.putModes hm w
  have hback : (c.region.putModes c.mode w).backing = .owned :=
    (Region.backing_setByte ..).trans hc.owned
  rw [← hc.mode] at himg
  exact ⟨⟨by rw [hback]; decide, hc.mode, himg, hc.sound⟩, hback⟩

/-- **A copy of any width keeps what a copy keeps.** -/
theorem Shows.withWidth_eq (hs : s.Shows h) (hr : h.Regular s.config.lgK 8)
    (hcopy : s.copy = .ok c) (hcfg : c.config = s.config) (hc : c.Owns h') (hsim : Similar h h')
    (w : Width) :
    ∃ t, s.withWidth w = .ok t ∧ t.config = s.config.withWidth w ∧ t.Owns h' := by
  by_cases hw : w = s.config.width
  · refine ⟨c, ?_, ?_, hc⟩
    · rw [withWidth, if_pos hw]
      exact hcopy
    · rw [hcfg, hw]
      rfl
  by_cases hm : h.mode = .dense
  · cases hsim with
    | table => cases hm
    | refl =>
      cases h with
      | list cs n => cases hm
      | table L slots n => cases hm
      | dense g =>
        obtain ⟨t, ht, hcfg', howns⟩ := hs.convert_eq hr w
        refine ⟨t, ?_, hcfg', howns⟩
        rw [withWidth, if_neg hw, show s.mode = .dense from hs.mode]
        exact ht
  · refine ⟨_, withWidth_of_copy hw (by rwa [hs.mode]) hcopy, by rw [hcfg], hc.putModes ?_ w⟩
    rwa [← hsim.mode_eq]

/-- **A copy of any width keeps the same holding.** -/
theorem Keeps.withWidth_eq (hs : s.Keeps h) (hr : h.Regular s.config.lgK 8) (w : Width) :
    ∃ t, s.withWidth w = .ok t ∧ t.config = s.config.withWidth w ∧ t.Owns h := by
  obtain ⟨c, hcopy, hcfg, howns, -⟩ := hs.ofBytes_image
  exact hs.shows.withWidth_eq hr hcopy hcfg howns (.refl h) w

theorem Keeps.of_withWidth {w : Width} (hs : s.Keeps h) (hr : h.Regular s.config.lgK 8)
    (ht : s.withWidth w = .ok t) : t.config.lgK = s.config.lgK ∧ t.Keeps h := by
  obtain ⟨u, hu, hcfg, howns⟩ := hs.withWidth_eq hr w
  cases hu.symm.trans ht
  refine ⟨?_, howns.toKeeps⟩
  rw [hcfg]
  rfl

/-! ## Evolved sketches -/

/-- The sketches that new ones become, in bytes of their own or in lent ones, by taking in coupons,
by merges, by resets and by being copied with another register width. -/
def Evolved (s : Sketch) : Prop :=
  Grows (fun s => ∃ cfg, s.Fresh cfg) (fun s t => ∃ w, s.withWidth w = .ok t) s

theorem Reachable.evolved (hs : s.Reachable) : s.Evolved := by
  obtain ⟨cs, hs⟩ := hs
  exact ⟨cs, hs.mono (fun _ ⟨cfg, hnew⟩ => ⟨cfg, .inl hnew⟩) fun _ _ hno => hno.elim⟩

namespace Evolved

theorem new (cfg : Config) : (new cfg).Evolved := ⟨[], .start ⟨cfg, .inl rfl⟩⟩

theorem buildIn {lgK : Nat} {width : Width} {lent : ByteArray}
    (hs : Sketch.buildIn lgK width lent = .ok s) : s.Evolved :=
  ⟨[], .start (Fresh.of_buildIn hs)⟩

/-- **An evolved sketch keeps a sound holding that stems from some coupons.** -/
theorem stems (hs : s.Evolved) : ∃ cs h, s.Keeps h ∧ h.Stems s.config.lgK cs := by
  obtain ⟨cs, hs⟩ := hs
  exact ⟨cs, Grown.keeps (fun _ ⟨_, hs⟩ => hs.keeps.2) (fun _ _ _ ⟨_, ht⟩ hs hr =>
    hs.of_withWidth hr ht) hs⟩

theorem keeps (hs : s.Evolved) : ∃ h, s.Keeps h ∧ h.Regular s.config.lgK 8 := by
  obtain ⟨_, h, hs, hst⟩ := hs.stems
  exact ⟨h, hs, hst.regular⟩

theorem seen (hs : s.Evolved) :
    ∃ h, s.Keeps h ∧ h.Regular s.config.lgK 8 ∧ h.Seen s.config.lgK := by
  obtain ⟨_, h, hs, hst⟩ := hs.stems
  exact ⟨h, hs, hst.regular, hst.seen hs.sound⟩

end Evolved

end Sketch

end HyperLogLog
