import HyperLogLog.Proofs.Evolved

/-!
# No dense image has rounded sums

* `Registers.Passed`: the dense images that promotions, conversions, coupons and merges pass
  through;
* **`Passed.exact`**: the sums of each of them are exact;
* `Evolved.passed`: the images of evolved sketches are among them;
* `Estimator.InUnits`, `Estimator.RaisesExactly`, `Registers.SumsExact`: what it means that nothing
  is rounded, in the numbers that the sums stand for;
* **`sums_exact`**: nothing is rounded in a sketch, so that what the registers alone say of it
  depends on nothing but them.
-/

namespace HyperLogLog

open Double (units)

/-! ## Dense images that are passed through -/

namespace Registers

variable {cfg : Config} {c : Coupon} {cs : List Coupon} {r r' : Region}

/-- The dense images that are passed through: an image without registers risen, what it becomes by
taking in coupons, one with another running total or another history, and the same image in other
bytes. -/
inductive Passed (cfg : Config) : Region → Prop
  | clear {r r' : Region} : clear cfg r = .ok () r' → Passed cfg r'
  | insert {c : Coupon} {r r' : Region} :
    Passed cfg r → insert cfg c r = .ok () r' → Passed cfg r'
  | putTotal {r : Region} (x : Double) : Passed cfg r → Passed cfg (r.putTotal x)
  | putFlag {r : Region} (on : Bool) : Passed cfg r → Passed cfg (r.putFlag .outOfOrder on)
  | moved {r r' : Region} :
    Passed cfg r → r'.backing ≠ .frozen → Footprint.dense cfg r.exceptionCount ≤ r'.size →
    (∀ j, j < Footprint.dense cfg r.exceptionCount → r'.byte j = r.byte j) → Passed cfg r'

theorem dense_of_clear (hr : clear cfg r = .ok () r') :
    r'.backing ≠ .frozen ∧ Dense cfg (Registry.fresh cfg.lgK) r' := by
  have hw : r.backing ≠ .frozen := by
    intro hb
    obtain ⟨_, r₁, hreserve, -⟩ := EStateM.bind_eq_ok hr
    rw [Region.reserve, hb] at hreserve
    cases hreserve
  obtain ⟨hb, hd⟩ := (meets_clear cfg hw).ok () r' hr
  exact ⟨by rwa [hb], hd⟩

/-- **Dense images that are passed through have exact sums.** -/
theorem Passed.exact (h : Passed cfg r) : r.backing ≠ .frozen ∧
    ∃ g, Dense cfg g r ∧ g.Exact cfg.lgK ∧ ∀ i, g.values i ≤ 63 := by
  have hk := cfg.le_twentyOne
  induction h with
  | clear hr =>
    obtain ⟨hw, hd⟩ := dense_of_clear hr
    exact ⟨hw, _, hd, Registry.exact_fresh hk, fun _ => Nat.zero_le _⟩
  | @insert c r r' _ hr ih =>
    obtain ⟨hw, g, hd, hg, hv⟩ := ih
    obtain ⟨hb, hd'⟩ := (hd.meets_insert hw c).ok () r' hr
    exact ⟨by rwa [hb], _, hd', hg.take hk hv c, Registry.values_take_le c hv⟩
  | @putTotal r x _ ih =>
    obtain ⟨hw, g, hd, hg, hv⟩ := ih
    exact ⟨by rwa [(Region.within_putTotal ..).backing], _, hd.putTotal x, hg.putHistory _ _, hv⟩
  | @putFlag r on _ ih =>
    obtain ⟨hw, g, hd, hg, hv⟩ := ih
    exact ⟨by rwa [(Region.within_putFlag ..).backing], _, hd.putFlag on, hg.putHistory _ _, hv⟩
  | moved _ hw hsize hbyte ih =>
    obtain ⟨-, g, hd, hg, hv⟩ := ih
    exact ⟨hw, g, hd.congr hsize hbyte, hg, hv⟩

theorem Passed.insertAll (h : Passed cfg r) (hr : cs.forM (Registers.insert cfg) r = .ok () r') :
    Passed cfg r' := by
  induction cs generalizing r with
  | nil =>
    cases hr
    exact h
  | cons c cs ih =>
    obtain ⟨_, r₁, hc, hcs⟩ := EStateM.bind_eq_ok hr
    exact ih (h.insert hc) hcs

/-- **A promotion passes through such images only**, from the moment it has cleared one. -/
theorem passed_toDense (hr : Promotion.toDense cfg r = .ok () r') : Passed cfg r' := by
  have h₀ := EStateM.get_bind_eq_ok hr
  cases hm : r.mode? with
  | none =>
    rw [hm] at h₀
    cases h₀
  | some mode =>
    rw [hm] at h₀
    obtain ⟨cs, r₁, -, h₁⟩ := EStateM.bind_eq_ok h₀
    obtain ⟨_, r₂, hclear, h₂⟩ := EStateM.bind_eq_ok h₁
    obtain ⟨_, r₃, hzero, h₃⟩ := EStateM.bind_eq_ok h₂
    obtain ⟨_, r₄, hcs, h₄⟩ := EStateM.bind_eq_ok h₃
    rw [EStateM.modify_eq_ok h₄]
    -- what is cleared beyond the image is not part of it
    obtain ⟨hw, hd⟩ := dense_of_clear hclear
    have hnone := hd.exceptionCount_fresh
    have hin : Region.Within _ _ r₂ r₃ := EStateM.modify_eq_ok hzero ▸ Region.within_zero ..
    have hzeroed := (Passed.clear hclear).moved (by rwa [hin.backing])
      (hd.packed.fits.trans (Nat.le_of_eq hin.size.symm)) fun j hj => hin.byte j (.inl (hnone ▸ hj))
    exact (hzeroed.insertAll hcs).putTotal _

theorem passed_insertTable (hr : CouponTable.insert cfg c r = .ok .dense r') : Passed cfg r' := by
  have h₀ := EStateM.get_bind_eq_ok hr
  dsimp only at h₀
  cases hfind : CouponTable.find r.lgArr r c with
  | present =>
    rw [hfind] at h₀
    cases h₀
  | full =>
    rw [hfind] at h₀
    cases h₀
  | free i =>
    rw [hfind] at h₀
    obtain ⟨_, r₁, -, h₁⟩ := EStateM.bind_eq_ok h₀
    obtain ⟨_, r₂, -, h₂⟩ := EStateM.bind_eq_ok h₁
    obtain ⟨_, r₃, -, h₃⟩ := EStateM.bind_eq_ok h₂
    split_ifs at h₃
    · obtain ⟨_, r₄, hdense, h₄⟩ := EStateM.bind_eq_ok h₃
      cases h₄
      exact passed_toDense hdense
    · obtain ⟨_, r₄, -, h₄⟩ := EStateM.bind_eq_ok h₃
      cases h₄
    · cases h₃

theorem passed_insertOrRaise {mode : Mode} (h : mode = .dense → Passed cfg r)
    (hr : CouponTable.insertOrRaise cfg mode c r = .ok .dense r') : Passed cfg r' := by
  cases mode with
  | list => exact passed_insertTable hr
  | set => exact passed_insertTable hr
  | dense =>
    obtain ⟨_, r₁, hinsert, h₁⟩ := EStateM.bind_eq_ok hr
    cases h₁
    exact (h rfl).insert hinsert

theorem passed_foldlM {mode : Mode} (h : mode = .dense → Passed cfg r)
    (hr : cs.foldlM (CouponTable.insertOrRaise cfg) mode r = .ok .dense r') : Passed cfg r' := by
  induction cs generalizing mode r with
  | nil =>
    cases hr
    exact h rfl
  | cons c cs ih =>
    rw [List.foldlM_cons] at hr
    obtain ⟨mode', r₁, hc, hcs⟩ := EStateM.bind_eq_ok hr
    exact ih (fun hm => passed_insertOrRaise h (hm ▸ hc)) hcs

theorem passed_insertList (hr : CouponList.insert cfg c r = .ok .dense r') : Passed cfg r' := by
  have h₀ := EStateM.get_bind_eq_ok hr
  dsimp only at h₀
  cases hfind : CouponList.find (2 ^ r.lgArr) r c with
  | present =>
    rw [hfind] at h₀
    cases h₀
  | full =>
    rw [hfind] at h₀
    cases h₀
  | free i =>
    rw [hfind] at h₀
    obtain ⟨_, r₁, -, h₁⟩ := EStateM.bind_eq_ok h₀
    obtain ⟨_, r₂, -, h₂⟩ := EStateM.bind_eq_ok h₁
    obtain ⟨_, r₃, -, h₃⟩ := EStateM.bind_eq_ok h₂
    split_ifs at h₃
    · obtain ⟨_, r₄, hdense, h₄⟩ := EStateM.bind_eq_ok h₃
      cases h₄
      exact passed_toDense hdense
    · obtain ⟨_, r₄, -, h₄⟩ := EStateM.bind_eq_ok h₃
      obtain ⟨_, r₅, -, h₅⟩ := EStateM.bind_eq_ok h₄
      obtain ⟨_, r₆, -, h₆⟩ := EStateM.bind_eq_ok h₅
      exact passed_foldlM (fun hset => absurd hset (by decide)) h₆
    · cases h₃

end Registers

namespace Sketch

open Registers (Passed)

variable {s t : Sketch} {h : Holding}

/-! ## Dense images of sketches -/

theorem passed_insert {c : Coupon} (hs : s.Keeps h)
    (hp : s.mode = .dense → Passed s.config s.region) (ht : insert c s = .ok () t) :
    t.mode = .dense → Passed t.config t.region := by
  intro hm
  rw [insert_eq hs.writable] at ht
  cases hrun : edit s.config c s.mode s.region with
  | error f r =>
    rw [hrun] at ht
    cases ht
  | ok mode r =>
    rw [hrun] at ht
    cases ht
    obtain rfl : mode = .dense := hm
    cases hmode : s.mode with
    | list =>
      rw [hmode] at hrun
      exact Registers.passed_insertList hrun
    | set =>
      rw [hmode] at hrun
      exact Registers.passed_insertTable hrun
    | dense =>
      rw [hmode] at hrun
      obtain ⟨_, r₁, hinsert, h₁⟩ := EStateM.bind_eq_ok hrun
      cases h₁
      exact (hp hmode).insert hinsert

theorem passed_insertAll {cs : List Coupon} (hs : s.Keeps h)
    (hp : s.mode = .dense → Passed s.config s.region) (ht : insertAll cs s = .ok () t) :
    t.mode = .dense → Passed t.config t.region := by
  induction cs generalizing s h with
  | nil =>
    cases ht
    exact hp
  | cons c cs ih =>
    obtain ⟨_, u, hu, hcs⟩ := EStateM.bind_eq_ok ht
    obtain ⟨-, -, hkeeps⟩ := (hs.insert c).ok u hu
    exact ih hkeeps (passed_insert hs hp hu) hcs

theorem passed_forgetHistory (hp : s.mode = .dense → Passed s.config s.region)
    (ht : forgetHistory s = .ok () t) : t.mode = .dense → Passed t.config t.region := by
  have h₁ := EStateM.get_bind_eq_ok ht
  split_ifs at h₁ with hm
  · have hrun := editing_of_ok (s := s)
      (x := modify fun r => (r.putTotal 0.0).putFlag .outOfOrder true) rfl
    cases hrun.symm.trans h₁
    exact fun _ => ((hp hm).putTotal _).putFlag _
  · cases h₁
    exact hp

theorem passed_absorb (ht : t.Keeps h) (hp : t.mode = .dense → Passed t.config t.region)
    {u : Sketch} (hu : absorb s t = .ok () u) : u.mode = .dense → Passed u.config u.region := by
  obtain ⟨cs, -, rfl | ⟨v, hall, hforget⟩⟩ := absorb_eq_ok hu
  · exact hp
  · exact passed_forgetHistory (passed_insertAll ht hp hall) hforget

theorem passed_convert {w : Width} (ht : s.convert w = .ok t) : Passed t.config t.region := by
  unfold convert at ht
  cases hcs : s.coupons with
  | error f =>
    rw [hcs] at ht
    cases ht
  | ok cs =>
    rw [hcs] at ht
    change (match (Registers.clear (s.config.withWidth w) >>= fun _ =>
      cs.forM (Registers.insert (s.config.withWidth w))) ⟨.empty, .owned⟩ with
      | .ok _ r => _ | .error e _ => _) = _ at ht
    cases hfilled : (Registers.clear (s.config.withWidth w) >>= fun _ =>
        cs.forM (Registers.insert (s.config.withWidth w))) ⟨.empty, .owned⟩ with
    | error f r =>
      rw [hfilled] at ht
      cases ht
    | ok _ r =>
      rw [hfilled] at ht
      cases ht
      obtain ⟨_, r₁, hclear, hall⟩ := EStateM.bind_eq_ok hfilled
      exact (((Passed.clear hclear).insertAll hall).putTotal _).putFlag _

theorem passed_withWidth {w : Width} (hs : s.Keeps h) (hr : h.Regular s.config.lgK 8)
    (hp : s.mode = .dense → Passed s.config s.region) (ht : s.withWidth w = .ok t) :
    t.mode = .dense → Passed t.config t.region := by
  intro hm
  obtain ⟨u, hu, -, hkeeps⟩ := hs.withWidth_eq hr w
  cases hu.symm.trans ht
  have hdense : s.mode = .dense := by rw [hs.mode, ← hkeeps.mode, hm]
  unfold withWidth at ht
  split_ifs at ht with hw
  · -- a copy of the same width has the same image
    obtain ⟨v, hv, hcfg, howns, himage⟩ := hs.ofBytes_image
    cases hv.symm.trans ht
    obtain ⟨hsize, hbyte⟩ := hs.byte_eq_of_image himage
    rw [imageSize, hdense] at hsize hbyte
    rw [hcfg]
    exact (hp hdense).moved howns.writable hsize hbyte
  · rw [hdense] at ht
    exact passed_convert ht

theorem Evolved.passed (hs : s.Evolved) : s.mode = .dense → Passed s.config s.region := by
  obtain ⟨cs, hs⟩ := hs
  induction hs with
  | start hs =>
    obtain ⟨cfg, hs⟩ := hs
    rw [hs.keeps.2.mode]
    exact nofun
  | insert hs _ ht ih =>
    obtain ⟨h, hs, -⟩ := Evolved.keeps ⟨_, hs⟩
    exact passed_insert hs ih ht
  | absorb _ ht _ hu _ ih =>
    obtain ⟨h, ht, -⟩ := Evolved.keeps ⟨_, ht⟩
    exact passed_absorb ht ih hu
  | reset hs ht _ =>
    obtain ⟨h, hs, -⟩ := Evolved.keeps ⟨_, hs⟩
    obtain ⟨-, -, hkeeps⟩ := hs.reset.ok _ ht
    rw [hkeeps.mode]
    exact nofun
  | turn hs ht ih =>
    obtain ⟨w, ht⟩ := ht
    obtain ⟨h, hs, hr⟩ := Evolved.keeps ⟨_, hs⟩
    exact passed_withWidth hs hr ih ht

end Sketch

/-! ## Sums without rounding -/

namespace Estimator

variable {e : Estimator Double} {a b v lgK old new : Nat}

/-- Both sums are whole numbers of their units, of which there are at most `2 ^ 52`. -/
structure InUnits (e : Estimator Double) : Prop where
  low : ∃ n ≤ 2 ^ 52, e.lowSum = units 31 n ∧ e.lowSum.value = n * 2 ^ (-31 : ℤ)
  high : ∃ n ≤ 2 ^ 52, e.highSum = units 63 n ∧ e.highSum.value = n * 2 ^ (-63 : ℤ)

/-- A register rises from `old` to `new` without rounding: neither where it leaves the sums nor
where it enters them again. -/
structure RaisesExactly (e : Estimator Double) (lgK old new : Nat) : Prop where
  withdrawn : ((e.advance lgK).withdraw old).InUnits
  lowOut : ((e.advance lgK).withdraw old).lowSum.value = e.lowSum.value - lowPart old
  highOut : ((e.advance lgK).withdraw old).highSum.value = e.highSum.value - highPart old
  raised : (e.raise lgK old new).InUnits
  lowIn : (e.raise lgK old new).lowSum.value =
    ((e.advance lgK).withdraw old).lowSum.value + lowPart new
  highIn : (e.raise lgK old new).highSum.value =
    ((e.advance lgK).withdraw old).highSum.value + highPart new

namespace Counts

theorem value_lowSum (h : e.Counts a b) (ha : a ≤ 2 ^ 52) :
    e.lowSum.value = a * 2 ^ (-31 : ℤ) := by
  rw [h.lowSum, Double.value_units (by omega) (by decide)]
  rfl

theorem value_highSum (h : e.Counts a b) (hb : b ≤ 2 ^ 52) :
    e.highSum.value = b * 2 ^ (-63 : ℤ) := by
  rw [h.highSum, Double.value_units (by omega) (by decide)]
  rfl

theorem inUnits (h : e.Counts a b) (ha : a ≤ 2 ^ 52) (hb : b ≤ 2 ^ 52) : e.InUnits :=
  ⟨⟨a, ha, h.lowSum, h.value_lowSum ha⟩, ⟨b, hb, h.highSum, h.value_highSum hb⟩⟩

theorem value_add_pos (h : e.Counts a b) (ha : a ≤ 2 ^ 52) (hb : b ≤ 2 ^ 52) (hpos : 0 < a + b) :
    0 < (e.lowSum + e.highSum).value := by
  rw [h.lowSum, h.highSum]
  exact Double.value_units_add_pos (by omega) (by omega) hpos (by decide) (by decide)

end Counts

end Estimator

/-- **A register that rises is not rounded**, neither on its way out of the sums nor back. -/
theorem Registry.Exact.raisesExactly {g : Registry} {lgK i x : Nat} (h : g.Exact lgK)
    (hk : lgK ≤ 21) (hi : i < 2 ^ lgK) (hv : g.values i ≤ 63) (hx : x ≤ 63) :
    g.history.RaisesExactly lgK (g.values i) x := by
  have hle := two_pow_le hk
  have hlow := h.value_lowSum (tally_le lowShare_le hle)
  have hhigh := h.value_highSum (tally_le highShare_le hle)
  obtain ⟨a, b, ha, hb, hta, htb, hout, ha', hb', hin⟩ := h.raise hk hi hv hx
  refine ⟨hout.inUnits ha hb, ?_, ?_, hin.inUnits ha' hb', ?_, ?_⟩
  · rw [hout.value_lowSum ha, hlow, ← hta, Nat.cast_add, add_mul, cast_lowShare,
      add_sub_cancel_right]
  · rw [hout.value_highSum hb, hhigh, ← htb, Nat.cast_add, add_mul, cast_highShare hv,
      add_sub_cancel_right]
  · rw [hin.value_lowSum ha', hout.value_lowSum ha, Nat.cast_add, add_mul, cast_lowShare]
  · rw [hin.value_highSum hb', hout.value_highSum hb, Nat.cast_add, add_mul, cast_highShare hx]

namespace Registers

variable {cfg cfg' : Config} {r r' : Region}

/-- The registers are `v`, and the sums are theirs; they stay so when a coupon makes a register
rise, and so does what lies between. -/
structure SumsExact (cfg : Config) (v : Nat → Nat) (r : Region) : Prop where
  read : values cfg r = .ok ((List.range cfg.k).map v)
  bounded : ∀ i, v i ≤ 63
  low : r.estimator.lowSum.value = ∑ i ∈ Finset.range cfg.k with v i < 32, 2 ^ (-v i : ℤ)
  high : r.estimator.highSum.value = ∑ i ∈ Finset.range cfg.k with 32 ≤ v i, 2 ^ (-v i : ℤ)
  inUnits : r.estimator.InUnits
  /-- What the running total and the estimate divide by is not zero. -/
  positive : 0 < (r.estimator.lowSum + r.estimator.highSum).value
  kept : ∀ c r', insert cfg c r = .ok () r' → c.value ≤ v (c.slot % cfg.k) →
    r'.estimator = r.estimator
  raised : ∀ c r', insert cfg c r = .ok () r' → v (c.slot % cfg.k) < c.value →
    r'.estimator = r.estimator.raise cfg.lgK (v (c.slot % cfg.k)) c.value ∧
      r.estimator.RaisesExactly cfg.lgK (v (c.slot % cfg.k)) c.value

theorem Passed.sumsExact (h : Passed cfg r) : ∃ v, SumsExact cfg v r := by
  have hk := cfg.le_twentyOne
  have hle := Registry.two_pow_le hk
  obtain ⟨hw, g, hd, hg, hv⟩ := h.exact
  have hlow := tally_le (v := g.values) lowShare_le hle
  have hhigh := tally_le (v := g.values) highShare_le hle
  have hinsert : ∀ c r', Registers.insert cfg c r = .ok () r' →
      r'.estimator = (g.take cfg.lgK c).history := fun c r' hr =>
    ((hd.meets_insert hw c).ok () r' hr).2.estimator
  refine ⟨g.values, hd.values_eq, hv, ?_, ?_, ?_, ?_, fun c r' hr hc => ?_, fun c r' hr hc => ?_⟩
  · rw [hd.estimator, hg.value_lowSum hlow]
    exact cast_tally_lowShare ..
  · rw [hd.estimator, hg.value_highSum hhigh]
    exact cast_tally_highShare fun i _ => hv i
  · rw [hd.estimator]
    exact hg.inUnits hlow hhigh
  · have hl := share_le_tally lowShare (v := g.values) (Nat.two_pow_pos cfg.lgK)
    have hh := share_le_tally highShare (v := g.values) (Nat.two_pow_pos cfg.lgK)
    have := share_pos (g.values 0)
    rw [hd.estimator]
    exact hg.value_add_pos hlow hhigh (by omega)
  · rw [hinsert c r' hr, hd.estimator, show g.take cfg.lgK c = g from if_pos hc]
  · rw [hinsert c r' hr, hd.estimator, show g.take cfg.lgK c = _ from if_neg (Nat.not_le.2 hc)]
    exact ⟨rfl, hg.raisesExactly hk (Nat.mod_lt _ (Nat.two_pow_pos _)) (hv _) c.value_le⟩

theorem Passed.composite_congr (h : Passed cfg r) (h' : Passed cfg' r') (hk : cfg.lgK = cfg'.lgK)
    (hv : values cfg r = values cfg' r') :
    Contents.composite cfg .dense r = Contents.composite cfg' .dense r' := by
  obtain ⟨-, g, hd, hg, -⟩ := h.exact
  obtain ⟨-, g', hd', hg', -⟩ := h'.exact
  have hkk : cfg'.k = cfg.k := congrArg (2 ^ ·) hk.symm
  rw [hd.values_eq, hd'.values_eq, hkk] at hv
  have heq : ∀ i, i < cfg.k → g.values i = g'.values i := fun i hi =>
    List.map_inj_left.1 (Except.ok.inj hv) i (List.mem_range.2 hi)
  rw [hd.composite_eq, hd'.composite_eq, ← hk, hkk, level_congr fun i hi => by rw [heq i hi]]
  obtain ⟨hlow, hhigh⟩ := hg.sums_congr (hk ▸ hg') heq
  exact Estimator.composite_congr hlow hhigh _ _ _

end Registers

namespace Sketch

open Registers (Passed SumsExact)

variable {s : Sketch}

/-- **No dense image of a sketch has rounded sums**, nor any that it passed through: the sums are
those of the registers, in units that a double counts, also while a register rises, and together
they are positive. So what the registers alone say depends on them and on their number only,
whatever their width and history. -/
theorem sums_exact (hs : s.Evolved) (hm : s.mode = .dense) :
    Passed s.config s.region ∧ (∀ r, Passed s.config r → ∃ v, SumsExact s.config v r) ∧
    ∀ t : Sketch, t.Evolved → t.mode = .dense → s.config.lgK = t.config.lgK →
      Registers.values s.config s.region = Registers.values t.config t.region →
      s.composite = t.composite := by
  have hp := hs.passed hm
  refine ⟨hp, fun r => Passed.sumsExact, fun t ht hm' hk hv => ?_⟩
  rw [composite, composite, hm, hm']
  exact hp.composite_congr (ht.passed hm') hk hv

/-- Eight coupons make registers of a new sketch; the fifth of them is too large for the lower
sum. -/
theorem sums_exact_eight :
    let cfg : Config := ⟨4, .four, by decide, by decide⟩
    let cs : List Coupon := [.pack 0 1, .pack 1 2, .pack 2 3, .pack 3 4, .pack 4 40, .pack 5 5,
      .pack 6 6, .pack 7 7]
    ∃ s v, insertAll cs (new cfg) = .ok () s ∧ s.Evolved ∧ s.mode = .dense ∧
      SumsExact cfg v s.region := by
  intro cfg cs
  obtain ⟨s, hs, hcfg, howns⟩ := (Owns.new cfg).insertAll cs
  have hevolved : s.Evolved := (Evolved.new cfg).insertAll (by decide) hs
  have hm : s.mode = .dense := howns.mode.trans (by rfl)
  obtain ⟨hp, hall, -⟩ := sums_exact hevolved hm
  obtain ⟨v, hv⟩ := hall _ hp
  have hsame : s.config = cfg := hcfg
  rw [hsame] at hv
  exact ⟨s, v, hs, hevolved, hm, hv⟩

end Sketch

end HyperLogLog
