import HyperLogLog.Proofs.Handle
import HyperLogLog.Proofs.Observations

/-!
# When the bytes asked for are enough

A sketch that starts in lent bytes asks for as many as a list, every table and the registers take,
and for some exceptions on top. How many exceptions there can be depends on the coupons.

* `Sketch.Overflows`, **`Keeps.updatableSize_le_most`**: which images are larger than that;
* `Sketch.Spans`: a sketch whose registers have known bounds, and what it leaves when it fails;
* `Sketch.Suffices`, `Sketch.Modest`: runs that need no more exceptions than there is room for;
* `Owns.modest`: so are coupons of which few enough end up as exceptions;
* **`most_suffices`**: these do not run out of lent bytes;
* `throng_overflows`: one that does.
-/

namespace HyperLogLog

open Registers (Dense tall footprint_of_four)

/-- Room is asked for all registers, and for so many exceptions. -/
theorem Footprint.dense_le_most_iff {cfg : Config} {n : Nat} :
    dense cfg n ≤ most cfg ↔ ¬ (cfg.width = .four ∧ reserved cfg < n) := by
  by_cases hw : cfg.width = .four
  · have hlist : sparse .list lgList = 40 := rfl
    rw [most, footprint_of_four hw, footprint_of_four hw, hlist]
    unfold Exceptions.offset
    constructor
    · rintro h ⟨-, hlt⟩
      omega
    · intro h
      have : n ≤ reserved cfg := Nat.le_of_not_lt fun hlt => h ⟨hw, hlt⟩
      omega
  · have hdense : dense cfg n = dense cfg 0 := by rw [dense, dense, if_neg hw, if_neg hw]
    exact ⟨fun _ h => hw h.1, fun _ => hdense ▸ dense_le_most cfg⟩

namespace Sketch

variable {s t : Sketch} {h : Holding} {c : Coupon} {cs : List Coupon} {m : Nat}
  {p q v : Nat → Nat}

/-! ## The size of images -/

/-- Four-bit registers with more exceptions than there is room for at first. -/
structure Overflows (s : Sketch) : Prop where
  mode : s.mode = .dense
  width : s.config.width = .four
  exceptions : Footprint.reserved s.config < s.region.exceptionCount

namespace Keeps

theorem updatableSize_eq (hs : s.Keeps h) :
    s.updatableSize = s.region.footprint s.config h.mode := by
  have himg := hs.image
  have hsound := hs.sound
  cases h with
  | list cs n =>
    have hl : Listed s.config cs n s.region := himg
    have hsize : s.updatableSize = Footprint.sparse .list s.region.lgArr := by
      rw [updatableSize, hs.mode]
      rfl
    rw [hsize, hl.headed.lgArr_eq (by decide)]
    exact hl.footprint_eq.symm
  | table L slots n =>
    have ht : Tabulated s.config L slots n s.region := himg
    have hL := lgArr_lt (Holding.Tabled.most hsound)
    have hsize : s.updatableSize = Footprint.sparse .set s.region.lgArr := by
      rw [updatableSize, hs.mode]
      rfl
    rw [hsize, ht.headed.lgArr_eq hL]
    exact (ht.footprint_eq hL).symm
  | dense g =>
    rw [updatableSize, hs.mode]
    exact hs.imageSize_eq

theorem updatableSize_le (hs : s.Keeps h) : s.updatableSize ≤ s.region.size := by
  rw [hs.updatableSize_eq]
  exact hs.image.fits hs.sound

/-- **Images are larger than what is asked for** exactly if they have too many exceptions. -/
theorem updatableSize_le_most (hs : s.Keeps h) :
    s.updatableSize ≤ Footprint.most s.config ↔ ¬ s.Overflows := by
  have himg := hs.image
  have hsound := hs.sound
  have hmode := hs.mode
  rw [hs.updatableSize_eq]
  cases h with
  | list cs n =>
    have hl : Listed s.config cs n s.region := himg
    refine ⟨fun _ ho => (nomatch hmode.symm.trans ho.mode), fun _ => ?_⟩
    exact (Nat.le_of_eq hl.footprint_eq).trans (Footprint.list_le_most _)
  | table L slots n =>
    have ht : Tabulated s.config L slots n s.region := himg
    have t : Holding.Tabled s.config.lgK L slots n := hsound
    refine ⟨fun _ ho => (nomatch hmode.symm.trans ho.mode), fun _ => ?_⟩
    exact (Nat.le_of_eq (ht.footprint_eq (lgArr_lt t.most))).trans (Footprint.sparse_le_most t.most)
  | dense g =>
    refine Footprint.dense_le_most_iff.trans (not_congr ⟨fun ho => ?_, fun ho => ?_⟩)
    · exact ⟨hmode, ho.1, ho.2⟩
    · exact ⟨ho.width, ho.exceptions⟩

end Keeps

/-! ## What changes leave, by the registers they lead to -/

/-- The sketch keeps coupons whose registers are from `m` up to `v`. -/
def Spans (m : Nat) (v : Nat → Nat) (s : Sketch) : Prop :=
  ∃ h, s.Keeps h ∧ ∀ i, i < s.config.k →
    m ≤ peak s.config.lgK (h.coupons s.config.lgK) i ∧
      peak s.config.lgK (h.coupons s.config.lgK) i ≤ v i

theorem Keeps.spans_append (hs : s.Keeps h)
    (hm : ∀ i, i < s.config.k → m ≤ peak s.config.lgK (h.coupons s.config.lgK) i) :
    s.Spans m (peak s.config.lgK (h.coupons s.config.lgK ++ cs)) :=
  ⟨h, hs, fun i hi => ⟨hm i hi, by rw [peak_append]; exact Nat.le_max_left ..⟩⟩

theorem Spans.aligned (hs : s.Spans m v) : s.Aligned := by
  obtain ⟨h, hs, -⟩ := hs
  exact hs.aligned

theorem Spans.ends_insert (hs : s.Spans m v) (hne : c ≠ .empty)
    (hc : c.value ≤ v (c.slot % s.config.k)) :
    Ends Tenure (insert c) s (fun _ => Spans m v) (Stalls m v) := by
  obtain ⟨h, hs, hspan⟩ := hs
  have hk := lgK_le s
  have hpeak : ∀ i, i < s.config.k →
      peak s.config.lgK (c :: h.coupons s.config.lgK) i ≤ v i := fun i hi => by
    rw [peak_cons]
    refine Nat.max_le.2 ⟨?_, (hspan i hi).2⟩
    split_ifs with hslot
    · exact hslot ▸ hc
    · exact Nat.zero_le _
  have hrec := Holding.records_insert hs.sound hne (Holding.records_coupons hk hs.sound)
  refine ((hs.insert c).ends (hs.aligned.ends_insert hs.coupons_eq (fun i hi => (hspan i hi).1)
    hpeak)).mono (fun _ t ht hkeeps => ⟨_, hkeeps, fun i hi => ?_⟩) fun _ _ _ hfail => hfail.1
  rw [ht.config] at hi ⊢
  have hsame : peak s.config.lgK (h.coupons s.config.lgK ++ [c]) i =
      peak s.config.lgK (c :: h.coupons s.config.lgK) i :=
    peak_congr fun d _ => by rw [List.mem_append, List.mem_singleton, List.mem_cons, or_comm]
  rw [hrec.peak_coupons hk fun _ => Nat.le_refl _, hsame]
  refine ⟨(hspan i hi).1.trans ?_, hpeak i hi⟩
  rw [peak_cons]
  exact Nat.le_max_right ..

theorem Spans.ends_insertAll (hs : s.Spans m v)
    (hcs : ∀ c ∈ cs, c ≠ .empty ∧ c.value ≤ v (c.slot % s.config.k)) :
    Ends Tenure (insertAll cs) s (fun _ => Spans m v) (Stalls m v) := by
  refine Ends.forM (Spans m v) cs s (fun c t hc ht hspan => ?_) hs
  obtain ⟨hne, hle⟩ := hcs c hc
  exact hspan.ends_insert hne (by rwa [ht.config])

theorem Spans.ends_absorb (ht : t.Spans m v) (ho : s.offered t.config.lgK = .ok cs)
    (hcs : ∀ c ∈ cs, c ≠ .empty ∧ c.value ≤ v (c.slot % t.config.k)) :
    Ends Tenure (absorb s) t (fun _ => Aligned) (Stalls m v) := by
  refine .bind (ends_checkWritable ht.aligned.writable (.read_bind ?_))
  rw [ho]
  refine .ofExcept_bind (fun _ hf => nomatch hf) fun ds hds => ?_
  cases hds
  split_ifs
  · exact .done ht.aligned
  · exact .bind ((ht.ends_insertAll hcs).mono (fun _ u _ hu => hu.aligned.ends_forgetHistory)
      fun _ _ _ hfail => hfail)

/-- The action is one that observations lead to. -/
def Action.Proper : Action → Prop
  | insert c => 0 < c.value
  | absorb source => source.Evolved
  | reset => True

/-- **What a change leaves that fails** is bounded by the registers before and after the same change
of a sketch that does not fail. -/
theorem Mirrors.ends_change (hst : Mirrors s t) (hs : s.region.backing = .owned) {a : Action}
    (ha : a.Proper) (hp : s.peaks s.config.lgK = .ok p)
    (hq : (outcome a.change s).2.peaks s.config.lgK = .ok q)
    (hm : ∀ i, i < s.config.k → m ≤ p i) :
    Ends Tenure a.change t (fun _ => Aligned) (Stalls m q) := by
  obtain ⟨hcfg, h, hk, ht⟩ := hst
  have howns : s.Owns h := ⟨hk, hs⟩
  have hrec := Holding.records_coupons (lgK_le s) hk.sound
  cases (howns.peaks_eq _).symm.trans hp
  cases a with
  | insert c =>
    have hne := Coupon.ne_empty ha
    obtain ⟨s', hs', hcfg', howns'⟩ := howns.insert c
    have hq' := howns'.peaks_of_records (congrArg Config.lgK hcfg')
      (Holding.records_insert hk.sound hne hrec) fun _ => Nat.le_refl _
    rw [Action.change, outcome_of_ok hs'] at hq
    cases hq'.symm.trans hq
    rw [hcfg] at hm ⊢
    refine ((ht.spans_append hm).ends_insert hne ?_).mono (fun _ _ _ hu => hu.aligned)
      fun _ _ _ hfail => hfail
    exact value_le_peak (List.mem_append_right _ List.mem_cons_self)
  | absorb source =>
    obtain ⟨h', hsource, -⟩ := Evolved.keeps ha
    by_cases hj : source.mode = .dense ∧ source.config.lgK < s.config.lgK
    · rw [hcfg] at hj
      have hrun := ht.absorb_of_error (hsource.offered_narrow hj)
      exact .of_error hrun (Std.Refl.refl t) (ht.aligned.stalls fun hkind => by cases hkind)
    have ho := hsource.offered_eq hj
    have hne := Holding.ne_empty_offer s.config.lgK hsource.sound
    generalize h'.offer source.config.lgK s.config.lgK = ds at ho hne
    obtain ⟨s', hs', hcfg', howns'⟩ := howns.absorb_of_ok ho
    have hq' := howns'.peaks_of_records (congrArg Config.lgK hcfg')
      (Holding.records_absorb hk.sound hrec hne) fun _ => Nat.le_refl _
    rw [Action.change, outcome_of_ok hs'] at hq
    cases hq'.symm.trans hq
    rw [hcfg] at hm ho ⊢
    exact (ht.spans_append hm).ends_absorb ho fun d hd =>
      ⟨hne d hd, value_le_peak (List.mem_append_right _ hd)⟩
  | reset =>
    refine (ends_reset ht.writable).mono (fun _ u _ hu => hu.aligned) ?_
    rintro f u - ⟨rfl, hscant⟩
    exact ⟨ht.writable, .kept ht.aligned.legible fun _ =>
      .inl (Nat.lt_of_lt_of_le hscant (Footprint.list_le_most _))⟩

/-! ## Runs that do not run out -/

/-- As registers rise from those of `s` to those of `t`, there is room at any time for those that
are far above the least that `s` had. -/
def Suffices (s t : Sketch) : Prop :=
  ∃ m p q, s.peaks s.config.lgK = .ok p ∧ t.peaks s.config.lgK = .ok q ∧
    (∀ i, i < s.config.k → m ≤ p i) ∧ tall s.config.k m q ≤ Footprint.reserved s.config

/-- Every step of a run has room for its exceptions. -/
def Modest : List Action → Sketch → Prop
  | [], _ => True
  | a :: as, s => s.Suffices (outcome a.change s).2 ∧ Modest as (outcome a.change s).2

/-- **Coupons make a modest run** where there is room for all that end up as exceptions. -/
theorem Owns.modest (hs : s.Owns h) (hr : h.Records s.config.lgK cs) {ds : List Coupon}
    (hds : ∀ d ∈ ds, d ≠ .empty)
    (hroom : tall s.config.k 0 (peak s.config.lgK (cs ++ ds)) ≤ Footprint.reserved s.config) :
    Modest (ds.map .insert) s := by
  induction ds generalizing s h cs with
  | nil => trivial
  | cons d ds ih =>
    obtain ⟨hd, hds⟩ := List.forall_mem_cons.1 hds
    obtain ⟨t, ht, hcfg, howns⟩ := hs.insert d
    have hrec := Holding.records_insert hs.sound hd hr
    have hrec' : (h.insert s.config.lgK d).Records t.config.lgK (cs ++ [d]) := by
      rw [hcfg]
      exact hrec
    have hnext : (outcome (Action.insert d).change s).2 = t := by
      rw [Action.change, outcome_of_ok ht]
    rw [List.append_cons] at hroom
    rw [List.map_cons, Modest, hnext]
    refine ⟨⟨0, _, _, hs.peaks_of_records rfl hr fun _ => Nat.le_refl _,
      howns.peaks_of_records (congrArg Config.lgK hcfg) hrec fun _ => Nat.le_refl _,
      fun _ _ => Nat.zero_le _, ?_⟩, ih howns hrec' hds ?_⟩
    · exact (Registers.tall_mono fun i =>
        (Nat.le_max_left ..).trans_eq peak_append.symm).trans hroom
    · rw [hcfg]
      exact hroom

theorem Stalls.kind {f : Fault} (ht : Stalls m v f t)
    (hroom : Footprint.most t.config ≤ t.region.size)
    (hm : t.config.width = .four → tall t.config.k m v ≤ Footprint.reserved t.config) :
    f.report.kind ≠ .insufficientCapacity := by
  intro hkind
  have hscant : t.region.size < Footprint.most t.config ∨ t.config.width = .four ∧
      t.region.size < Footprint.dense t.config (tall t.config.k m v) := by
    cases ht.fails with
    | kept _ h => exact h hkind
    | torn _ _ _ hw h => exact .inr ⟨hw, h⟩
  obtain hlt | ⟨hw, hlt⟩ := hscant
  · exact absurd hlt (Nat.not_lt.2 hroom)
  · have hle := Footprint.dense_le_most_iff.2 fun hover => Nat.not_lt.2 (hm hw) hover.2
    exact absurd hlt (Nat.not_lt.2 (hle.trans hroom))

section Runs

variable {as : List Action}

/-- **A step that has room for its exceptions** does not run out of lent bytes. -/
theorem Mirrors.step_kind (hst : Mirrors s t) (hs : s.region.backing = .owned)
    (ht : t.region.backing = .lent) (hroom : Footprint.most t.config ≤ t.region.size) {a : Action}
    (ha : a.Proper) (hsuf : s.config.width = .four → s.Suffices (outcome a.change s).2) :
    ∀ f, (outcome a.change t).1 = .error f → f.report.kind ≠ .insufficientCapacity := by
  obtain ⟨m, q, hends, htall⟩ : ∃ m q, Ends Tenure a.change t (fun _ => Aligned) (Stalls m q) ∧
      (s.config.width = .four → tall s.config.k m q ≤ Footprint.reserved s.config) := by
    by_cases hw : s.config.width = .four
    · obtain ⟨m, p, q, hp, hq, hm, hle⟩ := hsuf hw
      exact ⟨m, q, hst.ends_change hs ha hp hq hm, fun _ => hle⟩
    · obtain ⟨-, h, hk, -⟩ := id hst
      have howns : s.Owns h := ⟨hk, hs⟩
      obtain ⟨-, h', howns'⟩ := howns.run [a]
      exact ⟨0, _, hst.ends_change hs ha (howns.peaks_eq _) (howns'.peaks_eq _)
        fun _ _ => Nat.zero_le _, fun hfour => absurd hfour hw⟩
  rw [hst.1] at htall
  intro f hf
  cases hx : a.change t with
  | ok _ u =>
    rw [outcome_of_ok hx] at hf
    cases hf
  | error g u =>
    rw [outcome_of_error hx] at hf
    cases hf
    obtain ⟨htenure, hstalls⟩ := hends.error f u hx
    refine hstalls.kind ?_ ?_
    · rw [htenure.config, htenure.region.size ht]
      exact hroom
    · rw [htenure.config]
      exact htall

/-- **A modest run does not run out of lent bytes.** -/
theorem Mirrors.run_kind (hst : Mirrors s t) (hs : s.region.backing = .owned)
    (ht : t.region.backing = .lent) (hroom : Footprint.most t.config ≤ t.region.size)
    (has : ∀ a ∈ as, a.Proper) (hmod : s.config.width = .four → s.Modest as) :
    ∀ f, .error f ∈ (Sketch.run as t).1 → f.report.kind ≠ .insufficientCapacity := by
  induction as generalizing s t with
  | nil => exact fun f hf => absurd hf List.not_mem_nil
  | cons a as ih =>
    obtain ⟨ha, has⟩ := List.forall_mem_cons.1 has
    have hkind := hst.step_kind hs ht hroom ha fun hw => (hmod hw).1
    obtain ⟨-, hnext, howned⟩ := hst.step hs a hkind
    obtain ⟨-, h, -, hk⟩ := id hst
    obtain ⟨htenure, -⟩ := hk.aligned.step a
    have hcfg : (outcome a.change s).2.config = s.config := by
      rw [hnext.1, htenure.config, hst.1]
    have hrest := ih hnext howned (htenure.region.backing.trans ht)
      (by rwa [htenure.config, htenure.region.size ht]) has fun hw => (hmod (hcfg ▸ hw)).2
    intro f hf
    change .error f ∈ (outcome a.change t).1 :: (Sketch.run as (outcome a.change t).2).1 at hf
    rcases List.mem_cons.1 hf with hfirst | hlater
    · exact hkind f hfirst.symm
    · exact hrest f hlater

theorem Mirrors.run_tenure (hst : Mirrors s t) (hs : s.region.backing = .owned)
    (hkind : ∀ f, .error f ∈ (Sketch.run as t).1 → f.report.kind ≠ .insufficientCapacity) :
    t.Tenure (Sketch.run as t).2 := by
  induction as generalizing s t with
  | nil => exact Std.Refl.refl t
  | cons a as ih =>
    obtain ⟨-, hnext, howned⟩ := hst.step hs a fun f hf => hkind f (hf ▸ List.mem_cons_self)
    obtain ⟨-, h, -, hk⟩ := id hst
    obtain ⟨htenure, -⟩ := hk.aligned.step a
    exact IsTrans.trans _ _ _ htenure (ih hnext howned fun f hf =>
      hkind f (List.mem_cons_of_mem _ hf))

end Runs

/-- **When the bytes asked for are enough.** A sketch that owns its image goes through any coupons,
merges and resets. Its image is then larger than what is asked for exactly if four-bit registers
have more exceptions than there is room for. Another starts in lent bytes, as many as are asked for
or more, and goes through the same. If registers are not four bits wide, or if every step has room
for its exceptions, no change fails for want of room, and both images have the same size; if the
image that is owned has become larger than the lent bytes, some change over these has failed. -/
theorem most_suffices (cfg : Config) {as : List Action} (has : ∀ a ∈ as, a.Proper) :
    ((run as (new cfg)).2.updatableSize ≤ Footprint.most cfg ↔ ¬ (run as (new cfg)).2.Overflows) ∧
    ∀ lent : ByteArray, Footprint.most cfg ≤ lent.size →
      ∃ t, buildIn cfg.lgK cfg.width lent = .ok t ∧
        ((cfg.width = .four → Modest as (new cfg)) →
          (∀ f, .error f ∈ (run as t).1 → f.report.kind ≠ .insufficientCapacity) ∧
            (run as t).2.updatableSize = (run as (new cfg)).2.updatableSize) ∧
        (lent.size < (run as (new cfg)).2.updatableSize →
          ∃ f, .error f ∈ (run as t).1 ∧ f.report.kind = .insufficientCapacity) := by
  have howns := Owns.new cfg
  refine ⟨?_, fun lent hlent => ?_⟩
  · obtain ⟨htenure, h, hlast⟩ := howns.run as
    have hsize := hlast.updatableSize_le_most
    rwa [htenure.config] at hsize
  obtain ⟨t, hbuild, hsize, hborrows⟩ := borrows_buildIn hlent
  have hst := hborrows.mirrors howns.toKeeps
  refine ⟨t, hbuild, fun hmod => ?_, fun hlt => ?_⟩
  · have hroom : Footprint.most t.config ≤ t.region.size := by
      rw [hborrows.config, hsize]
      exact hlent
    have hkind := hst.run_kind howns.owned hborrows.lent hroom has hmod
    obtain ⟨-, hlast⟩ := hst.run howns.owned as hkind
    exact ⟨hkind, hlast.interchangeable.updatableSize.symm⟩
  · by_contra hnone
    have hkind : ∀ f, .error f ∈ (run as t).1 → f.report.kind ≠ .insufficientCapacity :=
      fun f hf hk => hnone ⟨f, hf, hk⟩
    obtain ⟨-, hlast⟩ := hst.run howns.owned as hkind
    have hsame := (hst.run_tenure howns.owned hkind).region.size hborrows.lent
    obtain ⟨-, h, -, ht⟩ := id hlast
    have hle := ht.updatableSize_le
    rw [← hlast.interchangeable.updatableSize, hsame, hsize] at hle
    exact absurd hlt (Nat.not_lt.2 hle)

/-- There is room for the four exceptions of eight coupons, which make registers of a list. -/
theorem most_suffices_crowd :
    let as : List Action := crowd.map .insert
    (∀ a ∈ as, a.Proper) ∧ Modest as (new narrow.config) ∧
      (run as (new narrow.config)).2.mode = .dense ∧
      ∃ t, buildIn 4 .four ⟨Array.replicate 64 0⟩ = .ok t ∧
        (∀ f, .error f ∈ (run as t).1 → f.report.kind ≠ .insufficientCapacity) ∧
        (run as t).2.updatableSize = (run as (new narrow.config)).2.updatableSize := by
  intro as
  have hpos : ∀ c ∈ crowd, 0 < c.value := by decide
  have has : ∀ a ∈ as, a.Proper := fun a ha => by
    obtain ⟨c, hc, rfl⟩ := List.mem_map.1 ha
    exact hpos c hc
  have hrec : (Holding.list [] 0).Records 4 [] := rfl
  have hmod : Modest as (new narrow.config) := (Owns.new narrow.config).modest hrec
    (fun c hc => Coupon.ne_empty (hpos c hc)) (by decide : tall 16 0 (peak 4 ([] ++ crowd)) ≤ 4)
  obtain ⟨-, hlent⟩ := most_suffices narrow.config has
  obtain ⟨t, ht, hroom, -⟩ := hlent ⟨Array.replicate 64 0⟩ (by decide)
  exact ⟨has, hmod, by decide +kernel, t, ht, hroom fun _ => hmod⟩

/-- **A run that overflows**: a sketch that owns its image ends with five exceptions, where there is
room for four in the bytes asked for, and one in as many lent bytes fails for want of room. -/
theorem throng_overflows :
    ∃ s, insertAll throng (new narrow.config) = .ok () s ∧ s.Reachable ∧
      Footprint.most s.config = 64 ∧ s.updatableSize = 68 ∧
      .error (.outOfRoom 68 64) ∈ (run (throng.map .insert) narrow).1 := by
  have hpos : ∀ c ∈ throng, 0 < c.value := by decide
  have hsize : (outcome (insertAll throng) (new narrow.config)).2.updatableSize = 68 := by
    decide +kernel
  have hfails : .error (.outOfRoom 68 64) ∈ (run (throng.map .insert) narrow).1 := by
    decide +kernel
  obtain ⟨s, hs, hcfg, -⟩ := (Owns.new narrow.config).insertAll throng
  rw [outcome_of_ok hs] at hsize
  refine ⟨s, hs, (Reachable.new _).insertAll hpos hs, ?_, hsize, hfails⟩
  rw [hcfg]
  decide

end Sketch

end HyperLogLog
