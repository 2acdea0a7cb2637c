import HyperLogLog.Proofs.Observations
import HyperLogLog.Proofs.Order
import HyperLogLog.Proofs.Widths

/-!
# The union of two sketches, either way round

A union starts from a copy of the first sketch, which takes in the coupons of the second. A dense
sketch hands out its registers as coupons, of which there may be fewer than there were coupons that
raised them. So a list or a table that takes them in may stay what it is.

* `Holding.Gathers`: what a sketch holds that coupons led to, its history left aside;
* `Keeps.alike_of_gathers`: sketches of one mode that have gathered the same are alike;
* `Sketch.Unites`: what the union of two sketches is, its registers and its mode;
* `Owns.unites`: the union of two sketches succeeds, and is that;
* `Keeps.unions_alike`: two unions of one mode are alike;
* **`union_commutes`**: the two unions of two sketches stand for the larger of each two registers,
  and they are equal exactly if both or neither of the sketches is dense or the coupons of both are
  enough to make registers;
* `union_one_sided`: a list that takes in registers and stays a list.
-/

namespace HyperLogLog

open Registers (Dense)

/-! ## What is held after a union -/

namespace Holding

variable {lgK : Nat} {cs ds : List Coupon} {h h' : Holding}

theorem offer_self (lgK : Nat) (h : Holding) : h.offer lgK lgK = h.coupons lgK := by
  cases h with
  | list cs n => rfl
  | table L slots n => rfl
  | dense g => exact if_neg (Nat.lt_irrefl lgK)

/-- What a sketch holds that has gathered coupons. Nothing is said of its history. -/
structure Gathers (lgK : Nat) (cs : List Coupon) (h : Holding) : Prop where
  sound : h.Sound lgK
  regular : h.Regular lgK 8
  records : h.Records lgK cs
  mode : h.mode = stage lgK cs.toFinset.card

theorem mode_forget (h : Holding) : h.forget.mode = h.mode := by
  cases h <;> rfl

theorem Follows.absorb (hf : Follows lgK cs h) (hk : lgK ≤ 21) (hds : ∀ d ∈ ds, d ≠ .empty) :
    Gathers lgK (cs ++ ds) (h.absorb lgK ds) := by
  unfold Holding.absorb
  split_ifs with hnil
  · subst hnil
    rw [List.append_nil]
    exact ⟨hf.sound, hf.regular, hf.records, hf.mode⟩
  · have hf' := hf.foldl_insert hk hds
    exact ⟨sound_forget hf'.sound, regular_forget hf'.regular, records_forget hf'.records,
      (mode_forget _).trans hf'.mode⟩

theorem Gathers.follows (hg : Gathers lgK cs h) (hm : h.mode ≠ .dense) : Follows lgK cs h := by
  refine ⟨hg.sound, hg.regular, hg.records, ?_, hg.mode⟩
  cases h with
  | list ds n => trivial
  | table L slots n => trivial
  | dense g => exact absurd rfl hm

theorem Follows.mem_coupons (hf : Follows lgK cs h) (hm : h.mode ≠ .dense) (c : Coupon) :
    c ∈ h.coupons lgK ↔ c ∈ cs := by
  have hrec := hf.records
  cases h with
  | list ds n =>
    have hds : ds = cs.eraseDups := hrec
    rw [coupons, hds, List.mem_eraseDups]
  | table L slots n => exact hrec c
  | dense g => exact absurd rfl hm

theorem stage_dense_of_le {d e : Nat} (hd : stage lgK d = .dense) (hle : d ≤ e) :
    stage lgK e = .dense := by
  induction e, hle using Nat.le_induction with
  | base => exact hd
  | succ e _ ih => exact stage_dense_succ ih

/-- A sketch is dense after it has taken in the coupons of another if it was before, or if the
coupons of both are enough. -/
theorem Follows.mode_absorb (hf : Follows lgK cs h) (hk : lgK ≤ 21) (hs' : h'.Sound lgK) :
    (h.absorb lgK (h'.coupons lgK)).mode =
      if h.mode = .dense then .dense
      else stage lgK (h.coupons lgK ++ h'.coupons lgK).toFinset.card := by
  rw [(hf.absorb hk (ne_empty_coupons hs')).mode]
  split_ifs with hm
  · refine stage_dense_of_le (hf.mode.symm.trans hm) (Finset.card_le_card fun c hc => ?_)
    rw [List.mem_toFinset] at hc ⊢
    exact List.mem_append_left _ hc
  · congr 2
    ext c
    rw [List.mem_toFinset, List.mem_toFinset, List.mem_append, List.mem_append,
      hf.mem_coupons hm]

end Holding

namespace Sketch

open Holding (Gathers Follows stage)

variable {s t : Sketch} {h h' : Holding} {cs ds : List Coupon}

theorem mode_eq_of_sameAs (hst : s.sameAs t = true) : s.mode = t.mode := by
  unfold sameAs at hst
  exact of_decide_eq_true (Bool.and_eq_true_iff.1 (Bool.and_eq_true_iff.1 hst).1).2

theorem sameAs_of_mode_ne (hst : s.mode ≠ t.mode) : s.sameAs t = false :=
  Bool.eq_false_iff.2 fun hsame => hst (mode_eq_of_sameAs hsame)

theorem Keeps.alike_of_values {g g' : Registry} (hs : s.Keeps (.dense g)) (ht : t.Keeps (.dense g'))
    (hcfg : s.config = t.config) (hg : g.Exact s.config.lgK) (hg' : g'.Exact s.config.lgK)
    (hv : ∀ i, i < 2 ^ s.config.lgK → g.values i = g'.values i) :
    s.sameAs t = true ∧ s.composite = t.composite := by
  refine ⟨hs.sameAs_of_perm ht hcfg rfl (.of_eq (hcfg ▸ risen_congr hv)), ?_⟩
  have hd : Dense s.config g s.region := hs.image
  have hd' : Dense s.config g' t.region := hcfg ▸ ht.image
  obtain ⟨hlow, hhigh⟩ := hg.sums_congr hg' hv
  rw [composite, composite, hs.mode, ht.mode, ← hcfg]
  refine hd.composite_eq.trans (Eq.trans ?_ hd'.composite_eq.symm)
  rw [Estimator.composite_congr hlow hhigh, level_congr fun i hi => by rw [hv i hi]]

/-- **Sketches of one mode that have gathered the same are alike.** Lists and tables must have
gathered the same coupons, dense sketches coupons of the same peaks. -/
theorem Keeps.alike_of_gathers {lgK : Nat} (hs : s.Keeps h) (ht : t.Keeps h')
    (hcfg : s.config = t.config) (hk : s.config.lgK = lgK) (hg : Gathers lgK cs h)
    (hg' : Gathers lgK ds h') (hmode : h.mode = h'.mode)
    (hmem : h.mode ≠ .dense → ∀ c, c ∈ cs ↔ c ∈ ds) (hpeak : ∀ i, peak lgK cs i = peak lgK ds i) :
    s.sameAs t = true ∧ s.composite = t.composite := by
  subst hk
  by_cases hm : h.mode = .dense
  · cases h with
    | dense g =>
      cases h' with
      | dense g' =>
        exact hs.alike_of_values ht hcfg hg.regular hg'.regular fun i hi => by
          rw [hg.records i hi, hg'.records i hi, hpeak]
      | _ => cases hmode
    | _ => cases hm
  · have ha := (hg.follows hm).agree (hg'.follows (hmode ▸ hm)) (hmem hm)
    exact ⟨hs.sameAs_of_agree ht hcfg ha, hs.composite_of_agree ht hcfg ha⟩

/-! ## Unions -/

theorem after_of_ok {x : Change Unit} (hx : x s = .ok () t) : after x s = .ok t := by
  rw [after, hx]

/-- **The union of two sketches** of one size: the first takes in the coupons of the second. -/
theorem Owns.union_eq (hs : s.Owns h) (ht : t.Owns h') (hk : s.config.lgK = t.config.lgK) :
    ∃ u, s.union t = .ok u ∧ u.config = s.config ∧
      u.Owns (h.absorb s.config.lgK (h'.coupons s.config.lgK)) := by
  obtain ⟨s', hcopy, hcfg, hs', -⟩ := hs.ofBytes_image
  have hoffer : t.offered s'.config.lgK = .ok (h'.coupons s.config.lgK) := by
    rw [hcfg, ht.offered_eq fun hlt => by omega, hk, Holding.offer_self]
  obtain ⟨u, hu, hcfg', howns⟩ := hs'.absorb_of_ok hoffer
  rw [hcfg] at howns
  refine ⟨u, ?_, hcfg'.trans hcfg, howns⟩
  unfold union copy
  rw [hcopy]
  exact after_of_ok hu

theorem Owns.peaks_union {u : Sketch} {lgK : Nat} (hk : lgK ≤ 26) (hh : h.Sound lgK)
    (hh' : h'.Sound lgK) (hcfg : u.config.lgK = lgK)
    (hu : u.Owns (h.absorb lgK (h'.coupons lgK))) :
    u.peaks lgK = .ok fun i => max (peak lgK (h.coupons lgK) i) (peak lgK (h'.coupons lgK) i) := by
  rw [hu.peaks_eq, hcfg]
  refine congrArg Except.ok (funext fun i => ?_)
  rw [← peak_coupons_absorb hk hh hh' i, Holding.offer_self]

/-- What the union `u` of the sketches `s` and `t` is, which are set up as `cfg` says. Each register
is the larger of theirs. It is dense if `s` is, and otherwise if the coupons of both are enough to
make registers, those of a dense sketch being its registers. -/
structure Unites (cfg : Config) (s t u : Sketch) : Prop where
  union : s.union t = .ok u
  config : u.config = cfg
  peaks : ∃ p q, s.peaks cfg.lgK = .ok p ∧ t.peaks cfg.lgK = .ok q ∧
    u.peaks cfg.lgK = .ok fun i => max (p i) (q i)
  mode : ∃ as bs, s.coupons = .ok as ∧ t.coupons = .ok bs ∧
    u.mode = if s.mode = .dense then .dense else stage cfg.lgK (as ++ bs).toFinset.card

theorem Owns.unites {cfg : Config} (hs : s.Owns h) (ht : t.Owns h') (hscfg : s.config = cfg)
    (htcfg : t.config = cfg) (hf : Follows cfg.lgK cs h) :
    ∃ u, Unites cfg s t u ∧ u.Owns (h.absorb cfg.lgK (h'.coupons cfg.lgK)) := by
  subst hscfg
  have hk := s.config.le_twentyOne
  have hsound : h'.Sound s.config.lgK := htcfg ▸ ht.sound
  obtain ⟨u, hu, hcfg, howns⟩ := hs.union_eq ht (by rw [htcfg])
  refine ⟨u, ⟨hu, hcfg, ⟨_, _, hs.peaks_eq _, ht.peaks_eq _, ?_⟩,
    _, _, hs.coupons_eq, ht.coupons_eq, ?_⟩, howns⟩
  · rw [htcfg]
    exact howns.peaks_union (Nat.le_trans hk (by decide)) hf.sound hsound (by rw [hcfg])
  · rw [howns.mode, hs.mode, htcfg]
    exact hf.mode_absorb hk hsound

namespace Unites

variable {cfg : Config} {u v : Sketch} {as bs : List Coupon}

theorem mode_eq (hu : Unites cfg s t u) (has : s.coupons = .ok as) (hbs : t.coupons = .ok bs) :
    u.mode = if s.mode = .dense then .dense else stage cfg.lgK (as ++ bs).toFinset.card := by
  obtain ⟨as', bs', has', hbs', hmode⟩ := hu.mode
  cases has'.symm.trans has
  cases hbs'.symm.trans hbs
  exact hmode

theorem peaks_eq (hu : Unites cfg s t u) (hv : Unites cfg t s v) :
    u.peaks cfg.lgK = v.peaks cfg.lgK := by
  obtain ⟨p, q, hp, hq, hmax⟩ := hu.peaks
  obtain ⟨q', p', hq', hp', hmax'⟩ := hv.peaks
  cases hp'.symm.trans hp
  cases hq'.symm.trans hq
  rw [hmax, hmax']
  exact congrArg Except.ok (funext fun i => max_comm _ _)

theorem mode_eq_iff (hu : Unites cfg s t u) (hv : Unites cfg t s v) (has : s.coupons = .ok as)
    (hbs : t.coupons = .ok bs) :
    u.mode = v.mode ↔ (s.mode = .dense ↔ t.mode = .dense) ∨
      stage cfg.lgK (as ++ bs).toFinset.card = .dense := by
  rw [hu.mode_eq has hbs, hv.mode_eq hbs has, List.toFinset_append, List.toFinset_append,
    Finset.union_comm bs.toFinset]
  by_cases hs : s.mode = .dense <;> by_cases ht : t.mode = .dense <;> simp [hs, ht, eq_comm]

/-- Unions in two modes are of one dense sketch, and the one that starts from the other stays
sparse. -/
theorem one_sided (hu : Unites cfg s t u) (hv : Unites cfg t s v) (hmode : u.mode ≠ v.mode) :
    s.mode ≠ .dense ∧ u.mode ≠ .dense ∧ t.mode = .dense ∧ v.mode = .dense ∨
      t.mode ≠ .dense ∧ v.mode ≠ .dense ∧ s.mode = .dense ∧ u.mode = .dense := by
  obtain ⟨as, bs, has, hbs, hmodeu⟩ := hu.mode
  have hmodev := hv.mode_eq hbs has
  by_cases hs : s.mode = .dense
  · rw [if_pos hs] at hmodeu
    rw [hmodeu] at hmode
    refine .inr ⟨fun ht => hmode ?_, hmode.symm, hs, hmodeu⟩
    rw [hmodev, if_pos ht]
  · by_cases ht : t.mode = .dense
    · rw [if_pos ht] at hmodev
      rw [hmodev] at hmode
      exact .inl ⟨hs, hmode, ht, hmodev⟩
    · exact absurd ((hu.mode_eq_iff hv has hbs).2 (.inl (iff_of_false hs ht))) hmode

end Unites

/-- **Two unions of one mode are alike**: both have gathered the coupons of both sketches, be it
with registers in the place of coupons. -/
theorem Keeps.unions_alike {cfg : Config} {u v : Sketch}
    (hu : u.Keeps (h.absorb cfg.lgK (h'.coupons cfg.lgK))) (hf : Follows cfg.lgK cs h)
    (hf' : Follows cfg.lgK ds h') (hv : v.Keeps (h'.absorb cfg.lgK (h.coupons cfg.lgK)))
    (hucfg : u.config = cfg) (hvcfg : v.config = cfg) (huv : u.mode = v.mode) :
    u.sameAs v = true ∧ u.composite = v.composite := by
  have hk := cfg.le_twentyOne
  have hk' : cfg.lgK ≤ 26 := Nat.le_trans hk (by decide)
  rw [hu.mode, hv.mode] at huv
  have hpeak : ∀ i, peak cfg.lgK (cs ++ h'.coupons cfg.lgK) i =
      peak cfg.lgK (ds ++ h.coupons cfg.lgK) i := fun i => by
    rw [peak_append, peak_append, hf.records.peak_coupons hk' (fun _ => Nat.le_refl _),
      hf'.records.peak_coupons hk' (fun _ => Nat.le_refl _), max_comm]
  refine hu.alike_of_gathers hv (hucfg.trans hvcfg.symm) (by rw [hucfg])
    (hf.absorb hk (Holding.ne_empty_coupons hf'.sound))
    (hf'.absorb hk (Holding.ne_empty_coupons hf.sound)) huv (fun hm c => ?_) hpeak
  have hm₁ : h.mode ≠ .dense := fun hd =>
    hm (by rw [hf.mode_absorb hk hf'.sound, if_pos hd])
  have hm₂ : h'.mode ≠ .dense := fun hd =>
    hm (by rw [huv, hf'.mode_absorb hk hf.sound, if_pos hd])
  rw [List.mem_append, List.mem_append, hf.mem_coupons hm₁, hf'.mem_coupons hm₂, or_comm]

/-- **The union of two sketches does not depend on which is first**, but for the representation.
Let `s` and `t` be two sketches that are set up alike, whatever coupons they have taken in. Both
unions succeed and stand for the same registers, each the larger of theirs. They are equal, and then
agree in what the registers alone say, exactly if both sketches are dense, or neither is, or the
coupons of both are enough to make registers, those of a dense sketch being its registers. Otherwise
one sketch is dense and the other is not, and the union that starts from the other stays sparse. -/
theorem union_commutes (cfg : Config) (hcs : ∀ c ∈ cs, 0 < c.value) (hds : ∀ d ∈ ds, 0 < d.value) :
    ∃ s t u v as bs, insertAll cs (new cfg) = .ok () s ∧ insertAll ds (new cfg) = .ok () t ∧
      s.coupons = .ok as ∧ t.coupons = .ok bs ∧ Unites cfg s t u ∧ Unites cfg t s v ∧
      u.peaks cfg.lgK = v.peaks cfg.lgK ∧
      (u.sameAs v = true ↔ (s.mode = .dense ↔ t.mode = .dense) ∨
        stage cfg.lgK (as ++ bs).toFinset.card = .dense) ∧
      (u.sameAs v = true → u.composite = v.composite) ∧
      (u.sameAs v = false →
        s.mode ≠ .dense ∧ u.mode ≠ .dense ∧ t.mode = .dense ∧ v.mode = .dense ∨
          t.mode ≠ .dense ∧ v.mode ≠ .dense ∧ s.mode = .dense ∧ u.mode = .dense) := by
  have hk := cfg.le_twentyOne
  obtain ⟨s, hruns, hscfg, hs⟩ := (Owns.new cfg).insertAll cs
  obtain ⟨t, hrunt, htcfg, ht⟩ := (Owns.new cfg).insertAll ds
  have hf := Holding.follows_run hk fun c hc => Coupon.ne_empty (hcs c hc)
  have hf' := Holding.follows_run hk fun d hd => Coupon.ne_empty (hds d hd)
  obtain ⟨u, hu, howns⟩ := hs.unites ht hscfg htcfg hf
  obtain ⟨v, hv, howns'⟩ := ht.unites hs htcfg hscfg hf'
  have halike := howns.toKeeps.unions_alike hf hf' howns'.toKeeps hu.config hv.config
  have hiff : u.sameAs v = true ↔ u.mode = v.mode :=
    ⟨mode_eq_of_sameAs, fun huv => (halike huv).1⟩
  refine ⟨s, t, u, v, _, _, hruns, hrunt, hs.coupons_eq, ht.coupons_eq, hu, hv, hu.peaks_eq hv,
    hiff.trans (hu.mode_eq_iff hv hs.coupons_eq ht.coupons_eq),
    fun hsame => (halike (mode_eq_of_sameAs hsame)).2, fun hdiffer => hu.one_sided hv fun huv => ?_⟩
  rw [hiff.2 huv] at hdiffer
  cases hdiffer

/-- A list of two coupons, and four registers that eight coupons have made: one union stays a list,
and both stand for the larger of each two registers. -/
theorem union_commutes_mixed :
    let cfg : Config := ⟨4, .six, by decide, by decide⟩
    let cs : List Coupon := [.pack 3 5, .pack 4 1]
    let ds : List Coupon := (List.range 8).map fun i => .pack (4 * i) (1 + i % 2)
    (∀ c ∈ cs, 0 < c.value) ∧ (∀ d ∈ ds, 0 < d.value) ∧
      ∃ s t u v, insertAll cs (new cfg) = .ok () s ∧ insertAll ds (new cfg) = .ok () t ∧
        s.union t = .ok u ∧ t.union s = .ok v ∧ u.mode = .list ∧ v.mode = .dense ∧
        u.sameAs v = false ∧ ∃ p, u.peaks 4 = .ok p ∧ v.peaks 4 = .ok p ∧
          p 3 = 5 ∧ p 4 = 2 ∧ p 12 = 2 ∧ p 5 = 0 := by
  intro cfg cs ds
  have hcs : ∀ c ∈ cs, 0 < c.value := by decide
  have hds : ∀ d ∈ ds, 0 < d.value := by decide
  obtain ⟨s, t, u, v, as, bs, hs, ht, has, hbs, hu, hv, hpeaks, -, -, -⟩ :=
    union_commutes cfg hcs hds
  have hdense : (outcome (insertAll ds) (new cfg)).2.mode = .dense := by decide +kernel
  have hlist : ((outcome (insertAll cs) (new cfg)).2.union
      (outcome (insertAll ds) (new cfg)).2).map Sketch.mode = .ok .list := by decide +kernel
  rw [outcome_of_ok ht] at hdense
  rw [outcome_of_ok hs, outcome_of_ok ht, hu.union] at hlist
  have hulist : u.mode = .list := Except.ok.inj hlist
  have hvdense : v.mode = .dense := (hv.mode_eq hbs has).trans (if_pos hdense)
  have hdiffer : u.sameAs v = false := sameAs_of_mode_ne (by rw [hulist, hvdense]; decide)
  -- the registers of either sketch are the peaks of its coupons
  obtain ⟨p, q, hp, hq, hmax⟩ := hu.peaks
  obtain ⟨s', hs', hcsp⟩ := peaks_insertAll (j := 4) cfg hcs
  obtain ⟨t', ht', hdsq⟩ := peaks_insertAll (j := 4) cfg hds
  cases hs'.symm.trans hs
  cases ht'.symm.trans ht
  cases (hcsp fun _ => Nat.le_refl 4).symm.trans hp
  cases (hdsq fun _ => Nat.le_refl 4).symm.trans hq
  exact ⟨hcs, hds, s, t, u, v, hs, ht, hu.union, hv.union, hulist, hvdense, hdiffer, _, hmax,
    hpeaks.symm.trans hmax, by decide, by decide, by decide, by decide⟩

/-- Eight coupons that fall on one of 16 registers. -/
def colliding : List Coupon := (List.range 8).map fun i => .pack (16 * i) 1

/-- **A list that takes in a single register stays a list**, while the registers that take in the
list stay registers. -/
theorem union_one_sided :
    let cfg : Config := ⟨4, .four, by decide, by decide⟩
    (∀ c ∈ colliding, 0 < c.value) ∧
      ∃ t u v, insertAll colliding (new cfg) = .ok () t ∧ (new cfg).union t = .ok u ∧
        t.union (new cfg) = .ok v ∧ u.sameAs v = false := by
  intro cfg
  have ht := eq_ok_of_outcome
    (show (outcome (insertAll colliding) (new cfg)).1 = .ok () by decide +kernel)
  have hlist : ((new cfg).union (outcome (insertAll colliding) (new cfg)).2).map Sketch.mode =
      .ok .list := by decide +kernel
  have hdense : ((outcome (insertAll colliding) (new cfg)).2.union (new cfg)).map Sketch.mode =
      .ok .dense := by decide +kernel
  obtain ⟨u, hu, hmode⟩ := Except.map_eq_ok hlist
  obtain ⟨v, hv, hmode'⟩ := Except.map_eq_ok hdense
  refine ⟨by decide, _, u, v, ht, hu, hv, sameAs_of_mode_ne ?_⟩
  rw [hmode, hmode']
  decide

end Sketch

end HyperLogLog
