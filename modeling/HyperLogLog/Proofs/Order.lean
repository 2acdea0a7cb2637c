import HyperLogLog.Proofs.Evolved

/-!
# The order of coupons does not show

Two new sketches that have taken in the same coupons, in any order and as often as may be, hold the
same. What they tell apart is the running total of registers, and the places of coupons in lists
and tables.

* `Keeps.sameAs_of_perm`: sketches of one configuration and mode that hold the same coupons are
  equal;
* `Fresh.follows`: a new sketch follows the coupons that it takes in;
* **`insertAll_order`**: sketches that have taken in the same coupons agree.
-/

namespace HyperLogLog

open Registers (Dense)

/-! ## Sketches that hold the same coupons -/

theorem Coupon.mergeSort_eq {cs ds : List Coupon} (h : cs.Perm ds) :
    cs.mergeSort (·.word ≤ ·.word) = ds.mergeSort (·.word ≤ ·.word) := by
  have htrans : ∀ a b c : Coupon, decide (a.word ≤ b.word) = true →
      decide (b.word ≤ c.word) = true → decide (a.word ≤ c.word) = true := fun a b c hab hbc =>
    decide_eq_true (UInt32.le_trans (of_decide_eq_true hab) (of_decide_eq_true hbc))
  have htotal : ∀ a b : Coupon, (decide (a.word ≤ b.word) || decide (b.word ≤ a.word)) = true :=
    fun a b => by
      rcases UInt32.le_total a.word b.word with hab | hba
      · rw [decide_eq_true hab, Bool.true_or]
      · rw [decide_eq_true hba, Bool.or_true]
  have hperm := ((List.mergeSort_perm cs (·.word ≤ ·.word)).trans h).trans
    (List.mergeSort_perm ds (·.word ≤ ·.word)).symm
  refine hperm.eq_of_pairwise (fun a b _ _ hab hba => ?_) (List.pairwise_mergeSort htrans htotal cs)
    (List.pairwise_mergeSort htrans htotal ds)
  obtain ⟨a⟩ := a
  obtain ⟨b⟩ := b
  exact congrArg Coupon.mk (UInt32.le_antisymm (of_decide_eq_true hab) (of_decide_eq_true hba))

theorem risen_congr {lgK : Nat} {v w : Nat → Nat} (h : ∀ i, i < 2 ^ lgK → v i = w i) :
    risen lgK v = risen lgK w := by
  unfold risen
  have hfilter : (List.range (2 ^ lgK)).filter (fun i => v i ≠ 0) =
      (List.range (2 ^ lgK)).filter fun i => w i ≠ 0 :=
    List.filter_congr fun i hi => by rw [h i (List.mem_range.1 hi)]
  rw [hfilter]
  refine List.map_congr_left fun i hi => ?_
  rw [h i (List.mem_range.1 (List.mem_filter.1 hi).1)]

namespace Sketch

variable {s t : Sketch} {h h' : Holding}

/-- **Sketches that hold the same coupons are equal**, wherever these are. -/
theorem Keeps.sameAs_of_perm (hs : s.Keeps h) (ht : t.Keeps h') (hcfg : s.config = t.config)
    (hmode : h.mode = h'.mode)
    (hperm : (h.coupons s.config.lgK).Perm (h'.coupons t.config.lgK)) : s.sameAs t = true := by
  have hsort := Coupon.mergeSort_eq hperm
  unfold sameAs
  rw [hs.coupons_eq, ht.coupons_eq, hs.mode, ht.mode, decide_eq_true hcfg, decide_eq_true hmode,
    Bool.true_and, Bool.true_and]
  exact decide_eq_true hsort

end Sketch

/-! ## Holdings of the same coupons -/

namespace Holding

variable {lgK : Nat} {cs ds : List Coupon} {h h' : Holding}

/-- Two holdings that differ in the places of coupons and in the running total at most. -/
inductive Agree (lgK : Nat) : Holding → Holding → Prop
  | list {cs ds : List Coupon} {n : Nat} : cs.Perm ds → Agree lgK (list cs n) (list ds n)
  | table {L n : Nat} {slots slots' : Nat → Coupon} :
    (Slots.live (2 ^ L) slots).Perm (Slots.live (2 ^ L) slots') →
    Agree lgK (table L slots n) (table L slots' n)
  | dense {g g' : Registry} :
    (∀ i, i < 2 ^ lgK → g.values i = g'.values i) → g.history.lowSum = g'.history.lowSum →
    g.history.highSum = g'.history.highSum → g.history.outOfOrder = g'.history.outOfOrder →
    Agree lgK (dense g) (dense g')

theorem Agree.refl (lgK : Nat) : ∀ h : Holding, Agree lgK h h
  | .list _ _ => .list (.refl _)
  | .table _ _ _ => .table (.refl _)
  | .dense _ => .dense (fun _ _ => rfl) rfl rfl rfl

theorem Agree.mode_eq (ha : Agree lgK h h') : h.mode = h'.mode := by cases ha <;> rfl

theorem Agree.coupons_perm (ha : Agree lgK h h') : (h.coupons lgK).Perm (h'.coupons lgK) := by
  cases ha with
  | list hperm => exact hperm
  | table hperm => exact hperm
  | dense hv => exact .of_eq (risen_congr hv)

theorem Similar.agree (hsim : Similar h h') (hs : h.Sound lgK) (hs' : h'.Sound lgK) :
    Agree lgK h h' := by
  cases hsim with
  | refl => exact .refl lgK h
  | table hmem => exact .table (Similar.coupons_perm (.table hmem) hs hs')

/-- **New sketches that have taken in the same coupons agree**, whatever their order. -/
theorem Follows.agree (hf : Follows lgK cs h) (hf' : Follows lgK ds h')
    (hmem : ∀ c, c ∈ cs ↔ c ∈ ds) : Agree lgK h h' := by
  obtain ⟨hs, hr, hrec, ho, hmode⟩ := hf
  obtain ⟨hs', hr', hrec', ho', hmode'⟩ := hf'
  have hset : cs.toFinset = ds.toFinset := Finset.ext fun c => by
    rw [List.mem_toFinset, List.mem_toFinset, hmem]
  have hsame : h.mode = h'.mode := by rw [hmode, hmode', hset]
  cases h with
  | list as n =>
    cases h' with
    | table L slots m => cases hsame
    | dense g => cases hsame
    | list bs m =>
      have has : as = cs.eraseDups := hrec
      have hbs : bs = ds.eraseDups := hrec'
      obtain rfl : n = m := by rw [list_count hs hr hrec, list_count hs' hr' hrec', hset]
      refine .list ((List.perm_ext_iff_of_nodup (Listable.nodup hs) (Listable.nodup hs')).2 ?_)
      intro c
      rw [has, hbs, List.mem_eraseDups, List.mem_eraseDups, hmem]
  | table L slots n =>
    cases h' with
    | list bs m => cases hsame
    | dense g => cases hsame
    | table L' slots' m =>
      obtain rfl : n = m := by rw [table_count hs hr hrec, table_count hs' hr' hrec', hset]
      obtain rfl : L = L' := lgArr_unique hs hs' hr.2.2 hr'.2.2
      refine .table ((List.perm_ext_iff_of_nodup (Tabled.probed hs).nodup_live
        (Tabled.probed hs').nodup_live).2 fun c => ?_)
      rw [hrec c, hrec' c, hmem]
  | dense g =>
    cases h' with
    | list bs m => cases hsame
    | table L slots m => cases hsame
    | dense g' =>
      have hv : ∀ i, i < 2 ^ lgK → g.values i = g'.values i := fun i hi => by
        rw [hrec i hi, hrec' i hi]
        exact peak_congr fun c _ => hmem c
      have hg : g.Exact lgK := hr
      have hg' : g'.Exact lgK := hr'
      obtain ⟨hlow, hhigh⟩ := hg.sums_congr hg' hv
      exact .dense hv hlow hhigh (ho.trans ho'.symm)

end Holding

namespace Sketch

open Holding (Agree)

variable {cfg : Config} {s t s₀ t₀ : Sketch} {h h' : Holding} {cs ds : List Coupon}

/-! ## Sketches whose holdings agree -/

namespace Keeps

variable (hs : s.Keeps h) (ht : t.Keeps h') (hcfg : s.config = t.config)
  (ha : Agree s.config.lgK h h')

include hs ht hcfg ha

theorem sameAs_of_agree : s.sameAs t = true :=
  hs.sameAs_of_perm ht hcfg ha.mode_eq (hcfg ▸ ha.coupons_perm)

theorem composite_of_agree : s.composite = t.composite := by
  have himg := hs.image
  have himg' := ht.image
  rw [composite, composite, hs.mode, ht.mode]
  cases ha with
  | list =>
    have hl : Listed s.config _ _ s.region := himg
    have hl' : Listed t.config _ _ t.region := himg'
    exact congrArg Estimate.ofCoupons (hl.counted.trans hl'.counted.symm)
  | table =>
    have hl : Tabulated s.config _ _ _ s.region := himg
    have hl' : Tabulated t.config _ _ _ t.region := himg'
    exact congrArg Estimate.ofCoupons (hl.counted.trans hl'.counted.symm)
  | dense hv hlow hhigh ho =>
    have hd : Dense s.config _ s.region := himg
    have hd' : Dense t.config _ t.region := himg'
    have hk : s.config.k = t.config.k := congrArg Config.k hcfg
    refine hd.composite_eq.trans (Eq.trans ?_ hd'.composite_eq.symm)
    rw [Estimator.composite_congr hlow hhigh, ← hk, ← hcfg,
      level_congr fun i hi => by rw [hv i hi]]

omit hcfg in
theorem lgArr_of_agree (hm : s.mode = .set) : s.region.lgArr = t.region.lgArr := by
  have himg := hs.image
  have himg' := ht.image
  have hsound := hs.sound
  have hsound' := ht.sound
  rw [hs.mode] at hm
  cases ha with
  | list => cases hm
  | dense => cases hm
  | table =>
    have hl : Tabulated s.config _ _ _ s.region := himg
    have hl' : Tabulated t.config _ _ _ t.region := himg'
    rw [hl.headed.lgArr_eq (lgArr_lt (Holding.Tabled.most hsound)),
      hl'.headed.lgArr_eq (lgArr_lt (Holding.Tabled.most hsound'))]

/-- **Dense images differ in the running total at most.** -/
theorem image_of_agree (hm : s.mode = .dense) : s.image.size = t.image.size ∧
    ∀ j, j < 8 ∨ 16 ≤ j → Bytes.byte s.image j = Bytes.byte t.image j := by
  have himg := hs.image
  have himg' := ht.image
  have hsize := hs.imageSize_eq
  have hsize' := ht.imageSize_eq
  rw [hs.mode] at hm
  cases ha with
  | list => cases hm
  | table => cases hm
  | @dense g g' hv hlow hhigh ho =>
    have hd : Dense s.config g s.region := himg
    have hd' : Dense s.config g' t.region := hcfg ▸ himg'
    have hfoot : s.imageSize = t.imageSize := by
      rw [hsize, hsize', ← hcfg]
      exact congrArg (Footprint.dense s.config) (hd.exceptionCount_eq hd' hv)
    refine ⟨by rw [hs.size_image, ht.size_image, hfoot], fun j hj => ?_⟩
    rw [byte_image, byte_image, ← hfoot]
    split_ifs with hlt
    · exact hd.byte_eq hd' hv hlow hhigh ho (Nat.lt_of_lt_of_eq hlt hsize) fun _ _ => by omega
    · rfl

end Keeps

/-! ## New sketches -/

theorem Fresh.follows (hs : s₀.Fresh cfg) (hcs : ∀ c ∈ cs, 0 < c.value)
    (hrun : insertAll cs s₀ = .ok () s) :
    s.config = cfg ∧ ∃ h, s.Keeps h ∧ Holding.Follows cfg.lgK cs h := by
  obtain ⟨rfl, hkeeps⟩ := hs.keeps
  obtain ⟨hcfg, -, hkeeps'⟩ := (hkeeps.insertAll cs).ok s hrun
  exact ⟨hcfg, _, hkeeps', Holding.follows_run s₀.config.le_twentyOne fun c hc =>
    Coupon.ne_empty (hcs c hc)⟩

/-- **New sketches that have taken in the same coupons agree**, in whatever order the coupons came
and however often. They are in the same mode and equal; lists and tables hold the same coupons,
tables in as many slots; and images of registers are the same but for the eight bytes of the
running total. -/
theorem insertAll_order (hcs : ∀ c ∈ cs, 0 < c.value) (hmem : ∀ c, c ∈ cs ↔ c ∈ ds)
    (hs₀ : s₀.Fresh cfg) (ht₀ : t₀.Fresh cfg) :
    (∃ s, insertAll cs (new cfg) = .ok () s) ∧
    ∀ s t, insertAll cs s₀ = .ok () s → insertAll ds t₀ = .ok () t →
      s.mode = t.mode ∧
      (∃ as bs, s.coupons = .ok as ∧ t.coupons = .ok bs ∧ as.Perm bs) ∧
      (s.mode = .set → s.region.lgArr = t.region.lgArr) ∧
      (s.mode = .dense → s.image.size = t.image.size ∧
        ∀ j, j < 8 ∨ 16 ≤ j → Bytes.byte s.image j = Bytes.byte t.image j) ∧
      s.sameAs t = true ∧ s.composite = t.composite := by
  refine ⟨?_, fun s t hs ht => ?_⟩
  · obtain ⟨s, hs, -, -⟩ := (Owns.new cfg).insertAll cs
    exact ⟨s, hs⟩
  obtain ⟨hcfg, h, hs, hf⟩ := hs₀.follows hcs hs
  obtain ⟨hcfg', h', ht, hf'⟩ := ht₀.follows (fun c hc => hcs c ((hmem c).2 hc)) ht
  have hsame : s.config = t.config := hcfg.trans hcfg'.symm
  have ha : Agree s.config.lgK h h' := hcfg ▸ hf.agree hf' hmem
  refine ⟨?_, ⟨_, _, hs.coupons_eq, ht.coupons_eq, hsame ▸ ha.coupons_perm⟩,
    hs.lgArr_of_agree ht ha, hs.image_of_agree ht hsame ha,
    hs.sameAs_of_agree ht hsame ha, hs.composite_of_agree ht hsame ha⟩
  rw [hs.mode, ht.mode, ha.mode_eq]

/-- The same coupons in two orders, one of them twice. -/
theorem insertAll_order_repeated :
    let cfg : Config := ⟨4, .four, by decide, by decide⟩
    let cs : List Coupon := [.pack 5 3, .pack 70 1, .pack 5 3]
    let ds : List Coupon := [.pack 70 1, .pack 5 3]
    (∀ c ∈ cs, 0 < c.value) ∧ (∀ c, c ∈ cs ↔ c ∈ ds) ∧ Fresh cfg (new cfg) ∧
      ∃ s t, insertAll cs (new cfg) = .ok () s ∧ insertAll ds (new cfg) = .ok () t ∧
        s.sameAs t = true := by
  intro cfg cs ds
  have hcs : ∀ c ∈ cs, 0 < c.value := by decide
  have hds : ∀ c ∈ ds, 0 < c.value := by decide
  have hmem : ∀ c, c ∈ cs ↔ c ∈ ds := fun c => by
    simp only [cs, ds, List.mem_cons, List.not_mem_nil, or_false]
    tauto
  have hfresh : Fresh cfg (new cfg) := .inl rfl
  obtain ⟨⟨s, hs⟩, hall⟩ := insertAll_order hcs hmem hfresh hfresh
  obtain ⟨⟨t, ht⟩, -⟩ := insertAll_order hds (fun c => (hmem c).symm) hfresh hfresh
  obtain ⟨-, -, -, -, hsame, -⟩ := hall s t hs ht
  exact ⟨hcs, hmem, hfresh, s, t, hs, ht, hsame⟩

end Sketch

end HyperLogLog
