import HyperLogLog.Proofs.Sparse
import HyperLogLog.Sketch.Merge

/-!
# Sketches refine holdings

* `Sketch.Keeps`, `Sketch.Owns`: a sketch and the holding in its bytes, lent ones or its own;
* `Sketch.Leads`: a change leads a sketch to a holding, or lent bytes are too few;
* `Keeps.coupons_eq`: what a sketch hands out is what it holds;
* **`Keeps.insert`**, **`Keeps.reset`**, **`Keeps.absorb_of_ok`**: every change of a sketch is the
  change of its holding;
* **`Leads.total`**: a sketch that owns its image never fails to change.
-/

namespace HyperLogLog

open Registers (Dense)

namespace Holding

/-- The coupons that a target with `2 ^ j` registers takes in of a source with `2 ^ lgK`. -/
def offer (lgK j : Nat) : Holding → List Coupon
  | dense g =>
    if j < lgK then (risen lgK g.values).map (Coupon.folded j) else risen lgK g.values
  | h => h.coupons lgK

/-- A target takes in coupons of a source. Unless there are none, its history is void. -/
def absorb (lgK : Nat) (h : Holding) (cs : List Coupon) : Holding :=
  if cs = [] then h else (cs.foldl (insert lgK) h).forget

/-- **A target that takes in coupons of a source adds their observations.** -/
theorem records_absorb {lgK : Nat} {h : Holding} {cs ds : List Coupon} (hs : h.Sound lgK)
    (hr : h.Records lgK cs) (hds : ∀ d ∈ ds, d ≠ .empty) :
    (h.absorb lgK ds).Records lgK (cs ++ ds) := by
  unfold absorb
  split_ifs with hnil
  · rwa [hnil, List.append_nil]
  · exact records_forget (records_foldl_insert hs hr hds)

theorem ne_empty_offer {lgK : Nat} {h : Holding} (j : Nat) (hs : h.Sound lgK) :
    ∀ c ∈ h.offer lgK j, c ≠ .empty := by
  have hne := ne_empty_coupons hs
  cases h with
  | list cs n => exact hne
  | table L slots n => exact hne
  | dense g =>
    unfold offer
    dsimp only
    split_ifs
    · intro c hc
      obtain ⟨d, hd, rfl⟩ := List.mem_map.1 hc
      obtain ⟨i, -, hi, rfl⟩ := mem_risen.1 hd
      refine Coupon.ne_empty ?_
      rw [Coupon.folded, Coupon.value_pack_of_le _ (Coupon.value_le _),
        Coupon.value_pack_of_le _ (hs i)]
      exact Nat.pos_of_ne_zero hi
    · exact hne

/-- **What a target takes in has the observations of the source**, at the size of the target. -/
theorem peak_offer {lgK j : Nat} (h : Holding) (hj : j ≤ 26) (i : Nat) :
    peak j (h.offer lgK j) i = peak j (h.coupons lgK) i := by
  cases h with
  | list cs n => rfl
  | table L slots n => rfl
  | dense g =>
    unfold offer
    dsimp only
    split_ifs
    · exact peak_map_folded (Nat.le_refl _) hj
    · rfl

end Holding

namespace Sketch

variable {s t : Sketch} {h h' : Holding} {c : Coupon}

/-- A sketch whose bytes may be written to, and the holding in them. -/
structure Keeps (s : Sketch) (h : Holding) : Prop where
  writable : s.region.backing ≠ .frozen
  mode : s.mode = h.mode
  image : s.region.Holds s.config h
  sound : h.Sound s.config.lgK

/-- A sketch that owns its image, and the holding in it. -/
structure Owns (s : Sketch) (h : Holding) : Prop extends Keeps s h where
  owned : s.region.backing = .owned

theorem lgK_le (s : Sketch) : s.config.lgK ≤ 26 := Nat.le_trans s.config.le_twentyOne (by decide)

/-! ## Steps of changes -/

/-- From `s`, the change succeeds and leaves a sketch that keeps `h`, or it fails because lent bytes
are too few. The configuration and the owner stay the same. -/
structure Leads (x : Change Unit) (s : Sketch) (h : Holding) : Prop where
  ok : ∀ t, x s = .ok () t →
    t.config = s.config ∧ t.region.backing = s.region.backing ∧ t.Keeps h
  error : ∀ f t, x s = .error f t →
    s.region.backing = .lent ∧ ∃ required available, f = .outOfRoom required available

namespace Leads

variable {x y : Change Unit}

theorem of_ok (hx : x s = .ok () t) (hcfg : t.config = s.config)
    (hb : t.region.backing = s.region.backing) (ht : t.Keeps h) : Leads x s h := by
  constructor
  · intro u hu
    cases hx.symm.trans hu
    exact ⟨hcfg, hb, ht⟩
  · intro f u hu
    cases hx.symm.trans hu

theorem bind (hx : Leads x s h)
    (hy : ∀ t, t.config = s.config → t.Keeps h → Leads y t h') :
    Leads (x >>= fun _ => y) s h' := by
  cases hrun : x s with
  | error f t =>
    have hbind : (x >>= fun _ => y) s = .error f t := EStateM.bind_of_error hrun
    constructor
    · intro u hu
      cases hbind.symm.trans hu
    · intro e u hu
      cases hbind.symm.trans hu
      exact hx.error f t hrun
  | ok _ t =>
    have hbind : (x >>= fun _ => y) s = y t := EStateM.bind_of_ok hrun
    obtain ⟨hcfg, hb, ht⟩ := hx.ok t hrun
    obtain ⟨hok, herror⟩ := hy t hcfg ht
    constructor
    · intro u hu
      obtain ⟨hcfg', hb', hu'⟩ := hok u (hbind.symm.trans hu)
      exact ⟨hcfg'.trans hcfg, hb'.trans hb, hu'⟩
    · intro f u hu
      rw [← hb]
      exact herror f u (hbind.symm.trans hu)

theorem of_meets {α : Type} {g : Edit α} {f : α → Mode}
    (hok : ∀ a r, g s.region = .ok a r → x s = .ok () ⟨s.config, f a, r⟩)
    (herror : ∀ e r, g s.region = .error e r → x s = .error e ⟨s.config, s.mode, r⟩)
    (hmeets : g.Meets s.region fun a r => f a = h.mode ∧ r.Holds s.config h)
    (hw : s.region.backing ≠ .frozen) (hs : h.Sound s.config.lgK) : Leads x s h := by
  cases hrun : g s.region with
  | ok a r =>
    obtain ⟨hb, hmode, hholds⟩ := hmeets.ok a r hrun
    exact of_ok (hok a r hrun) rfl hb ⟨fun he => hw (hb ▸ he), hmode, hholds, hs⟩
  | error e r =>
    have hx := herror e r hrun
    constructor
    · intro u hu
      cases hx.symm.trans hu
    · intro e' u hu
      cases hx.symm.trans hu
      exact hmeets.error e r hrun

/-- **A change of a sketch that owns its image succeeds.** -/
theorem total (hx : Leads x s h) (hs : s.region.backing = .owned) :
    ∃ t, x s = .ok () t ∧ t.config = s.config ∧ t.Owns h := by
  cases hrun : x s with
  | ok _ t =>
    obtain ⟨hcfg, hb, ht⟩ := hx.ok t hrun
    exact ⟨t, rfl, hcfg, ht, hb.trans hs⟩
  | error f t =>
    have hlent := (hx.error f t hrun).1
    rw [hs] at hlent
    exact absurd hlent (by decide)

end Leads

theorem checkWritable_eq (hs : s.region.backing ≠ .frozen) : checkWritable s = .ok () s := by
  have hro : s.isReadOnly = false := decide_eq_false hs
  unfold checkWritable
  rw [EStateM.get_bind, hro]
  rfl

theorem editing_of_ok {x : Edit Unit} {r : Region} (hx : x s.region = .ok () r) :
    editing x s = .ok () ⟨s.config, s.mode, r⟩ := by
  obtain ⟨cfg, mode, region⟩ := s
  have hrun : x region = .ok () r := hx
  simp only [editing, hrun]

theorem editing_of_error {x : Edit Unit} {f : Fault} {r : Region} (hx : x s.region = .error f r) :
    editing x s = .error f ⟨s.config, s.mode, r⟩ := by
  obtain ⟨cfg, mode, region⟩ := s
  have hrun : x region = .error f r := hx
  simp only [editing, hrun]

/-- How the image of a sketch takes in a coupon, by mode. -/
def edit (cfg : Config) (c : Coupon) : Mode → Edit Mode
  | .list => CouponList.insert cfg c
  | .set => CouponTable.insert cfg c
  | .dense => do
    Registers.insert cfg c
    pure .dense

theorem insert_eq (hs : s.region.backing ≠ .frozen) (c : Coupon) :
    insert c s = match edit s.config c s.mode s.region with
      | .ok mode r => .ok () ⟨s.config, mode, r⟩
      | .error f r => .error f ⟨s.config, s.mode, r⟩ := by
  refine (EStateM.bind_of_ok (checkWritable_eq hs)).trans ?_
  obtain ⟨cfg, mode, region⟩ := s
  cases mode <;> rfl

theorem absorb_eq {cs : List Coupon} (ht : t.region.backing ≠ .frozen)
    (hs : s.offered t.config.lgK = .ok cs) :
    absorb s t = (if cs.isEmpty then pure () else do
      insertAll cs
      forgetHistory : Change Unit) t := by
  unfold absorb
  rw [EStateM.bind_of_ok (checkWritable_eq ht), EStateM.get_bind, hs,
    EStateM.ofExcept_bind]

/-- A merge that succeeds is with a source that has coupons to offer. If these are none, the target
is left as it is; otherwise it takes them in, and its history is void. -/
theorem absorb_eq_ok {u : Sketch} (hu : absorb s t = .ok () u) :
    ∃ cs, s.offered t.config.lgK = .ok cs ∧
      (u = t ∨ ∃ v, insertAll cs t = .ok () v ∧ forgetHistory v = .ok () u) := by
  obtain ⟨_, t', hcheck, hrun⟩ := EStateM.bind_eq_ok hu
  obtain rfl : t = t' := by
    have hcheck' := EStateM.get_bind_eq_ok hcheck
    split_ifs at hcheck' <;> cases hcheck'
    rfl
  obtain ⟨cs, ho, hrest⟩ := EStateM.ofExcept_bind_eq_ok (EStateM.get_bind_eq_ok hrun)
  refine ⟨cs, ho, ?_⟩
  split_ifs at hrest
  · cases hrest
    exact .inl rfl
  · obtain ⟨_, v, hall, hforget⟩ := EStateM.bind_eq_ok hrest
    exact .inr ⟨v, hall, hforget⟩

/-- How the image of a sketch is emptied. -/
def erase (s : Sketch) : Edit Unit := do
  Region.reserve CouponList.bytes
  modify fun r => (CouponList.clear s.config r).shrink CouponList.bytes
  modify fun r => r.zero CouponList.bytes (min s.imageSize r.size - CouponList.bytes)

theorem reset_eq (hs : s.region.backing ≠ .frozen) :
    reset s = match erase s s.region with
      | .ok _ r => .ok () ⟨s.config, .list, r⟩
      | .error f r => .error f ⟨s.config, s.mode, r⟩ := by
  have hrun : reset s = _ := (EStateM.bind_of_ok (checkWritable_eq hs)).trans
    (EStateM.get_bind.trans EStateM.get_bind)
  refine hrun.trans ?_
  cases hr : erase s s.region with
  | ok _ r => exact (EStateM.bind_of_ok (editing_of_ok hr)).trans rfl
  | error f r => exact EStateM.bind_of_error (editing_of_error hr)

/-- Whatever the image of a sketch is, emptying it leaves an empty list. -/
theorem leads_reset (hs : s.region.backing ≠ .frozen) : Leads reset s (.list [] 0) := by
  refine Leads.of_meets (f := fun _ => .list) (g := erase s) (fun a r hr => ?_)
    (fun f r hr => ?_) ?_ hs Holding.listable_nil
  · rw [reset_eq hs, hr]
  · rw [reset_eq hs, hr]
  refine Edit.Meets.bind ((Edit.meets_reserve _ hs).mono fun _ r₁ _ hreserve => ?_)
  have hclear : (CouponList.clear s.config r₁).backing = r₁.backing := by
    rw [CouponList.clear, Region.backing_zero, (Region.within_putHeader ..).backing]
  have hlist : Listed s.config [] 0 (CouponList.clear s.config r₁) := Listed.clear hreserve.1
  refine Edit.Meets.write_bind (by rw [Region.backing_shrink, hclear]) ?_
  refine Edit.Meets.write (Region.backing_zero ..) ⟨rfl, ?_⟩
  refine hlist.congr ?_ fun j hj => ?_
  · rw [Region.size_zero]
    exact Region.le_size_shrink hlist.fits
  · rw [(Region.within_zero ..).byte j (.inl hj), Region.byte_shrink hj]

/-! ## Questions -/

namespace Keeps

/-- **What a sketch hands out is what it holds.** -/
theorem coupons_eq (hs : s.Keeps h) : s.coupons = .ok (h.coupons s.config.lgK) := by
  have himg := hs.image
  have hsound := hs.sound
  rw [Sketch.coupons, hs.mode]
  cases h with
  | list cs n =>
    have hl : Listed s.config cs n s.region := himg
    have l : Holding.Listable cs n := hsound
    have hlen : cs.length ≤ 8 := Nat.le_trans l.counted (Nat.le_of_lt l.room)
    exact congrArg Except.ok (hl.live_eq l.live hlen)
  | table L slots n =>
    have ht : Tabulated s.config L slots n s.region := himg
    exact congrArg Except.ok (ht.live_eq (lgArr_lt (Holding.Tabled.most hsound)))
  | dense g =>
    have hd : Dense s.config g s.region := himg
    exact hd.coupons_eq

theorem offered_eq (hs : s.Keeps h) {j : Nat} (hj : ¬ (s.mode = .dense ∧ s.config.lgK < j)) :
    s.offered j = .ok (h.offer s.config.lgK j) := by
  unfold offered
  rw [hs.coupons_eq, hs.mode]
  rw [hs.mode] at hj
  cases h with
  | list cs n => rfl
  | table L slots n => rfl
  | dense g =>
    have hlt : ¬ s.config.lgK < j := fun hlt => hj ⟨rfl, hlt⟩
    change (if s.config.lgK < j then _ else if j < s.config.lgK then _ else _) = _
    rw [if_neg hlt, Holding.offer]
    split_ifs <;> rfl

theorem offered_narrow (hs : s.Keeps h) {j : Nat} (hj : s.mode = .dense ∧ s.config.lgK < j) :
    s.offered j = .error (.narrowSource s.config.lgK j) := by
  unfold offered
  rw [hs.coupons_eq, hj.1]
  change (if s.config.lgK < j then _ else _) = _
  rw [if_pos hj.2]
  rfl

theorem eq_offer (hs : s.Keeps h) {j : Nat} {cs : List Coupon} (ho : s.offered j = .ok cs) :
    cs = h.offer s.config.lgK j := by
  by_cases hj : s.mode = .dense ∧ s.config.lgK < j
  · cases (hs.offered_narrow hj).symm.trans ho
  · exact (Except.ok.inj ((hs.offered_eq hj).symm.trans ho)).symm

/-! ## Changes -/

theorem clear (cfg : Config) {r : Region} (hw : r.backing ≠ .frozen)
    (hs : CouponList.bytes ≤ r.size) :
    Keeps ⟨cfg, .list, CouponList.clear cfg r⟩ (.list [] 0) where
  writable := by
    rwa [CouponList.clear, Region.backing_zero, (Region.within_putHeader ..).backing]
  mode := rfl
  image := Listed.clear hs
  sound := Holding.listable_nil

/-- **A sketch takes in a coupon as its holding does.** -/
theorem insert (hs : s.Keeps h) (c : Coupon) :
    Leads (Sketch.insert c) s (h.insert s.config.lgK c) := by
  have himg := hs.image
  refine Leads.of_meets (f := id) (g := edit s.config c s.mode) (fun mode r hr => ?_)
    (fun f r hr => ?_) ?_ hs.writable (Holding.sound_insert hs.sound c)
  · rw [insert_eq hs.writable, hr]
    rfl
  · rw [insert_eq hs.writable, hr]
  rw [hs.mode]
  cases h with
  | list cs n => exact meets_insertList hs.sound himg hs.writable c
  | table L slots n => exact meets_insertTable hs.sound himg hs.writable c
  | dense g =>
    have hd : Dense s.config g s.region := himg
    exact Edit.Meets.bind ((hd.meets_insert hs.writable c).mono fun _ r' _ hr' =>
      Edit.Meets.done ⟨rfl, hr'⟩)

/-- **A sketch takes in coupons as its holding does.** -/
theorem insertAll (hs : s.Keeps h) (cs : List Coupon) :
    Leads (Sketch.insertAll cs) s (cs.foldl (Holding.insert s.config.lgK) h) := by
  induction cs generalizing s h with
  | nil => exact Leads.of_ok rfl rfl rfl hs
  | cons c cs ih =>
    refine Leads.bind (hs.insert c) fun t hcfg ht => ?_
    rw [List.foldl_cons, ← hcfg]
    exact ih (hcfg ▸ ht)

/-- **A sketch that forgets everything is like a new one.** -/
theorem reset (hs : s.Keeps h) : Leads Sketch.reset s (.list [] 0) := leads_reset hs.writable

theorem forgetHistory (hs : s.Keeps h) : Leads Sketch.forgetHistory s h.forget := by
  have himg := hs.image
  have hmode := hs.mode
  have hsound := Holding.sound_forget hs.sound
  unfold Sketch.forgetHistory
  cases h with
  | list cs n => exact Leads.of_ok (EStateM.get_bind.trans (by rw [hmode]; rfl)) rfl rfl hs
  | table L slots n =>
    exact Leads.of_ok (EStateM.get_bind.trans (by rw [hmode]; rfl)) rfl rfl hs
  | dense g =>
    have hd : Dense s.config g s.region := himg
    have hdense := (hd.putTotal 0.0).putFlag true
    have hback : ((s.region.putTotal 0.0).putFlag .outOfOrder true).backing =
        s.region.backing := by
      rw [(Region.within_putFlag ..).backing, (Region.within_putTotal ..).backing]
    refine Leads.of_ok (t := ⟨s.config, s.mode, (s.region.putTotal 0.0).putFlag .outOfOrder true⟩)
      (EStateM.get_bind.trans ?_) rfl hback
      ⟨fun he => hs.writable (hback.symm.trans he), hmode, hdense, hsound⟩
    rw [hmode, if_pos (show (Holding.dense g).mode = .dense from rfl), ← hmode]
    exact editing_of_ok rfl

/-- **A target takes in what a source offers as its holding does**, whatever the source. -/
theorem absorb_of_ok (ht : t.Keeps h) {cs : List Coupon}
    (hs : s.offered t.config.lgK = .ok cs) :
    Leads (Sketch.absorb s) t (h.absorb t.config.lgK cs) := by
  have hrun := absorb_eq ht.writable hs
  unfold Holding.absorb
  cases cs with
  | nil => exact Leads.of_ok hrun rfl rfl ht
  | cons c cs =>
    rw [if_neg (List.cons_ne_nil c cs)]
    obtain ⟨hok, herror⟩ := Leads.bind (ht.insertAll (c :: cs)) fun u _ hu => hu.forgetHistory
    exact ⟨fun u hu => hok u (hrun.symm.trans hu), fun f u hu => herror f u (hrun.symm.trans hu)⟩

theorem absorb_of_error (ht : t.Keeps h) {f : Fault} (hs : s.offered t.config.lgK = .error f) :
    Sketch.absorb s t = .error f t := by
  unfold Sketch.absorb
  rw [EStateM.bind_of_ok (checkWritable_eq ht.writable), EStateM.get_bind, hs]
  rfl

end Keeps

/-! ## Sketches that own their image -/

namespace Owns

theorem new (cfg : Config) : (Sketch.new cfg).Owns (.list [] 0) where
  toKeeps := Keeps.clear cfg (by rw [Region.backing_extend]; decide)
    (by rw [Region.size_extend]; exact Nat.le_max_right ..)
  owned := by
    rw [Sketch.new, CouponList.clear, Region.backing_zero, (Region.within_putHeader ..).backing,
      Region.backing_extend]

/-- **A sketch takes in a coupon as its holding does**, and that succeeds. -/
theorem insert (hs : s.Owns h) (c : Coupon) :
    ∃ t, Sketch.insert c s = .ok () t ∧ t.config = s.config ∧
      t.Owns (h.insert s.config.lgK c) :=
  (hs.toKeeps.insert c).total hs.owned

theorem insertAll (hs : s.Owns h) (cs : List Coupon) :
    ∃ t, Sketch.insertAll cs s = .ok () t ∧ t.config = s.config ∧
      t.Owns (cs.foldl (Holding.insert s.config.lgK) h) :=
  (hs.toKeeps.insertAll cs).total hs.owned

theorem reset (hs : s.Owns h) :
    ∃ t, Sketch.reset s = .ok () t ∧ t.config = s.config ∧ t.Owns (.list [] 0) :=
  hs.toKeeps.reset.total hs.owned

theorem absorb_of_ok (ht : t.Owns h) {cs : List Coupon} (hs : s.offered t.config.lgK = .ok cs) :
    ∃ u, Sketch.absorb s t = .ok () u ∧ u.config = t.config ∧
      u.Owns (h.absorb t.config.lgK cs) :=
  (ht.toKeeps.absorb_of_ok hs).total ht.owned

end Owns

end Sketch

end HyperLogLog
