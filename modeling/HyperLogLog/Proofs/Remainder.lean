import HyperLogLog.Proofs.Capacity

/-!
# Bytes beyond an image

An image may become larger and smaller again in lent bytes. Whatever it gives up is cleared, so that
each byte beyond the image is zero or as the caller left it.

* `Promotion.tidies_toDense`, `tidies_grow`, `tidies_toTable`: every change of representation leaves
  nothing behind;
* **`tidies_edit`**: nor does any coupon;
* `Sketch.Tidies`, **`Aligned.tidies_run`**: nor do updates, merges and resets;
* `Sketch.StartsOver`, **`reset_startsOver`**: a reset always succeeds, and leaves just the sketch
  that starts in the same bytes;
* **`nothing_left_behind`**: bytes beyond the image are zero or were never touched.
-/

namespace HyperLogLog

open Registers (Dense)

variable {cfg : Config} {mode mode' : Mode} {r r' : Region} {L : Nat} {c : Coupon}
  {cs : List Coupon}

/-! ## Promotion -/

namespace Registers

theorem byte_clear (hb : r.backing ≠ .frozen) (hx : clear cfg r = .ok () r') {j : Nat}
    (hj : Footprint.dense cfg 0 ≤ j) : r'.byte j = r.byte j := by
  obtain ⟨_, r₁, hreserve, hwrite⟩ := EStateM.bind_eq_ok hx
  obtain ⟨-, -, -, hbyte⟩ := (Edit.meets_reserve _ hb).ok _ _ hreserve
  rw [footprint_zero] at hj
  rw [EStateM.modify_eq_ok hwrite, (Region.within_putEstimator ..).byte j (.inr (by omega)),
    (Region.within_putAtMinimum ..).byte j (.inr (by omega)),
    (Region.within_zero ..).byte j (.inr (by rw [footprint_zero]; omega)),
    (Region.within_putHeader ..).byte j (.inr (by omega)), hbyte]

theorem tidies_of_header (cfg : Config) (h : ∀ j, 36 ≤ j → r'.byte j = r.byte j) :
    Region.Tidies (Footprint.dense cfg r.exceptionCount) (Footprint.dense cfg r'.exceptionCount)
      r r' := by
  have hcount : r'.exceptionCount = r.exceptionCount :=
    congrArg UInt32.toNat (Region.word_congr fun j hj _ => h j hj)
  have hle : 40 ≤ Footprint.dense cfg r.exceptionCount :=
    Nat.le_trans (Nat.le_add_right ..) (registers_le_footprint _)
  rw [hcount]
  exact Region.tidies_of_byte_eq (Nat.le_refl _) fun j hj => h j (by omega)

theorem Dense.tidies_insertAll {g : Registry} (h : Dense cfg g r) (hb : r.backing ≠ .frozen)
    (hx : cs.forM (insert cfg) r = .ok () r') : Region.Tidies (Footprint.dense cfg r.exceptionCount)
      (Footprint.dense cfg r'.exceptionCount) r r' := by
  induction cs generalizing g r with
  | nil =>
    cases hx
    exact .refl _ _
  | cons c cs ih =>
    obtain ⟨_, r₁, hc, hcs⟩ := EStateM.bind_eq_ok hx
    obtain ⟨hb₁, h₁⟩ := (h.meets_insert hb c).ok _ _ hc
    exact (h.tidies_insert hb hc).trans (ih h₁ (by rwa [hb₁]) hcs)

end Registers

theorem Region.tidies_zero {n n' : Nat} (h : ∀ j, n' ≤ j → r'.byte j = r.byte j) :
    Region.Tidies n n' r (r'.zero n' (n - n')) := by
  intro j hj
  by_cases hn : j < n
  · exact .inl (Region.byte_zero_inside hj (by omega))
  · exact .inr ⟨by omega, ((Region.within_zero ..).byte j (.inr (by omega))).trans (h j hj)⟩

/-- **A promotion clears what the image had beyond the registers.** -/
theorem Promotion.tidies_toDense (hm : r.mode? = some mode) (hb : r.backing ≠ .frozen)
    (hx : toDense cfg r = .ok () r') :
    Region.Tidies (r.footprint cfg mode) (Footprint.dense cfg r'.exceptionCount) r r' := by
  have h₀ := EStateM.get_bind_eq_ok hx
  rw [hm] at h₀
  obtain ⟨cs, -, h₁⟩ := EStateM.ofExcept_bind_eq_ok h₀
  obtain ⟨_, r₁, hclear, h₂⟩ := EStateM.bind_eq_ok h₁
  obtain ⟨_, r₂, hzero, h₃⟩ := EStateM.bind_eq_ok h₂
  obtain ⟨_, r₃, hall, htotal⟩ := EStateM.bind_eq_ok h₃
  obtain ⟨hb₁, hfresh⟩ := (Registers.meets_clear cfg hb).ok _ _ hclear
  have hcleared : Region.Tidies (r.footprint cfg mode) (Footprint.dense cfg 0) r r₂ :=
    EStateM.modify_eq_ok hzero ▸ Region.tidies_zero fun j hj => Registers.byte_clear hb hclear hj
  have hfresh₂ := hfresh.zero_fresh (r.footprint cfg mode - Footprint.dense cfg 0)
  rw [← EStateM.modify_eq_ok hzero] at hfresh₂
  have hb₂ : r₂.backing ≠ .frozen := by
    rwa [EStateM.modify_eq_ok hzero, Region.backing_zero, hb₁]
  have hraised := hfresh₂.tidies_insertAll hb₂ hall
  rw [hfresh₂.exceptionCount_fresh] at hraised
  have hin := Region.within_putTotal r₃ (Contents.estimate cfg mode r)
  rw [← EStateM.modify_eq_ok htotal] at hin
  exact (hcleared.trans hraised).trans
    (Registers.tidies_of_header cfg fun j hj => hin.byte j (.inr (by omega)))

/-! ## Tables -/

namespace Region.Sparse

theorem footprint_eq (h : r.Sparse cfg mode L) (hL : L < 256) (hm : mode ≠ .dense) :
    r.footprint cfg mode = Footprint.sparse mode L := by
  have hslots := h.slots_eq hL mode
  cases mode with
  | list => exact congrArg (Mode.list.dataStart + 4 * ·) hslots
  | set => exact congrArg (Mode.set.dataStart + 4 * ·) hslots
  | dense => exact absurd rfl hm

theorem tidies_written {a m i : Nat} {q : Region} (hi : i < 2 ^ L)
    (hin : Region.Within a m (r.setCoupon (mode.dataStart + 4 * i) c) q)
    (ham : a + m ≤ mode.dataStart) :
    Region.Tidies (Footprint.sparse mode L) (Footprint.sparse mode L) r
      (q.putFlag .empty false) := by
  have hstart : 8 ≤ mode.dataStart := by cases mode <;> decide
  refine Region.tidies_of_byte_eq (Nat.le_refl _) fun j hj => ?_
  unfold Footprint.sparse at hj
  rw [(Region.within_putFlag ..).byte j (.inr (by omega)), hin.byte j (.inr (by omega)),
    (Region.within_setCoupon ..).byte j (.inr (by omega))]

theorem tidies_promote (h : r.Sparse cfg mode L) (hL : L < 256) (hm : mode ≠ .dense)
    (hb : r.backing ≠ .frozen)
    (hx : (Promotion.toDense cfg >>= fun _ => pure Mode.dense) r = .ok mode' r') :
    Region.Tidies (Footprint.sparse mode L) (r'.footprint cfg mode') r r' := by
  obtain ⟨_, r₁, hdense, hdone⟩ := EStateM.bind_eq_ok hx
  cases hdone
  rw [← h.footprint_eq hL hm]
  exact Promotion.tidies_toDense h.mode?_eq hb hdense

end Region.Sparse

namespace CouponTable

theorem tidies_placeAll (hx : cs.forM (place L) r = .ok () r') :
    Region.Tidies (Footprint.sparse .set L) (Footprint.sparse .set L) r r' := by
  induction cs generalizing r with
  | nil =>
    cases hx
    exact .refl _ _
  | cons c cs ih =>
    obtain ⟨_, r₁, hc, hcs⟩ := EStateM.bind_eq_ok hx
    refine Region.Tidies.trans ?_ (ih hcs)
    have h₀ := EStateM.get_bind_eq_ok hc
    cases hfind : find L r c with
    | present =>
      rw [hfind] at h₀
      cases h₀
    | full =>
      rw [hfind] at h₀
      cases h₀
    | free o =>
      rw [hfind] at h₀
      obtain ⟨i, hi, rfl⟩ := find_eq_free hfind
      rw [EStateM.modify_eq_ok h₀]
      refine (Region.within_setCoupon ..).tidies (Nat.le_refl _) ?_
      unfold Footprint.sparse
      omega

theorem tidies_grow (hb : r.backing ≠ .frozen) (hx : grow (L + 1) r = .ok () r') :
    Region.Tidies (Footprint.sparse .set L) (Footprint.sparse .set (L + 1)) r r' := by
  obtain ⟨_, r₁, hreserve, h₁⟩ := EStateM.bind_eq_ok (EStateM.get_bind_eq_ok hx)
  obtain ⟨_, r₂, hwrite, h₂⟩ := EStateM.bind_eq_ok h₁
  obtain ⟨-, -, -, hbyte⟩ := (Edit.meets_reserve _ hb).ok _ _ hreserve
  have hgrown : Region.Tidies (Footprint.sparse .set L) (Footprint.sparse .set (L + 1)) r r₂ := by
    have hstart : Mode.set.dataStart = 12 := rfl
    refine Region.tidies_of_byte_eq ?_ fun j hj => ?_
    · unfold Footprint.sparse
      rw [Nat.pow_succ]
      omega
    · unfold Footprint.sparse at hj
      rw [EStateM.modify_eq_ok hwrite, (Region.within_zero ..).byte j (.inr (by
          unfold offset; omega)), Region.putLgArr, (Region.within_setByte ..).byte j
          (.inr (by omega)), hbyte]
  exact hgrown.trans (tidies_placeAll h₂)

end CouponTable

/-- **A table that takes in a coupon leaves nothing behind.** -/
theorem tidies_insertTable (h : r.Legible cfg .set) (hb : r.backing ≠ .frozen)
    (hx : CouponTable.insert cfg c r = .ok mode' r') :
    Region.Tidies (r.footprint cfg .set) (r'.footprint cfg mode') r r' := by
  obtain ⟨L, hleast, hmost, h⟩ := h
  have hL : L < 256 := lgArr_lt hmost
  have h₀ := EStateM.get_bind_eq_ok hx
  dsimp only at h₀
  rw [h.lgArr_eq hL] at h₀
  cases hfind : CouponTable.find L r c with
  | present =>
    rw [hfind] at h₀
    cases h₀
    exact .refl _ _
  | full =>
    rw [hfind] at h₀
    cases h₀
  | free o =>
    rw [hfind] at h₀
    obtain ⟨i, hi, rfl⟩ := CouponTable.find_eq_free hfind
    rw [CouponTable.insert_of_free (h.lgArr_eq hL) hfind (Nat.le_add_right ..)] at hx
    have hin : Region.Within 8 4 (r.setCoupon (Mode.set.dataStart + 4 * i) c)
      ((r.setCoupon (Mode.set.dataStart + 4 * i) c).putSetCount (r.setCount + 1)) :=
        Region.within_setWord ..
    have hwritten := Region.Sparse.tidies_written hi hin (by decide)
    obtain ⟨-, hback, h', -⟩ := h.written hL hi hin (by decide) (.inr (Nat.le_refl 8))
    rw [h.footprint_eq hL (by decide)]
    refine hwritten.trans ?_
    rw [← hback] at hb
    unfold Region.tabulated at hx
    generalize ((r.setCoupon (Mode.set.dataStart + 4 * i) c).putSetCount (r.setCount + 1)).putFlag
      .empty false = q at h' hb hx ⊢
    split_ifs at hx with hfull hlargest
    · exact h'.tidies_promote hL (by decide) hb hx
    · obtain ⟨_, r₁, hgrow, hdone⟩ := EStateM.bind_eq_ok hx
      cases hdone
      obtain ⟨-, h₁⟩ := (CouponTable.ends_grow h' (by omega) hb).ok _ _ hgrow
      rw [h₁.footprint_eq (lgArr_lt (Nat.lt_of_not_le hlargest)) (by decide)]
      exact CouponTable.tidies_grow hb hgrow
    · cases hx
      rw [h'.footprint_eq hL (by decide)]
      exact .refl _ _

theorem tidies_insertOrRaise {h : Holding} (hr : r.Carries cfg h mode) (hb : r.backing ≠ .frozen)
    (hx : CouponTable.insertOrRaise cfg mode c r = .ok mode' r') :
    Region.Tidies (r.footprint cfg mode) (r'.footprint cfg mode') r r' := by
  obtain ⟨rfl, hr, hs, hl⟩ := hr
  cases h with
  | list cs n => exact absurd trivial hl
  | table L slots n => exact tidies_insertTable (hr.legible hs) hb hx
  | dense g =>
    have hd : Dense cfg g r := hr
    obtain ⟨_, r₁, hinsert, hdone⟩ := EStateM.bind_eq_ok hx
    cases hdone
    exact hd.tidies_insert hb hinsert

theorem tidies_foldlM {h : Holding} (hr : r.Carries cfg h mode) (hb : r.backing ≠ .frozen)
    (hx : cs.foldlM (CouponTable.insertOrRaise cfg) mode r = .ok mode' r') :
    Region.Tidies (r.footprint cfg mode) (r'.footprint cfg mode') r r' := by
  induction cs generalizing h mode r with
  | nil =>
    cases hx
    exact .refl _ _
  | cons c cs ih =>
    rw [List.foldlM_cons] at hx
    obtain ⟨mode₁, r₁, hc, hcs⟩ := EStateM.bind_eq_ok hx
    obtain ⟨hb₁, hr₁⟩ := (meets_insertOrRaise hr hb c).ok _ _ hc
    exact (tidies_insertOrRaise hr hb hc).trans (ih hr₁ (by rwa [hb₁]) hcs)

/-! ## Lists -/

theorem tidies_toTable (h : r.Sparse cfg .list Footprint.lgList)
    (hlg : CouponList.lgTableFrom ≤ cfg.lgK) (hb : r.backing ≠ .frozen)
    (hx : CouponList.toTable cfg r = .ok mode' r') :
    Region.Tidies (Footprint.sparse .list Footprint.lgList) (r'.footprint cfg mode') r r' := by
  obtain ⟨_, r₁, hreserve, h₁⟩ := EStateM.bind_eq_ok (EStateM.get_bind_eq_ok hx)
  obtain ⟨_, r₂, hwrite, hfold⟩ := EStateM.bind_eq_ok h₁
  obtain ⟨hb₁, hsize, -, hbyte⟩ := (Edit.meets_reserve _ hb).ok _ _ hreserve
  have hwrite := EStateM.modify_eq_ok hwrite
  obtain ⟨hb₂, htable⟩ :=
    tabulated_begun hsize (Nat.le_max_left _ (r.footprint cfg .list)) hwrite
  have hcarries : r₂.Carries cfg (.table Footprint.lgTable (fun _ => .empty) 0) .set :=
    ⟨rfl, htable, Holding.tabled_empty hlg, id⟩
  have hbegun : Region.Tidies (Footprint.sparse .list Footprint.lgList) (r₂.footprint cfg .set)
      r r₂ := by
    rw [htable.footprint_eq (by decide)]
    have htable : Footprint.sparse .set Footprint.lgTable = 140 := rfl
    have hlist : r.footprint cfg .list = 40 := h.footprint_eq (by decide) (by decide)
    refine Region.tidies_of_byte_eq (by decide) fun j hj => ?_
    rw [hwrite, (Region.within_zero ..).byte j (.inr (by omega)),
      (Region.within_putHeader ..).byte j (.inr (by omega)), hbyte]
  exact hbegun.trans (tidies_foldlM hcarries (by rwa [hb₂, hb₁]) hfold)

/-- **A list that takes in a coupon leaves nothing behind.** -/
theorem tidies_insertList (h : r.Sparse cfg .list Footprint.lgList) (hb : r.backing ≠ .frozen)
    (hx : CouponList.insert cfg c r = .ok mode' r') :
    Region.Tidies (r.footprint cfg .list) (r'.footprint cfg mode') r r' := by
  have hL : Footprint.lgList < 256 := by decide
  have h₀ := EStateM.get_bind_eq_ok hx
  dsimp only at h₀
  rw [h.lgArr_eq hL] at h₀
  cases hfind : CouponList.find (2 ^ Footprint.lgList) r c with
  | present =>
    rw [hfind] at h₀
    cases h₀
    exact .refl _ _
  | full =>
    rw [hfind] at h₀
    cases h₀
  | free o =>
    rw [hfind] at h₀
    obtain ⟨i, hi, rfl⟩ := CouponList.find_eq_free hfind
    have hslots : 2 ^ r.lgArr = 8 := by rw [h.lgArr_eq hL]; rfl
    rw [CouponList.insert_of_free hslots hfind (Nat.le_add_right ..)] at hx
    have hin : Region.Within 6 1 (r.setCoupon (Mode.list.dataStart + 4 * i) c)
      ((r.setCoupon (Mode.list.dataStart + 4 * i) c).putListCount (r.listCount + 1)) :=
        Region.within_setByte ..
    have hwritten := Region.Sparse.tidies_written hi hin (by decide)
    obtain ⟨-, hback, h', -⟩ := h.written hL hi hin (by decide) (.inl ⟨rfl, rfl⟩)
    rw [h.footprint_eq hL (by decide)]
    refine hwritten.trans ?_
    rw [← hback] at hb
    unfold Region.listed at hx
    generalize ((r.setCoupon (Mode.list.dataStart + 4 * i) c).putListCount
      (r.listCount + 1)).putFlag .empty false = q at h' hb hx ⊢
    split_ifs at hx with hfull hsmall
    · exact h'.tidies_promote hL (by decide) hb hx
    · exact tidies_toTable h' (Nat.le_of_not_lt hsmall) hb hx
    · cases hx
      rw [h'.footprint_eq hL (by decide)]
      exact .refl _ _

/-! ## Sketches -/

/-- **An image that takes in a coupon leaves nothing behind.** -/
theorem tidies_edit (h : r.Legible cfg mode) (hb : r.backing ≠ .frozen)
    (hx : Sketch.edit cfg c mode r = .ok mode' r') :
    Region.Tidies (r.footprint cfg mode) (r'.footprint cfg mode') r r' := by
  cases mode with
  | list => exact tidies_insertList h hb hx
  | set => exact tidies_insertTable h hb hx
  | dense =>
    obtain ⟨g, hd⟩ := h
    obtain ⟨_, r₁, hinsert, hdone⟩ := EStateM.bind_eq_ok hx
    cases hdone
    exact hd.tidies_insert hb hinsert

theorem Region.byte_shrink_cases (r : Region) (n j : Nat) :
    (r.shrink n).byte j = 0 ∨ (r.shrink n).byte j = r.byte j := by
  obtain ⟨bytes, backing⟩ := r
  cases backing with
  | lent => exact .inr rfl
  | frozen => exact .inr rfl
  | owned =>
    change Bytes.byte (bytes.extract 0 n) j = 0 ∨ Bytes.byte (bytes.extract 0 n) j = _
    rw [Bytes.byte_extract]
    split_ifs
    · exact .inr rfl
    · exact .inl rfl

namespace Sketch

variable {s t u : Sketch}

/-- From one moment of a sketch to another, nothing of its image was left behind. -/
def Tidies (s t : Sketch) : Prop := Region.Tidies s.imageSize t.imageSize s.region t.region

theorem Tidies.trans (h : s.Tidies t) (h' : t.Tidies u) : s.Tidies u := Region.Tidies.trans h h'

theorem Keeps.imageSize_list {cs : List Coupon} {n : Nat} (hs : s.Keeps (.list cs n)) :
    s.imageSize = CouponList.bytes := by
  have hl : Listed s.config cs n s.region := hs.image
  exact hs.imageSize_eq.trans hl.footprint_eq

/-- **A reset clears what the image had beyond an empty list.** -/
theorem tidies_reset (hs : s.region.backing ≠ .frozen) (ht : reset s = .ok () t) :
    s.Tidies t := by
  have hsize := ((leads_reset hs).ok t ht).2.2.imageSize_list
  rw [reset_eq hs] at ht
  cases hx : erase s s.region with
  | error f r =>
    rw [hx] at ht
    cases ht
  | ok _ r =>
    rw [hx] at ht
    cases ht
    obtain ⟨_, r₁, hreserve, h₁⟩ := EStateM.bind_eq_ok hx
    obtain ⟨_, r₂, hclear, hzero⟩ := EStateM.bind_eq_ok h₁
    obtain ⟨-, -, -, hbyte⟩ := (Edit.meets_reserve _ hs).ok _ _ hreserve
    obtain rfl := EStateM.modify_eq_ok hclear
    rw [Tidies, hsize, EStateM.modify_eq_ok hzero]
    intro j hj
    have h40 : CouponList.bytes = 40 := rfl
    have h8 : CouponList.offset 0 = 8 := rfl
    have hclear : (CouponList.clear s.config r₁).byte j = s.region.byte j := by
      rw [CouponList.clear, (Region.within_zero ..).byte j (.inr (by omega)),
        (Region.within_putHeader ..).byte j (.inr (by omega)), hbyte]
    have hshrunk := Region.byte_shrink_cases (CouponList.clear s.config r₁) CouponList.bytes j
    rw [hclear] at hshrunk
    generalize (CouponList.clear s.config r₁).shrink CouponList.bytes = q at hshrunk ⊢
    by_cases hin : j < min s.imageSize q.size
    · exact .inl (Region.byte_zero_inside hj (by omega))
    rw [(Region.within_zero ..).byte j (.inr (by omega))]
    by_cases hend : q.size ≤ j
    · exact .inl (Bytes.byte_of_size_le hend)
    · exact hshrunk.imp_right fun hsame => ⟨by omega, hsame⟩

theorem tidies_forgetHistory (ht : forgetHistory s = .ok () t) :
    s.Tidies t := by
  have h₁ := EStateM.get_bind_eq_ok ht
  split_ifs at h₁ with hm
  · have hrun := editing_of_ok (s := s)
      (x := modify fun r => (r.putTotal 0.0).putFlag .outOfOrder true) rfl
    cases hrun.symm.trans h₁
    have hin := Region.within_putTotal s.region 0.0
    have hin' := Region.within_putFlag (s.region.putTotal 0.0) .outOfOrder true
    have hforgotten := Registers.tidies_of_header s.config fun j hj =>
      (hin'.byte j (.inr (by omega))).trans (hin.byte j (.inr (by omega)))
    rw [Tidies, imageSize, imageSize, hm]
    exact hforgotten
  · cases h₁
    exact .refl _ _

namespace Aligned

theorem tidies_insert (hs : s.Aligned) (ht : insert c s = .ok () t) : s.Tidies t := by
  rw [insert_eq hs.writable] at ht
  cases hx : edit s.config c s.mode s.region with
  | error f r =>
    rw [hx] at ht
    cases ht
  | ok mode r =>
    rw [hx] at ht
    cases ht
    exact tidies_edit hs.legible hs.writable hx

theorem tidies_insertAll (hs : s.Aligned) (ht : insertAll cs s = .ok () t) :
    s.Tidies t ∧ t.Aligned := by
  induction cs generalizing s with
  | nil =>
    cases ht
    exact ⟨.refl _ _, hs⟩
  | cons c cs ih =>
    obtain ⟨_, u, hu, hcs⟩ := EStateM.bind_eq_ok ht
    obtain ⟨-, hu'⟩ := (hs.ends_change (.insert c)).ok _ u hu
    obtain ⟨htidies, ht'⟩ := ih hu' hcs
    exact ⟨(hs.tidies_insert hu).trans htidies, ht'⟩

theorem tidies_absorb (ht : t.Aligned) (hu : absorb s t = .ok () u) : t.Tidies u := by
  obtain ⟨cs, -, rfl | ⟨v, hall, hforget⟩⟩ := absorb_eq_ok hu
  · exact .refl _ _
  · obtain ⟨htidies, -⟩ := ht.tidies_insertAll hall
    exact htidies.trans (tidies_forgetHistory hforget)

theorem tidies_change (hs : s.Aligned) {a : Action} (ht : a.change s = .ok () t) :
    s.Tidies t := by
  cases a with
  | insert c => exact hs.tidies_insert ht
  | absorb source => exact hs.tidies_absorb ht
  | reset => exact tidies_reset hs.writable ht

/-- **Changes that succeed leave nothing behind.** -/
theorem tidies_run (hs : s.Aligned) {as : List Action}
    (has : ∀ o ∈ (Sketch.run as s).1, o = .ok ()) :
    s.Tidies (Sketch.run as s).2 ∧ Tenure s (Sketch.run as s).2 ∧ (Sketch.run as s).2.Aligned := by
  induction as generalizing s with
  | nil => exact ⟨.refl _ _, Std.Refl.refl s, hs⟩
  | cons a as ih =>
    have hx := eq_ok_of_outcome (has _ List.mem_cons_self)
    obtain ⟨htenure, ht⟩ := (hs.ends_change a).ok _ _ hx
    obtain ⟨htidies, htenure', hlast⟩ := ih ht fun o ho => has o (List.mem_cons_of_mem _ ho)
    exact ⟨(hs.tidies_change hx).trans htidies, IsTrans.trans _ _ _ htenure htenure', hlast⟩

end Aligned

/-! ## Starting over -/

/-- Opening the bytes of the sketch gives just this sketch, and its image is that of a new one. It
goes through changes as a new sketch does, unless one of its changes fails for want of room. -/
structure StartsOver (u : Sketch) : Prop where
  image : ∀ j, j < CouponList.bytes → u.region.byte j = (new u.config).region.byte j
  opened : wrapWritable u.region.bytes = .ok u
  built : Footprint.most u.config ≤ u.region.size →
    buildIn u.config.lgK u.config.width u.region.bytes = .ok u
  runs : ∀ as : List Action,
    (∀ f, .error f ∈ (run as u).1 → f.report.kind ≠ .insufficientCapacity) →
      (run as (new u.config)).1 = (run as u).1 ∧
        Interchangeable (run as (new u.config)).2 (run as u).2

theorem within_clear (cfg : Config) (r : Region) :
    Region.Within 0 CouponList.bytes r (CouponList.clear cfg r) :=
  ((Region.within_putHeader ..).mono (Nat.le_refl 0) (by decide)).trans
    ((Region.within_zero ..).mono (Nat.zero_le _) (by decide))

namespace Keeps

variable (hu : u.Keeps (.list [] 0))

include hu

theorem byte_eq_clear {r : Region} (hr : CouponList.bytes ≤ r.size) {j : Nat}
    (hj : j < CouponList.bytes) : u.region.byte j = (CouponList.clear u.config r).byte j := by
  have hclear : (CouponList.clear u.config r).Holds u.config (.list [] 0) := Listed.clear hr
  refine hu.image.byte_eq hclear hu.sound ?_
  rwa [← hu.imageSize_eq, hu.imageSize_list]

theorem clear_eq : CouponList.clear u.config u.region = u.region := by
  have hroom := hu.imageSize_le
  rw [hu.imageSize_list] at hroom
  have hin := within_clear u.config u.region
  refine Region.ext_byte hin.size hin.backing fun j => ?_
  by_cases hj : j < CouponList.bytes
  · exact (hu.byte_eq_clear hroom hj).symm
  · exact hin.byte j (.inr (by omega))

/-- **An empty list in lent bytes is a new sketch there.** -/
theorem startsOver (hb : u.region.backing = .lent) : u.StartsOver := by
  have hclear := hu.clear_eq
  have hbyte := fun j (hj : j < CouponList.bytes) => hu.byte_eq_clear
    (r := Region.extend ⟨.empty, .owned⟩ CouponList.bytes)
    (by rw [Region.size_extend]; exact Nat.le_max_right ..) hj
  have hnew := Owns.new u.config
  have hmirrors : Mirrors (new u.config) u := ⟨rfl, _, hnew.toKeeps, hu⟩
  obtain ⟨cfg, mode, bytes, backing⟩ := u
  obtain rfl : backing = .lent := hb
  obtain rfl : mode = .list := hu.mode
  refine ⟨hbyte, ?_, fun hroom => ?_, fun as has => ?_⟩
  · have himg := hu.image
    have hread : (⟨bytes, .frozen⟩ : Region).Holds cfg (.list [] 0) :=
      himg.congr hu.sound (himg.fits hu.sound) fun _ _ => rfl
    exact (wrapWritable_of_holds hread hu.sound).1
  · exact (buildIn_eq hroom).trans (congrArg (fun r => Except.ok (Sketch.mk cfg .list r)) hclear)
  · obtain ⟨hout, hend⟩ := hmirrors.run hnew.owned as has
    exact ⟨hout, hend.interchangeable⟩

end Keeps

/-! ## Lent bytes -/

/-- Sketches that a caller opens in lent bytes: new ones, whatever the bytes were, and those whose
bytes start with the image of a reachable sketch. -/
def OpenedIn (lent : ByteArray) (s : Sketch) : Prop :=
  (∃ lgK width, buildIn lgK width lent = .ok s) ∨ ∃ w : Sketch, w.Reachable ∧ w.Wraps lent s

/-- A sketch that is opened lies in the lent bytes, which are as they were beyond its image. -/
structure LiesIn (lent : ByteArray) (s : Sketch) : Prop where
  aligned : s.Aligned
  backing : s.region.backing = .lent
  size : s.region.size = lent.size
  beyond : ∀ j, s.imageSize ≤ j → s.region.byte j = Bytes.byte lent j

theorem OpenedIn.liesIn {lent : ByteArray} (hs : OpenedIn lent s) : s.LiesIn lent := by
  obtain ⟨lgK, width, hbuild⟩ | ⟨w, hw, hs⟩ := hs
  · obtain ⟨hcfg, hs⟩ := Keeps.of_buildIn hbuild
    have hbeyond := hs.imageSize_list
    unfold Sketch.buildIn at hbuild
    rw [hcfg] at hbuild
    change (if lent.size < Footprint.most s.config then _ else _) = _ at hbuild
    split_ifs at hbuild
    have hregion : s.region = CouponList.clear s.config ⟨lent, .lent⟩ :=
      (congrArg Sketch.region (Except.ok.inj hbuild)).symm
    have hin := within_clear s.config ⟨lent, .lent⟩
    rw [← hregion] at hin
    exact ⟨hs.aligned, hin.backing, hin.size, fun j hj => hin.byte j (.inr (by omega))⟩
  · obtain ⟨h, hw⟩ := hw.owns
    obtain ⟨hbytes, hborrows⟩ := hs.borrows hw.toKeeps
    exact ⟨(hborrows.keeps hw.toKeeps).aligned, hborrows.lent, congrArg ByteArray.size hbytes,
      fun j _ => congrArg (Bytes.byte · j) hbytes⟩

theorem Aligned.list_le (hs : s.Aligned) : CouponList.bytes ≤ s.region.size := by
  have hlegible := hs.legible
  cases hm : s.mode with
  | list =>
    rw [hm] at hlegible
    have hl : s.region.Sparse s.config .list Footprint.lgList := hlegible
    exact hl.fits
  | set =>
    rw [hm] at hlegible
    obtain ⟨L, hleast, -, hl⟩ := hlegible
    refine Nat.le_trans ?_ hl.fits
    have hpow : 2 ^ Footprint.lgTable ≤ 2 ^ L := Nat.pow_le_pow_right (by decide) hleast
    change 40 ≤ 12 + 4 * 2 ^ L
    change 32 ≤ 2 ^ L at hpow
    omega
  | dense =>
    rw [hm] at hlegible
    obtain ⟨g, hd⟩ := hlegible
    exact hd.size_ge

/-- **A reset never lacks room** where an empty list fits, whatever the bytes hold. It leaves what a
sketch starts with in them. -/
theorem reset_startsOver (hb : s.region.backing = .lent)
    (hroom : CouponList.bytes ≤ s.region.size) :
    ∃ u, reset s = .ok () u ∧ Tenure s u ∧ u.imageSize = CouponList.bytes ∧ u.StartsOver := by
  have hends := ends_reset (s := s) (by rw [hb]; decide)
  cases hx : reset s with
  | error f u =>
    obtain ⟨-, -, hscant⟩ := hends.error f u hx
    exact absurd hscant (Nat.not_lt.2 hroom)
  | ok _ u =>
    obtain ⟨htenure, hu⟩ := hends.ok _ u hx
    exact ⟨u, rfl, htenure, hu.imageSize_list, hu.startsOver (htenure.region.backing.trans hb)⟩

/-- **Nothing is left behind in lent bytes.** A sketch is opened in them, whatever they were, and
goes through any updates, merges and resets that succeed. Then each byte beyond its image is zero,
or was beyond the image already when it was opened, and is what the caller left there. A reset
succeeds now, and leaves just the sketch that starts in these bytes. If the bytes beyond the first
image were zero, all bytes beyond the last are. A reset also succeeds, and starts over, if anything
else has become of the bytes and the handle: if an update was refused, for instance. -/
theorem nothing_left_behind {lent : ByteArray} (hs : OpenedIn lent s) {as : List Action}
    (has : ∀ o ∈ (run as s).1, o = .ok ()) :
    (∀ j, (run as s).2.imageSize ≤ j → (run as s).2.region.byte j = 0 ∨
      s.imageSize ≤ j ∧ (run as s).2.region.byte j = Bytes.byte lent j) ∧
    (∃ u, reset (run as s).2 = .ok () u ∧ u.config = s.config ∧ u.region.size = lent.size ∧
      u.StartsOver ∧ ((∀ j, s.imageSize ≤ j → Bytes.byte lent j = 0) →
        ∀ j, CouponList.bytes ≤ j → u.region.byte j = 0)) ∧
    ∀ t : Sketch, t.region.backing = .lent → t.region.size = lent.size →
      ∃ u, reset t = .ok () u ∧ u.config = t.config ∧ u.region.size = lent.size ∧
        u.StartsOver := by
  have hl := hs.liesIn
  have hroom : CouponList.bytes ≤ lent.size := hl.size ▸ hl.aligned.list_le
  have hreset (t : Sketch) (hb : t.region.backing = .lent) (ht : t.region.size = lent.size) :
      ∃ u, reset t = .ok () u ∧ u.config = t.config ∧ u.region.size = lent.size ∧
        u.imageSize = CouponList.bytes ∧ u.StartsOver := by
    obtain ⟨u, hu, htenure, hsize, hover⟩ := reset_startsOver hb (ht ▸ hroom)
    exact ⟨u, hu, htenure.config, (htenure.region.size hb).trans ht, hsize, hover⟩
  obtain ⟨htidies, htenure, ht⟩ := hl.aligned.tidies_run has
  refine ⟨fun j hj => ?_, ?_, fun t hb ht => ?_⟩
  · exact (htidies j hj).imp_right fun ⟨hj', hsame⟩ => ⟨hj', hsame.trans (hl.beyond j hj')⟩
  · obtain ⟨u, hu, hcfg, husize, hsize, hover⟩ := hreset _
      (htenure.region.backing.trans hl.backing) ((htenure.region.size hl.backing).trans hl.size)
    refine ⟨u, hu, hcfg.trans htenure.config, husize, hover, fun hzero j hj => ?_⟩
    have hlast := htidies.trans (tidies_reset ht.writable hu)
    obtain hz | ⟨hj', hsame⟩ := hlast j (by rwa [hsize])
    · exact hz
    · exact hsame.trans ((hl.beyond j hj').trans (hzero j hj'))
  · obtain ⟨u, hu, hcfg, husize, -, hover⟩ := hreset t hb ht
    exact ⟨u, hu, hcfg, husize, hover⟩

/-- Nine coupons, of which five become exceptions, come and go in 80 bytes that were zero. -/
theorem nothing_left_behind_exceptions :
    let lent : ByteArray := ⟨Array.replicate 80 0⟩
    let as : List Action := (crowd ++ [Coupon.pack 8 20]).map .insert
    ∃ s, OpenedIn lent s ∧ (∀ o ∈ (run as s).1, o = .ok ()) ∧ (run as s).2.imageSize = 68 ∧
      ∃ u, reset (run as s).2 = .ok () u ∧ u.StartsOver ∧
        ∀ j, CouponList.bytes ≤ j → u.region.byte j = 0 := by
  intro lent as
  have hroom : Footprint.most narrow.config ≤ lent.size := by decide +kernel
  have hbuild : buildIn 4 .four lent =
      .ok ⟨narrow.config, .list, CouponList.clear narrow.config ⟨lent, .lent⟩⟩ :=
    buildIn_eq hroom
  generalize hs : Sketch.mk narrow.config .list _ = s at hbuild
  have hopened : OpenedIn lent s := .inl ⟨4, .four, hbuild⟩
  have has : ∀ o ∈ (run as s).1, o = .ok () := by
    rw [← hs]
    decide +kernel
  have hsize : (run as s).2.imageSize = 68 := by
    rw [← hs]
    decide +kernel
  obtain ⟨-, ⟨u, hu, -, -, hover, hzero⟩, -⟩ := nothing_left_behind hopened has
  refine ⟨s, hopened, has, hsize, u, hu, hover, hzero fun j _ => ?_⟩
  simp [lent, Bytes.byte, ByteArray.getElem_eq_getElem_data]

end Sketch

end HyperLogLog
