import HyperLogLog.Proofs.Sketch
import HyperLogLog.Proofs.Shortage

/-!
# Images whose header can be relied on

A list that is full and a table that is too full are no holdings, but they are what a sketch has
left when it lacks room to turn into something larger. Their header still says what they are.

* `Region.Sparse`, `Region.Legible`: the header declares the mode, and the image has its room;
* `Sparse.written`: what is written into a slot is the only coupon that is new;
* `Region.listed`, `Region.tabulated`: images with a coupon that is written and counted;
* **`ends_insertTable`**, **`ends_insertList`**: taking in a coupon leaves a legible image, be it of
  the mode before or, where a promotion breaks off, of registers;
* **`ends_edit`**: the same for every mode.
-/

namespace HyperLogLog

open Registers (Dense tall)
open Region (Tenure)

variable {cfg : Config} {mode : Mode} {r r' : Region} {L n m : Nat} {c d : Coupon}
  {cs : List Coupon} {v : Nat → Nat}

/-! ## Legible images -/

/-- The header is that of a list or a table of `2 ^ L` slots, which are there. -/
structure Region.Sparse (cfg : Config) (mode : Mode) (L : Nat) (r : Region) : Prop where
  headed : ∃ flags, flags &&& Flag.compact.mask = 0 ∧ r.Headed cfg mode L flags
  fits : Footprint.sparse mode L ≤ r.size

/-- The header declares the mode, and what it declares is there. Nothing is said of the coupons of a
list or a table. -/
def Region.Legible (cfg : Config) (r : Region) : Mode → Prop
  | .list => r.Sparse cfg .list Footprint.lgList
  | .set => ∃ L, Footprint.lgTable ≤ L ∧ L ≤ Footprint.lgLargestTable cfg ∧ r.Sparse cfg .set L
  | .dense => ∃ g, Dense cfg g r

namespace Region.Sparse

theorem eight_le (h : r.Sparse cfg mode L) : 8 ≤ r.size := by
  have := h.fits
  have : 8 ≤ mode.dataStart := by cases mode <;> decide
  unfold Footprint.sparse at *
  omega

theorem mode?_eq (h : r.Sparse cfg mode L) : r.mode? = some mode := by
  obtain ⟨flags, -, hh⟩ := h.headed
  exact hh.mode?_eq

theorem lgArr_eq (h : r.Sparse cfg mode L) (hL : L < 256) : r.lgArr = L := by
  obtain ⟨flags, -, hh⟩ := h.headed
  exact hh.lgArr_eq hL

theorem slots_eq (h : r.Sparse cfg mode L) (hL : L < 256) (m : Mode) : r.slots m = 2 ^ L := by
  obtain ⟨flags, hf, hh⟩ := h.headed
  exact hh.slots_eq hL hf m

theorem length_live_le (h : r.Sparse cfg mode L) (hL : L < 256) :
    (Contents.live mode r).length ≤ 2 ^ L := by
  refine (List.length_filter_le ..).trans ?_
  rw [Region.coupons, List.length_map, List.length_range, h.slots_eq hL]

theorem congr (h : r.Sparse cfg mode L) (hs : r.size ≤ r'.size)
    (hb : ∀ j, j < 8 → j ≠ 6 → r'.byte j = r.byte j) : r'.Sparse cfg mode L := by
  obtain ⟨flags, hf, hh⟩ := h.headed
  exact ⟨⟨flags, hf, hh.congr hb⟩, Nat.le_trans h.fits hs⟩

theorem within {i m : Nat} (h : r.Sparse cfg mode L) (hin : Within i m r r') (hi : 8 ≤ i) :
    r'.Sparse cfg mode L :=
  h.congr (Nat.le_of_eq hin.size.symm) fun j hj _ => hin.byte j (.inl (by omega))

theorem putFlag (h : r.Sparse cfg mode L) : (r.putFlag .empty false).Sparse cfg mode L := by
  obtain ⟨flags, hf, hh⟩ := h.headed
  refine ⟨⟨_, ?_, hh.putFlag h.eight_le .empty false rfl⟩, ?_⟩
  · calc flags &&& ~~~ Flag.empty.mask &&& ~~~ Flag.bigEndian.mask &&& Flag.compact.mask
        = flags &&& Flag.compact.mask &&& (~~~ Flag.empty.mask &&& ~~~ Flag.bigEndian.mask) := by
          ac_rfl
      _ = 0 := by rw [hf]; decide
  · rw [(Region.within_putFlag ..).size]
    exact h.fits

end Region.Sparse

/-! ## Slots that are written to -/

theorem Probe.seek_eq_free {place : Nat → Nat} {o : Nat} : ∀ {n j : Nat},
    Probe.seek r c place n j = .free o → ∃ i, j ≤ i ∧ i < j + n ∧ o = place i
  | n + 1, j, h => by
    unfold Probe.seek at h
    dsimp only at h
    split_ifs at h
    · cases h
      exact ⟨j, Nat.le_refl j, by omega, rfl⟩
    · obtain ⟨i, h₁, h₂, rfl⟩ := Probe.seek_eq_free h
      exact ⟨i, by omega, by omega, rfl⟩

theorem Contents.mem_live : d ∈ Contents.live mode r ↔
    d ≠ .empty ∧ ∃ j, j < r.slots mode ∧ r.coupon (mode.dataStart + 4 * j) = d := by
  rw [Contents.live, List.mem_filter, decide_eq_true_eq, Region.coupons, List.mem_map, and_comm]
  simp only [List.mem_range]

/-- **Writing a coupon into a slot**, and then a count and a flag into the header, leaves a legible
image that has no other coupon more. -/
theorem Region.Sparse.written (h : r.Sparse cfg mode L) (hL : L < 256) {i : Nat} (hi : i < 2 ^ L)
    {q : Region} {a m : Nat} (hin : Within a m (r.setCoupon (mode.dataStart + 4 * i) c) q)
    (ham : a + m ≤ mode.dataStart) (ha : a = 6 ∧ m = 1 ∨ 8 ≤ a) :
    (r.setCoupon (mode.dataStart + 4 * i) c).Tenure (q.putFlag .empty false) ∧
      (q.putFlag .empty false).backing = r.backing ∧
      (q.putFlag .empty false).Sparse cfg mode L ∧
      ∀ d ∈ Contents.live mode (q.putFlag .empty false), d = c ∨ d ∈ Contents.live mode r := by
  have hstart : 8 ≤ mode.dataStart := by cases mode <;> decide
  have hfits := h.fits
  have hset := Region.within_setCoupon r (mode.dataStart + 4 * i) c
  have hflag := Region.within_putFlag q .empty false
  have hq : q.Sparse cfg mode L :=
    (h.within hset (by omega)).congr (Nat.le_of_eq hin.size.symm) fun j hj h₆ =>
      hin.byte j (by omega)
  refine ⟨hin.tenure.trans hflag.tenure, hflag.backing.trans (hin.backing.trans hset.backing),
    hq.putFlag, fun d hd => ?_⟩
  obtain ⟨hne, j, hj, rfl⟩ := Contents.mem_live.1 hd
  rw [hq.putFlag.slots_eq hL] at hj
  unfold Footprint.sparse at hfits
  rw [hflag.coupon (.inr (by omega)), hin.coupon (.inr (by omega)),
    Region.coupon_setCoupon c (by omega)]
  split_ifs with hit
  · exact .inl rfl
  · rw [hflag.coupon (.inr (by omega)), hin.coupon (.inr (by omega)),
      Region.coupon_setCoupon c (by omega), if_neg hit] at hne
    exact .inr (Contents.mem_live.2 ⟨hne, j, by rwa [h.slots_eq hL], rfl⟩)

/-! ## Coupons that are counted -/

/-- The image of a list with a coupon in the slot at an offset, and one more in its count. -/
def Region.listed (r : Region) (o : Nat) (c : Coupon) : Region :=
  ((r.setCoupon o c).putListCount (r.listCount + 1)).putFlag .empty false

/-- The image of a table with a coupon in the slot at an offset, and one more in its count. -/
def Region.tabulated (r : Region) (o : Nat) (c : Coupon) : Region :=
  ((r.setCoupon o c).putSetCount (r.setCount + 1)).putFlag .empty false

theorem Region.tenure_listed (r : Region) (o : Nat) (c : Coupon) : r.Tenure (r.listed o c) :=
  ((Region.within_setCoupon r o c).tenure.trans
    (Region.within_setByte (r.setCoupon o c) 6 (UInt8.ofNat (r.listCount + 1))).tenure).trans
    (Region.within_putFlag ..).tenure

theorem Region.tenure_tabulated (r : Region) (o : Nat) (c : Coupon) : r.Tenure (r.tabulated o c) :=
  ((Region.within_setCoupon r o c).tenure.trans
    (Region.within_setWord (r.setCoupon o c) 8 (UInt32.ofNat (r.setCount + 1))).tenure).trans
    (Region.within_putFlag ..).tenure

/-- A list writes and counts a coupon that it does not have, and then looks for room. -/
theorem CouponList.insert_of_free {o : Nat} (hslots : 2 ^ r.lgArr = 8)
    (hfind : find 8 r c = .free o) (ho : 8 ≤ o) : insert cfg c r =
      (if 8 ≤ r.listCount + 1 then
        if cfg.lgK < lgTableFrom then Promotion.toDense cfg >>= fun _ => pure .dense
        else toTable cfg
      else pure .list : Edit Mode) (r.listed o c) := by
  have hcount : (r.setCoupon o c).listCount = r.listCount :=
    congrArg UInt8.toNat ((Region.within_setCoupon r o c).byte 6 (.inl (by omega)))
  refine EStateM.get_bind.trans ?_
  dsimp only
  rw [hslots, hfind, Region.listed, ← hcount]
  dsimp only
  refine EStateM.modify_bind.trans ?_
  generalize r.setCoupon o c = q
  refine EStateM.get_bind.trans ?_
  exact EStateM.bind_of_ok rfl

theorem CouponTable.insert_of_free {o : Nat} (hL : r.lgArr = L)
    (hfind : find L r c = .free o) (ho : 12 ≤ o) : insert cfg c r =
      (if 3 * 2 ^ L < 4 * (r.setCount + 1) then
        if Footprint.lgLargestTable cfg ≤ L then Promotion.toDense cfg >>= fun _ => pure .dense
        else grow (L + 1) >>= fun _ => pure .set
      else pure .set : Edit Mode) (r.tabulated o c) := by
  have hcount : (r.setCoupon o c).setCount = r.setCount :=
    congrArg UInt32.toNat ((Region.within_setCoupon r o c).word (.inl (by omega)))
  refine EStateM.get_bind.trans ?_
  dsimp only
  rw [hL, hfind, Region.tabulated, ← hcount]
  dsimp only
  refine EStateM.modify_bind.trans ?_
  generalize r.setCoupon o c = q
  refine EStateM.get_bind.trans ?_
  exact EStateM.bind_of_ok rfl

/-! ## What is left when taking in a coupon fails -/

/-- What is left of an image of the given mode when it fails to take in a coupon. No register was
below `m`, and none would have been raised above `v`. -/
inductive Fails (cfg : Config) (m : Nat) (v : Nat → Nat) (mode : Mode) (f : Fault) (r : Region) :
    Prop
  /-- The image is of the same mode. -/
  | kept : r.Legible cfg mode →
    (f.report.kind = .insufficientCapacity → r.size < Footprint.most cfg ∨
      cfg.width = .four ∧ r.size < Footprint.dense cfg (tall cfg.k m v)) → Fails cfg m v mode f r
  /-- A promotion broke off, and the image is of registers already. -/
  | torn : mode ≠ .dense → r.Legible cfg .dense → f.report.kind = .insufficientCapacity →
    cfg.width = .four → r.size < Footprint.dense cfg (tall cfg.k m v) → Fails cfg m v mode f r

/-- **A promotion leaves registers**, or fails and leaves what a failure leaves. -/
theorem ends_promote (h : r.Sparse cfg mode L) (hmode : mode ≠ .dense) (hr : r.Legible cfg mode)
    (hb : r.backing ≠ .frozen)
    (hv : ∀ d ∈ Contents.live mode r, d.value ≤ v (d.slot % cfg.k)) :
    Ends Tenure (Promotion.toDense cfg >>= fun _ => pure Mode.dense) r
      (fun mode r' => r'.Legible cfg mode) (Fails cfg 0 v mode) := by
  have hc : Contents.coupons cfg mode r = .ok (Contents.live mode r) := by
    cases mode with
    | list => rfl
    | set => rfl
    | dense => exact absurd rfl hmode
  refine .bind ((Promotion.ends_toDense h.mode?_eq hc hb hv).mono (fun _ r' _ hd => .done hd) ?_)
  rintro f r' - ⟨hkind, ⟨rfl, hscant⟩ | ⟨hd, hw, hscant⟩⟩
  · exact .kept hr fun _ => .inl (Nat.lt_of_lt_of_le hscant (Footprint.dense_le_most cfg))
  · exact .torn hmode hd hkind hw hscant

/-! ## Tables -/

namespace CouponTable

theorem find_eq_free {o : Nat} (h : find L r c = .free o) :
    ∃ i, i < 2 ^ L ∧ o = Mode.set.dataStart + 4 * i := by
  obtain ⟨j, -, -, rfl⟩ := Probe.seek_eq_free h
  exact ⟨_, position_lt .., rfl⟩

theorem ends_place (h : r.Sparse cfg .set L) (c : Coupon) :
    Ends Tenure (place L c) r (fun _ r' => r'.Sparse cfg .set L) fun f r' =>
      r'.Sparse cfg .set L ∧ f.report.kind ≠ .insufficientCapacity := by
  refine .read_bind ?_
  cases hfind : find L r c with
  | present => exact .fault ⟨h, nofun⟩
  | full => exact .fault ⟨h, nofun⟩
  | free o =>
    obtain ⟨i, -, rfl⟩ := find_eq_free hfind
    have hin := Region.within_setCoupon r (Mode.set.dataStart + 4 * i) c
    exact .write hin.tenure (h.within hin (by change 8 ≤ 12 + 4 * i; omega))

theorem ends_grow (h : r.Sparse cfg .set L) (hL : L + 1 ≤ Footprint.lgLargestTable cfg)
    (hb : r.backing ≠ .frozen) :
    Ends Tenure (grow (L + 1)) r (fun _ r' => r'.Sparse cfg .set (L + 1)) fun f r' =>
      (r'.Sparse cfg .set L ∨ r'.Sparse cfg .set (L + 1)) ∧
      (f.report.kind = .insufficientCapacity → r'.size < Footprint.most cfg) := by
  refine .read_bind ?_
  refine .bind ((Edit.ends_reserve _ hb).mono (fun _ r₁ ht₁ hgrown => ?_) fun f r' _ hshort => ?_)
  · obtain ⟨hsize, hbyte⟩ := hgrown
    have h₁ : (r₁.putLgArr (L + 1)).Sparse cfg .set (L + 1) := by
      obtain ⟨flags, hf, hh⟩ := h.headed
      refine ⟨⟨flags, hf, (hh.congr fun j _ _ => hbyte j).putLgArr ?_ _⟩, ?_⟩
      · unfold Footprint.sparse at hsize
        change 12 + _ ≤ _ at hsize
        omega
      · rw [Region.putLgArr, Region.size_setByte]
        exact hsize
    have hin := Region.within_zero (r₁.putLgArr (L + 1)) (offset 0) (4 * 2 ^ (L + 1))
    refine .write_bind ((Region.within_setByte ..).tenure.trans hin.tenure) ?_
    refine (Ends.forM (fun r => Region.Sparse cfg .set (L + 1) r) _ _ (fun c r' _ _ hr' =>
      (ends_place hr' c).mono (fun _ _ _ hr' => hr') fun f r' _ hfail => hfail)
      (h₁.within hin (by decide))).mono (fun _ _ _ hr' => hr') fun f r' _ hfail => ?_
    exact ⟨.inr hfail.1, fun h => absurd h hfail.2⟩
  · obtain ⟨rfl, hscant⟩ := hshort
    exact ⟨.inl h, fun _ => Nat.lt_of_lt_of_le hscant (Footprint.sparse_le_most hL)⟩

end CouponTable

/-- **A table that takes in a coupon leaves a legible image.** -/
theorem ends_insertTable (h : r.Legible cfg .set) (hb : r.backing ≠ .frozen)
    (hv : ∀ d ∈ c :: Contents.live .set r, d.value ≤ v (d.slot % cfg.k)) :
    Ends Tenure (CouponTable.insert cfg c) r (fun mode r' => r'.Legible cfg mode)
      (Fails cfg 0 v .set) := by
  obtain ⟨L, hleast, hmost, h⟩ := h
  have hL : L < 256 := lgArr_lt hmost
  have hr : r.Legible cfg .set := ⟨L, hleast, hmost, h⟩
  refine .read_bind ?_
  dsimp only
  rw [h.lgArr_eq hL]
  cases hfind : CouponTable.find L r c with
  | present => exact .done hr
  | full => exact .fault (.kept hr nofun)
  | free o =>
    obtain ⟨i, hi, rfl⟩ := CouponTable.find_eq_free hfind
    refine .write_bind (Region.within_setCoupon ..).tenure (.read_bind ?_)
    generalize (r.setCoupon (Mode.set.dataStart + 4 * i) c).setCount + 1 = count
    have hin : Region.Within 8 4 (r.setCoupon (Mode.set.dataStart + 4 * i) c)
      ((r.setCoupon (Mode.set.dataStart + 4 * i) c).putSetCount count) := Region.within_setWord ..
    obtain ⟨ht, hback, h', hlive⟩ := h.written hL hi hin (by decide) (.inr (Nat.le_refl 8))
    refine .write_bind ht ?_
    rw [← hback] at hb
    generalize ((r.setCoupon (Mode.set.dataStart + 4 * i) c).putSetCount count).putFlag .empty
      false = r₁ at h' hlive hb ⊢
    have hr₁ : r₁.Legible cfg .set := ⟨L, hleast, hmost, h'⟩
    split_ifs with hfull hlargest
    · exact ends_promote h' (by decide) hr₁ hb fun d hd => hv d
        ((hlive d hd).elim (fun hdc => hdc ▸ List.mem_cons_self) (List.mem_cons_of_mem _))
    · have hnext : L + 1 ≤ Footprint.lgLargestTable cfg := by omega
      refine .bind ((CouponTable.ends_grow h' hnext hb).mono
        (fun _ r' _ hr' => .done ⟨L + 1, by omega, hnext, hr'⟩) fun f r' _ ⟨hr', hscant⟩ => ?_)
      refine .kept ?_ fun hkind => .inl (hscant hkind)
      exact hr'.elim (⟨L, hleast, hmost, ·⟩) (⟨L + 1, by omega, hnext, ·⟩)
    · exact .done hr₁

/-! ## Lists -/

theorem CouponTable.ends_insert_of_room {slots : Nat → Coupon}
    (t : Holding.Tabled cfg.lgK L slots n) (h : Tabulated cfg L slots n r)
    (hroom : 4 * (n + 1) ≤ 3 * 2 ^ L) (hb : r.backing ≠ .frozen) (c : Coupon) :
    Ends Tenure (insert cfg c) r (fun mode r' => mode = .set ∧ ∃ slots' m, m ≤ n + 1 ∧
      Holding.Tabled cfg.lgK L slots' m ∧ Tabulated cfg L slots' m r') fun _ _ => False := by
  have hL := lgArr_lt t.most
  have hends : Ends Tenure (insert cfg c) r (fun _ _ => True) fun _ _ => False := by
    refine .read_bind ?_
    dsimp only
    rw [h.headed.lgArr_eq hL, h.find_eq]
    by_cases hmem : c ∈ Slots.live (2 ^ L) slots
    · rw [t.probed.seek_of_mem hmem]
      exact .done trivial
    obtain ⟨i, -, hs, hi, -⟩ :=
      Slots.Probed.seek_of_not_mem (Slots.covers_position L) hmem t.lt_room
    rw [hs]
    refine .write_bind (Region.within_setCoupon ..).tenure (.read_bind ?_)
    rw [(h.setCoupon hi c).counted]
    refine .write_bind ((Region.within_setWord ..).tenure.trans
      (Region.within_putFlag ..).tenure) ?_
    rw [if_neg (by omega)]
    exact .done trivial
  refine ((meets_insertTable t h hb c).ends hends).mono (fun mode r' _ ⟨_, hmode, hr'⟩ => ?_)
    fun _ _ _ hfail => hfail.1
  have hs : (Holding.table L slots n).Sound cfg.lgK := t
  have hsound := Holding.sound_raise hs c
  by_cases hmem : c ∈ Slots.live (2 ^ L) slots
  · rw [Holding.raise_of_mem hmem] at hmode hr'
    exact ⟨hmode, slots, n, Nat.le_succ n, t, hr'⟩
  · rw [Holding.raise_of_not_mem hmem] at hmode hr' hsound
    dsimp only at hmode hr' hsound
    rw [if_neg (by omega)] at hmode hr' hsound
    exact ⟨hmode, _, n + 1, Nat.le_refl _, hsound, hr'⟩

theorem CouponTable.ends_fill : ∀ (cs : List Coupon) (slots : Nat → Coupon) (n : Nat) (r : Region),
    Holding.Tabled cfg.lgK Footprint.lgTable slots n → Tabulated cfg Footprint.lgTable slots n r →
    n + cs.length ≤ 24 → r.backing ≠ .frozen →
    Ends Tenure (cs.foldlM (insertOrRaise cfg) .set) r (fun mode r' => r'.Legible cfg mode)
      fun _ _ => False
  | [], slots, n, r, t, h, _, _ => .done ⟨Footprint.lgTable, Nat.le_refl _, t.most,
      ⟨_, by decide, h.headed⟩, h.fits⟩
  | c :: cs, slots, n, r, t, h, hlen, hb => by
    rw [List.length_cons] at hlen
    rw [List.foldlM_cons]
    have hroom : 4 * (n + 1) ≤ 3 * 2 ^ Footprint.lgTable := by
      change 4 * (n + 1) ≤ 96
      omega
    refine .bind ((ends_insert_of_room t h hroom hb c).mono ?_ fun _ _ _ hfail => hfail)
    rintro mode r' ht ⟨rfl, slots', m, hm, t', h'⟩
    exact ends_fill cs slots' m r' t' h' (by omega) (by rwa [ht.backing])

/-- **A list that turns into a table** does so, or is left as it was for want of room. -/
theorem ends_toTable (h : r.Sparse cfg .list Footprint.lgList)
    (hlg : CouponList.lgTableFrom ≤ cfg.lgK) (hb : r.backing ≠ .frozen) :
    Ends Tenure (CouponList.toTable cfg) r (fun mode r' => r'.Legible cfg mode) fun _ r' =>
      r' = r ∧ r.size < Footprint.sparse .set Footprint.lgTable := by
  have hlen : (Contents.live .list r).length ≤ 8 := h.length_live_le (by decide)
  refine .read_bind ?_
  refine .bind ((Edit.ends_reserve _ hb).mono (fun _ r₁ ht₁ ⟨hsize, _⟩ => ?_)
    fun _ _ _ hfail => hfail)
  obtain ⟨hback, htable⟩ := tabulated_begun hsize (Nat.le_max_left _ (r.footprint cfg .list)) rfl
  refine .write_bind ((Region.within_putHeader ..).tenure.trans (Region.within_zero ..).tenure) ?_
  exact (CouponTable.ends_fill _ _ 0 _ (Holding.tabled_empty hlg) htable (by omega)
    (by rwa [hback, ht₁.backing])).mono (fun _ _ _ hr' => hr') fun _ _ _ hfail => hfail.elim

theorem CouponList.find_eq_free {m o : Nat} (h : find m r c = .free o) :
    ∃ i, i < m ∧ o = Mode.list.dataStart + 4 * i := by
  obtain ⟨i, -, hi, rfl⟩ := Probe.seek_eq_free h
  exact ⟨i, by omega, rfl⟩

/-- **A list that takes in a coupon leaves a legible image.** -/
theorem ends_insertList (h : r.Legible cfg .list) (hb : r.backing ≠ .frozen)
    (hv : ∀ d ∈ c :: Contents.live .list r, d.value ≤ v (d.slot % cfg.k)) :
    Ends Tenure (CouponList.insert cfg c) r (fun mode r' => r'.Legible cfg mode)
      (Fails cfg 0 v .list) := by
  have h : r.Sparse cfg .list Footprint.lgList := h
  refine .read_bind ?_
  dsimp only
  rw [h.lgArr_eq (by decide)]
  cases hfind : CouponList.find (2 ^ Footprint.lgList) r c with
  | present => exact .done h
  | full => exact .fault (.kept h nofun)
  | free o =>
    obtain ⟨i, hi, rfl⟩ := CouponList.find_eq_free hfind
    refine .write_bind (Region.within_setCoupon ..).tenure (.read_bind ?_)
    generalize (r.setCoupon (Mode.list.dataStart + 4 * i) c).listCount + 1 = count
    have hin : Region.Within 6 1 (r.setCoupon (Mode.list.dataStart + 4 * i) c)
      ((r.setCoupon (Mode.list.dataStart + 4 * i) c).putListCount count) :=
        Region.within_setByte ..
    obtain ⟨ht, hback, h', hlive⟩ :=
      h.written (by decide) hi hin (by decide) (.inl ⟨rfl, rfl⟩)
    refine .write_bind ht ?_
    rw [← hback] at hb
    generalize ((r.setCoupon (Mode.list.dataStart + 4 * i) c).putListCount count).putFlag .empty
      false = r₁ at h' hlive hb ⊢
    split_ifs with hfull hsmall
    · exact ends_promote h' (by decide) h' hb fun d hd => hv d
        ((hlive d hd).elim (fun hdc => hdc ▸ List.mem_cons_self) (List.mem_cons_of_mem _))
    · have hlg : CouponList.lgTableFrom ≤ cfg.lgK := Nat.le_of_not_lt hsmall
      have hmost : Footprint.lgTable ≤ Footprint.lgLargestTable cfg := by
        unfold CouponList.lgTableFrom at hlg
        unfold Footprint.lgTable Footprint.lgLargestTable
        omega
      refine (ends_toTable h' hlg hb).mono (fun _ _ _ hr' => hr') ?_
      rintro f r' - ⟨rfl, hscant⟩
      exact .kept h' fun _ => .inl (Nat.lt_of_lt_of_le hscant (Footprint.sparse_le_most hmost))
    · exact .done h'

/-! ## Every mode -/

/-- Fewer coupons than registers leave one of them at zero. -/
theorem eq_zero_of_le_peak {lgK : Nat} (hlen : cs.length < 2 ^ lgK)
    (hm : ∀ i, i < 2 ^ lgK → m ≤ peak lgK cs i) : m = 0 := by
  refine Nat.eq_zero_of_not_pos fun hpos => ?_
  have hsub : List.range (2 ^ lgK) ⊆ cs.map fun c => c.slot % 2 ^ lgK := by
    intro i hi
    obtain ⟨c, hc, hslot, -⟩ := (le_peak_iff hpos).1 (hm i (List.mem_range.1 hi))
    exact List.mem_map.2 ⟨c, hc, hslot⟩
  have hle := (List.nodup_range.subperm hsub).length_le
  rw [List.length_range, List.length_map] at hle
  omega

theorem Region.Legible.length_live_lt (h : r.Legible cfg mode) (hm : mode ≠ .dense) :
    (Contents.live mode r).length < cfg.k := by
  have hk := cfg.four_le
  cases mode with
  | list =>
    have hs : r.Sparse cfg .list Footprint.lgList := h
    have hlt : 2 ^ Footprint.lgList < cfg.k :=
      Nat.pow_lt_pow_right (by decide) (Nat.lt_of_lt_of_le (by decide) hk)
    exact Nat.lt_of_le_of_lt (hs.length_live_le (by decide)) hlt
  | set =>
    obtain ⟨L, -, hmost, hs⟩ := h
    have hL : L < cfg.lgK := by
      unfold Footprint.lgLargestTable at hmost
      omega
    exact Nat.lt_of_le_of_lt (hs.length_live_le (lgArr_lt hmost))
      (Nat.pow_lt_pow_right (by decide) hL)
  | dense => exact absurd rfl hm

/-- **An image that takes in a coupon is left legible**, in the mode that the sketch then notes or,
if that fails, in the mode it had; or else a promotion broke off and left registers. -/
theorem ends_edit (h : r.Legible cfg mode) (hb : r.backing ≠ .frozen)
    (hc : Contents.coupons cfg mode r = .ok cs) (hm : ∀ i, i < cfg.k → m ≤ peak cfg.lgK cs i)
    (hv : ∀ i, i < cfg.k → peak cfg.lgK (c :: cs) i ≤ v i) :
    Ends Tenure (Sketch.edit cfg c mode) r (fun mode r' => r'.Legible cfg mode)
      (Fails cfg m v mode) := by
  have hvalue : ∀ d ∈ c :: cs, d.value ≤ v (d.slot % cfg.k) := fun d hd =>
    (value_le_peak hd).trans (hv _ (Nat.mod_lt _ (Registers.k_pos cfg)))
  cases mode with
  | list =>
    cases hc
    cases eq_zero_of_le_peak (h.length_live_lt (by decide)) hm
    exact ends_insertList h hb hvalue
  | set =>
    cases hc
    cases eq_zero_of_le_peak (h.length_live_lt (by decide)) hm
    exact ends_insertTable h hb hvalue
  | dense =>
    obtain ⟨g, hd⟩ := h
    have hc : Registers.coupons cfg r = .ok cs := hc
    cases hd.coupons_eq.symm.trans hc
    have hpeak : ∀ i, i < cfg.k → peak cfg.lgK (risen cfg.lgK g.values) i = g.values i :=
      fun i hi => peak_risen_self (Nat.le_trans cfg.le_twentyOne (by decide))
        (fun i hi => hd.packed.bounded hi) hi
    have hle : ∀ i, i < cfg.k → g.values i ≤ v i := fun i hi => by
      have := hv i hi
      rw [peak_cons, hpeak i hi] at this
      exact (Nat.le_max_right ..).trans this
    refine .bind ((hd.ends_insert hb c (fun i hi => hpeak i hi ▸ hm i hi) hle
      (hvalue c List.mem_cons_self)).mono (fun _ r' _ hd' => .done ⟨_, hd'⟩) ?_)
    rintro f r' - ⟨rfl, hw, hscant⟩
    exact .kept ⟨g, hd⟩ fun _ => .inr ⟨hw, hscant⟩

end HyperLogLog
