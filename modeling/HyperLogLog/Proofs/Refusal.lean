import HyperLogLog.Proofs.Repetition

/-!
# What a refused coupon leaves behind

A list or a table that has no room for one more coupon turns into something larger. Whether lent
bytes are enough for that is found out when the coupon has been written and counted already.

* `Sketch.nextBytes`: what a list or a table needs to turn into what comes next;
* `Region.counted`: an image with one more coupon in its slots and in its count;
* `toDense_of_scant`, `toTable_of_scant`, `grow_of_scant`: the change of representation itself
  writes nothing where there is no room for it;
* `Listed.refused`, `Tabulated.refused`: by then the coupon has been written and counted;
* **`refused_coupon_counts`**: a coupon that is refused counts, and is accepted the next time;
* **`refused_coupon_written`**: such a coupon.
-/

namespace HyperLogLog

variable {cfg : Config} {mode : Mode} {r : Region} {L n : Nat} {slots : Nat → Coupon}
  {c : Coupon} {cs : List Coupon}

/-! ## Changes of representation without room -/

theorem Promotion.toDense_of_scant (hm : r.mode? = some mode)
    (hc : Contents.coupons cfg mode r = .ok cs) (hb : r.backing = .lent)
    (hs : r.size < Footprint.dense cfg 0) :
    Promotion.toDense cfg r = .error (.outOfRoom (Footprint.dense cfg 0) r.size) r := by
  refine EStateM.get_bind.trans ?_
  rw [hm]
  dsimp only
  rw [hc]
  refine EStateM.ofExcept_bind.trans ?_
  exact EStateM.bind_of_error (EStateM.bind_of_error (Region.reserve_of_scant hb hs))

theorem CouponList.toTable_of_scant (hb : r.backing = .lent)
    (hs : r.size < Footprint.sparse .set Footprint.lgTable) : CouponList.toTable cfg r =
      .error (.outOfRoom (Footprint.sparse .set Footprint.lgTable) r.size) r := by
  refine EStateM.get_bind.trans ?_
  exact EStateM.bind_of_error (Region.reserve_of_scant hb hs)

theorem CouponTable.grow_of_scant (hb : r.backing = .lent) (hs : r.size < Footprint.sparse .set L) :
    CouponTable.grow L r = .error (.outOfRoom (Footprint.sparse .set L) r.size) r := by
  refine EStateM.get_bind.trans ?_
  exact EStateM.bind_of_error (Region.reserve_of_scant hb hs)

/-! ## Coupons that are counted -/

/-- The image of a list or a table with a coupon in a slot, and one more in its count. -/
def Region.counted (r : Region) (mode : Mode) (o : Nat) (c : Coupon) : Region :=
  match mode with
  | .list => r.listed o c
  | .set | .dense => r.tabulated o c

/-- A coupon that is written and counted is in the list, even if that is full then. -/
theorem Listed.listed (h : Listed cfg cs n r) (hlen : cs.length < 8) (hn : n < 8)
    (c : Coupon) : Listed cfg (Holding.append cs c) (n + 1)
      (r.listed (CouponList.offset cs.length) c) := by
  have happ := h.append hlen hn c
  rwa [← h.counted] at happ ⊢

theorem Holding.Tabled.succ_lt (t : Holding.Tabled cfg.lgK L slots n) : n + 1 < 4294967296 := by
  have hmost := t.most
  have hroom := t.room
  have hlg := cfg.le_twentyOne
  have hpow : 2 ^ L ≤ 2 ^ 18 := Nat.pow_le_pow_right (by decide) (by omega)
  omega

theorem Tabulated.tabulated (h : Tabulated cfg L slots n r) {i : Nat} (hi : i < 2 ^ L)
    (hn : n + 1 < 4294967296) (c : Coupon) : Tabulated cfg L (Function.update slots i c) (n + 1)
      (r.tabulated (CouponTable.offset i) c) := by
  have hput := (h.setCoupon hi c).putCount hn
  rwa [← h.counted] at hput ⊢

/-! ## Coupons that are refused -/

/-- The bytes that a list needs to turn into what comes next. -/
def CouponList.nextBytes (cfg : Config) : Nat :=
  if cfg.lgK < lgTableFrom then Footprint.dense cfg 0
  else Footprint.sparse .set Footprint.lgTable

/-- The bytes that a table of `2 ^ lgArr` slots needs to turn into what comes next. -/
def CouponTable.nextBytes (cfg : Config) (lgArr : Nat) : Nat :=
  if Footprint.lgLargestTable cfg ≤ lgArr then Footprint.dense cfg 0
  else Footprint.sparse .set (lgArr + 1)

variable {f : Fault} {r' : Region}

/-- **A list without room for what comes next** refuses a coupon once it has written and counted
it. -/
theorem Listed.refused (h : Listed cfg cs n r) (l : Holding.Listable cs n) (hb : r.backing = .lent)
    (hs : r.size < CouponList.nextBytes cfg) (hx : CouponList.insert cfg c r = .error f r') :
    c ∉ cs ∧ f = .outOfRoom (CouponList.nextBytes cfg) r.size ∧
      CouponList.find 8 r c = .free (CouponList.offset cs.length) ∧
      r' = r.listed (CouponList.offset cs.length) c := by
  have hlen : cs.length < 8 := Nat.lt_of_le_of_lt l.counted l.room
  have hslots : 2 ^ r.lgArr = 8 := by rw [h.headed.lgArr_eq (by decide)]; rfl
  by_cases hc : c ∈ cs
  · cases (h.insert_known l.live (Nat.le_of_lt hlen) hc).symm.trans hx
  have hfind := h.find_eq (c := c) l.live hlen
  rw [if_neg hc] at hfind
  rw [CouponList.insert_of_free hslots hfind (Nat.le_add_right ..), h.counted] at hx
  have hnew := h.listed hlen l.room c
  have hlive := hnew.live_eq (Holding.ne_empty_append l.live c)
    ((Holding.length_append_le cs c).trans hlen)
  have htenure := r.tenure_listed (CouponList.offset cs.length) c
  suffices hstop : f = .outOfRoom (CouponList.nextBytes cfg) r.size ∧
      r' = r.listed (CouponList.offset cs.length) c from ⟨hc, hstop.1, hfind, hstop.2⟩
  rw [← htenure.size hb] at hs ⊢
  rw [← htenure.backing] at hb
  generalize r.listed (CouponList.offset cs.length) c = q at *
  by_cases hfull : 8 ≤ n + 1
  · rw [if_pos hfull] at hx
    unfold CouponList.nextBytes at hs ⊢
    by_cases hlg : cfg.lgK < CouponList.lgTableFrom
    · rw [if_pos hlg] at hx hs ⊢
      have hcoupons : Contents.coupons cfg .list q = .ok _ := congrArg Except.ok hlive
      have hrun := Promotion.toDense_of_scant hnew.headed.mode?_eq hcoupons hb hs
      cases (EStateM.bind_of_error hrun).symm.trans hx
      exact ⟨rfl, rfl⟩
    · rw [if_neg hlg] at hx hs ⊢
      cases (CouponList.toTable_of_scant hb hs).symm.trans hx
      exact ⟨rfl, rfl⟩
  · rw [if_neg hfull] at hx
    cases hx

/-- **A table without room for what comes next** refuses a coupon once it has written and counted
it. -/
theorem Tabulated.refused (h : Tabulated cfg L slots n r) (t : Holding.Tabled cfg.lgK L slots n)
    (hb : r.backing = .lent) (hs : r.size < CouponTable.nextBytes cfg L)
    (hx : CouponTable.insert cfg c r = .error f r') :
    c ∉ Slots.live (2 ^ L) slots ∧ f = .outOfRoom (CouponTable.nextBytes cfg L) r.size ∧
      ∃ i, i < 2 ^ L ∧
        Slots.put (CouponTable.position L) (2 ^ L) slots c = Function.update slots i c ∧
        CouponTable.find L r c = .free (CouponTable.offset i) ∧
        r' = r.tabulated (CouponTable.offset i) c := by
  have hL := lgArr_lt t.most
  by_cases hc : c ∈ Slots.live (2 ^ L) slots
  · cases (h.insert_known hL t.probed hc).symm.trans hx
  obtain ⟨i, -, hseek, hi, -⟩ :=
    Slots.Probed.seek_of_not_mem (Slots.covers_position L) hc t.lt_room
  have hput : Slots.put (CouponTable.position L) (2 ^ L) slots c = Function.update slots i c := by
    rw [Slots.put, hseek]
  have hfind := h.find_eq (c := c)
  rw [hseek] at hfind
  rw [CouponTable.insert_of_free (h.headed.lgArr_eq hL) hfind (Nat.le_add_right ..),
    h.counted] at hx
  have hnew := h.tabulated hi t.succ_lt c
  have hlive := hnew.live_eq hL
  have htenure := r.tenure_tabulated (CouponTable.offset i) c
  suffices hstop : f = .outOfRoom (CouponTable.nextBytes cfg L) r.size ∧
      r' = r.tabulated (CouponTable.offset i) c from ⟨hc, hstop.1, i, hi, hput, hfind, hstop.2⟩
  rw [← htenure.size hb] at hs ⊢
  rw [← htenure.backing] at hb
  generalize r.tabulated (CouponTable.offset i) c = q at *
  by_cases hfull : 3 * 2 ^ L < 4 * (n + 1)
  · rw [if_pos hfull] at hx
    unfold CouponTable.nextBytes at hs ⊢
    by_cases hmost : Footprint.lgLargestTable cfg ≤ L
    · rw [if_pos hmost] at hx hs ⊢
      have hcoupons : Contents.coupons cfg .set q = .ok _ := congrArg Except.ok hlive
      have hrun := Promotion.toDense_of_scant hnew.headed.mode?_eq hcoupons hb hs
      cases (EStateM.bind_of_error hrun).symm.trans hx
      exact ⟨rfl, rfl⟩
    · rw [if_neg hmost] at hx hs ⊢
      cases (EStateM.bind_of_error (CouponTable.grow_of_scant hb hs)).symm.trans hx
      exact ⟨rfl, rfl⟩
  · rw [if_neg hfull] at hx
    cases hx

/-! ## Sketches -/

namespace Sketch

variable {s u w : Sketch} {h : Holding}

/-- The bytes that a sketch needs to turn into what comes next. -/
def nextBytes (s : Sketch) : Nat :=
  match s.mode with
  | .list => CouponList.nextBytes s.config
  | .set | .dense => CouponTable.nextBytes s.config s.region.lgArr

/-- Where the search for a coupon ends. -/
def search (c : Coupon) (s : Sketch) : Probe :=
  match s.mode with
  | .list => CouponList.find (2 ^ s.region.lgArr) s.region c
  | .set | .dense => CouponTable.find s.region.lgArr s.region c

/-- A coupon that `s` refused for want of room has nevertheless been taken in. -/
structure RefusedLate (c : Coupon) (f : Fault) (s u : Sketch) : Prop where
  fault : f = .outOfRoom s.nextBytes s.region.size
  written : ∃ o, s.search c = .free o ∧ u = ⟨s.config, s.mode, s.region.counted s.mode o c⟩
  counted : Contents.count u.mode u.region = Contents.count s.mode s.region + 1
  fresh : ∃ cs, s.coupons = .ok cs ∧ c ∉ cs
  held : ∃ cs, u.coupons = .ok cs ∧ c ∈ cs
  again : Sketch.insert c u = .ok () u

theorem edit_of_error (hs : s.region.backing ≠ .frozen) (hx : insert c s = .error f u) :
    ∃ r, edit s.config c s.mode s.region = .error f r ∧ u = ⟨s.config, s.mode, r⟩ := by
  rw [insert_eq hs] at hx
  cases hedit : edit s.config c s.mode s.region with
  | ok mode r =>
    rw [hedit] at hx
    cases hx
  | error e r =>
    rw [hedit] at hx
    cases hx
    exact ⟨r, rfl, rfl⟩

theorem Keeps.refusedLate_list (hs : s.Keeps (.list cs n)) (hb : s.region.backing = .lent)
    (hroom : s.region.size < s.nextBytes) (hne : c ≠ .empty)
    (hx : Sketch.insert c s = .error f u) : RefusedLate c f s u := by
  obtain ⟨r', hedit, rfl⟩ := edit_of_error hs.writable hx
  obtain ⟨cfg, mode, r⟩ := s
  obtain rfl : mode = .list := hs.mode
  have l : Holding.Listable cs n := hs.sound
  have himg : Listed cfg cs n r := hs.image
  have hlen : cs.length < 8 := Nat.lt_of_le_of_lt l.counted l.room
  have hslots : 2 ^ r.lgArr = 8 := by rw [himg.headed.lgArr_eq (by decide)]; rfl
  obtain ⟨hnot, hfault, hfind, rfl⟩ := himg.refused l hb hroom hedit
  have hnew := himg.listed hlen l.room c
  have hlive := Holding.ne_empty_append l.live c
  have hlen' := (Holding.length_append_le cs c).trans hlen
  have hmem : c ∈ Holding.append cs c := by
    rw [Holding.append, if_neg hne]
    exact List.mem_append_right _ List.mem_cons_self
  have hback := (r.tenure_listed (CouponList.offset cs.length) c).backing.trans hb
  refine ⟨hfault, ⟨_, ?_, rfl⟩, ?_, ⟨cs, hs.coupons_eq, hnot⟩, ⟨_, ?_, hmem⟩, ?_⟩
  · exact (congrArg (CouponList.find · r c) hslots).trans hfind
  · exact hnew.counted.trans (congrArg (· + 1) himg.counted.symm)
  · exact congrArg Except.ok (hnew.live_eq hlive hlen')
  · rw [insert_eq (by rw [hback]; decide)]
    dsimp only [edit]
    rw [hnew.insert_known hlive hlen' hmem]

theorem Keeps.refusedLate_table (hs : s.Keeps (.table L slots n)) (hb : s.region.backing = .lent)
    (hroom : s.region.size < s.nextBytes) (hne : c ≠ .empty)
    (hx : Sketch.insert c s = .error f u) : RefusedLate c f s u := by
  obtain ⟨r', hedit, rfl⟩ := edit_of_error hs.writable hx
  obtain ⟨cfg, mode, r⟩ := s
  obtain rfl : mode = .set := hs.mode
  have t : Holding.Tabled cfg.lgK L slots n := hs.sound
  have himg : Tabulated cfg L slots n r := hs.image
  have hL := lgArr_lt t.most
  have hcov := Slots.covers_position L
  have hlgArr : r.lgArr = L := himg.headed.lgArr_eq hL
  have hnext : nextBytes ⟨cfg, .set, r⟩ = CouponTable.nextBytes cfg L :=
    congrArg (CouponTable.nextBytes cfg) hlgArr
  rw [hnext] at hroom
  obtain ⟨hnot, hfault, i, hi, hput, hfind, rfl⟩ := himg.refused t hb hroom hedit
  have hnew := himg.tabulated hi t.succ_lt c
  rw [← hput] at hnew
  have hmem : c ∈ Slots.live (2 ^ L) (Slots.put (CouponTable.position L) (2 ^ L) slots c) :=
    (t.probed.mem_put hcov hne t.lt_room).2 (.inl rfl)
  have hback := (r.tenure_tabulated (CouponTable.offset i) c).backing.trans hb
  refine ⟨hfault.trans (by rw [hnext]), ⟨_, ?_, rfl⟩, ?_, ⟨_, hs.coupons_eq, hnot⟩,
    ⟨_, ?_, hmem⟩, ?_⟩
  · exact (congrArg (CouponTable.find · r c) hlgArr).trans hfind
  · exact hnew.counted.trans (congrArg (· + 1) himg.counted.symm)
  · exact congrArg Except.ok (hnew.live_eq hL)
  · rw [insert_eq (by rw [hback]; decide)]
    dsimp only [edit]
    rw [hnew.insert_known hL (t.probed.put hcov t.lt_room) hmem]

/-- **A coupon that is refused for want of room counts.** In lent bytes that start with the image of
a reachable sketch, a list or a table refuses a coupon that it has no room to grow or to promote
for. By then it has written the coupon into the slot where its search ended, and has counted it. So
the same coupon, offered again, is accepted. -/
theorem refused_coupon_counts (hw : w.Reachable) (hs : s.Borrows w) (hm : s.mode ≠ .dense)
    (hroom : s.region.size < s.nextBytes) (hc : 0 < c.value) (hx : insert c s = .error f u) :
    RefusedLate c f s u := by
  obtain ⟨h, hw⟩ := hw.owns
  have hk := hw.toKeeps.of_image hs.config hs.mode (by rw [hs.lent]; decide) hs.image
  cases h with
  | list cs n => exact hk.refusedLate_list hs.lent hroom (Coupon.ne_empty hc) hx
  | table L slots n => exact hk.refusedLate_table hs.lent hroom (Coupon.ne_empty hc) hx
  | dense g => exact absurd hk.mode hm

/-- A sketch of seven coupons. -/
def seven : Sketch :=
  (outcome (insertAll [.pack 0 20, .pack 1 20, .pack 2 20, .pack 3 20, .pack 8 20, .pack 4 1,
    .pack 5 1]) (new { narrow.config with width := .eight })).2

/-- Its image in lent bytes, with none to spare. -/
def brimful : Sketch := ⟨seven.config, .list, ⟨seven.image, .lent⟩⟩

theorem reachable_seven : seven.Reachable := by
  obtain ⟨s, hs, -, -⟩ := (Owns.new { narrow.config with width := .eight }).insertAll
    [.pack 0 20, .pack 1 20, .pack 2 20, .pack 3 20, .pack 8 20, .pack 4 1, .pack 5 1]
  rw [seven, outcome_of_ok hs]
  exact (Reachable.new _).insertAll (by decide) hs

theorem brimful_borrows : brimful.Borrows seven where
  lent := rfl
  config := by rw [brimful]
  mode := by decide +kernel
  image := by decide +kernel

/-- An eighth coupon is refused where there are 40 bytes, and counts. -/
theorem refused_coupon_counts_eighth :
    seven.Reachable ∧ brimful.Borrows seven ∧ brimful.mode ≠ .dense ∧
      brimful.region.size < brimful.nextBytes ∧ 0 < (Coupon.pack 6 1).value ∧
      ∃ f u, insert (.pack 6 1) brimful = .error f u ∧ RefusedLate (.pack 6 1) f brimful u := by
  have hout : (outcome (insert (.pack 6 1)) brimful).1 = .error (.outOfRoom 56 40) := by
    decide +kernel
  have hmode : brimful.mode ≠ .dense := by decide
  have hroom : brimful.region.size < brimful.nextBytes := by decide +kernel
  have hpos : 0 < (Coupon.pack 6 1).value := by decide
  refine ⟨reachable_seven, brimful_borrows, hmode, hroom, hpos, ?_⟩
  cases hx : insert (.pack 6 1) brimful with
  | ok _ t =>
    rw [outcome_of_ok hx] at hout
    cases hout
  | error f u =>
    exact ⟨f, u, rfl,
      refused_coupon_counts reachable_seven brimful_borrows hmode hroom hpos hx⟩

/-- **The refusal has written**, and does not come twice. -/
theorem refused_coupon_written :
    let c : Coupon := .pack 6 1
    seven.Reachable ∧ brimful.Borrows seven ∧ brimful.mode = .list ∧
      (outcome (insert c) brimful).1 = .error (.outOfRoom 56 40) ∧
      (outcome (insert c) brimful).2.region.bytes ≠ brimful.region.bytes ∧
      (outcome (insert c) (outcome (insert c) brimful).2).1 = .ok () :=
  ⟨reachable_seven, brimful_borrows, rfl, by decide +kernel, by decide +kernel, by decide +kernel⟩

end Sketch

end HyperLogLog
