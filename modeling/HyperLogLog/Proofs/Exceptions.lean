import HyperLogLog.Dense.Exceptions
import HyperLogLog.Proofs.Edit
import Mathlib.Data.List.InsertIdx
import Mathlib.Data.List.Sort

/-!
# The exception table refines a finite map

A table whose entries are sorted by slot is a map from slots to registers: a search finds the entry
or the one place for it, and every operation is the one of the map.

* `Exceptions.Ascending`, `Exceptions.Sorted`: each entry has a smaller slot than the next;
* `Exceptions.Placed`: what the outcome of a search says of the table;
* **`placed_search`**, `get?_eq_some`: searching;
* **`meets_insert`**, **`meets_replace`**, **`entries_retain`**: what the table holds afterwards,
  and which bytes stay the same.
-/

namespace HyperLogLog.Exceptions

variable {cfg : Config} {r r' : Region} {slot value : Nat}

/-! ## Entries -/

theorem offset_eq (i : Nat) : offset cfg i = offset cfg 0 + 4 * i := by
  unfold offset
  omega

theorem forty_le_offset (cfg : Config) (i : Nat) : 40 ≤ offset cfg i := by
  unfold offset
  omega

@[simp] theorem length_entries (cfg : Config) (r : Region) :
    (entries cfg r).length = r.exceptionCount := by
  simp [entries, Region.coupons]

@[simp] theorem getElem_entries (i : Nat) (h : i < (entries cfg r).length) :
    (entries cfg r)[i] = r.coupon (offset cfg i) := by
  simp [entries, Region.coupons, offset_eq i]

theorem mem_entries {c : Coupon} :
    c ∈ entries cfg r ↔ ∃ i, i < r.exceptionCount ∧ r.coupon (offset cfg i) = c := by
  simp only [entries, Region.coupons, List.mem_map, List.mem_range]
  exact exists_congr fun i => and_congr_right fun _ => by rw [offset_eq i]

theorem entries_eq {l : List Coupon} (hn : r.exceptionCount = l.length)
    (h : ∀ i, (hi : i < l.length) → r.coupon (offset cfg i) = l[i]) : entries cfg r = l := by
  refine List.ext_getElem (by rw [length_entries, hn]) fun i h₁ h₂ => ?_
  rw [getElem_entries, h i h₂]

theorem entries_congr (hn : r'.exceptionCount = r.exceptionCount)
    (h : ∀ j, offset cfg 0 ≤ j → j < offset cfg r.exceptionCount → r'.byte j = r.byte j) :
    entries cfg r' = entries cfg r := by
  refine entries_eq (by rw [length_entries, hn]) fun i hi => ?_
  rw [length_entries] at hi
  rw [getElem_entries]
  refine Region.coupon_congr fun j h₁ h₂ => h j ?_ ?_
  · unfold offset at *; omega
  · unfold offset at *; omega

section Ascending

variable {es es' : List Coupon}

/-- The slots of the coupons rise. -/
def Ascending (es : List Coupon) : Prop := es.Pairwise fun a b => a.slot < b.slot

theorem Ascending.nodup_slots (h : Ascending es) : (es.map Coupon.slot).Nodup :=
  (List.pairwise_map.2 h).imp Nat.ne_of_lt

theorem Ascending.ext (h : Ascending es) (h' : Ascending es') (hmem : ∀ e, e ∈ es ↔ e ∈ es') :
    es = es' := by
  have : Std.Irrefl fun a b : Coupon => a.slot < b.slot := ⟨fun a => Nat.lt_irrefl a.slot⟩
  have : Std.Antisymm fun a b : Coupon => a.slot < b.slot :=
    ⟨fun _ _ hab hba => absurd hab (Nat.lt_asymm hba)⟩
  exact List.Pairwise.eq_of_mem_iff h h' hmem

end Ascending

/-- The slots of the entries rise. -/
def Sorted (cfg : Config) (r : Region) : Prop :=
  (entries cfg r).Pairwise fun a b => a.slot < b.slot

theorem Sorted.nodup_slots (h : Sorted cfg r) : ((entries cfg r).map Coupon.slot).Nodup :=
  Ascending.nodup_slots h

theorem Sorted.lt (h : Sorted cfg r) {i j : Nat} (hij : i < j) (hj : j < r.exceptionCount) :
    (r.coupon (offset cfg i)).slot < (r.coupon (offset cfg j)).slot := by
  have := List.pairwise_iff_getElem.1 h i j (by rw [length_entries]; omega)
    (by rw [length_entries]; omega) hij
  rwa [getElem_entries, getElem_entries] at this

theorem Sorted.injOn (h : Sorted cfg r) {i j : Nat} (hi : i < r.exceptionCount)
    (hj : j < r.exceptionCount)
    (hij : (r.coupon (offset cfg i)).slot = (r.coupon (offset cfg j)).slot) : i = j := by
  rcases Nat.lt_trichotomy i j with hlt | heq | hgt
  · exact absurd hij (Nat.ne_of_lt (h.lt hlt hj))
  · exact heq
  · exact absurd hij.symm (Nat.ne_of_lt (h.lt hgt hi))

theorem Sorted.index_le_slot (h : Sorted cfg r) :
    ∀ {i : Nat}, i < r.exceptionCount → i ≤ (r.coupon (offset cfg i)).slot
  | 0, _ => Nat.zero_le _
  | i + 1, hi => Nat.lt_of_le_of_lt (h.index_le_slot (by omega)) (h.lt (Nat.lt_succ_self i) hi)

theorem Sorted.count_le (h : Sorted cfg r) {n : Nat} (hn : ∀ c ∈ entries cfg r, c.slot < n) :
    r.exceptionCount ≤ n := by
  cases hc : r.exceptionCount with
  | zero => exact Nat.zero_le _
  | succ m =>
    have hm : m < r.exceptionCount := by omega
    exact Nat.lt_of_le_of_lt (h.index_le_slot hm) (hn _ (mem_entries.2 ⟨m, hm, rfl⟩))

/-- What lies beyond the last entry is cleared or was beyond it before. -/
def Tidies (cfg : Config) (r r' : Region) : Prop :=
  Region.Tidies (offset cfg r.exceptionCount) (offset cfg r'.exceptionCount) r r'

theorem Tidies.trans {r'' : Region} (h : Tidies cfg r r') (h' : Tidies cfg r' r'') :
    Tidies cfg r r'' :=
  Region.Tidies.trans h h'

/-! ## Searching -/

/-- What the outcome of a search says of the table. -/
def Placed (cfg : Config) (r : Region) (slot : Nat) : Place → Prop
  | .found i => i < r.exceptionCount ∧ (r.coupon (offset cfg i)).slot = slot
  | .missing i => i ≤ r.exceptionCount ∧
    (∀ j, j < i → (r.coupon (offset cfg j)).slot < slot) ∧
    ∀ j, i ≤ j → j < r.exceptionCount → slot < (r.coupon (offset cfg j)).slot

theorem placed_searchBetween (h : Sorted cfg r) {low high : Nat} (hlh : low ≤ high)
    (hh : high ≤ r.exceptionCount)
    (hlow : ∀ j, j < low → (r.coupon (offset cfg j)).slot < slot)
    (hhigh : ∀ j, high ≤ j → j < r.exceptionCount → slot < (r.coupon (offset cfg j)).slot) :
    Placed cfg r slot (searchBetween cfg r slot low high) := by
  fun_induction searchBetween cfg r slot low high with
  | case1 low high hlt middle here hless ih =>
    refine ih (by omega) hh (fun j hj => ?_) hhigh
    -- what comes before the middle has smaller slots still
    rcases Nat.lt_or_ge j middle with hjm | hjm
    · exact Nat.lt_trans (h.lt hjm (by omega)) hless
    · rwa [show j = middle by omega]
  | case2 low high hlt middle here _ hgreater ih =>
    refine ih (by omega) (by omega) hlow fun j hj hjn => ?_
    rcases Nat.lt_or_ge middle j with hmj | hmj
    · exact Nat.lt_trans hgreater (h.lt hmj hjn)
    · rwa [show j = middle by omega]
  | case3 low high hlt middle here hnl hng => exact ⟨by omega, by omega⟩
  | case4 low high hnlt =>
    exact ⟨by omega, hlow, fun j hj hjn => hhigh j (by omega) hjn⟩

/-- **A search in a sorted table finds the entry of a slot, or the one place for it.** -/
theorem placed_search (h : Sorted cfg r) (slot : Nat) : Placed cfg r slot (search cfg r slot) :=
  placed_searchBetween h (Nat.zero_le _) (Nat.le_refl _) (fun _ hj => absurd hj (Nat.not_lt_zero _))
    fun _ hj hjn => absurd hjn (Nat.not_lt.2 hj)

theorem search_of_mem (h : Sorted cfg r) {c : Coupon} (hc : c ∈ entries cfg r) :
    ∃ i, search cfg r c.slot = .found i ∧ i < r.exceptionCount ∧ r.coupon (offset cfg i) = c := by
  obtain ⟨i, hi, hic⟩ := mem_entries.1 hc
  have hp := placed_search h c.slot
  cases hs : search cfg r c.slot with
  | found j =>
    rw [hs] at hp
    obtain ⟨hj, hjc⟩ := hp
    obtain rfl := h.injOn hi hj (by rw [hic, hjc])
    exact ⟨i, rfl, hi, hic⟩
  | missing j =>
    rw [hs] at hp
    exfalso
    rcases Nat.lt_or_ge i j with hij | hij
    · exact absurd (hp.2.1 i hij) (by rw [hic]; omega)
    · exact absurd (hp.2.2 i hij hi) (by rw [hic]; omega)

theorem search_of_forall_ne (h : Sorted cfg r) (hc : ∀ c ∈ entries cfg r, c.slot ≠ slot) :
    ∃ i, search cfg r slot = .missing i ∧ i ≤ r.exceptionCount ∧
      (∀ j, j < i → (r.coupon (offset cfg j)).slot < slot) ∧
      ∀ j, i ≤ j → j < r.exceptionCount → slot < (r.coupon (offset cfg j)).slot := by
  have hp := placed_search h slot
  cases hs : search cfg r slot with
  | found j =>
    rw [hs] at hp
    exact absurd hp.2 (hc _ (mem_entries.2 ⟨j, hp.1, rfl⟩))
  | missing j =>
    rw [hs] at hp
    exact ⟨j, rfl, hp⟩

theorem get?_eq_some (h : Sorted cfg r) {c : Coupon} (hc : c ∈ entries cfg r) :
    get? cfg r c.slot = some c.value := by
  obtain ⟨i, hs, -, hi⟩ := search_of_mem h hc
  rw [get?, hs]
  exact congrArg (some ∘ Coupon.value) hi

/-! ## Adding an entry -/

theorem within_openGap (i : Nat) :
    ∀ (n : Nat) (r : Region), Region.Within (offset cfg (i + 1)) (4 * n) r (openGap cfg i n r)
  | 0, r => Region.Within.refl ..
  | n + 1, r => by
    have hn : offset cfg (i + n + 1) = offset cfg (i + 1) + 4 * n := by unfold offset; omega
    refine ((Region.within_setCoupon ..).mono ?_ ?_).trans ((within_openGap i n _).mono ?_ ?_)
    all_goals omega

theorem coupon_openGap (i : Nat) : ∀ (n : Nat) (r : Region) (j : Nat),
    offset cfg (i + n + 1) ≤ r.size →
      (openGap cfg i n r).coupon (offset cfg j) =
        if i < j ∧ j ≤ i + n then r.coupon (offset cfg (j - 1)) else r.coupon (offset cfg j)
  | 0, r, j, _ => by rw [openGap, if_neg (by omega)]
  | n + 1, r, j, hr => by
    have hw : offset cfg (i + n + 1) + 4 ≤ r.size := by
      have : offset cfg (i + (n + 1) + 1) = offset cfg (i + n + 1) + 4 := by unfold offset; omega
      omega
    have hs : ∀ l, (r.setCoupon (offset cfg (i + n + 1)) (r.coupon (offset cfg (i + n)))).coupon
        (offset cfg l) =
          if l = i + n + 1 then r.coupon (offset cfg (i + n)) else r.coupon (offset cfg l) := by
      intro l
      rw [offset_eq (i + n + 1), offset_eq l]
      exact Region.coupon_setCoupon _ (by rw [← offset_eq]; omega)
    rw [openGap, coupon_openGap i n _ j (by rw [Region.size_setCoupon]; omega), hs, hs]
    split_ifs with h₁ h₂ h₃ h₄ h₅ h₆
    all_goals first | rfl | omega | skip
    all_goals congr 2; omega

theorem entries_openGap {i : Nat} (c : Coupon) (hi : i ≤ r.exceptionCount)
    (hn : r.exceptionCount + 1 < 4294967296) (hr : offset cfg (r.exceptionCount + 1) ≤ r.size) :
    entries cfg (((openGap cfg i (r.exceptionCount - i) r).setCoupon (offset cfg i) c
      ).putExceptionCount (r.exceptionCount + 1)) = (entries cfg r).insertIdx i c := by
  have hsize : (openGap cfg i (r.exceptionCount - i) r).size = r.size := (within_openGap ..).size
  have hlen : ((entries cfg r).insertIdx i c).length = r.exceptionCount + 1 := by
    rw [List.length_insertIdx_of_le_length (by rw [length_entries]; exact hi), length_entries]
  have h36 := forty_le_offset cfg
  refine entries_eq ?_ fun j hj => ?_
  · rw [hlen, Region.exceptionCount, Region.putExceptionCount, Region.word_setWord_self,
      UInt32.toNat_ofNat_of_lt' hn]
    rw [Region.size_setCoupon, hsize]
    have := h36 (r.exceptionCount + 1)
    omega
  · rw [hlen] at hj
    rw [Region.putExceptionCount, (Region.within_setWord ..).coupon (.inr (h36 j)), offset_eq i,
      offset_eq j, Region.coupon_setCoupon, ← offset_eq, coupon_openGap]
    · rw [List.getElem_insertIdx]
      split_ifs with h₁ h₂ h₃ h₄
      all_goals first | rfl | omega | skip
      all_goals rw [getElem_entries]
    · rwa [show i + (r.exceptionCount - i) + 1 = r.exceptionCount + 1 by omega]
    · rw [← offset_eq, hsize]
      have : offset cfg i + 4 ≤ offset cfg (r.exceptionCount + 1) := by unfold offset; omega
      omega

/-- The bytes of an image that are neither the number of exceptions nor in their table, of which the
first `n` entries are used. -/
def Outside (cfg : Config) (n j : Nat) : Prop :=
  j < 36 ∨ 40 ≤ j ∧ j < offset cfg 0 ∨ offset cfg n ≤ j

theorem pairwise_insertIdx (h : Sorted cfg r) {i : Nat} (hi : i ≤ r.exceptionCount) (c : Coupon)
    (hlow : ∀ j, j < i → (r.coupon (offset cfg j)).slot < c.slot)
    (hhigh : ∀ j, i ≤ j → j < r.exceptionCount → c.slot < (r.coupon (offset cfg j)).slot) :
    ((entries cfg r).insertIdx i c).Pairwise fun a b => a.slot < b.slot := by
  refine List.pairwise_iff_getElem.2 fun a b ha hb hab => ?_
  rw [List.length_insertIdx_of_le_length (by rwa [length_entries]), length_entries] at ha hb
  rw [List.getElem_insertIdx, List.getElem_insertIdx]
  split_ifs with h₁ h₂ h₃ h₄ h₅ h₆ h₇
  all_goals first | omega | skip
  all_goals try simp only [getElem_entries]
  · exact h.lt hab (by omega)
  · exact hlow a h₁
  · exact h.lt (by omega) (by omega)
  · exact hhigh _ (by omega) (by omega)
  · exact h.lt (by omega) (by omega)

/-- **Adding an entry for a slot without one** extends the map, and no byte before the table
changes but the count. -/
theorem meets_insert (h : Sorted cfg r) (hslot : slot < 67108864)
    (hc : ∀ c ∈ entries cfg r, c.slot ≠ slot) (hn : r.exceptionCount + 1 < 4294967296)
    (hw : r.backing ≠ .frozen) :
    (insert cfg slot value).Meets r fun _ r' =>
      Sorted cfg r' ∧ r'.exceptionCount = r.exceptionCount + 1 ∧
      (∀ c, c ∈ entries cfg r' ↔ c = .pack slot value ∨ c ∈ entries cfg r) ∧
      r.size ≤ r'.size ∧ offset cfg (r.exceptionCount + 1) ≤ r'.size ∧
      ∀ j, Outside cfg (r.exceptionCount + 1) j → r'.byte j = r.byte j := by
  obtain ⟨i, hs, hi, hlow, hhigh⟩ := search_of_forall_ne h hc
  refine Edit.Meets.read_bind ?_
  rw [hs]
  refine Edit.Meets.bind ((Edit.meets_reserve _ hw).mono fun _ r₁ hb₁ ⟨hsize, hle, hbyte⟩ => ?_)
  -- making room changes no byte, so the table is what it was
  have hcount : r₁.exceptionCount = r.exceptionCount :=
    congrArg UInt32.toNat (Region.word_congr fun j _ _ => hbyte j)
  have hentries : entries cfg r₁ = entries cfg r := entries_congr hcount fun j _ _ => hbyte j
  have hcoupon : ∀ j, r₁.coupon (offset cfg j) = r.coupon (offset cfg j) := fun j =>
    Region.coupon_congr fun l _ _ => hbyte l
  have hnew := @entries_openGap cfg r₁ i (.pack slot value) (by omega) (by omega)
    (by rw [hcount]; exact hsize)
  rw [hcount, hentries] at hnew
  have hgap : (openGap cfg i (r.exceptionCount - i) r₁).size = r₁.size := (within_openGap ..).size
  have hput : ∀ r' : Region, ∀ n, (r'.putExceptionCount n).size = r'.size := fun r' n =>
    Region.size_setWord ..
  have hslotc := Coupon.slot_pack_of_lt value hslot
  refine Edit.Meets.write ?_ ⟨?_, ?_, fun c => ?_, ?_, ?_, fun j hj => ?_⟩
  · rw [Region.putExceptionCount, Region.backing_setWord, Region.backing_setCoupon,
      (within_openGap ..).backing]
  · rw [Sorted, hnew]
    exact pairwise_insertIdx h hi _ (by rwa [hslotc]) (by rwa [hslotc])
  · rw [← length_entries cfg, hnew,
      List.length_insertIdx_of_le_length (by rwa [length_entries]), length_entries]
  · rw [hnew, List.mem_insertIdx (by rwa [length_entries])]
  · rw [hput, Region.size_setCoupon, hgap]
    exact hle
  · rw [hput, Region.size_setCoupon, hgap]
    exact hsize
  · have h0 : offset cfg i + 4 ≤ offset cfg (r.exceptionCount + 1) := by unfold offset; omega
    have h1 : offset cfg (i + 1) = offset cfg i + 4 := by unfold offset; omega
    have h2 : offset cfg (r.exceptionCount + 1) =
        offset cfg (i + 1) + 4 * (r.exceptionCount - i) := by unfold offset; omega
    have h3 : offset cfg 0 ≤ offset cfg i := by unfold offset; omega
    have h4 := forty_le_offset cfg 0
    unfold Outside at hj
    rw [Region.putExceptionCount, (Region.within_setWord ..).byte j (by omega),
      (Region.within_setCoupon ..).byte j (by omega), (within_openGap ..).byte j (by omega),
      hbyte]

/-- **Where there is no room for one more entry**, nothing is written. -/
theorem insert_of_scant (h : Sorted cfg r) (hc : ∀ c ∈ entries cfg r, c.slot ≠ slot)
    (hb : r.backing = .lent) (hs : r.size < offset cfg (r.exceptionCount + 1)) :
    insert cfg slot value r =
      .error (.outOfRoom (offset cfg (r.exceptionCount + 1)) r.size) r := by
  obtain ⟨i, hsearch, -⟩ := search_of_forall_ne h hc
  refine EStateM.get_bind.trans ?_
  rw [hsearch]
  exact EStateM.bind_of_error (Region.reserve_of_scant hb hs)

/-! ## Changing an entry -/

/-- **Replacing the register of an entry** changes that entry alone. -/
theorem meets_replace (h : Sorted cfg r) (hslot : slot < 67108864) {c : Coupon}
    (hc : c ∈ entries cfg r) (hcs : c.slot = slot)
    (hr : offset cfg r.exceptionCount ≤ r.size) :
    (replace cfg slot value).Meets r fun _ r' =>
      Sorted cfg r' ∧ r'.exceptionCount = r.exceptionCount ∧
      (∀ d, d ∈ entries cfg r' ↔ d = .pack slot value ∨ d ∈ entries cfg r ∧ d.slot ≠ slot) ∧
      r'.size = r.size ∧ ∀ j, Outside cfg r.exceptionCount j → r'.byte j = r.byte j := by
  obtain ⟨i, hs, hi, hic⟩ := search_of_mem h hc
  rw [hcs] at hs
  refine Edit.Meets.read_bind ?_
  rw [hs]
  have hoff : offset cfg i + 4 ≤ offset cfg r.exceptionCount := by unfold offset; omega
  have hcount : (r.setCoupon (offset cfg i) (.pack slot value)).exceptionCount =
      r.exceptionCount := by
    have := forty_le_offset cfg i
    exact congrArg UInt32.toNat ((Region.within_setCoupon ..).word (by omega))
  have hslotc := Coupon.slot_pack_of_lt value hslot
  have hget : ∀ j, (r.setCoupon (offset cfg i) (.pack slot value)).coupon (offset cfg j) =
      if j = i then .pack slot value else r.coupon (offset cfg j) := by
    intro j
    rw [offset_eq i, offset_eq j]
    exact Region.coupon_setCoupon _ (by rw [← offset_eq]; omega)
  have hslots : ∀ j, ((r.setCoupon (offset cfg i) (.pack slot value)).coupon
      (offset cfg j)).slot = (r.coupon (offset cfg j)).slot := by
    intro j
    rw [hget]
    split_ifs with hj
    · rw [hslotc, hj, hic, hcs]
    · rfl
  refine Edit.Meets.write (Region.backing_setCoupon ..)
    ⟨?_, hcount, fun d => ?_, Region.size_setCoupon .., fun j hj => ?_⟩
  · refine List.pairwise_iff_getElem.2 fun a b ha hb hab => ?_
    rw [length_entries, hcount] at ha hb
    rw [getElem_entries, getElem_entries, hslots, hslots]
    exact h.lt hab hb
  · rw [mem_entries, mem_entries, hcount]
    constructor
    · rintro ⟨j, hj, rfl⟩
      rw [hget]
      split_ifs with hji
      · exact .inl rfl
      · exact .inr ⟨⟨j, hj, rfl⟩, fun e => hji (h.injOn hj hi (by rw [e, hic, hcs]))⟩
    · rintro (rfl | ⟨⟨j, hj, rfl⟩, hne⟩)
      · exact ⟨i, hi, by rw [hget, if_pos rfl]⟩
      · refine ⟨j, hj, ?_⟩
        rw [hget, if_neg]
        rintro rfl
        exact hne (by rw [hic, hcs])
  · have h3 : offset cfg 0 ≤ offset cfg i := by unfold offset; omega
    have h4 := forty_le_offset cfg 0
    unfold Outside at hj
    exact (Region.within_setCoupon ..).byte j (by omega)

/-! ## Keeping some entries -/

theorem within_setCoupons : ∀ (cs : List Coupon) (r : Region) (i : Nat),
    Region.Within i (4 * cs.length) r (r.setCoupons i cs)
  | [], r, i => Region.Within.refl ..
  | c :: cs, r, i => by
    rw [Region.setCoupons, List.length_cons]
    exact ((Region.within_setCoupon ..).mono (by omega) (by omega)).trans
      ((within_setCoupons cs _ (i + 4)).mono (by omega) (by omega))

theorem coupon_setCoupons : ∀ (cs : List Coupon) (r : Region) (i j : Nat) (hj : j < cs.length),
    i + 4 * cs.length ≤ r.size → (r.setCoupons i cs).coupon (i + 4 * j) = cs[j]
  | c :: cs, r, i, 0, _, hr => by
    rw [List.length_cons] at hr
    rw [Region.setCoupons, (within_setCoupons ..).coupon (by omega)]
    exact Region.coupon_setCoupon_self c (by omega)
  | c :: cs, r, i, j + 1, hj, hr => by
    rw [List.length_cons] at hj hr
    rw [Region.setCoupons, show i + 4 * (j + 1) = i + 4 + 4 * j by omega,
      coupon_setCoupons cs _ (i + 4) j (by omega) (by rw [Region.size_setCoupon]; omega)]
    rfl

theorem byte_retain {kept : List Coupon} (hk : kept.length ≤ r.exceptionCount) {j : Nat}
    (hj : Outside cfg r.exceptionCount j) : (retain cfg kept r).byte j = r.byte j := by
  have h1 : offset cfg r.exceptionCount = offset cfg 0 + 4 * r.exceptionCount := offset_eq _
  have h2 : offset cfg kept.length = offset cfg 0 + 4 * kept.length := offset_eq _
  have h4 := forty_le_offset cfg 0
  unfold Outside at hj
  unfold retain
  dsimp only
  rw [Region.putExceptionCount, (Region.within_setWord ..).byte j (by omega),
    (Region.within_zero ..).byte j (by omega), (within_setCoupons ..).byte j (by omega)]

theorem tidies_retain {kept : List Coupon} (hk : kept.length ≤ r.exceptionCount) :
    Region.Tidies (offset cfg r.exceptionCount) (offset cfg kept.length) r (retain cfg kept r) := by
  intro j hj
  have h40 := forty_le_offset cfg kept.length
  rcases Nat.lt_or_ge j (offset cfg r.exceptionCount) with hlt | hge
  · left
    unfold retain
    dsimp only
    rw [Region.putExceptionCount, (Region.within_setWord ..).byte j (.inr (by omega)),
      Region.byte_zero_inside hj]
    unfold offset at hlt ⊢
    omega
  · exact .inr ⟨hge, byte_retain hk (.inr (.inr hge))⟩

theorem size_retain (kept : List Coupon) : (retain cfg kept r).size = r.size := by
  unfold retain
  dsimp only
  rw [Region.putExceptionCount, Region.size_setWord, Region.size_zero, (within_setCoupons ..).size]

theorem backing_retain (kept : List Coupon) : (retain cfg kept r).backing = r.backing := by
  unfold retain
  dsimp only
  rw [Region.putExceptionCount, Region.backing_setWord, Region.backing_zero,
    (within_setCoupons ..).backing]

/-- **A table with some entries kept** has exactly these. -/
theorem entries_retain {kept : List Coupon} (hk : kept.length ≤ r.exceptionCount)
    (hr : offset cfg r.exceptionCount ≤ r.size) : entries cfg (retain cfg kept r) = kept := by
  have hn : r.exceptionCount < 4294967296 := (r.word 36).toNat_lt
  have h1 : offset cfg r.exceptionCount = offset cfg 0 + 4 * r.exceptionCount := offset_eq _
  have h2 : offset cfg kept.length = offset cfg 0 + 4 * kept.length := offset_eq _
  have h4 := forty_le_offset cfg 0
  unfold retain
  dsimp only
  refine entries_eq ?_ fun i hi => ?_
  · rw [Region.exceptionCount, Region.putExceptionCount, Region.word_setWord_self,
      UInt32.toNat_ofNat_of_lt' (by change kept.length < 4294967296; omega)]
    rw [Region.size_zero, (within_setCoupons ..).size]
    omega
  · rw [Region.putExceptionCount, (Region.within_setWord ..).coupon, offset_eq i,
      (Region.within_zero ..).coupon (by omega), coupon_setCoupons _ _ _ _ hi (by omega)]
    have := forty_le_offset cfg i
    omega

end HyperLogLog.Exceptions
