import HyperLogLog.Item
import HyperLogLog.Proofs.Probing
import HyperLogLog.Sparse.CouponList

/-!
# What a sketch holds, its register width left aside

A sketch goes from a list to a table to registers. What it holds at each moment is a value of its
own, and every change of the sketch is a function on such values. Lists and tables go by the count
in their header, which also counts the word of an empty slot, if one is taken in for a coupon.

* `Holding`: a list, a table or registers;
* `Holding.insert`, `Holding.promote`, `Holding.forget`: the changes;
* `Holding.Sound`: what is true of every holding that a sketch reaches;
* `Holding.Records`: a holding has exactly the observations of some coupons;
* **`sound_insert`**, **`records_insert`**: taking in a coupon keeps both;
* **`Records.peak_coupons`**: no representation loses or invents an observation.
-/

namespace HyperLogLog

/-! ## Coupons that are observations -/

theorem Coupon.ne_empty {c : Coupon} (h : 0 < c.value) : c ≠ .empty := by
  rintro rfl
  exact absurd h (by decide)

theorem Item.value_coupon_pos (i : Item) : 0 < i.coupon.value := by
  unfold Item.coupon Coupon.ofHash
  dsimp only
  rw [Coupon.value_pack_of_le _ (by omega)]
  omega

/-! ## Holdings -/

/-- What a sketch holds. -/
inductive Holding where
  /-- Distinct coupons in order of arrival, and how many the header counts. -/
  | list (coupons : List Coupon) (count : Nat)
  /-- Coupons in the `2 ^ lgArr` slots of a table, and how many the header counts. -/
  | table (lgArr : Nat) (slots : Nat → Coupon) (count : Nat)
  /-- Registers and their history. -/
  | dense (registers : Registry)

namespace Holding

variable {lgK L j i n : Nat} {slots : Nat → Coupon} {h : Holding} {c : Coupon}
  {cs ds : List Coupon}

/-- The representation. -/
def mode : Holding → Mode
  | list .. => .list
  | table .. => .set
  | dense _ => .dense

/-- The coupons are still in order of arrival. -/
def IsList : Holding → Prop
  | list .. => True
  | _ => False

/-- The coupons held; risen registers count as coupons. -/
def coupons (lgK : Nat) : Holding → List Coupon
  | list cs _ => cs
  | table lgArr slots _ => Slots.live (2 ^ lgArr) slots
  | dense g => risen lgK g.values

/-- The registers that coupons turn into. Their running total starts from the estimate of the
count. -/
def promote (lgK : Nat) (cs : List Coupon) (count : Nat) : Holding :=
  dense (Registry.replay lgK cs (Estimate.ofCoupons count))

/-- A table or registers take in a coupon. -/
def raise (lgK : Nat) : Holding → Coupon → Holding
  | list cs n, _ => list cs n
  | table lgArr slots n, c =>
    if c ∈ Slots.live (2 ^ lgArr) slots then table lgArr slots n
    else
      let slots := Slots.put (CouponTable.position lgArr) (2 ^ lgArr) slots c
      let cs := Slots.live (2 ^ lgArr) slots
      if 3 * 2 ^ lgArr < 4 * (n + 1) then
        if lgK - 3 ≤ lgArr then promote lgK cs (n + 1)
        else
          table (lgArr + 1)
            (Slots.rehash (CouponTable.position (lgArr + 1)) (2 ^ (lgArr + 1)) cs) (n + 1)
      else table lgArr slots (n + 1)
  | dense g, c => dense (g.take lgK c)

/-- A full list turns into registers or into a table. -/
def spill (lgK : Nat) (cs : List Coupon) (count : Nat) : Holding :=
  if lgK < CouponList.lgTableFrom then promote lgK cs count
  else cs.foldl (raise lgK) (table Footprint.lgTable (fun _ => .empty) 0)

/-- The list with a coupon after the last. The word of an empty slot leaves no trace there. -/
def append (cs : List Coupon) (c : Coupon) : List Coupon :=
  if c = .empty then cs else cs ++ [c]

/-- A sketch takes in a coupon. -/
def insert (lgK : Nat) : Holding → Coupon → Holding
  | list cs n, c =>
    if c ∈ cs then list cs n
    else if n + 1 < 8 then list (append cs c) (n + 1)
    else spill lgK (append cs c) (n + 1)
  | h, c => raise lgK h c

/-- The history of registers is declared void. -/
def forget : Holding → Holding
  | dense g => dense { g with history := { g.history with total := 0.0, outOfOrder := true } }
  | h => h

/-! ## What every holding satisfies -/

/-- A list that a sketch can hold. -/
structure Listable (cs : List Coupon) (n : Nat) : Prop where
  nodup : cs.Nodup
  live : ∀ c ∈ cs, c ≠ .empty
  counted : cs.length ≤ n
  room : n < 8

/-- A table that a sketch with `2 ^ lgK` registers can hold. -/
structure Tabled (lgK lgArr : Nat) (slots : Nat → Coupon) (n : Nat) : Prop where
  least : Footprint.lgTable ≤ lgArr
  most : lgArr ≤ lgK - 3
  probed : Slots.Probed (CouponTable.position lgArr) (2 ^ lgArr) slots
  counted : (Slots.live (2 ^ lgArr) slots).length ≤ n
  room : 4 * n ≤ 3 * 2 ^ lgArr

/-- A holding that a sketch with `2 ^ lgK` registers can have. -/
def Sound (lgK : Nat) : Holding → Prop
  | list cs n => Listable cs n
  | table lgArr slots n => Tabled lgK lgArr slots n
  | dense g => ∀ i, g.values i ≤ 63

/-- The holding has the observations of the coupons: as a list, the coupons in order of their first
occurrence; as a table, the coupons; as registers, their peaks. -/
def Records (lgK : Nat) (cs : List Coupon) : Holding → Prop
  | list ds _ => ds = cs.eraseDups
  | table lgArr slots _ => ∀ c, c ∈ Slots.live (2 ^ lgArr) slots ↔ c ∈ cs
  | dense g => ∀ i, i < 2 ^ lgK → g.values i = peak lgK cs i

theorem listable_nil : Listable [] 0 :=
  ⟨List.nodup_nil, fun _ hc => absurd hc List.not_mem_nil, Nat.le_refl _, by decide⟩

theorem Tabled.lt_room (t : Tabled lgK L slots n) : (Slots.live (2 ^ L) slots).length < 2 ^ L := by
  have := Nat.two_pow_pos L
  have := t.counted
  have := t.room
  omega

/-! ## Promotion -/

theorem sound_promote (lgK : Nat) (cs : List Coupon) (n : Nat) :
    (promote lgK cs n).Sound lgK := by
  intro i
  rw [Registry.values_replay]
  exact peak_le lgK cs i

theorem records_promote (h : ∀ c, c ∈ ds ↔ c ∈ cs) : (promote lgK ds n).Records lgK cs := by
  intro i _
  rw [Registry.values_replay]
  exact peak_congr fun c _ => h c

/-! ## Tables and registers -/

section Raise

theorem tabled_empty (hlg : CouponList.lgTableFrom ≤ lgK) :
    Tabled lgK Footprint.lgTable (fun _ => .empty) 0 := by
  have h8 : CouponList.lgTableFrom = 8 := rfl
  have h5 : Footprint.lgTable = 5 := rfl
  refine ⟨Nat.le_refl _, by omega, Slots.Probed.empty, ?_, Nat.zero_le _⟩
  rw [Slots.live_nil]
  exact Nat.zero_le _

theorem raise_of_not_mem (hc : c ∉ Slots.live (2 ^ L) slots) :
    raise lgK (table L slots n) c =
      let slots' := Slots.put (CouponTable.position L) (2 ^ L) slots c
      let cs := Slots.live (2 ^ L) slots'
      if 3 * 2 ^ L < 4 * (n + 1) then
        if lgK - 3 ≤ L then promote lgK cs (n + 1)
        else table (L + 1) (Slots.rehash (CouponTable.position (L + 1)) (2 ^ (L + 1)) cs) (n + 1)
      else table L slots' (n + 1) :=
  if_neg hc

theorem raise_of_mem (hc : c ∈ Slots.live (2 ^ L) slots) :
    raise lgK (table L slots n) c = table L slots n :=
  if_pos hc

theorem tabled_rehash (t : Tabled lgK L slots n) (hL : L < lgK - 3) (c : Coupon) :
    let cs := Slots.live (2 ^ L) (Slots.put (CouponTable.position L) (2 ^ L) slots c)
    let slots' := Slots.rehash (CouponTable.position (L + 1)) (2 ^ (L + 1)) cs
    Tabled lgK (L + 1) slots' (n + 1) ∧ ∀ d, d ∈ Slots.live (2 ^ (L + 1)) slots' ↔ d ∈ cs := by
  have hput := t.probed.put (c := c) (Slots.covers_position L) t.lt_room
  have hlen := t.probed.length_put_le (c := c) (Slots.covers_position L) t.lt_room
  have hcounted := t.counted
  have hroom := t.room
  have hpow : 2 ^ (L + 1) = 2 ^ L * 2 := Nat.pow_succ ..
  have h32 : 2 ^ 5 ≤ 2 ^ L := Nat.pow_le_pow_right (by decide) t.least
  obtain ⟨hp, hmem, hlen'⟩ := Slots.probed_rehash (Slots.covers_position (L + 1)) hput.nodup_live
    (fun d hd => (Slots.mem_live.1 hd).1) (by omega)
  exact ⟨⟨Nat.le_succ_of_le t.least, hL, hp, by omega, by omega⟩, hmem⟩

theorem sound_raise (hs : h.Sound lgK) (c : Coupon) : (h.raise lgK c).Sound lgK := by
  cases h with
  | list ds n => exact hs
  | dense g => exact fun i => Registry.values_take_le c hs i
  | table L slots n =>
    have t : Tabled lgK L slots n := hs
    by_cases hc : c ∈ Slots.live (2 ^ L) slots
    · rwa [raise_of_mem hc]
    rw [raise_of_not_mem hc]
    dsimp only
    split_ifs with hfull hmost
    · exact sound_promote _ _ _
    · exact (tabled_rehash t (by omega) c).1
    · have hlen := t.probed.length_put_le (c := c) (Slots.covers_position L) t.lt_room
      have hcounted := t.counted
      exact ⟨t.least, t.most, t.probed.put (Slots.covers_position L) t.lt_room, by omega, by omega⟩

theorem records_raise (hm : ¬ h.IsList) (hs : h.Sound lgK) (hne : c ≠ .empty)
    (hr : h.Records lgK cs) : (h.raise lgK c).Records lgK (cs ++ [c]) := by
  cases h with
  | list ds n => exact absurd trivial hm
  | dense g =>
    intro i hi
    rw [Registry.values_take, hr i hi, peak_append, peak_cons, peak_nil, Nat.max_zero]
  | table L slots n =>
    have t : Tabled lgK L slots n := hs
    by_cases hc : c ∈ Slots.live (2 ^ L) slots
    · rw [raise_of_mem hc]
      intro d
      rw [hr d, List.mem_append, List.mem_singleton, or_iff_left_of_imp]
      rintro rfl
      exact (hr d).1 hc
    have hmem : ∀ d, d ∈ Slots.live (2 ^ L) (Slots.put (CouponTable.position L) (2 ^ L) slots c) ↔
        d ∈ cs ++ [c] := fun d => by
      rw [t.probed.mem_put (Slots.covers_position L) hne t.lt_room, hr d, List.mem_append,
        List.mem_singleton, or_comm]
    rw [raise_of_not_mem hc]
    dsimp only
    split_ifs with hfull hmost
    · exact records_promote hmem
    · exact fun d => ((tabled_rehash t (by omega) c).2 d).trans (hmem d)
    · exact hmem

theorem not_isList_raise (lgK : Nat) (c : Coupon) (hm : ¬ h.IsList) : ¬ (h.raise lgK c).IsList := by
  cases h with
  | list ds n => exact absurd trivial hm
  | dense g => exact id
  | table L slots n =>
    unfold raise
    dsimp only
    split_ifs <;> exact id

theorem sound_foldl_raise (hm : ¬ h.IsList) (hs : h.Sound lgK) :
    ¬ (ds.foldl (raise lgK) h).IsList ∧ (ds.foldl (raise lgK) h).Sound lgK := by
  induction ds generalizing h with
  | nil => exact ⟨hm, hs⟩
  | cons d ds ih => exact ih (not_isList_raise _ _ hm) (sound_raise hs d)

theorem records_foldl_raise (hm : ¬ h.IsList) (hs : h.Sound lgK) (hr : h.Records lgK cs)
    (hds : ∀ d ∈ ds, d ≠ .empty) : (ds.foldl (raise lgK) h).Records lgK (cs ++ ds) := by
  induction ds generalizing h cs with
  | nil => rwa [List.append_nil]
  | cons d ds ih =>
    have := ih (not_isList_raise _ _ hm) (sound_raise hs d)
      (records_raise hm hs (hds d List.mem_cons_self) hr) fun e he =>
        hds e (List.mem_cons_of_mem _ he)
    rwa [List.append_assoc, List.singleton_append] at this

end Raise

/-! ## Lists -/

section List

theorem ne_empty_append (hcs : ∀ d ∈ cs, d ≠ .empty) (c : Coupon) :
    ∀ d ∈ append cs c, d ≠ .empty := by
  intro d hd
  unfold append at hd
  split_ifs at hd with hc
  · exact hcs d hd
  · rcases List.mem_append.1 hd with hd | hd
    · exact hcs d hd
    · rwa [List.mem_singleton.1 hd]

theorem length_append_le (cs : List Coupon) (c : Coupon) :
    (append cs c).length ≤ cs.length + 1 := by
  unfold append
  split_ifs <;> simp

theorem nodup_append (hnd : cs.Nodup) (hc : c ∉ cs) : (append cs c).Nodup := by
  unfold append
  split_ifs
  · exact hnd
  · exact List.nodup_append.2 ⟨hnd, List.nodup_singleton _, fun a ha b hb hab =>
      hc (by rwa [hab, List.mem_singleton.1 hb] at ha)⟩

theorem records_congr (hm : ¬ h.IsList) (hcd : ∀ c, c ∈ cs ↔ c ∈ ds)
    (hr : h.Records lgK cs) : h.Records lgK ds := by
  cases h with
  | list es n => exact absurd trivial hm
  | table L slots n => exact fun c => (hr c).trans (hcd c)
  | dense g => exact fun i hi => (hr i hi).trans (peak_congr fun c _ => hcd c)

theorem sound_spill (lgK : Nat) (cs : List Coupon) (n : Nat) : (spill lgK cs n).Sound lgK := by
  unfold spill
  split_ifs with hlg
  · exact sound_promote _ _ _
  · exact (sound_foldl_raise (h := table Footprint.lgTable (fun _ => .empty) 0) id
      (tabled_empty (Nat.le_of_not_lt hlg))).2

theorem not_isList_spill (lgK : Nat) (cs : List Coupon) (n : Nat) :
    ¬ (spill lgK cs n).IsList := by
  unfold spill
  split_ifs with hlg
  · exact id
  · exact (sound_foldl_raise (h := table Footprint.lgTable (fun _ => .empty) 0) id
      (tabled_empty (Nat.le_of_not_lt hlg))).1

theorem records_spill (hcs : ∀ c ∈ cs, c ≠ .empty) : (spill lgK cs n).Records lgK cs := by
  unfold spill
  split_ifs with hlg
  · exact records_promote fun _ => Iff.rfl
  · have hr : (table Footprint.lgTable (fun _ => .empty) 0).Records lgK [] := fun c => by
      rw [Slots.live_nil]
    have hs : (table Footprint.lgTable (fun _ => .empty) 0).Sound lgK :=
      tabled_empty (Nat.le_of_not_lt hlg)
    exact records_foldl_raise id hs hr hcs

end List

/-! ## Sketches -/

/-- **Whatever a sketch takes in, its holding stays sound.** -/
theorem sound_insert (hs : h.Sound lgK) (c : Coupon) : (h.insert lgK c).Sound lgK := by
  cases h with
  | table L slots n => exact sound_raise hs c
  | dense g => exact sound_raise hs c
  | list cs n =>
    have l : Listable cs n := hs
    have hlen := length_append_le cs c
    have hcounted := l.counted
    unfold insert
    dsimp only
    split_ifs with hmem hroom
    · exact hs
    · exact ⟨nodup_append l.nodup hmem, ne_empty_append l.live c, by omega, hroom⟩
    · exact sound_spill _ _ _

/-- **Taking in a coupon adds its observation**, whatever representation the sketch leaves and
whichever it enters. -/
theorem records_insert (hs : h.Sound lgK) (hne : c ≠ .empty) (hr : h.Records lgK cs) :
    (h.insert lgK c).Records lgK (cs ++ [c]) := by
  cases h with
  | table L slots n => exact records_raise (id) hs hne hr
  | dense g => exact records_raise (id) hs hne hr
  | list ds n =>
    have l : Listable ds n := hs
    have hr' : ds = cs.eraseDups := hr
    have hmem' : ∀ d, d ∈ ds ↔ d ∈ cs := fun d => by rw [hr', List.mem_eraseDups]
    have hdup : (cs ++ [c]).eraseDups = if c ∈ ds then ds else ds ++ [c] := by
      rw [List.eraseDups_append, ← hr']
      split_ifs with hcs
      · have : [c].removeAll cs = [] := by simpa [List.removeAll, hmem'] using hcs
        rw [this, List.eraseDups_nil, List.append_nil]
      · have : [c].removeAll cs = [c] := by simpa [List.removeAll, hmem'] using hcs
        rw [this]
        rfl
    have happ : append ds c = ds ++ [c] := if_neg hne
    unfold insert
    dsimp only
    split_ifs with hmem hroom
    · rw [Records, hdup, if_pos hmem]
    · rw [Records, hdup, if_neg hmem, happ]
    · have hrec : (spill lgK (append ds c) (n + 1)).Records lgK (append ds c) :=
        records_spill (ne_empty_append l.live c)
      refine records_congr (not_isList_spill _ _ _) (fun d => ?_) hrec
      rw [happ, List.mem_append, List.mem_append, hmem']

/-- **A run of a sketch adds the observations of its coupons.** -/
theorem records_foldl_insert (hs : h.Sound lgK) (hr : h.Records lgK cs)
    (hds : ∀ d ∈ ds, d ≠ .empty) : (ds.foldl (insert lgK) h).Records lgK (cs ++ ds) := by
  induction ds generalizing h cs with
  | nil => rwa [List.append_nil]
  | cons d ds ih =>
    have := ih (sound_insert hs d) (records_insert hs (hds d List.mem_cons_self) hr) fun e he =>
      hds e (List.mem_cons_of_mem _ he)
    rwa [List.append_assoc, List.singleton_append] at this

theorem sound_forget (hs : h.Sound lgK) : h.forget.Sound lgK := by
  cases h <;> exact hs

theorem records_forget (hr : h.Records lgK cs) : h.forget.Records lgK cs := by
  cases h <;> exact hr

/-! ## The coupons of a holding -/

theorem eraseDups_of_nodup (hnd : cs.Nodup) : cs.eraseDups = cs := by
  induction cs with
  | nil => rfl
  | cons c cs ih =>
    obtain ⟨hc, hnd⟩ := List.nodup_cons.1 hnd
    have hfilter : (cs.filter fun d => !d == c) = cs := List.filter_eq_self.2 fun d hd => by
      have : d ≠ c := fun e => hc (e ▸ hd)
      simpa using this
    rw [List.eraseDups_cons, hfilter, ih hnd]

theorem ne_empty_coupons (hs : h.Sound lgK) : ∀ c ∈ h.coupons lgK, c ≠ .empty := by
  cases h with
  | list cs n => exact Listable.live hs
  | table L slots n => exact fun c hc => (Slots.mem_live.1 hc).1
  | dense g =>
    intro c hc
    obtain ⟨s, -, hne, rfl⟩ := mem_risen.1 hc
    refine Coupon.ne_empty ?_
    rw [Coupon.value_pack_of_le _ (hs s)]
    exact Nat.pos_of_ne_zero hne

/-- **The coupons that a sketch hands out have the observations of those it took in**, at its own
size and at every smaller size; those of lists and tables, at every size. -/
theorem Records.peak_coupons (hk : lgK ≤ 26) (hj : h.mode = .dense → j ≤ lgK)
    (hr : h.Records lgK cs) (i : Nat) : peak j (h.coupons lgK) i = peak j cs i := by
  cases h with
  | list ds n =>
    have hr' : ds = cs.eraseDups := hr
    exact peak_congr fun c _ => by rw [coupons, hr', List.mem_eraseDups]
  | table L slots n => exact peak_congr fun c _ => hr c
  | dense g => exact peak_risen (hj rfl) hk hr

theorem records_coupons (hk : lgK ≤ 26) (hs : h.Sound lgK) : h.Records lgK (h.coupons lgK) := by
  cases h with
  | list ds n => exact (eraseDups_of_nodup (Listable.nodup hs)).symm
  | table L slots n => exact fun c => Iff.rfl
  | dense g => exact fun i hi => (peak_risen_self hk (fun s _ => hs s) hi).symm

end Holding

end HyperLogLog
