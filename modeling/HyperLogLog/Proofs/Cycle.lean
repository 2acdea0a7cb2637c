import HyperLogLog.Proofs.Sparse
import Mathlib.Dynamics.PeriodicPts.Defs

/-!
# A search goes once round its table

A search walks from slot to slot by the stride of its coupon, in words of 32 bits. It keeps no count
of its steps and stops at an empty slot, at the coupon, or where it began. An odd stride goes round
a table of `2 ^ lgArr` slots and leaves none out, so the search stops in time, and when it is back
it has tried them all.

* `CouponTable.next`, `CouponTable.tried`: the walk from slot to slot;
* `CouponTable.Walks`: where a walk ends, and after how many reads;
* `CouponTable.Rounds`: a walk that goes round the table;
* `toNat_tried`: the slots of the walk are the probe sequence of the coupon;
* `rounds`: every walk goes round, and no sum on its way overflows;
* **`find_walks`**: a search ends after one round at most, and where the walk does.
-/

namespace HyperLogLog.CouponTable

variable {lgArr : Nat} {r : Region} {c : Coupon}

/-! ## The walk -/

/-- The bits that number the slots. -/
def mask (lgArr : Nat) : UInt32 := (1 <<< UInt32.ofNat lgArr) - 1

/-- The slot that a coupon tries first. -/
def first (lgArr : Nat) (c : Coupon) : UInt32 := c.word &&& mask lgArr

/-- The stride of a coupon, from the bits of its address that did not choose the first slot. -/
def pace (lgArr : Nat) (c : Coupon) : UInt32 :=
  ((c.word &&& 0x3ffffff) >>> UInt32.ofNat lgArr) ||| 1

/-- The slot that a coupon tries after another. -/
def next (lgArr : Nat) (c : Coupon) (t : UInt32) : UInt32 := (t + pace lgArr c) &&& mask lgArr

/-- The slot that a coupon tries after `j` others. -/
def tried (lgArr : Nat) (c : Coupon) (j : Nat) : UInt32 := (next lgArr c)^[j] (first lgArr c)

/-- What is in the slot that a coupon tries after `j` others. -/
def seen (lgArr : Nat) (r : Region) (c : Coupon) (j : Nat) : Coupon :=
  r.coupon (offset (tried lgArr c j).toNat)

/-- The walk of a search from the slot `t` on, the number of slots it reads, and its outcome. -/
inductive Walks (lgArr : Nat) (r : Region) (c : Coupon) : UInt32 → Nat → Probe → Prop where
  /-- It stops at an empty slot. -/
  | free {t : UInt32} (here : r.coupon (offset t.toNat) = .empty) :
    Walks lgArr r c t 1 (.free (offset t.toNat))
  /-- It stops at the coupon. -/
  | present {t : UInt32} (taken : r.coupon (offset t.toNat) ≠ .empty)
    (here : r.coupon (offset t.toNat) = c) : Walks lgArr r c t 1 .present
  /-- It stops when the next slot is the first. -/
  | full {t : UInt32} (taken : r.coupon (offset t.toNat) ≠ .empty)
    (other : r.coupon (offset t.toNat) ≠ c) (back : next lgArr c t = first lgArr c) :
    Walks lgArr r c t 1 .full
  /-- It goes on to the next slot. -/
  | on {t : UInt32} {n : Nat} {o : Probe} (taken : r.coupon (offset t.toNat) ≠ .empty)
    (other : r.coupon (offset t.toNat) ≠ c) (ahead : next lgArr c t ≠ first lgArr c)
    (rest : Walks lgArr r c (next lgArr c t) n o) : Walks lgArr r c t (n + 1) o

theorem Walks.unique {t : UInt32} {n m : Nat} {o p : Probe} (h : Walks lgArr r c t n o)
    (h' : Walks lgArr r c t m p) : m = n ∧ p = o := by
  induction h generalizing m p with
  | free here =>
    cases h' with
    | free => exact ⟨rfl, rfl⟩
    | present taken | full taken | on taken => exact absurd here taken
  | present taken here =>
    cases h' with
    | present => exact ⟨rfl, rfl⟩
    | free empty => exact absurd empty taken
    | full _ other | on _ other => exact absurd here other
  | full taken other back =>
    cases h' with
    | full => exact ⟨rfl, rfl⟩
    | free empty => exact absurd empty taken
    | present _ here => exact absurd here other
    | on _ _ ahead => exact absurd back ahead
  | on taken other ahead _ ih =>
    cases h' with
    | free empty => exact absurd empty taken
    | present _ here => exact absurd here other
    | full _ _ back => exact absurd back ahead
    | on _ _ _ rest =>
      obtain ⟨rfl, rfl⟩ := ih rest
      exact ⟨rfl, rfl⟩

/-! ## Words as numbers -/

theorem toNat_mask (h : lgArr ≤ 26) : (mask lgArr).toNat = 2 ^ lgArr - 1 := by
  have hpow : 2 ^ lgArr ≤ 2 ^ 26 := Nat.pow_le_pow_right (by decide) h
  have hshift : (1 <<< UInt32.ofNat lgArr : UInt32).toNat = 2 ^ lgArr := by
    rw [UInt32.toNat_shiftLeft, UInt32.toNat_ofNat_of_lt' (by change lgArr < 2 ^ 32; omega),
      Nat.mod_eq_of_lt (a := lgArr) (by omega), Nat.shiftLeft_eq, UInt32.toNat_one, Nat.one_mul,
      Nat.mod_eq_of_lt (by omega)]
  have hone : (1 : UInt32) ≤ 1 <<< UInt32.ofNat lgArr := by
    rw [UInt32.le_iff_toNat_le, hshift]
    exact Nat.one_le_two_pow
  rw [mask, UInt32.toNat_sub_of_le _ _ hone, hshift]
  rfl

theorem toNat_first (h : lgArr ≤ 26) : (first lgArr c).toNat = position lgArr c 0 := by
  rw [first, UInt32.toNat_and, toNat_mask h, Nat.and_two_pow_sub_one_eq_mod, position, Nat.zero_mul,
    Nat.add_zero]
  rfl

theorem or_one (n : Nat) : n ||| 1 = 2 * (n / 2) + 1 := by
  refine Nat.eq_of_testBit_eq fun i => ?_
  cases i with
  | zero => simp
  | succ i =>
    have hodd : (2 * (n / 2) + 1) / 2 = n / 2 := by omega
    rw [Nat.testBit_succ, Nat.testBit_succ, Nat.or_div_two, hodd]
    simp

theorem toNat_pace (h : lgArr ≤ 26) : (pace lgArr c).toNat = stride lgArr c := by
  rw [pace, UInt32.toNat_or, UInt32.toNat_shiftRight, UInt32.toNat_and,
    UInt32.toNat_ofNat_of_lt' (by change lgArr < 2 ^ 32; omega),
    Nat.mod_eq_of_lt (a := lgArr) (by omega), Nat.shiftRight_eq_div_pow]
  change (c.toNat &&& 2 ^ 26 - 1) / 2 ^ lgArr ||| 1 = stride lgArr c
  rw [Nat.and_two_pow_sub_one_eq_mod, or_one, Nat.div_div_eq_div_mul, ← Nat.pow_succ]
  rfl

/-- **The sum of a slot and the stride is far from what a word can hold.** -/
theorem add_pace_lt (h : lgArr ≤ 26) {t : UInt32} (ht : t.toNat < 2 ^ lgArr) :
    t.toNat + (pace lgArr c).toNat < 2 ^ 32 := by
  have hpow : 2 ^ lgArr ≤ 2 ^ 26 := Nat.pow_le_pow_right (by decide) h
  have hslot : c.slot / 2 ^ (lgArr + 1) ≤ c.slot / 2 ^ 1 :=
    Nat.div_le_div_left (Nat.pow_le_pow_right (by decide) (by omega)) (by decide)
  have hlt := c.slot_lt
  rw [toNat_pace h, stride]
  omega

theorem toNat_next (h : lgArr ≤ 26) {t : UInt32} (ht : t.toNat < 2 ^ lgArr) :
    (next lgArr c t).toNat = (t.toNat + stride lgArr c) % 2 ^ lgArr := by
  have hsum := add_pace_lt (c := c) h ht
  rw [next, UInt32.toNat_and, toNat_mask h, Nat.and_two_pow_sub_one_eq_mod, UInt32.toNat_add,
    Nat.mod_eq_of_lt hsum, toNat_pace h]

/-- **The slots of the walk are the probe sequence.** -/
theorem toNat_tried (h : lgArr ≤ 26) (c : Coupon) (j : Nat) :
    (tried lgArr c j).toNat = position lgArr c j := by
  induction j with
  | zero => exact toNat_first h
  | succ j ih =>
    have hlt : (tried lgArr c j).toNat < 2 ^ lgArr := by
      rw [ih]
      exact position_lt lgArr c j
    rw [tried, Function.iterate_succ_apply', ← tried, toNat_next h hlt, ih, position, position,
      Nat.mod_add_mod, Nat.succ_mul, Nat.add_assoc]

/-! ## Once round the table -/

/-- The walk of a coupon goes round a table of `2 ^ lgArr` slots. -/
structure Rounds (lgArr : Nat) (c : Coupon) : Prop where
  odd : Odd (pace lgArr c).toNat
  inside : ∀ j, (tried lgArr c j).toNat < 2 ^ lgArr
  /-- Every slot is tried once on the way. -/
  once : ∀ t, t < 2 ^ lgArr → ∃! j, j < 2 ^ lgArr ∧ (tried lgArr c j).toNat = t
  /-- The first slot comes again after as many steps as there are slots, and not before. -/
  period : Function.minimalPeriod (next lgArr c) (first lgArr c) = 2 ^ lgArr
  /-- No sum overflows. -/
  fits : ∀ j, (tried lgArr c j).toNat + (pace lgArr c).toNat < 2 ^ 32

theorem tried_inj (h : lgArr ≤ 26) {j l : Nat} (hj : j < 2 ^ lgArr) (hl : l < 2 ^ lgArr)
    (hjl : tried lgArr c j = tried lgArr c l) : j = l := by
  refine position_inj (c := c) hj hl ?_
  rw [← toNat_tried h, ← toNat_tried h, hjl]

theorem tried_two_pow (h : lgArr ≤ 26) : tried lgArr c (2 ^ lgArr) = first lgArr c := by
  refine UInt32.toNat_inj.1 ?_
  rw [toNat_tried h, toNat_first h, position, position, Nat.add_mul_mod_self_left, Nat.zero_mul,
    Nat.add_zero]

theorem period_eq (h : lgArr ≤ 26) :
    Function.minimalPeriod (next lgArr c) (first lgArr c) = 2 ^ lgArr := by
  have hpos := Nat.two_pow_pos lgArr
  have hback : Function.IsPeriodicPt (next lgArr c) (2 ^ lgArr) (first lgArr c) :=
    tried_two_pow h
  have hle := hback.minimalPeriod_le hpos
  refine Nat.le_antisymm hle (Nat.le_of_not_lt fun hlt => ?_)
  -- a shorter way back would try the first slot twice
  have hagain : tried lgArr c (Function.minimalPeriod (next lgArr c) (first lgArr c)) =
      tried lgArr c 0 := Function.isPeriodicPt_minimalPeriod (next lgArr c) (first lgArr c)
  exact Nat.ne_of_gt (hback.minimalPeriod_pos hpos) (tried_inj h hlt hpos hagain)

/-- **An odd stride goes round the table.** -/
theorem rounds (h : lgArr ≤ 26) (c : Coupon) : Rounds lgArr c where
  odd := by
    rw [toNat_pace h]
    exact ⟨_, rfl⟩
  inside j := by
    rw [toNat_tried h]
    exact position_lt lgArr c j
  once t ht := by
    obtain ⟨j, hj, hjt⟩ := position_surjective lgArr c ht
    refine ⟨j, ⟨hj, (toNat_tried h c j).trans hjt⟩, fun l ⟨hl, hlt⟩ => ?_⟩
    refine position_inj (c := c) hl hj ?_
    rw [hjt, ← hlt, toNat_tried h]
  period := period_eq h
  fits j := by
    refine add_pace_lt h ?_
    rw [toNat_tried h]
    exact position_lt lgArr c j

/-! ## Where a search ends -/

/-- A walk from any slot of the round goes where the rest of the round is searched. -/
theorem walks_seek (h : lgArr ≤ 26) (r : Region) (c : Coupon) : ∀ n j, j + (n + 1) = 2 ^ lgArr →
    ∃ m, m ≤ n + 1 ∧ Walks lgArr r c (tried lgArr c j) m
      (Probe.seek r c (fun i => offset (position lgArr c i)) (n + 1) j)
  | n, j, hn => by
    have hstep : next lgArr c (tried lgArr c j) = tried lgArr c (j + 1) :=
      (Function.iterate_succ_apply' ..).symm
    unfold Probe.seek
    dsimp only
    rw [← toNat_tried h]
    split_ifs with hempty hhere
    · exact ⟨1, by omega, .free hempty⟩
    · exact ⟨1, by omega, .present hempty hhere⟩
    · cases n with
      | zero =>
        refine ⟨1, Nat.le_refl _, .full hempty hhere ?_⟩
        rw [hstep, hn, tried_two_pow h]
      | succ n =>
        obtain ⟨m, hm, hrest⟩ := walks_seek h r c n (j + 1) (by omega)
        have hahead : next lgArr c (tried lgArr c j) ≠ first lgArr c := fun hback => by
          rw [hstep] at hback
          have := tried_inj h (by omega) (Nat.two_pow_pos lgArr) (hback : _ = tried lgArr c 0)
          omega
        rw [← hstep] at hrest
        exact ⟨m + 1, by omega, .on hempty hhere hahead hrest⟩

theorem find_eq_seek : find lgArr r c =
    match Slots.seek (fun t => r.coupon (offset t)) c (position lgArr c) (2 ^ lgArr) 0 with
    | .free t => .free (offset t)
    | p => p :=
  Slots.seek_eq offset _ _ _ fun _ _ _ => rfl

/-- **A search finds no room exactly if there is none** and the coupon is not there. -/
theorem find_eq_full_iff : find lgArr r c = .full ↔
    ∀ t, t < 2 ^ lgArr → r.coupon (offset t) ≠ .empty ∧ r.coupon (offset t) ≠ c := by
  have he := Slots.ended_seek (fun t => r.coupon (offset t)) c (position lgArr c) (2 ^ lgArr) 0
  rw [find_eq_seek]
  cases hs : Slots.seek (fun t => r.coupon (offset t)) c (position lgArr c) (2 ^ lgArr) 0 with
  | full =>
    rw [hs] at he
    refine iff_of_true rfl fun t ht => ?_
    obtain ⟨j, hj, rfl⟩ := position_surjective lgArr c ht
    exact he j (Nat.zero_le _) (by omega)
  | present =>
    rw [hs] at he
    obtain ⟨i, -, -, hi, -⟩ := he
    exact iff_of_false nofun fun hall => (hall _ (position_lt lgArr c i)).2 hi
  | free t =>
    rw [hs] at he
    obtain ⟨i, -, -, rfl, hempty, -⟩ := he
    exact iff_of_false nofun fun hall => (hall _ (position_lt lgArr c i)).1 hempty

/-- **A search stops at the first slot that is empty or has the coupon.** -/
theorem find_of_isLeast (h : lgArr ≤ 26) {j : Nat}
    (hj : IsLeast {i | seen lgArr r c i = .empty ∨ seen lgArr r c i = c} j) : find lgArr r c =
      if seen lgArr r c j = .empty then .free (offset (tried lgArr c j).toNat) else .present := by
  have he := Slots.ended_seek (fun t => r.coupon (offset t)) c (position lgArr c) (2 ^ lgArr) 0
  have hseen : ∀ i, seen lgArr r c i = r.coupon (offset (position lgArr c i)) := fun i => by
    rw [seen, toNat_tried h]
  simp only [hseen] at hj ⊢
  obtain ⟨hstop, hleast⟩ := hj
  rw [find_eq_seek, toNat_tried h]
  cases hs : Slots.seek (fun t => r.coupon (offset t)) c (position lgArr c) (2 ^ lgArr) 0 with
  | full =>
    rw [hs] at he
    obtain ⟨l, hl, hlj⟩ := position_surjective lgArr c (position_lt lgArr c j)
    have hno := he l (Nat.zero_le _) (by omega)
    rw [hlj] at hno
    exact absurd hstop (not_or.2 hno)
  | present =>
    rw [hs] at he
    obtain ⟨i, -, -, hi, hne, hbefore⟩ := he
    rw [if_neg]
    rcases Nat.lt_or_eq_of_le (hleast (.inr hi)) with hlt | rfl
    · exact hbefore j (Nat.zero_le _) hlt
    · exact fun hempty => hne (hi.symm.trans hempty)
  | free t =>
    rw [hs] at he
    obtain ⟨i, -, -, rfl, hempty, hbefore⟩ := he
    rcases Nat.lt_or_eq_of_le (hleast (.inl hempty)) with hlt | rfl
    · exact absurd hstop (not_or.2 (hbefore j (Nat.zero_le _) hlt))
    · exact (if_pos hempty).symm

theorem exists_isLeast (h : lgArr ≤ 26) (hfull : find lgArr r c ≠ .full) : ∃ j, j < 2 ^ lgArr ∧
    IsLeast {i | seen lgArr r c i = .empty ∨ seen lgArr r c i = c} j := by
  have hstop : ∃ j, j < 2 ^ lgArr ∧ (seen lgArr r c j = .empty ∨ seen lgArr r c j = c) := by
    by_contra hnone
    refine hfull (find_eq_full_iff.2 fun t ht => not_or.1 fun hhere => hnone ?_)
    obtain ⟨j, hj, rfl⟩ := position_surjective lgArr c ht
    exact ⟨j, hj, by rwa [seen, toNat_tried h]⟩
  obtain ⟨j, hj, hhere⟩ := hstop
  have hex : ∃ i, seen lgArr r c i = .empty ∨ seen lgArr r c i = c := ⟨j, hhere⟩
  exact ⟨Nat.find hex, Nat.lt_of_le_of_lt (Nat.find_min' hex hhere) hj, Nat.find_spec hex,
    fun _ hi => Nat.find_min' hex hi⟩

/-- **A search ends after one round at most.** Its walk takes an odd stride, tries every slot of the
table once before it is back at the first, and no sum on its way overflows. From the first slot it
ends after a certain number of reads, no more than there are slots, and where `find` does. It finds
no room, and whoever takes in a coupon fails for that, exactly if no slot is empty and none has the
coupon. Otherwise the first slot on the way that is empty or has the coupon decides, and there is
one on the first round. -/
theorem find_walks (h : lgArr ≤ 26) (r : Region) (c : Coupon) :
    Rounds lgArr c ∧
    (∃ n, n ≤ 2 ^ lgArr ∧
      ∀ m o, Walks lgArr r c (first lgArr c) m o ↔ m = n ∧ o = find lgArr r c) ∧
    (find lgArr r c = .full ↔
      ∀ t, t < 2 ^ lgArr → r.coupon (offset t) ≠ .empty ∧ r.coupon (offset t) ≠ c) ∧
    (find lgArr r c = .full → place lgArr c r = .error (.tableFull lgArr) r ∧
      ∀ cfg, r.lgArr = lgArr → insert cfg c r = .error (.tableFull lgArr) r) ∧
    (find lgArr r c ≠ .full → ∃ j, j < 2 ^ lgArr ∧
      IsLeast {i | seen lgArr r c i = .empty ∨ seen lgArr r c i = c} j ∧
      find lgArr r c =
        if seen lgArr r c j = .empty then .free (offset (tried lgArr c j).toNat)
        else .present) := by
  refine ⟨rounds h c, ?_, find_eq_full_iff, fun hfull => ⟨?_, fun cfg hL => ?_⟩, fun hfull => ?_⟩
  · obtain ⟨n, hn⟩ : ∃ n, n + 1 = 2 ^ lgArr :=
      ⟨2 ^ lgArr - 1, Nat.sub_add_cancel Nat.one_le_two_pow⟩
    obtain ⟨m, hm, hwalk⟩ := walks_seek h r c n 0 (by omega)
    rw [hn] at hm hwalk
    exact ⟨m, hm, fun l o => ⟨hwalk.unique, fun ⟨hl, ho⟩ => by rw [hl, ho]; exact hwalk⟩⟩
  · refine EStateM.get_bind.trans ?_
    rw [hfull]
    rfl
  · refine EStateM.get_bind.trans ?_
    dsimp only
    rw [hL, hfull]
    rfl
  · obtain ⟨j, hj, hleast⟩ := exists_isLeast h hfull
    exact ⟨j, hj, hleast, find_of_isLeast h hleast⟩

/-- A table of four slots, all of them taken. -/
def crammed : Region :=
  (⟨Bytes.extend .empty 28, .owned⟩ : Region).setCoupons (offset 0)
    [.pack 0 1, .pack 1 1, .pack 2 1, .pack 3 1]

/-- A fifth coupon goes round it in vain. -/
theorem find_walks_crammed : 2 ≤ 26 ∧ Rounds 2 (.pack 4 1) ∧
    (∃ n, n ≤ 2 ^ 2 ∧ Walks 2 crammed (.pack 4 1) (first 2 (.pack 4 1)) n .full) ∧
    place 2 (.pack 4 1) crammed = .error (.tableFull 2) crammed := by
  obtain ⟨hrounds, ⟨n, hn, hwalk⟩, hfull, hfails, -⟩ :=
    find_walks (by decide : 2 ≤ 26) crammed (.pack 4 1)
  have hfind : find 2 crammed (.pack 4 1) = .full := hfull.2 (by decide +kernel)
  exact ⟨by decide, hrounds, ⟨n, hn, (hwalk n _).2 ⟨rfl, hfind.symm⟩⟩, (hfails hfind).1⟩

end HyperLogLog.CouponTable
