import HyperLogLog.Dense.Registers
import HyperLogLog.Proofs.Exceptions
import HyperLogLog.Proofs.Fields
import HyperLogLog.Proofs.Header
import HyperLogLog.Proofs.Registry

/-!
# Registers relative to a minimum

Four-bit fields hold how far a register is above the common minimum, or a mark if that is too much
for a field; the register is then an entry of the exception table.

* `Coded`: the fields and the table stand for given registers;
* `Relative`: and the header counts the registers at the minimum, of which there are some;
* `Coded.read_eq`: reading gives the register;
* **`meets_store`**: storing a larger register, as a field or as an exception;
* **`meets_raiseMinimum`**, **`meets_settle`**: raising the minimum changes no register;
* **`meets_insertRelative`**: a coupon takes the registers where it takes every registry.
-/

namespace HyperLogLog.Registers

open Exceptions (offset entries)

variable {cfg : Config} {r r' : Region} {v : Nat → Nat} {slot : Nat}

/-- The fields and the exception table stand for the registers `v`. -/
structure Coded (cfg : Config) (v : Nat → Nat) (r : Region) : Prop where
  fits : offset cfg r.exceptionCount ≤ r.size
  bounded : ∀ i, i < cfg.k → v i ≤ largest
  least : ∀ i, i < cfg.k → r.minimum ≤ v i
  nibble : ∀ i, i < cfg.k → r.nibble i = min (v i - r.minimum) mark
  sorted : Exceptions.Sorted cfg r
  exceptional : ∀ c, c ∈ entries cfg r ↔
    c.slot < cfg.k ∧ mark ≤ v c.slot - r.minimum ∧ c.value = v c.slot

/-- The image stands for the registers `v`, and the header counts those at the minimum. -/
structure Relative (cfg : Config) (v : Nat → Nat) (r : Region) : Prop extends Coded cfg v r where
  counted : r.atMinimum = level cfg.k v r.minimum
  attained : 0 < r.atMinimum

/-! ## Where fields and entries are -/

theorem k_le (cfg : Config) : cfg.k ≤ 2097152 := Nat.pow_le_pow_right (by decide) cfg.le_twentyOne

theorem k_pos (cfg : Config) : 0 < cfg.k := Nat.two_pow_pos _

theorem nibble_lt_offset (h : slot < cfg.k) : 40 + slot / 2 < offset cfg 0 := by
  obtain ⟨m, hm⟩ := cfg.sixteen_dvd_k
  unfold offset
  omega

theorem offset_zero_le (cfg : Config) (n : Nat) : offset cfg 0 ≤ offset cfg n := by
  unfold offset
  omega

theorem tidies_of_byte_eq (h : ∀ j, 36 ≤ j → r'.byte j = r.byte j) :
    Exceptions.Tidies cfg r r' := by
  have h40 := Exceptions.forty_le_offset cfg r.exceptionCount
  have hn : r'.exceptionCount = r.exceptionCount :=
    congrArg UInt32.toNat (Region.word_congr fun j hj _ => h j hj)
  rw [Exceptions.Tidies, hn]
  exact Region.tidies_of_byte_eq (Nat.le_refl _) fun j hj => h j (by omega)

section Fields

variable (h : Region.Within 40 (cfg.k / 2) r r')

include h

theorem exceptionCount_of_within : r'.exceptionCount = r.exceptionCount :=
  congrArg UInt32.toNat (h.word (.inl (by decide)))

theorem entries_of_within : entries cfg r' = entries cfg r :=
  Exceptions.entries_congr (exceptionCount_of_within h) fun j hj _ =>
    h.byte j (.inr (by unfold offset at hj; omega))

theorem minimum_of_within : r'.minimum = r.minimum :=
  congrArg UInt8.toNat (h.byte 6 (.inl (by decide)))

theorem tidies_of_within : Exceptions.Tidies cfg r r' := by
  rw [Exceptions.Tidies, exceptionCount_of_within h]
  exact h.tidies (Nat.le_refl _) (offset_zero_le cfg _)

end Fields

theorem within_putNibble (v : Nat) (h : slot < cfg.k) :
    Region.Within 40 (cfg.k / 2) r (r.putNibble slot v) := by
  have := nibble_lt_offset h
  unfold offset at this
  exact (Region.within_putNibble ..).mono (by omega) (by omega)

theorem nibble_putNibble (hs : offset cfg 0 ≤ r.size) (h : slot < cfg.k) (j : Nat) {x : Nat}
    (hx : x ≤ mark) :
    (r.putNibble slot x).nibble j = if slot = j then x else r.nibble j := by
  have := nibble_lt_offset h
  have hm : mark = 15 := rfl
  rw [Region.nibble_putNibble j x (by omega), Nat.mod_eq_of_lt (by omega)]

/-! ## What the coding depends on, and what it says -/

namespace Coded

theorem congr (h : Coded cfg v r) (hs : offset cfg r.exceptionCount ≤ r'.size)
    (h₆ : r'.byte 6 = r.byte 6)
    (hb : ∀ j, 36 ≤ j → j < offset cfg r.exceptionCount → r'.byte j = r.byte j) :
    Coded cfg v r' := by
  have h40 := Exceptions.forty_le_offset cfg 0
  have hle := offset_zero_le cfg r.exceptionCount
  have hn : r'.exceptionCount = r.exceptionCount :=
    congrArg UInt32.toNat (Region.word_congr fun j hj _ => hb j hj (by omega))
  have hm : r'.minimum = r.minimum := congrArg UInt8.toNat h₆
  have he : entries cfg r' = entries cfg r := Exceptions.entries_congr hn fun j hj hj' =>
    hb j (by omega) hj'
  refine ⟨?_, h.bounded, ?_, fun i hi => ?_, ?_, ?_⟩
  · rwa [hn]
  · rw [hm]
    exact h.least
  · have := nibble_lt_offset hi
    rw [Region.nibble_congr (hb _ (by omega) (by omega)), hm]
    exact h.nibble i hi
  · rw [Exceptions.Sorted, he]
    exact h.sorted
  · rw [he, hm]
    exact h.exceptional

theorem offset_zero_le_size (h : Coded cfg v r) : offset cfg 0 ≤ r.size :=
  Nat.le_trans (offset_zero_le _ _) h.fits

theorem exceptionCount_le (h : Coded cfg v r) : r.exceptionCount ≤ cfg.k :=
  h.sorted.count_le fun c hc => ((h.exceptional c).1 hc).1

theorem entry_mem (h : Coded cfg v r) (hs : slot < cfg.k) (hx : mark ≤ v slot - r.minimum) :
    Coupon.pack slot (v slot) ∈ entries cfg r := by
  have := k_le cfg
  have hslot : (Coupon.pack slot (v slot)).slot = slot := Coupon.slot_pack_of_lt _ (by omega)
  rw [h.exceptional, hslot, Coupon.value_pack_of_le _ (h.bounded slot hs)]
  exact ⟨hs, hx, rfl⟩

/-- **Reading gives the register**, be it in a field or an exception. -/
theorem read_eq (h : Coded cfg v r) (hw : cfg.width = .four) (hs : slot < cfg.k) :
    read cfg r slot = .ok (v slot) := by
  have hn := h.nibble slot hs
  have hl := h.least slot hs
  unfold read
  rw [hw]
  dsimp only
  by_cases hx : v slot - r.minimum < mark
  · rw [if_pos (by omega), hn, Nat.min_eq_left (by omega)]
    exact congrArg Except.ok (by omega)
  · have hslot : (Coupon.pack slot (v slot)).slot = slot :=
      Coupon.slot_pack_of_lt _ (by have := k_le cfg; omega)
    have hget := Exceptions.get?_eq_some h.sorted (h.entry_mem hs (by omega))
    rw [hslot, Coupon.value_pack_of_le _ (h.bounded slot hs)] at hget
    rw [if_neg (by omega), hget]

theorem level_eq_zero (h : Coded cfg v r) (hz : level cfg.k v r.minimum = 0) {i : Nat}
    (hi : i < cfg.k) : r.minimum < v i := by
  refine Nat.lt_of_le_of_ne (h.least i hi) fun he => ?_
  have := level_pos.2 ⟨i, hi, he.symm⟩
  omega

end Coded

/-! ## Storing a larger register -/

section Store

variable {value : Nat}

theorem bounded_update (h : ∀ i, i < cfg.k → v i ≤ largest) (hv : value ≤ largest) :
    ∀ i, i < cfg.k → Function.update v slot value i ≤ largest := by
  intro i hi
  by_cases he : i = slot
  · rwa [he, Function.update_self]
  · rw [Function.update_of_ne he]
    exact h i hi

theorem least_update (h : Coded cfg v r) (hs : slot < cfg.k) (hv : v slot < value) :
    ∀ i, i < cfg.k → r.minimum ≤ Function.update v slot value i := by
  intro i hi
  by_cases he : i = slot
  · have := h.least slot hs
    rw [he, Function.update_self]
    omega
  · rw [Function.update_of_ne he]
    exact h.least i hi

theorem coded_putNibble (h : Coded cfg v r) (hs : slot < cfg.k) (hv : v slot < value)
    (hle : value ≤ largest) (hx : value - r.minimum < mark) :
    Coded cfg (Function.update v slot value) (r.putNibble slot (value - r.minimum)) := by
  have hin := within_putNibble (r := r) (value - r.minimum) hs
  have hl := h.least slot hs
  refine ⟨?_, bounded_update h.bounded hle, ?_, fun i hi => ?_, ?_, fun c => ?_⟩
  · rw [exceptionCount_of_within hin, hin.size]
    exact h.fits
  · rw [minimum_of_within hin]
    exact least_update h hs hv
  · rw [minimum_of_within hin, nibble_putNibble h.offset_zero_le_size hs i (by omega)]
    split_ifs with he
    · rw [← he, Function.update_self, Nat.min_eq_left (by omega)]
    · rw [Function.update_of_ne (Ne.symm he)]
      exact h.nibble i hi
  · rw [Exceptions.Sorted, entries_of_within hin]
    exact h.sorted
  · rw [entries_of_within hin, minimum_of_within hin, h.exceptional]
    by_cases he : c.slot = slot
    · rw [he, Function.update_self]
      omega
    · rw [Function.update_of_ne he]

theorem coded_of_entry (h : Coded cfg v r) (hs : slot < cfg.k) (hv : v slot < value)
    (hle : value ≤ largest) (hx : mark ≤ value - r.minimum)
    (hfits : offset cfg r'.exceptionCount ≤ r'.size) (hm : r'.minimum = r.minimum)
    (hn : ∀ i, i < cfg.k → r'.nibble i = if slot = i then mark else r.nibble i)
    (hsorted : Exceptions.Sorted cfg r')
    (he : ∀ c, c ∈ entries cfg r' ↔
      c = .pack slot value ∨ c ∈ entries cfg r ∧ c.slot ≠ slot) :
    Coded cfg (Function.update v slot value) r' := by
  have hk := k_le cfg
  have hslot : (Coupon.pack slot value).slot = slot := Coupon.slot_pack_of_lt _ (by omega)
  have hvalue : (Coupon.pack slot value).value = value := Coupon.value_pack_of_le _ hle
  refine ⟨hfits, bounded_update h.bounded hle, ?_, fun i hi => ?_, hsorted, fun c => ?_⟩
  · rw [hm]
    exact least_update h hs hv
  · rw [hm, hn i hi]
    split_ifs with hi'
    · rw [← hi', Function.update_self, Nat.min_eq_right hx]
    · rw [Function.update_of_ne (Ne.symm hi')]
      exact h.nibble i hi
  · rw [he, hm, h.exceptional]
    by_cases hc : c.slot = slot
    · rw [hc, Function.update_self]
      constructor
      · rintro (rfl | ⟨-, hne⟩)
        · exact ⟨hs, hx, hvalue⟩
        · exact absurd rfl hne
      · rintro ⟨-, -, hcv⟩
        refine .inl ?_
        rw [← hc, ← hcv, Coupon.pack_slot_value]
    · rw [Function.update_of_ne hc]
      constructor
      · rintro (rfl | ⟨hce, -⟩)
        · exact absurd hslot hc
        · exact hce
      · exact fun hce => .inr ⟨hce, hc⟩

/-- **Storing a larger register** codes the registers with that one changed, and changes no byte of
the header but the number of exceptions. -/
theorem meets_store (h : Coded cfg v r) (hs : slot < cfg.k) (hv : v slot < value)
    (hle : value ≤ largest) (hw : r.backing ≠ .frozen) :
    (store cfg slot (r.nibble slot) r.minimum value).Meets r fun _ r' =>
      Coded cfg (Function.update v slot value) r' ∧ r.size ≤ r'.size ∧
      (∀ j, j < 36 → r'.byte j = r.byte j) ∧ Exceptions.Tidies cfg r r' := by
  have hk := k_le cfg
  have hn := h.nibble slot hs
  have hl := h.least slot hs
  have hcount := h.exceptionCount_le
  have h40 := Exceptions.forty_le_offset cfg 0
  unfold store
  split_ifs with hraw hx hx
  · -- an exception stays one
    have hmem := h.entry_mem hs (by omega)
    have hslot : (Coupon.pack slot (v slot)).slot = slot := Coupon.slot_pack_of_lt _ (by omega)
    refine (Exceptions.meets_replace h.sorted (by omega) hmem hslot h.fits).mono ?_
    rintro - r' - ⟨hsorted, hcnt, hent, hsize, hbyte⟩
    refine ⟨coded_of_entry h hs hv hle hx ?_ ?_ (fun i hi => ?_) hsorted hent, by omega,
      fun j hj => hbyte j (.inl hj), ?_⟩
    · rw [hcnt, hsize]
      exact h.fits
    · exact congrArg UInt8.toNat (hbyte 6 (.inl (by decide)))
    · rw [Region.nibble_congr (hbyte _ (.inr (.inl ⟨by omega, nibble_lt_offset hi⟩)))]
      split_ifs with hi'
      · rw [← hi', hraw]
      · rfl
    · rw [Exceptions.Tidies, hcnt]
      exact Region.tidies_of_byte_eq (Nat.le_refl _) fun j hj => hbyte j (.inr (.inr hj))
  · omega
  · -- a field becomes an exception
    have hnone : ∀ c ∈ entries cfg r, c.slot ≠ slot := by
      intro c hc he
      have := ((h.exceptional c).1 hc).2.1
      rw [he] at this
      omega
    refine Edit.Meets.bind ((Exceptions.meets_insert h.sorted (by omega) hnone (by omega) hw).mono
      ?_)
    rintro - r₁ - ⟨hsorted, hcnt, hent, hsize, hfits, hbyte⟩
    have hin := within_putNibble (r := r₁) mark hs
    refine Edit.Meets.write (Region.backing_setByte ..)
      ⟨coded_of_entry h hs hv hle hx ?_ ?_ (fun i hi => ?_) ?_ fun c => ?_, ?_, fun j hj => ?_, ?_⟩
    · rw [exceptionCount_of_within hin, hin.size, hcnt]
      exact hfits
    · rw [minimum_of_within hin]
      exact congrArg UInt8.toNat (hbyte 6 (.inl (by decide)))
    · have h0 := h.offset_zero_le_size
      rw [nibble_putNibble (by omega) hs i (Nat.le_refl _), Region.nibble_congr
        (hbyte _ (.inr (.inl ⟨by omega, nibble_lt_offset hi⟩)))]
    · rw [Exceptions.Sorted, entries_of_within hin]
      exact hsorted
    · rw [entries_of_within hin, hent]
      exact or_congr_right ⟨fun hc => ⟨hc, hnone c hc⟩, fun hc => hc.1⟩
    · rw [hin.size]
      exact hsize
    · rw [hin.byte j (.inl (by omega)), hbyte j (.inl hj)]
    · have hgrown : Exceptions.Tidies cfg r r₁ := by
        rw [Exceptions.Tidies, hcnt]
        refine Region.tidies_of_byte_eq ?_ fun j hj => hbyte j (.inr (.inr hj))
        unfold offset
        omega
      exact hgrown.trans (tidies_of_within hin)
  · have hin := within_putNibble (r := r) (value - r.minimum) hs
    refine Edit.Meets.write (Region.backing_setByte ..)
      ⟨coded_putNibble h hs hv hle (by omega), ?_, fun j hj => hin.byte j (.inl (by omega)),
        tidies_of_within hin⟩
    rw [hin.size]

end Store

/-! ## Raising the minimum -/

section Raise

/-- Lowering fields changes those alone that are no marks, and counts the ones that reach zero. -/
theorem meets_lowerFields (cfg : Config) : ∀ (n slot count : Nat) (r : Region),
    slot + n ≤ cfg.k → offset cfg 0 ≤ r.size →
    (∀ i, slot ≤ i → i < slot + n → r.nibble i ≠ 0) →
    (lowerFields n slot count).Meets r fun count' r' =>
      Region.Within 40 (cfg.k / 2) r r' ∧
      count' = count + (List.range' slot n).countP (fun i => r.nibble i = 1) ∧
      ∀ i, r'.nibble i =
        if slot ≤ i ∧ i < slot + n ∧ r.nibble i < mark then r.nibble i - 1 else r.nibble i
  | 0, slot, count, r, _, _, _ => by
    refine Edit.Meets.done ⟨Region.Within.refl .., rfl, fun i => ?_⟩
    rw [if_neg (by omega)]
  | n + 1, slot, count, r, hk, hs, hz => by
    have h₀ := hz slot (Nat.le_refl _) (by omega)
    refine Edit.Meets.read_bind ?_
    dsimp only
    by_cases hm : r.nibble slot < mark
    · -- the first field is lowered, the others are as before
      rw [if_pos hm, if_neg h₀]
      refine Edit.Meets.write_bind (Region.backing_setByte ..) ?_
      have hslot : slot < cfg.k := by omega
      have hin := within_putNibble (r := r) (r.nibble slot - 1) hslot
      have hget := nibble_putNibble hs hslot
      have hsame : ∀ i, slot + 1 ≤ i → (r.putNibble slot (r.nibble slot - 1)).nibble i =
          r.nibble i := by
        intro i hi
        rw [hget i (by omega), if_neg (by omega)]
      refine (meets_lowerFields cfg n (slot + 1) _ _ (by omega) (by rwa [hin.size])
        fun i h₁ h₂ => ?_).mono ?_
      · rw [hsame i h₁]
        exact hz i (by omega) (by omega)
      · rintro count' r' - ⟨hin', hcount, hnib⟩
        refine ⟨hin.trans hin', ?_, fun i => ?_⟩
        · rw [hcount, List.range'_succ, List.countP_cons,
            List.countP_congr fun i hi => by rw [hsame i (List.mem_range'_1.1 hi).1]]
          simp only [decide_eq_true_eq]
          split_ifs <;> omega
        · rw [hnib i, hget i (by omega)]
          by_cases hi : slot = i
          · subst hi
            rw [if_neg (by omega), if_pos rfl, if_pos ⟨by omega, by omega, hm⟩]
          · rw [if_neg hi]
            split_ifs <;> omega
    · rw [if_neg hm]
      refine (meets_lowerFields cfg n (slot + 1) count r (by omega) hs
        fun i h₁ h₂ => hz i (by omega) (by omega)).mono ?_
      rintro count' r' - ⟨hin', hcount, hnib⟩
      have hmark : mark = 15 := rfl
      refine ⟨hin', ?_, fun i => ?_⟩
      · rw [hcount, List.range'_succ, List.countP_cons_of_neg]
        simp only [decide_eq_true_eq]
        omega
      · rw [hnib i]
        by_cases hi : slot = i
        · subst hi
          rw [if_neg (by omega), if_neg fun h => hm h.2.2]
        · split_ifs <;> omega

/-- Going through the exceptions keeps those out of reach and moves the others to their fields. -/
theorem meets_rehome (cfg : Config) (minimum : Nat) : ∀ (cs kept : List Coupon) (r : Region),
    offset cfg 0 ≤ r.size → (∀ c ∈ cs, c.slot < cfg.k ∧ minimum ≤ c.value) →
    cs.Pairwise (fun a b => a.slot < b.slot) →
    (rehome minimum cs kept).Meets r fun kept' r' =>
      Region.Within 40 (cfg.k / 2) r r' ∧
      kept' = kept.reverse ++ cs.filter (fun c => mark ≤ c.value - minimum) ∧
      (∀ c ∈ cs, c.value - minimum < mark → r'.nibble c.slot = c.value - minimum) ∧
      ∀ i, (∀ c ∈ cs, c.value - minimum < mark → c.slot ≠ i) → r'.nibble i = r.nibble i
  | [], kept, r, _, _, _ => by
    refine Edit.Meets.done ⟨Region.Within.refl .., ?_, ?_, fun _ _ => rfl⟩
    · rw [List.filter_nil, List.append_nil]
    · exact fun c hc => absurd hc (List.not_mem_nil)
  | c :: cs, kept, r, hs, hcs, hp => by
    obtain ⟨hslot, hmin⟩ := hcs c List.mem_cons_self
    obtain ⟨hlt, hp⟩ := List.pairwise_cons.1 hp
    have hcs' : ∀ d ∈ cs, d.slot < cfg.k ∧ minimum ≤ d.value := fun d hd =>
      hcs d (List.mem_cons_of_mem _ hd)
    unfold rehome
    rw [if_neg (by omega)]
    split_ifs with hx
    · have hin := within_putNibble (r := r) (c.value - minimum) hslot
      have hget := fun j => nibble_putNibble hs hslot j (Nat.le_of_lt hx)
      refine Edit.Meets.write_bind (Region.backing_setByte ..) ?_
      refine (meets_rehome cfg minimum cs kept _ (by rwa [hin.size]) hcs' hp).mono ?_
      rintro kept' r' - ⟨hin', hkept, hmoved, hsame⟩
      refine ⟨hin.trans hin', ?_, ?_, fun i hi => ?_⟩
      · rw [hkept, List.filter_cons_of_neg (by simpa using hx)]
      · rintro d (_ | ⟨_, hd⟩) hdx
        · rw [hsame _ fun e he _ => Nat.ne_of_gt (hlt e he), hget, if_pos rfl]
        · exact hmoved d hd hdx
      · rw [hsame i fun d hd => hi d (List.mem_cons_of_mem _ hd), hget,
          if_neg (hi c List.mem_cons_self hx)]
    · refine (meets_rehome cfg minimum cs (c :: kept) r hs hcs' hp).mono ?_
      rintro kept' r' - ⟨hin', hkept, hmoved, hsame⟩
      refine ⟨hin', ?_, ?_, fun i hi => hsame i fun d hd => hi d (List.mem_cons_of_mem _ hd)⟩
      · rw [hkept, List.filter_cons_of_pos (by simpa using hx), List.reverse_cons,
          List.append_assoc, List.singleton_append]
      · rintro d (_ | ⟨_, hd⟩) hdx
        · exact absurd hdx hx
        · exact hmoved d hd hdx

theorem nibble_raised (h : Coded cfg v r) (hz : level cfg.k v r.minimum = 0) {r₁ : Region}
    (hlow : ∀ i, r₁.nibble i =
      if 0 ≤ i ∧ i < 0 + cfg.k ∧ r.nibble i < mark then r.nibble i - 1 else r.nibble i)
    (hmoved : ∀ c ∈ entries cfg r, c.value - (r.minimum + 1) < mark →
      r'.nibble c.slot = c.value - (r.minimum + 1))
    (hsame : ∀ i, (∀ c ∈ entries cfg r, c.value - (r.minimum + 1) < mark → c.slot ≠ i) →
      r'.nibble i = r₁.nibble i) {i : Nat} (hi : i < cfg.k) :
    r'.nibble i = min (v i - (r.minimum + 1)) mark := by
  have hn := h.nibble i hi
  have hlt := h.level_eq_zero hz hi
  by_cases hx : v i - r.minimum < mark
  · rw [hsame i fun c hc _ he => ?_, hlow]
    · rw [if_pos ⟨by omega, by omega, by omega⟩]
      omega
    · have := ((h.exceptional c).1 hc).2.1
      rw [he] at this
      omega
  · have hmem := h.entry_mem hi (by omega)
    have hslot : (Coupon.pack i (v i)).slot = i :=
      Coupon.slot_pack_of_lt _ (by have := k_le cfg; omega)
    have hvalue : (Coupon.pack i (v i)).value = v i := Coupon.value_pack_of_le _ (h.bounded i hi)
    by_cases hx' : v i - (r.minimum + 1) < mark
    · have := hmoved _ hmem (by rwa [hvalue])
      rw [hslot, hvalue] at this
      omega
    · rw [hsame i fun c hc hcx he => ?_, hlow, if_neg (by omega)]
      · omega
      · have := ((h.exceptional c).1 hc).2.2
        rw [he] at this
        omega

theorem retained {kept : List Coupon} {m count : Nat} (hk : kept.length ≤ r.exceptionCount)
    (hfits : offset cfg r.exceptionCount ≤ r.size) (hm : m < 256) (hcount : count < 4294967296)
    (hr : r' = ((Exceptions.retain cfg kept r).putMinimum m).putAtMinimum count) :
    r'.size = r.size ∧ r'.minimum = m ∧ r'.atMinimum = count ∧ entries cfg r' = kept ∧
      (∀ j, j ≠ 6 → j < 32 ∨ 40 ≤ j ∧ j < offset cfg 0 → r'.byte j = r.byte j) ∧
      Exceptions.Tidies cfg r r' := by
  have h40 := Exceptions.forty_le_offset cfg 0
  have hle := offset_zero_le cfg r.exceptionCount
  have hret : (Exceptions.retain cfg kept r).size = r.size := Exceptions.size_retain ..
  have hput : ∀ j, j ≠ 6 → j < 32 ∨ 36 ≤ j →
      r'.byte j = (Exceptions.retain cfg kept r).byte j := by
    intro j h₆ hj
    rw [hr, Region.putAtMinimum, (Region.within_setWord ..).byte j (by omega), Region.putMinimum,
      Region.byte_setByte_of_ne _ (Ne.symm h₆)]
  have h₆ : r'.byte 6 = ((Exceptions.retain cfg kept r).putMinimum m).byte 6 := by
    rw [hr, Region.putAtMinimum, (Region.within_setWord ..).byte 6 (.inl (by decide))]
  have hkept := Exceptions.entries_retain hk hfits
  have hlen : (Exceptions.retain cfg kept r).exceptionCount = kept.length := by
    rw [← Exceptions.length_entries cfg, hkept]
  have hcleared : Exceptions.Tidies cfg r (Exceptions.retain cfg kept r) := by
    rw [Exceptions.Tidies, hlen]
    exact Exceptions.tidies_retain hk
  refine ⟨?_, ?_, ?_, ?_, fun j h₆ hj => ?_,
    hcleared.trans (tidies_of_byte_eq fun j hj => hput j (by omega) (.inr hj))⟩
  · rw [hr, (Region.within_putAtMinimum ..).size, Region.size_putMinimum, hret]
  · exact (congrArg UInt8.toNat h₆).trans (Region.minimum_putMinimum (by omega) hm)
  · rw [hr, Region.atMinimum_putAtMinimum (by rw [Region.size_putMinimum]; omega) hcount]
  · rw [← hkept]
    refine Exceptions.entries_congr ?_ fun j hj _ => hput j (by omega) (by omega)
    exact congrArg UInt32.toNat (Region.word_congr fun j hj _ => hput j (by omega) (by omega))
  · rw [hput j h₆ (by omega), Exceptions.byte_retain hk (by unfold Exceptions.Outside; omega)]

theorem coded_raised (h : Coded cfg v r) (hz : level cfg.k v r.minimum = 0)
    (hin : Region.Within 40 (cfg.k / 2) r r') {kept : List Coupon}
    (hkept : kept = (entries cfg r).filter fun c => mark ≤ c.value - (r.minimum + 1))
    (hnib : ∀ i, i < cfg.k → r'.nibble i = min (v i - (r.minimum + 1)) mark) {count : Nat}
    {r'' : Region} (hr : r'' = ((Exceptions.retain cfg kept r').putMinimum
      (r.minimum + 1)).putAtMinimum count) (hcount : count < 4294967296) :
    Coded cfg v r'' ∧ r''.minimum = r.minimum + 1 ∧ r''.atMinimum = count ∧ r''.size = r.size ∧
      (∀ j, j < 32 → j ≠ 6 → r''.byte j = r.byte j) ∧ Exceptions.Tidies cfg r r'' := by
  have h40 := Exceptions.forty_le_offset cfg 0
  have hlt : r.minimum < largest :=
    Nat.lt_of_lt_of_le (h.level_eq_zero hz (k_pos cfg)) (h.bounded 0 (k_pos cfg))
  have hlargest : largest = 63 := rfl
  have hklen : kept.length ≤ r'.exceptionCount := by
    rw [exceptionCount_of_within hin, ← Exceptions.length_entries cfg, hkept]
    exact List.length_filter_le ..
  have hfits : offset cfg r'.exceptionCount ≤ r'.size := by
    rw [exceptionCount_of_within hin, hin.size]
    exact h.fits
  obtain ⟨hsize, hmin, hat, hent, hbyte, htidies⟩ := retained hklen hfits (by omega) hcount hr
  have hlen : r''.exceptionCount = kept.length := by
    rw [← Exceptions.length_entries cfg, hent]
  refine ⟨⟨?_, h.bounded, ?_, fun i hi => ?_, ?_, fun c => ?_⟩, hmin, hat,
    hsize.trans hin.size, fun j hj h₆ => ?_, (tidies_of_within hin).trans htidies⟩
  · have hmono : offset cfg kept.length ≤ offset cfg r'.exceptionCount := by
      unfold offset
      omega
    rw [hlen, hsize]
    omega
  · rw [hmin]
    exact fun i hi => h.level_eq_zero hz hi
  · have := nibble_lt_offset hi
    rw [hmin, Region.nibble_congr (hbyte _ (by omega) (by omega))]
    exact hnib i hi
  · rw [Exceptions.Sorted, hent, hkept]
    exact List.Pairwise.filter _ h.sorted
  · rw [hent, hmin, hkept, List.mem_filter, h.exceptional, decide_eq_true_eq]
    constructor
    · rintro ⟨⟨hc, -, hcv⟩, hx⟩
      exact ⟨hc, by omega, hcv⟩
    · rintro ⟨hc, hx, hcv⟩
      exact ⟨⟨hc, by omega, hcv⟩, by omega⟩
  · rw [hbyte j h₆ (.inl hj), hin.byte j (.inl (by omega))]

/-- **Raising the minimum** where no register is left changes no register. -/
theorem meets_raiseMinimum (h : Coded cfg v r) (hz : level cfg.k v r.minimum = 0) :
    (raiseMinimum cfg (r.minimum + 1)).Meets r fun _ r' =>
      Coded cfg v r' ∧ r'.minimum = r.minimum + 1 ∧
      r'.atMinimum = level cfg.k v (r.minimum + 1) ∧ r'.size = r.size ∧
      (∀ j, j < 32 → j ≠ 6 → r'.byte j = r.byte j) ∧ Exceptions.Tidies cfg r r' := by
  have hmark : mark = 15 := rfl
  have hle : level cfg.k v (r.minimum + 1) < 4294967296 :=
    Nat.lt_of_le_of_lt level_le (Nat.lt_of_le_of_lt (k_le cfg) (by decide))
  refine Edit.Meets.bind ((meets_lowerFields cfg cfg.k 0 0 r (by omega) h.offset_zero_le_size
    fun i _ hi => ?_).mono ?_)
  · have := h.nibble i (by omega)
    have := h.level_eq_zero hz (i := i) (by omega)
    omega
  rintro count r₁ - ⟨hin₁, hcount, hlow⟩
  -- the fields that reach zero are those of the registers at the new minimum
  obtain rfl : count = level cfg.k v (r.minimum + 1) := by
    rw [hcount, Nat.zero_add, level, List.range_eq_range']
    refine List.countP_congr fun i hi => ?_
    have hi' : i < cfg.k := by simpa using hi
    have := h.nibble i hi'
    have := h.level_eq_zero hz hi'
    simp only [decide_eq_true_eq]
    omega
  refine Edit.Meets.read_bind ?_
  rw [entries_of_within hin₁]
  refine Edit.Meets.bind ((meets_rehome cfg (r.minimum + 1) (entries cfg r) [] r₁
    (by rw [hin₁.size]; exact h.offset_zero_le_size) (fun c hc => ?_) h.sorted).mono ?_)
  · obtain ⟨hc, -, hv⟩ := (h.exceptional c).1 hc
    have := h.level_eq_zero hz hc
    exact ⟨hc, by omega⟩
  rintro kept r₂ - ⟨hin₂, hkept, hmoved, hsame⟩
  rw [List.reverse_nil, List.nil_append] at hkept
  refine Edit.Meets.write ?_ (coded_raised h hz (hin₁.trans hin₂) hkept
    (fun i hi => nibble_raised h hz hlow hmoved hsame hi) rfl hle)
  rw [Region.putAtMinimum, Region.backing_setWord, Region.putMinimum, Region.backing_setByte,
    Exceptions.backing_retain]

/-- **Raising the minimum until a register is there** succeeds and changes no register. The room
left is how far the minimum is below the largest register. -/
theorem meets_settle : ∀ (room : Nat) (r : Region), Coded cfg v r →
    r.atMinimum = level cfg.k v r.minimum → r.minimum + room = largest →
    (settle cfg room).Meets r fun _ r' =>
      Relative cfg v r' ∧ r'.size = r.size ∧ (∀ j, j < 32 → j ≠ 6 → r'.byte j = r.byte j) ∧
      Exceptions.Tidies cfg r r'
  | 0, r, h, hc, hroom => by
    -- every register is the largest, so all of them are at the minimum
    have hall : level cfg.k v r.minimum = cfg.k := level_of_forall fun i hi => by
      have := h.least i hi
      have := h.bounded i hi
      omega
    have := k_pos cfg
    refine Edit.Meets.read_bind ?_
    rw [if_neg (by omega)]
    exact Edit.Meets.done ⟨⟨h, hc, by omega⟩, rfl, fun _ _ _ => rfl, .refl _ r⟩
  | room + 1, r, h, hc, hroom => by
    refine Edit.Meets.read_bind ?_
    split_ifs with hz
    · rw [show largest - room = r.minimum + 1 by omega]
      refine Edit.Meets.bind ((meets_raiseMinimum h (by omega)).mono ?_)
      rintro - r₁ - ⟨h₁, hmin, hat, hsize, hbyte, htidies⟩
      refine (meets_settle room r₁ h₁ (by rw [hat, hmin]) (by omega)).mono ?_
      rintro - r' - ⟨h', hsize', hbyte', htidies'⟩
      exact ⟨h', hsize'.trans hsize, fun j hj h₆ => (hbyte' j hj h₆).trans (hbyte j hj h₆),
        htidies.trans htidies'⟩
    · exact Edit.Meets.done ⟨⟨h, hc, by omega⟩, rfl, fun _ _ _ => rfl, .refl _ r⟩

end Raise

/-! ## Taking in a coupon -/

theorem level_update_of_lt {m value : Nat} (hs : slot < cfg.k) (hm : m < value) :
    level cfg.k (Function.update v slot value) m + (if v slot = m then 1 else 0) =
      level cfg.k v m := by
  rw [level_update value hs, if_neg (Nat.ne_of_gt hm), Nat.add_zero]

section Insert

variable {value : Nat} {r₁ : Region}

theorem estimator_stored (hsize : 32 ≤ r₁.size) (hbyte : ∀ j, j < 36 → r₁.byte j = r.byte j)
    (lgK old new : Nat) :
    (r₁.raiseEstimator lgK old new).estimator = r.estimator.raise lgK old new := by
  have hsame : r₁.estimator = r.estimator :=
    Region.estimator_congr (hbyte 5 (by decide)) fun j _ hj => hbyte j (by omega)
  rw [Region.estimator_raiseEstimator hsize, hsame]

theorem relative_raised (h : Relative cfg v r) (hs : slot < cfg.k) (hne : v slot ≠ r.minimum)
    (hlt : r.minimum < value) (hcoded : Coded cfg (Function.update v slot value) r₁)
    (hbyte : ∀ j, j < 36 → r₁.byte j = r.byte j) (lgK old new : Nat) :
    Relative cfg (Function.update v slot value) (r₁.raiseEstimator lgK old new) := by
  have hin := Region.within_raiseEstimator r₁ lgK old new
  have h₆ := hin.byte 6 (.inl (by decide))
  have hmin : (r₁.raiseEstimator lgK old new).minimum = r.minimum :=
    congrArg UInt8.toNat (h₆.trans (hbyte 6 (by decide)))
  have hat : (r₁.raiseEstimator lgK old new).atMinimum = r.atMinimum :=
    congrArg UInt32.toNat ((hin.word (.inr (by decide))).trans
      (Region.word_congr fun j _ hj => hbyte j hj))
  have hlevel := level_update_of_lt (v := v) hs hlt
  rw [if_neg hne, Nat.add_zero] at hlevel
  constructor
  case toCoded =>
    exact hcoded.congr (Nat.le_trans hcoded.fits (Nat.le_of_eq hin.size.symm)) h₆
      fun j hj _ => hin.byte j (.inr (by omega))
  case counted => rw [hat, hmin, h.counted, hlevel]
  case attained =>
    rw [hat]
    exact h.attained

/-- A register at the minimum rises, and the minimum follows if it was the last one there. -/
theorem meets_settle_raised (h : Relative cfg v r) (hs : slot < cfg.k) (heq : v slot = r.minimum)
    (hlt : r.minimum < value) (hcoded : Coded cfg (Function.update v slot value) r₁)
    (hbyte : ∀ j, j < 36 → r₁.byte j = r.byte j) {r₂ : Region} (hin : Region.Within 8 24 r₁ r₂) :
    (settle cfg (largest - r.minimum)).Meets (r₂.putAtMinimum (r.atMinimum - 1)) fun _ r' =>
      Relative cfg (Function.update v slot value) r' ∧ r'.estimator = r₂.estimator ∧
      r'.size = r₁.size ∧ (∀ j, j < 8 → j ≠ 6 → r'.byte j = r₁.byte j) ∧
      Exceptions.Tidies cfg r₁ r' := by
  have h40 := Exceptions.forty_le_offset cfg 0
  have hroom := hcoded.offset_zero_le_size
  have hcounted := h.counted
  have hlevel := level_update_of_lt (v := v) hs hlt
  rw [if_pos heq] at hlevel
  have hput := Region.within_putAtMinimum r₂ (r.atMinimum - 1)
  have hsize : (r₂.putAtMinimum (r.atMinimum - 1)).size = r₁.size := hput.size.trans hin.size
  have hbyte' : ∀ j, j < 8 ∨ 36 ≤ j →
      (r₂.putAtMinimum (r.atMinimum - 1)).byte j = r₁.byte j := fun j hj => by
    rw [hput.byte j (by omega), hin.byte j (by omega)]
  have hmin : (r₂.putAtMinimum (r.atMinimum - 1)).minimum = r.minimum :=
    congrArg UInt8.toNat ((hbyte' 6 (.inl (by decide))).trans (hbyte 6 (by decide)))
  have hat : (r₂.putAtMinimum (r.atMinimum - 1)).atMinimum = r.atMinimum - 1 := by
    refine Region.atMinimum_putAtMinimum ?_ (Nat.lt_of_le_of_lt (Nat.sub_le ..) ?_)
    · rw [hin.size]
      omega
    · exact (r.word 32).toNat_lt
  have hcoded' : Coded cfg (Function.update v slot value) (r₂.putAtMinimum (r.atMinimum - 1)) :=
    hcoded.congr (Nat.le_trans hcoded.fits (Nat.le_of_eq hsize.symm)) (hbyte' 6 (.inl (by decide)))
      fun j hj _ => hbyte' j (.inr hj)
  refine (meets_settle _ _ hcoded' ?_ ?_).mono ?_
  · rw [hat, hmin]
    omega
  · have := h.bounded _ hs
    rw [hmin]
    omega
  · rintro - r' - ⟨hrel, hsize', hbyte'', htidies⟩
    refine ⟨hrel, ?_, hsize'.trans hsize, fun j hj h₆ => ?_,
      (tidies_of_byte_eq fun j hj => hbyte' j (.inr hj)).trans htidies⟩
    · exact Region.estimator_congr
        ((hbyte'' 5 (by decide) (by decide)).trans (hput.byte 5 (.inl (by decide))))
        fun j h₁ h₂ => (hbyte'' j h₂ (by omega)).trans (hput.byte j (.inl h₂))
    · rw [hbyte'' j (by omega) h₆, hbyte' j (.inl hj)]

end Insert

/-- **A coupon takes relative registers where it takes every registry**, and changes no byte of the
header but the minimum, the counts and the sums. -/
theorem meets_insertRelative {g : Registry} (hw : cfg.width = .four)
    (h : Relative cfg g.values r) (he : r.estimator = g.history) (hb : r.backing ≠ .frozen)
    (c : Coupon) :
    (insertRelative cfg c).Meets r fun _ r' =>
      Relative cfg (g.take cfg.lgK c).values r' ∧
      r'.estimator = (g.take cfg.lgK c).history ∧ r.size ≤ r'.size ∧
      (∀ j, j < 8 → j ≠ 6 → r'.byte j = r.byte j) ∧ Exceptions.Tidies cfg r r' := by
  have h40 := Exceptions.forty_le_offset cfg 0
  have hs : c.slot % cfg.k < cfg.k := Nat.mod_lt _ (k_pos cfg)
  have hleast := h.least _ hs
  have hsize := h.offset_zero_le_size
  have hattained := h.attained
  refine Edit.Meets.read_bind ?_
  dsimp only
  by_cases hle : c.value ≤ g.values (c.slot % cfg.k)
  · -- nothing rises, whether or not the coupon is rejected before the register is read
    have hg : g.take cfg.lgK c = g := if_pos hle
    rw [hg]
    by_cases hm : c.value ≤ r.minimum
    · rw [if_pos hm]
      exact Edit.Meets.done ⟨h, he, Nat.le_refl _, fun _ _ _ => rfl, .refl _ r⟩
    · rw [if_neg hm]
      refine Edit.Meets.ofExcept_bind (h.read_eq hw hs) ?_
      rw [if_pos hle]
      exact Edit.Meets.done ⟨h, he, Nat.le_refl _, fun _ _ _ => rfl, .refl _ r⟩
  have hlt : r.minimum < c.value := by omega
  have hg : g.take cfg.lgK c = ⟨Function.update g.values (c.slot % cfg.k) c.value,
      g.history.raise cfg.lgK (g.values (c.slot % cfg.k)) c.value⟩ := if_neg hle
  have hstore := meets_store h.toCoded hs (Nat.lt_of_not_le hle) c.value_le hb
  rw [if_neg (by omega)]
  refine Edit.Meets.ofExcept_bind (h.read_eq hw hs) ?_
  rw [if_neg hle, hg]
  by_cases hm : g.values (c.slot % cfg.k) ≠ r.minimum
  · rw [if_pos hm]
    refine Edit.Meets.bind (hstore.mono ?_)
    rintro - r₁ - ⟨hcoded, hsize₁, hbyte, htidies⟩
    have hin := Region.within_raiseEstimator r₁ cfg.lgK (g.values (c.slot % cfg.k)) c.value
    refine Edit.Meets.write hin.backing ⟨relative_raised h hs hm hlt hcoded hbyte .., ?_, ?_,
      fun j hj _ => ?_, htidies.trans (tidies_of_byte_eq fun j hj => hin.byte j (by omega))⟩
    · rw [estimator_stored (by omega) hbyte, he]
    · rwa [hin.size]
    · rw [hin.byte j (.inl hj), hbyte j (by omega)]
  · rw [if_neg hm, if_neg (by omega)]
    refine Edit.Meets.bind (hstore.mono ?_)
    rintro - r₁ - ⟨hcoded, hsize₁, hbyte, htidies⟩
    have hin := Region.within_raiseEstimator r₁ cfg.lgK (g.values (c.slot % cfg.k)) c.value
    refine Edit.Meets.write_bind ((Region.within_putAtMinimum ..).backing.trans hin.backing) ?_
    refine (meets_settle_raised h hs (not_not.1 hm) hlt hcoded hbyte hin).mono ?_
    rintro - r' - ⟨hrel, hest, hsize', hbyte', htidies'⟩
    refine ⟨hrel, ?_, by omega, fun j hj h₆ => ?_, htidies.trans htidies'⟩
    · rw [hest, estimator_stored (by omega) hbyte, he]
    · rw [hbyte' j hj h₆, hbyte j (by omega)]

end HyperLogLog.Registers
