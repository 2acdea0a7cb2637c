import HyperLogLog.Proofs.Shortage
import Mathlib.Logic.Function.Basic

/-!
# The exception table is a map

The entries of a table in order are a finite map from slots to registers. A search finds an index
among them, and each change of the table is that of the list of entries and of the map, or it fails
and writes nothing.

* `Exceptions.lookup`: a list of entries, as a map;
* `Exceptions.Holds`: the entries of a table and the room they take;
* `lookup_update`: one entry more, or another in its place, is an update of the map;
* `search_eq_found_iff`, `search_eq_missing_iff`, `get?_eq_lookup`: searching;
* `Exceptions.Leads`: a region with a new table, and otherwise the same;
* `leads_insert`, `leads_replace`, `leads_retain`: what each change of the table leads to;
* **`refines_map`**: the exception table refines a finite map.
-/

namespace HyperLogLog.Exceptions

open Region (Tenure)

variable {cfg : Config} {es es' : List Coupon} {r : Region} {c : Coupon} {slot value i : Nat}

/-! ## Entries as a map -/

/-- The register that a slot has in a list of entries. -/
def lookup (es : List Coupon) (slot : Nat) : Option Nat :=
  (es.find? fun e => e.slot = slot).map Coupon.value

theorem Ascending.eq_of_slot_eq (h : Ascending es) {a b : Coupon} (ha : a ∈ es) (hb : b ∈ es)
    (hab : a.slot = b.slot) : a = b :=
  List.inj_on_of_nodup_map h.nodup_slots ha hb hab

theorem lookup_eq_none_iff : lookup es slot = none ↔ ∀ e ∈ es, e.slot ≠ slot := by
  simp [lookup]

theorem lookup_eq_some_iff (h : Ascending es) :
    lookup es slot = some value ↔ ∃ e ∈ es, e.slot = slot ∧ e.value = value := by
  constructor
  · intro hl
    obtain ⟨e, hf, hv⟩ := Option.map_eq_some_iff.1 hl
    exact ⟨e, List.mem_of_find?_eq_some hf, by simpa using List.find?_some hf, hv⟩
  · rintro ⟨e, he, hs, hv⟩
    cases hf : es.find? fun e => e.slot = slot with
    | none => exact absurd (decide_eq_true hs) (List.find?_eq_none.1 hf e he)
    | some a =>
      have ha : a.slot = slot := by simpa using List.find?_some hf
      obtain rfl := h.eq_of_slot_eq (List.mem_of_find?_eq_some hf) he (ha.trans hs.symm)
      rw [lookup, hf, Option.map_some, hv]

/-- **An entry that is added or takes the place of another** updates the map. -/
theorem lookup_update (h : Ascending es) (h' : Ascending es')
    (hmem : ∀ e, e ∈ es' ↔ e = c ∨ e ∈ es ∧ e.slot ≠ c.slot) :
    lookup es' = Function.update (lookup es) c.slot (some c.value) := by
  funext s
  by_cases hs : s = c.slot
  · subst hs
    rw [Function.update_self]
    exact (lookup_eq_some_iff h').2 ⟨c, (hmem c).2 (.inl rfl), rfl, rfl⟩
  · rw [Function.update_of_ne hs]
    refine Option.ext fun v => ?_
    rw [lookup_eq_some_iff h', lookup_eq_some_iff h]
    refine exists_congr fun e => and_congr_left fun ⟨hes, _⟩ => (hmem e).trans ?_
    have hne : e.slot ≠ c.slot := fun hec => hs (hes.symm.trans hec)
    exact ⟨fun he => (he.resolve_left fun hec => hne (congrArg _ hec)).1, fun he => .inr ⟨he, hne⟩⟩

/-! ## Tables and their entries -/

/-- The table of a region has these entries, in order, and there is room for them. -/
structure Holds (cfg : Config) (es : List Coupon) (r : Region) : Prop where
  entries : entries cfg r = es
  ascending : Ascending es
  fits : offset cfg es.length ≤ r.size

namespace Holds

theorem sorted (h : Holds cfg es r) : Sorted cfg r := by
  rw [Sorted, h.entries]
  exact h.ascending

theorem count (h : Holds cfg es r) : r.exceptionCount = es.length := by
  rw [← length_entries cfg r, h.entries]

theorem coupon (h : Holds cfg es r) (hi : i < es.length) : r.coupon (offset cfg i) = es[i] := by
  obtain rfl := h.entries
  exact (getElem_entries i hi).symm

theorem succ_lt (h : Holds cfg es r) : es.length + 1 < 4294967296 := by
  have hle := h.sorted.count_le (n := 67108864) fun e _ => e.slot_lt
  rw [h.count] at hle
  omega

end Holds

/-! ## Searching -/

theorem search_eq_found_iff (h : Holds cfg es r) :
    search cfg r slot = .found i ↔ es[i]?.map Coupon.slot = some slot := by
  constructor
  · intro hs
    have hp := placed_search h.sorted slot
    rw [hs] at hp
    obtain ⟨hi, hslot⟩ := hp
    rw [h.count] at hi
    rw [List.getElem?_eq_getElem hi, Option.map_some, ← h.coupon hi, hslot]
  · intro hs
    obtain ⟨e, he, rfl⟩ := Option.map_eq_some_iff.1 hs
    obtain ⟨hi, rfl⟩ := List.getElem?_eq_some_iff.1 he
    obtain ⟨j, hj, hjn, hje⟩ := search_of_mem (c := es[i]) h.sorted
      (by rw [h.entries]; exact List.getElem_mem hi)
    obtain rfl : j = i := h.sorted.injOn hjn (by rwa [h.count]) (by rw [hje, h.coupon hi])
    exact hj

/-- Where an entry keeps the order, all entries before have smaller slots, and all others larger
ones. -/
theorem Ascending.of_insertIdx (h : Ascending (es.insertIdx i c)) (hi : i ≤ es.length) {j : Nat}
    (hj : j < es.length) : (j < i → es[j].slot < c.slot) ∧ (i ≤ j → c.slot < es[j].slot) := by
  have hlen := List.length_insertIdx_of_le_length (a := c) hi
  have hat := List.pairwise_iff_getElem.1 h
  refine ⟨fun hji => ?_, fun hij => ?_⟩
  · have := hat j i (by omega) (by omega) hji
    rwa [List.getElem_insertIdx_of_lt hji, List.getElem_insertIdx_self] at this
  · have := hat i (j + 1) (by omega) (by omega) (by omega)
    rwa [List.getElem_insertIdx_of_gt (Nat.lt_succ_of_le hij), List.getElem_insertIdx_self] at this

/-- **A search for a slot that is missing gives the one index that keeps the order.** -/
theorem search_eq_missing_iff (h : Holds cfg es r) :
    search cfg r c.slot = .missing i ↔ i ≤ es.length ∧ Ascending (es.insertIdx i c) := by
  have hp := placed_search h.sorted c.slot
  constructor
  · intro hs
    rw [hs] at hp
    obtain ⟨hi, hlow, hhigh⟩ := hp
    have hins := pairwise_insertIdx h.sorted hi c hlow hhigh
    rw [h.entries] at hins
    exact ⟨by rwa [h.count] at hi, hins⟩
  · rintro ⟨hi, hins⟩
    have hat : ∀ j, (hj : j < r.exceptionCount) →
        (j < i → (r.coupon (offset cfg j)).slot < c.slot) ∧
        (i ≤ j → c.slot < (r.coupon (offset cfg j)).slot) := fun j hj => by
      rw [h.count] at hj
      rw [h.coupon hj]
      exact hins.of_insertIdx hi hj
    rw [← h.count] at hi
    cases hs : search cfg r c.slot with
    | found j =>
      rw [hs] at hp
      obtain ⟨hj, hjc⟩ := hp
      have := hat j hj
      omega
    | missing j =>
      rw [hs] at hp
      obtain ⟨hj, hlow, hhigh⟩ := hp
      -- an entry between the two indices would be on both sides of the slot
      rcases Nat.lt_trichotomy i j with hlt | rfl | hgt
      · exact absurd (hlow i hlt) (Nat.lt_asymm ((hat i (by omega)).2 (Nat.le_refl i)))
      · rfl
      · exact absurd (hhigh j (Nat.le_refl j) (by omega))
          (Nat.lt_asymm ((hat j (by omega)).1 hgt))

theorem get?_eq_lookup (h : Holds cfg es r) : get? cfg r = lookup es := by
  funext slot
  cases hl : lookup es slot with
  | none =>
    rw [lookup_eq_none_iff, ← h.entries] at hl
    obtain ⟨i, hs, -⟩ := search_of_forall_ne h.sorted hl
    rw [get?, hs]
  | some value =>
    obtain ⟨e, he, rfl, rfl⟩ := (lookup_eq_some_iff h.ascending).1 hl
    rw [← h.entries] at he
    exact get?_eq_some h.sorted he

theorem search_of_lookup (h : Holds cfg es r) (slot : Nat) : ∃ i,
    search cfg r slot = if lookup es slot = none then .missing i else .found i := by
  rw [← get?_eq_lookup h, get?]
  cases search cfg r slot with
  | found i => exact ⟨i, rfl⟩
  | missing i => exact ⟨i, rfl⟩

/-! ## Changing the table -/

/-- The second region holds a new table. It is in the same hands as the first, and differs from it
in the count and the first `n` entries of the table at most. -/
structure Leads (cfg : Config) (es : List Coupon) (n : Nat) (r r' : Region) : Prop where
  holds : Holds cfg es r'
  tenure : Tenure r r'
  outside : ∀ j, Outside cfg n j → r'.byte j = r.byte j

/-- **Adding an entry** puts it where it belongs. -/
theorem leads_insert (h : Holds cfg es r) (hw : r.backing ≠ .frozen)
    (hs : search cfg r c.slot = .missing i)
    (hroom : r.backing = .lent → offset cfg (es.length + 1) ≤ r.size) :
    ∃ r', insert cfg c.slot c.value r = .ok () r' ∧
      Leads cfg (es.insertIdx i c) (es.length + 1) r r' ∧
      lookup (es.insertIdx i c) = Function.update (lookup es) c.slot (some c.value) := by
  obtain ⟨hi, hins⟩ := (search_eq_missing_iff h).1 hs
  have hnone : ∀ e ∈ es, e.slot ≠ c.slot := by
    rw [← lookup_eq_none_iff, ← get?_eq_lookup h, get?, hs]
  have hcount := h.count
  have hsucc := h.succ_lt
  have hm := @meets_insert cfg r c.slot c.value h.sorted c.slot_lt (by rwa [h.entries])
    (by omega) hw
  have he := @Registers.ends_insertException cfg r c.slot c.value hw
  rw [Coupon.pack_slot_value, hcount] at hm
  cases hx : insert cfg c.slot c.value r with
  | error f r' =>
    obtain ⟨hlent, required, available, rfl⟩ := hm.error f r' hx
    have hscant := (he.error _ r' hx).2.2 rfl
    rw [hcount] at hscant
    exact absurd (hroom hlent) (Nat.not_le_of_lt hscant)
  | ok u r' =>
    obtain ⟨-, hsorted, -, hmem, -, hsize, houtside⟩ := hm.ok u r' hx
    have hnew : entries cfg r' = es.insertIdx i c := by
      refine Ascending.ext hsorted hins fun e => ?_
      rw [hmem, h.entries, List.mem_insertIdx hi]
    refine ⟨r', rfl, ⟨⟨hnew, hins, ?_⟩, (he.ok u r' hx).1, houtside⟩,
      lookup_update h.ascending hins fun e => ?_⟩
    · rwa [List.length_insertIdx_of_le_length hi]
    · rw [List.mem_insertIdx hi]
      exact or_congr_right ⟨fun hes => ⟨hes, hnone e hes⟩, And.left⟩

theorem entries_setCoupon (h : Holds cfg es r) (hi : i < es.length) :
    entries cfg (r.setCoupon (offset cfg i) c) = es.set i c := by
  have hfits := h.fits
  have h40 := forty_le_offset cfg i
  have hroom : offset cfg i + 4 ≤ r.size := by
    unfold offset at *
    omega
  refine entries_eq ?_ fun j hj => ?_
  · rw [List.length_set, ← h.count]
    exact congrArg UInt32.toNat ((Region.within_setCoupon ..).word (by omega))
  · rw [List.length_set] at hj
    rw [offset_eq i, offset_eq j, Region.coupon_setCoupon _ (by rwa [← offset_eq]), ← offset_eq,
      List.getElem_set, h.coupon hj]
    exact if_congr eq_comm rfl rfl

/-- **Replacing an entry** changes its four bytes alone. -/
theorem leads_replace (h : Holds cfg es r) (hs : search cfg r c.slot = .found i) :
    ∃ r', replace cfg c.slot c.value r = .ok () r' ∧ Leads cfg (es.set i c) es.length r r' ∧
      Region.Within (offset cfg i) 4 r r' ∧
      lookup (es.set i c) = Function.update (lookup es) c.slot (some c.value) := by
  obtain ⟨e, he, hslot⟩ := Option.map_eq_some_iff.1 ((search_eq_found_iff h).1 hs)
  obtain ⟨hi, rfl⟩ := List.getElem?_eq_some_iff.1 he
  have hfits := h.fits
  have hm := @meets_replace cfg r c.slot c.value h.sorted c.slot_lt es[i]
    (by rw [h.entries]; exact List.getElem_mem hi) hslot (by rwa [h.count])
  have hrun : replace cfg c.slot c.value r = .ok () (r.setCoupon (offset cfg i) c) := by
    refine EStateM.get_bind.trans ?_
    rw [hs, Coupon.pack_slot_value]
    rfl
  obtain ⟨-, hsorted, -, hmem, hsize, houtside⟩ := hm.ok () _ hrun
  have hnew := entries_setCoupon (c := c) h hi
  have hwithin := r.within_setCoupon (offset cfg i) c
  rw [Sorted, hnew] at hsorted
  rw [hnew, Coupon.pack_slot_value, h.entries] at hmem
  rw [h.count] at houtside
  refine ⟨_, hrun, ⟨⟨hnew, hsorted, ?_⟩, hwithin.tenure, houtside⟩, hwithin,
    lookup_update h.ascending hsorted hmem⟩
  rwa [List.length_set, hsize]

/-- **Keeping some entries** leaves these, and zeros where the others were. -/
theorem leads_retain (h : Holds cfg es r) (ha : Ascending es') (hle : es'.length ≤ es.length) :
    Leads cfg es' es.length r (retain cfg es' r) ∧
      ∀ j, offset cfg es'.length ≤ j → j < offset cfg es.length →
        (retain cfg es' r).byte j = 0 := by
  have hfits := h.fits
  rw [← h.count] at hle hfits ⊢
  refine ⟨⟨⟨entries_retain hle hfits, ha, ?_⟩,
    ⟨backing_retain es', fun _ => size_retain es'⟩, fun j hj => byte_retain hle hj⟩,
    fun j hlow hhigh => ?_⟩
  · rw [size_retain]
    unfold offset at *
    omega
  · exact (tidies_retain hle j hlow).resolve_right fun hkept => by omega

/-! ## The table refines the map -/

/-- A table with the entries `es` behaves as the map of these entries. -/
structure Refines (cfg : Config) (es : List Coupon) (r : Region) : Prop where
  /-- A search gives the index of the entry, -/
  found : ∀ slot i, search cfg r slot = .found i ↔ es[i]?.map Coupon.slot = some slot
  /-- or the only one at which a new entry keeps the order. -/
  missing : ∀ (c : Coupon) i,
    search cfg r c.slot = .missing i ↔ i ≤ es.length ∧ Ascending (es.insertIdx i c)
  /-- To read the table is to look up in the map. -/
  read : get? cfg r = lookup es
  /-- An entry is added for a slot without one, where there is room. -/
  added : r.backing ≠ .frozen → ∀ c : Coupon, lookup es c.slot = none →
    (r.backing = .lent → offset cfg (es.length + 1) ≤ r.size) →
    ∃ i r', search cfg r c.slot = .missing i ∧ insert cfg c.slot c.value r = .ok () r' ∧
      Leads cfg (es.insertIdx i c) (es.length + 1) r r' ∧
      lookup (es.insertIdx i c) = Function.update (lookup es) c.slot (some c.value)
  /-- Without room for it nothing is written, -/
  crowded : ∀ slot value, lookup es slot = none → r.backing = .lent →
    r.size < offset cfg (es.length + 1) →
    insert cfg slot value r = .error (.outOfRoom (offset cfg (es.length + 1)) r.size) r
  /-- nor in a region for reading only, -/
  frozen : ∀ slot value, lookup es slot = none → r.backing = .frozen →
    insert cfg slot value r = .error .noWriteAccess r
  /-- nor for a slot that has an entry. -/
  repeated : ∀ slot value, lookup es slot ≠ none →
    insert cfg slot value r = .error (.exceptionRepeated slot) r
  /-- An entry takes the place of the one for its slot, and no other byte changes. -/
  replaced : r.backing ≠ .frozen → ∀ c : Coupon, lookup es c.slot ≠ none →
    ∃ i r', search cfg r c.slot = .found i ∧ replace cfg c.slot c.value r = .ok () r' ∧
      Leads cfg (es.set i c) es.length r r' ∧ Region.Within (offset cfg i) 4 r r' ∧
      lookup (es.set i c) = Function.update (lookup es) c.slot (some c.value)
  /-- Where there is none, nothing is written. -/
  unknown : ∀ slot value, lookup es slot = none →
    replace cfg slot value r = .error (.exceptionUnknown slot) r
  /-- A list in order takes the place of all entries, if it is no longer, and the bytes it leaves
  free are cleared. -/
  retained : r.backing ≠ .frozen → ∀ kept, Ascending kept → kept.length ≤ es.length →
    Leads cfg kept es.length r (retain cfg kept r) ∧
      ∀ j, offset cfg kept.length ≤ j → j < offset cfg es.length →
        (retain cfg kept r).byte j = 0

/-- **The exception table refines a finite map.** In a table sorted by slot, a search ends at the
entry of a slot, or at the one index where an entry for it keeps the order. A new entry extends the
map and keeps the table sorted, another value for a slot changes the map there, and a sorted list
takes the place of the whole table. None of this touches a byte before the table other than the
count. What the map does not allow fails, as does a new entry without room, and writes nothing. -/
theorem refines_map (h : Holds cfg es r) : Refines cfg es r where
  found _ _ := search_eq_found_iff h
  missing _ _ := search_eq_missing_iff h
  read := get?_eq_lookup h
  added hw c hl hroom := by
    obtain ⟨i, hs⟩ := search_of_lookup h c.slot
    rw [if_pos hl] at hs
    obtain ⟨r', hrun, hleads, hmap⟩ := leads_insert h hw hs hroom
    exact ⟨i, r', hs, hrun, hleads, hmap⟩
  crowded slot value hl hb hscant := by
    rw [lookup_eq_none_iff, ← h.entries] at hl
    rw [← h.count] at hscant ⊢
    exact insert_of_scant h.sorted hl hb hscant
  frozen slot value hl hb := by
    obtain ⟨i, hs⟩ := search_of_lookup h slot
    rw [if_pos hl] at hs
    refine EStateM.get_bind.trans ?_
    rw [hs]
    exact EStateM.bind_of_error (Region.reserve_of_frozen hb)
  repeated slot value hl := by
    obtain ⟨i, hs⟩ := search_of_lookup h slot
    rw [if_neg hl] at hs
    refine EStateM.get_bind.trans ?_
    rw [hs]
    rfl
  replaced _ c hl := by
    obtain ⟨i, hs⟩ := search_of_lookup h c.slot
    rw [if_neg hl] at hs
    obtain ⟨r', hrun, hleads, hwithin, hmap⟩ := leads_replace h hs
    exact ⟨i, r', hs, hrun, hleads, hwithin, hmap⟩
  unknown slot value hl := by
    obtain ⟨i, hs⟩ := search_of_lookup h slot
    rw [if_pos hl] at hs
    refine EStateM.get_bind.trans ?_
    rw [hs]
    rfl
  retained _ _ ha hle := leads_retain h ha hle

/-- Two exceptions, of the slots 3 and 9, of the smallest number of registers. -/
def excepting : Region :=
  ((⟨Bytes.extend .empty 56, .owned⟩ : Region).setCoupons 48
    [.pack 3 20, .pack 9 30]).putExceptionCount 2

/-- An entry for the slot 5 goes between the two. -/
theorem refines_map_between :
    let cfg : Config := ⟨4, .four, by decide, by decide⟩
    Holds cfg [.pack 3 20, .pack 9 30] excepting ∧
    get? cfg excepting 9 = some 30 ∧ search cfg excepting 5 = .missing 1 ∧
    ∃ r', insert cfg 5 25 excepting = .ok () r' ∧
      Holds cfg [.pack 3 20, .pack 5 25, .pack 9 30] r' := by
  intro cfg
  have hholds : Holds cfg [.pack 3 20, .pack 9 30] excepting :=
    ⟨by decide +kernel, by unfold Ascending; decide, by decide +kernel⟩
  have hrefines := refines_map hholds
  have hsearch : search cfg excepting 5 = .missing 1 :=
    (hrefines.missing (.pack 5 25) 1).2 ⟨by decide, by unfold Ascending; decide⟩
  obtain ⟨i, r', hs, hrun, hleads, -⟩ := hrefines.added (by decide) (.pack 5 25) (by decide) nofun
  obtain rfl : 1 = i := Place.missing.inj (hsearch.symm.trans hs)
  exact ⟨hholds, (congrFun hrefines.read 9).trans (by decide), hsearch, r', hrun, hleads.holds⟩

end HyperLogLog.Exceptions
