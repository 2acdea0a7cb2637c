import HyperLogLog.Proofs.Registry
import HyperLogLog.Sparse.CouponTable
import Mathlib.Data.Fintype.EquivFin
import Mathlib.Data.Nat.ModEq

/-!
# Open addressing refines a finite set

A table is a function from slots to coupons. A coupon is looked for along its probe sequence, up to
the first empty slot.

* `Slots.live`: the coupons of a table;
* `Slots.seek`, `Slots.put`, `Slots.rehash`: searching, adding and rebuilding;
* `Slots.Probed`: every coupon is met along its probe sequence, and is there once;
* **`position_surjective`**: the probe sequence of a coupon meets every slot;
* **`Probed.seek_of_mem`**, **`Probed.seek_of_not_mem`**: a search finds the coupon or room for it;
* **`Probed.put`**, **`Probed.mem_put`**: adding a coupon keeps all others where they are found.
-/

namespace HyperLogLog

theorem CouponTable.position_lt (lgArr : Nat) (c : Coupon) (j : Nat) :
    CouponTable.position lgArr c j < 2 ^ lgArr :=
  Nat.mod_lt _ (Nat.two_pow_pos _)

/-- A coupon tries no slot twice in as many steps as there are slots, since its stride is odd. -/
theorem CouponTable.position_inj {lgArr : Nat} {c : Coupon} {j l : Nat} (hj : j < 2 ^ lgArr)
    (hl : l < 2 ^ lgArr) (h : CouponTable.position lgArr c j = CouponTable.position lgArr c l) :
    j = l := by
  have hodd : Nat.Coprime (2 ^ lgArr) (stride lgArr c) := by
    refine Nat.Coprime.pow_left _ ?_
    rw [stride, Nat.coprime_mul_left_add_right]
    exact Nat.coprime_one_right 2
  have hmod : c.toNat + j * stride lgArr c ≡ c.toNat + l * stride lgArr c [MOD 2 ^ lgArr] := h
  have hcancel := (Nat.ModEq.add_left_cancel' _ hmod).cancel_right_of_coprime hodd
  exact Nat.ModEq.eq_of_lt_of_lt hcancel hj hl

/-- **The probe sequence of a coupon meets every slot.** -/
theorem CouponTable.position_surjective (lgArr : Nat) (c : Coupon) {t : Nat} (ht : t < 2 ^ lgArr) :
    ∃ j, j < 2 ^ lgArr ∧ CouponTable.position lgArr c j = t := by
  have hinj : Function.Injective fun j : Fin (2 ^ lgArr) =>
      (⟨position lgArr c j, position_lt lgArr c j⟩ : Fin (2 ^ lgArr)) := fun j l h =>
    Fin.ext (position_inj j.2 l.2 (congrArg Fin.val h))
  obtain ⟨j, hj⟩ := Finite.injective_iff_surjective.1 hinj ⟨t, ht⟩
  exact ⟨j, j.2, congrArg Fin.val hj⟩

namespace Slots

variable {n : Nat} {slots : Nat → Coupon} {c d : Coupon}

/-! ## The coupons of a table -/

/-- The coupons in the first `n` slots, in the order of the slots. -/
def live (n : Nat) (slots : Nat → Coupon) : List Coupon :=
  ((List.range n).map slots).filter (· ≠ .empty)

section Live

theorem mem_live : c ∈ live n slots ↔ c ≠ .empty ∧ ∃ t, t < n ∧ slots t = c := by
  rw [live, List.mem_filter, List.mem_map, decide_eq_true_eq, and_comm]
  exact and_congr_right fun _ => exists_congr fun t => by rw [List.mem_range]

theorem live_congr {slots' : Nat → Coupon} (h : ∀ t, t < n → slots' t = slots t) :
    live n slots' = live n slots := by
  rw [live, live, List.map_congr_left fun t ht => h t (List.mem_range.1 ht)]

@[simp] theorem live_nil : live n (fun _ => .empty) = [] := by
  rw [List.eq_nil_iff_forall_not_mem]
  intro c hc
  obtain ⟨hne, t, -, ht⟩ := mem_live.1 hc
  exact hne ht.symm

/-- Whether a slot is taken, as a number. -/
def taken (c : Coupon) : Nat := if c = .empty then 0 else 1

theorem length_live : (live n slots).length = level n (fun t => taken (slots t)) 1 := by
  rw [live, List.filter_map, List.length_map, ← List.countP_eq_length_filter]
  refine List.countP_congr fun t _ => ?_
  unfold taken
  by_cases h : slots t = .empty <;> simp [h]

theorem length_live_update {t : Nat} (ht : t < n) (he : slots t = .empty) (hc : c ≠ .empty) :
    (live n (Function.update slots t c)).length = (live n slots).length + 1 := by
  have h := level_update (v := fun s => taken (slots s)) (m := 1) (taken c) ht
  have hu : (fun s => taken (Function.update slots t c s)) =
      Function.update (fun s => taken (slots s)) t (taken c) := by
    funext s
    exact Function.apply_update (fun _ => taken) slots t c s
  rw [length_live, length_live, hu]
  have hold : taken (slots t) = 0 := if_pos he
  have hnew : taken c = 1 := if_neg hc
  rw [hold, hnew] at h
  rw [hnew]
  simpa using h

theorem exists_empty (h : (live n slots).length < n) : ∃ t, t < n ∧ slots t = .empty := by
  by_contra hno
  push Not at hno
  rw [length_live, level_of_forall fun t ht => show taken (slots t) = 1 from if_neg (hno t ht)] at h
  omega

end Live

/-! ## Searching -/

/-- Where the search for a coupon ends, along the slots `place j`, `place (j + 1)`, …, `n` of
them. -/
def seek (slots : Nat → Coupon) (c : Coupon) (place : Nat → Nat) : (n j : Nat) → Probe
  | 0, _ => .full
  | n + 1, j =>
    if slots (place j) = .empty then .free (place j)
    else if slots (place j) = c then .present
    else seek slots c place n (j + 1)

/-- What the outcome of a search says of the table. -/
def Ended (slots : Nat → Coupon) (c : Coupon) (place : Nat → Nat) (n j : Nat) : Probe → Prop
  | .present => ∃ i, j ≤ i ∧ i < j + n ∧ slots (place i) = c ∧ c ≠ .empty ∧
    ∀ l, j ≤ l → l < i → slots (place l) ≠ .empty
  | .free t => ∃ i, j ≤ i ∧ i < j + n ∧ place i = t ∧ slots t = .empty ∧
    ∀ l, j ≤ l → l < i → slots (place l) ≠ .empty ∧ slots (place l) ≠ c
  | .full => ∀ l, j ≤ l → l < j + n → slots (place l) ≠ .empty ∧ slots (place l) ≠ c

theorem ended_seek (slots : Nat → Coupon) (c : Coupon) (place : Nat → Nat) :
    ∀ n j, Ended slots c place n j (seek slots c place n j)
  | 0, j => fun l h₁ h₂ => by omega
  | n + 1, j => by
    unfold seek
    split_ifs with he hc
    · exact ⟨j, Nat.le_refl _, by omega, rfl, he, fun l h₁ h₂ => by omega⟩
    · exact ⟨j, Nat.le_refl _, by omega, hc, hc ▸ he, fun l h₁ h₂ => by omega⟩
    · have ih := ended_seek slots c place n (j + 1)
      -- the first slot is neither empty nor the coupon, so the rest decides
      have hfirst : ∀ l, j ≤ l → ¬ j + 1 ≤ l → slots (place l) ≠ .empty ∧ slots (place l) ≠ c := by
        intro l h₁ h₂
        rw [show l = j by omega]
        exact ⟨he, hc⟩
      cases hs : seek slots c place n (j + 1) with
      | present =>
        rw [hs] at ih
        obtain ⟨i, h₁, h₂, h₃, h₄, h₅⟩ := ih
        refine ⟨i, by omega, by omega, h₃, h₄, fun l hl hi => ?_⟩
        by_cases hj : j + 1 ≤ l
        · exact h₅ l hj hi
        · exact (hfirst l hl hj).1
      | free t =>
        rw [hs] at ih
        obtain ⟨i, h₁, h₂, h₃, h₄, h₅⟩ := ih
        refine ⟨i, by omega, by omega, h₃, h₄, fun l hl hi => ?_⟩
        by_cases hj : j + 1 ≤ l
        · exact h₅ l hj hi
        · exact hfirst l hl hj
      | full =>
        rw [hs] at ih
        intro l hl hn
        by_cases hj : j + 1 ≤ l
        · exact ih l hj (by omega)
        · exact hfirst l hl hj

/-- The coupon is met along the probe sequence before an empty slot is. -/
def Found (slots : Nat → Coupon) (c : Coupon) (place : Nat → Nat) (n : Nat) : Prop :=
  ∃ i, i < n ∧ slots (place i) = c ∧ ∀ l, l < i → slots (place l) ≠ .empty

theorem seek_of_found {place : Nat → Nat} (hc : c ≠ .empty) (h : Found slots c place n) :
    seek slots c place n 0 = .present := by
  obtain ⟨i, hi, hic, hbefore⟩ := h
  have he := ended_seek slots c place n 0
  cases hs : seek slots c place n 0 with
  | present => rfl
  | free t =>
    rw [hs] at he
    obtain ⟨j, -, hj, rfl, hempty, hno⟩ := he
    exfalso
    rcases Nat.lt_trichotomy i j with hij | rfl | hij
    · exact (hno i (Nat.zero_le _) hij).2 hic
    · exact hc (hic.symm.trans hempty)
    · exact hbefore j hij hempty
  | full =>
    rw [hs] at he
    exact absurd hic (he i (Nat.zero_le _) (by omega)).2

/-! ## Tables built by adding coupons -/

/-- The probe sequences of a table with `n` slots: each of them meets every slot. -/
structure Covers (place : Coupon → Nat → Nat) (n : Nat) : Prop where
  lt : ∀ c j, place c j < n
  onto : ∀ c t, t < n → ∃ j, j < n ∧ place c j = t

theorem covers_position (lgArr : Nat) : Covers (CouponTable.position lgArr) (2 ^ lgArr) :=
  ⟨CouponTable.position_lt lgArr, fun c _ ht => CouponTable.position_surjective lgArr c ht⟩

/-- Every coupon of the table is met along its probe sequence, and is in one slot only. -/
structure Probed (place : Coupon → Nat → Nat) (n : Nat) (slots : Nat → Coupon) : Prop where
  found : ∀ t, t < n → slots t ≠ .empty → Found slots (slots t) (place (slots t)) n
  single : ∀ s t, s < n → t < n → slots s ≠ .empty → slots s = slots t → s = t

/-- Adds a coupon, if it is not there and there is room. -/
def put (place : Coupon → Nat → Nat) (n : Nat) (slots : Nat → Coupon) (c : Coupon) :
    Nat → Coupon :=
  match seek slots c (place c) n 0 with
  | .free t => Function.update slots t c
  | _ => slots

/-- The table of the given coupons. -/
def rehash (place : Coupon → Nat → Nat) (n : Nat) (cs : List Coupon) : Nat → Coupon :=
  cs.foldl (put place n) fun _ => .empty

namespace Probed

variable {place : Coupon → Nat → Nat}

theorem empty : Probed place n fun _ => .empty :=
  ⟨fun _ _ h => absurd rfl h, fun _ _ _ _ h => absurd rfl h⟩

theorem nodup_live (h : Probed place n slots) : (live n slots).Nodup := by
  rw [live, List.filter_map]
  refine List.Nodup.map_on ?_ (List.nodup_range.filter _)
  intro s hs t ht hst
  rw [List.mem_filter, List.mem_range] at hs ht
  exact h.single s t hs.1 ht.1 (by simpa using hs.2) hst

theorem seek_of_mem (h : Probed place n slots) (hc : c ∈ live n slots) :
    seek slots c (place c) n 0 = .present := by
  obtain ⟨hne, t, ht, rfl⟩ := mem_live.1 hc
  exact seek_of_found hne (h.found t ht hne)

/-- **A coupon that is not in a table with room finds an empty slot.** -/
theorem seek_of_not_mem (hp : Covers place n) (hc : c ∉ live n slots)
    (hroom : (live n slots).length < n) :
    ∃ t i, seek slots c (place c) n 0 = .free t ∧ t < n ∧ i < n ∧ place c i = t ∧
      slots t = .empty ∧ ∀ l, l < i → slots (place c l) ≠ .empty := by
  have he := ended_seek slots c (place c) n 0
  cases hs : seek slots c (place c) n 0 with
  | present =>
    rw [hs] at he
    obtain ⟨i, -, -, hi, hne, -⟩ := he
    exact absurd (mem_live.2 ⟨hne, _, hp.lt c i, hi⟩) hc
  | free t =>
    rw [hs] at he
    obtain ⟨i, -, hi, rfl, hempty, hbefore⟩ := he
    exact ⟨_, i, rfl, hp.lt c i, by omega, rfl, hempty,
      fun l hl => (hbefore l (Nat.zero_le _) hl).1⟩
  | full =>
    rw [hs] at he
    obtain ⟨t, ht, hempty⟩ := exists_empty hroom
    obtain ⟨j, hj, rfl⟩ := hp.onto c t ht
    exact absurd hempty (he j (Nat.zero_le _) (by omega)).1

theorem put_of_mem (h : Probed place n slots) (hc : c ∈ live n slots) :
    Slots.put place n slots c = slots := by
  rw [Slots.put, h.seek_of_mem hc]

theorem put_empty : Slots.put place n slots .empty = slots := by
  have he := ended_seek slots .empty (place .empty) n 0
  unfold Slots.put
  cases hs : seek slots .empty (place .empty) n 0 with
  | present => rfl
  | full => rfl
  | free t =>
    rw [hs] at he
    obtain ⟨i, -, -, -, hempty, -⟩ := he
    exact Function.update_eq_self_iff.2 hempty.symm

/-- **Adding a coupon keeps all others where they are found.** -/
theorem put (h : Probed place n slots) (hp : Covers place n) (hroom : (live n slots).length < n) :
    Probed place n (Slots.put place n slots c) := by
  by_cases hne : c = .empty
  · rwa [hne, put_empty]
  by_cases hc : c ∈ live n slots
  · rwa [h.put_of_mem hc]
  obtain ⟨t, i, hs, ht, hi, hit, hempty, hbefore⟩ := seek_of_not_mem hp hc hroom
  have hold : ∀ s, slots s ≠ .empty → Function.update slots t c s = slots s := fun s hse =>
    Function.update_of_ne (fun hst : s = t => hse (by rw [hst, hempty])) ..
  rw [Slots.put, hs]
  dsimp only
  constructor
  · intro s hs' hse
    by_cases hst : s = t
    · rw [hst, Function.update_self]
      refine ⟨i, hi, by rw [hit, Function.update_self], fun l hl => ?_⟩
      rw [hold _ (hbefore l hl)]
      exact hbefore l hl
    · rw [Function.update_of_ne hst] at hse ⊢
      obtain ⟨j, hj, hjs, hjb⟩ := h.found s hs' hse
      refine ⟨j, hj, ?_, fun l hl => ?_⟩
      · rw [hold _ (by rwa [hjs]), hjs]
      · rw [hold _ (hjb l hl)]
        exact hjb l hl
  · have hfresh : ∀ s, s < n → slots s ≠ c := fun s hs' hsc =>
      hc (mem_live.2 ⟨hne, s, hs', hsc⟩)
    intro s u hs' hu hse hsu
    by_cases hst : s = t
    · by_cases hut : u = t
      · rw [hst, hut]
      · rw [hst, Function.update_self, Function.update_of_ne hut] at hsu
        exact absurd hsu.symm (hfresh u hu)
    · by_cases hut : u = t
      · rw [hut, Function.update_self, Function.update_of_ne hst] at hsu
        exact absurd hsu (hfresh s hs')
      · rw [Function.update_of_ne hst] at hse hsu
        rw [Function.update_of_ne hut] at hsu
        exact h.single s u hs' hu hse hsu

/-- **Adding a coupon adds that coupon alone.** -/
theorem mem_put (h : Probed place n slots) (hp : Covers place n) (hne : c ≠ .empty)
    (hroom : (live n slots).length < n) :
    d ∈ live n (Slots.put place n slots c) ↔ d = c ∨ d ∈ live n slots := by
  by_cases hc : c ∈ live n slots
  · rw [h.put_of_mem hc]
    exact ⟨.inr, fun hd => hd.elim (fun e => e ▸ hc) id⟩
  obtain ⟨t, i, hs, ht, -, -, hempty, -⟩ := seek_of_not_mem hp hc hroom
  rw [Slots.put, hs]
  dsimp only
  rw [mem_live, mem_live]
  constructor
  · rintro ⟨hde, s, hs', rfl⟩
    by_cases hst : s = t
    · exact .inl (by rw [hst, Function.update_self])
    · rw [Function.update_of_ne hst] at hde ⊢
      exact .inr ⟨hde, s, hs', rfl⟩
  · rintro (rfl | ⟨hde, s, hs', rfl⟩)
    · exact ⟨hne, t, ht, Function.update_self ..⟩
    · exact ⟨hde, s, hs', Function.update_of_ne (fun hst : s = t => hde (by rw [hst, hempty])) ..⟩

theorem length_put (hp : Covers place n) (hne : c ≠ .empty) (hc : c ∉ live n slots)
    (hroom : (live n slots).length < n) :
    (live n (Slots.put place n slots c)).length = (live n slots).length + 1 := by
  obtain ⟨t, i, hs, ht, -, -, hempty, -⟩ := seek_of_not_mem hp hc hroom
  rw [Slots.put, hs]
  exact length_live_update ht hempty hne

theorem length_put_le (h : Probed place n slots) (hp : Covers place n)
    (hroom : (live n slots).length < n) :
    (live n (Slots.put place n slots c)).length ≤ (live n slots).length + 1 := by
  by_cases hne : c = .empty
  · rw [hne, put_empty]
    exact Nat.le_succ _
  by_cases hc : c ∈ live n slots
  · rw [h.put_of_mem hc]
    exact Nat.le_succ _
  · exact Nat.le_of_eq (length_put hp hne hc hroom)

theorem foldl_put (hp : Covers place n) : ∀ {slots : Nat → Coupon}, Probed place n slots →
    ∀ (cs : List Coupon), cs.Nodup → (∀ c ∈ cs, c ≠ .empty ∧ c ∉ live n slots) →
    (live n slots).length + cs.length ≤ n →
    Probed place n (cs.foldl (Slots.put place n) slots) ∧
      (∀ d, d ∈ live n (cs.foldl (Slots.put place n) slots) ↔ d ∈ cs ∨ d ∈ live n slots) ∧
      (live n (cs.foldl (Slots.put place n) slots)).length = (live n slots).length + cs.length
  | _, h, [], _, _, _ => ⟨h, fun d => by simp, rfl⟩
  | slots, h, c :: cs, hnd, hcs, hlen => by
    obtain ⟨hne, hc⟩ := hcs c List.mem_cons_self
    obtain ⟨hcnot, hnd⟩ := List.nodup_cons.1 hnd
    rw [List.length_cons] at hlen
    have hroom : (live n slots).length < n := by omega
    have hput := length_put hp hne hc hroom
    have hmem := fun d => h.mem_put (d := d) hp hne hroom
    have hcs' : ∀ d ∈ cs, d ≠ .empty ∧ d ∉ live n (Slots.put place n slots c) := by
      intro d hd
      refine ⟨(hcs d (List.mem_cons_of_mem _ hd)).1, fun hd' => ?_⟩
      rcases (hmem d).1 hd' with rfl | hd'
      · exact hcnot hd
      · exact (hcs d (List.mem_cons_of_mem _ hd)).2 hd'
    obtain ⟨h₁, h₂, h₃⟩ := foldl_put hp (h.put hp hroom) cs hnd hcs' (by omega)
    refine ⟨h₁, fun d => ?_, ?_⟩
    · rw [List.foldl_cons, h₂, hmem, List.mem_cons]
      tauto
    · rw [List.foldl_cons, h₃, hput, List.length_cons, Nat.add_right_comm, Nat.add_assoc]

end Probed

/-- **A table built from distinct coupons holds these.** -/
theorem probed_rehash {place : Coupon → Nat → Nat} {cs : List Coupon} (hp : Covers place n)
    (hnd : cs.Nodup) (hcs : ∀ c ∈ cs, c ≠ .empty) (hlen : cs.length ≤ n) :
    Probed place n (rehash place n cs) ∧ (∀ d, d ∈ live n (rehash place n cs) ↔ d ∈ cs) ∧
      (live n (rehash place n cs)).length = cs.length := by
  have h := Probed.empty.foldl_put hp cs hnd (fun c hc => ⟨hcs c hc, by simp⟩) (by simpa using hlen)
  simpa [rehash] using h

end Slots

end HyperLogLog
