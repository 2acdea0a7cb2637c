import HyperLogLog.Proofs.Holding
import HyperLogLog.Proofs.Sums

/-!
# When a sketch goes from one representation to the next

The number of distinct coupons decides which representation a sketch is in and how large its table
is, and it is the same for every order in which they come.

* `Holding.Regular`: what is true of holdings that have taken in observations alone;
* `Holding.stage`: the representation that goes with a number of distinct coupons;
* `Holding.Similar`: holdings that differ in the places of coupons in a table at most;
* **`regular_insert`**: taking in a coupon keeps a holding regular;
* **`mode_insert`**: the representation goes with the number of distinct coupons;
* **`similar_insert`**: the places of coupons in a table never show in what it turns into;
* **`similar_foldl_coupons`**: taking in the coupons of a table again only changes their places.
-/

namespace HyperLogLog.Holding

open Footprint (lgTable)
open CouponList (lgTableFrom)

variable {lgK L m n : Nat} {slots slots' : Nat → Coupon} {h h' : Holding} {c : Coupon}
  {cs ds : List Coupon}

/-- The count of a table is that of its coupons, and a smaller table would not hold them. -/
structure Measured (L : Nat) (slots : Nat → Coupon) (n : Nat) : Prop where
  counted : (Slots.live (2 ^ L) slots).length = n
  least : L = lgTable ∨ 3 * 2 ^ (L - 1) < 4 * n

/-- What is true of holdings that have taken in observations alone: counts are those of coupons, a
table has at least `m` of them and is no larger than it must be, and sums are exact. -/
def Regular (lgK m : Nat) : Holding → Prop
  | list cs n => cs.length = n
  | table L slots n => lgTableFrom ≤ lgK ∧ m ≤ n ∧ Measured L slots n
  | dense g => g.Exact lgK

/-! ## Tables and registers -/

section Raise

theorem measured_put (t : Tabled lgK L slots n) (hm : Measured L slots n) (hne : c ≠ .empty)
    (hc : c ∉ Slots.live (2 ^ L) slots) :
    Measured L (Slots.put (CouponTable.position L) (2 ^ L) slots c) (n + 1) := by
  have hlen := Slots.Probed.length_put (Slots.covers_position L) hne hc t.lt_room
  have hcounted := hm.counted
  exact ⟨by omega, hm.least.imp_right fun hlt => by omega⟩

theorem measured_rehash (t : Tabled lgK L slots n) (hm : Measured L slots n) (hne : c ≠ .empty)
    (hc : c ∉ Slots.live (2 ^ L) slots) (hfull : 3 * 2 ^ L < 4 * (n + 1)) :
    Measured (L + 1) (Slots.rehash (CouponTable.position (L + 1)) (2 ^ (L + 1))
      (Slots.live (2 ^ L) (Slots.put (CouponTable.position L) (2 ^ L) slots c))) (n + 1) := by
  have hcounted := (measured_put t hm hne hc).counted
  have hput := t.probed.put (c := c) (Slots.covers_position L) t.lt_room
  have hroom := t.room
  have hpow : 2 ^ (L + 1) = 2 ^ L * 2 := Nat.pow_succ ..
  have h32 : 2 ^ 5 ≤ 2 ^ L := Nat.pow_le_pow_right (by decide) t.least
  obtain ⟨-, -, hlen⟩ := Slots.probed_rehash (Slots.covers_position (L + 1)) hput.nodup_live
    (fun d hd => (Slots.mem_live.1 hd).1) (by omega)
  exact ⟨hlen.trans hcounted, .inr hfull⟩

theorem regular_promote (hk : lgK ≤ 21) (cs : List Coupon) (n : Nat) :
    (promote lgK cs n).Regular lgK m :=
  Registry.exact_replay hk _

theorem regular_raise (hk : lgK ≤ 21) (hs : h.Sound lgK) (hr : h.Regular lgK m)
    (hne : c ≠ .empty) : (h.raise lgK c).Regular lgK m := by
  cases h with
  | list ds n => exact hr
  | dense g =>
    have hg : g.Exact lgK := hr
    exact hg.take hk hs c
  | table L slots n =>
    have t : Tabled lgK L slots n := hs
    obtain ⟨hlg, hle, hm⟩ := hr
    by_cases hc : c ∈ Slots.live (2 ^ L) slots
    · rw [raise_of_mem hc]
      exact ⟨hlg, hle, hm⟩
    rw [raise_of_not_mem hc]
    dsimp only
    split_ifs with hfull hmost
    · exact regular_promote hk _ _
    · exact ⟨hlg, Nat.le_succ_of_le hle, measured_rehash t hm hne hc hfull⟩
    · exact ⟨hlg, Nat.le_succ_of_le hle, measured_put t hm hne hc⟩

theorem regular_foldl_raise (hk : lgK ≤ 21) (hs : h.Sound lgK) (hr : h.Regular lgK m)
    (hds : ∀ d ∈ ds, d ≠ .empty) : (ds.foldl (raise lgK) h).Regular lgK m := by
  induction ds generalizing h with
  | nil => exact hr
  | cons d ds ih =>
    exact ih (sound_raise hs d) (regular_raise hk hs hr (hds d List.mem_cons_self)) fun e he =>
      hds e (List.mem_cons_of_mem _ he)

theorem foldl_raise_eq_table (lgK : Nat) (slots : Nat → Coupon) (hlen : n + cs.length ≤ 24) :
    ∃ slots' n', cs.foldl (raise lgK) (table lgTable slots n) = table lgTable slots' n' := by
  induction cs generalizing slots n with
  | nil => exact ⟨slots, n, rfl⟩
  | cons c cs ih =>
    rw [List.length_cons] at hlen
    rw [List.foldl_cons]
    by_cases hc : c ∈ Slots.live (2 ^ lgTable) slots
    · rw [raise_of_mem hc]
      exact ih _ (by omega)
    · have hroom : ¬ 3 * 2 ^ lgTable < 4 * (n + 1) := by
        have : 3 * 2 ^ lgTable = 96 := rfl
        omega
      rw [raise_of_not_mem hc]
      dsimp only
      rw [if_neg hroom]
      exact ih _ (by omega)

end Raise

/-! ## How many distinct coupons there are -/

section Count

theorem length_eq_card (hnd : ds.Nodup) (hmem : ∀ c, c ∈ ds ↔ c ∈ cs) :
    ds.length = cs.toFinset.card := by
  rw [← List.toFinset_card_of_nodup hnd]
  refine congrArg Finset.card (Finset.ext fun c => ?_)
  rw [List.mem_toFinset, List.mem_toFinset, hmem]

theorem card_append_of_mem (hc : c ∈ cs) : (cs ++ [c]).toFinset.card = cs.toFinset.card := by
  refine congrArg Finset.card (Finset.ext fun d => ?_)
  rw [List.mem_toFinset, List.mem_toFinset, List.mem_append, List.mem_singleton,
    or_iff_left_of_imp]
  rintro rfl
  exact hc

theorem card_append_of_not_mem (hc : c ∉ cs) :
    (cs ++ [c]).toFinset.card = cs.toFinset.card + 1 := by
  have hset : (cs ++ [c]).toFinset = Insert.insert c cs.toFinset := Finset.ext fun d => by
    rw [List.mem_toFinset, List.mem_append, List.mem_singleton, Finset.mem_insert,
      List.mem_toFinset, or_comm]
  rw [hset, Finset.card_insert_of_notMem (by rwa [List.mem_toFinset])]

theorem list_count (hs : (list ds n).Sound lgK) (hr : (list ds n).Regular lgK m)
    (hrec : (list ds n).Records lgK cs) : n = cs.toFinset.card := by
  have hds : ds = cs.eraseDups := hrec
  have hlen : ds.length = n := hr
  rw [← hlen]
  exact length_eq_card (Listable.nodup hs) fun c => by rw [hds, List.mem_eraseDups]

theorem table_count (hs : (table L slots n).Sound lgK) (hr : (table L slots n).Regular lgK m)
    (hrec : (table L slots n).Records lgK cs) : n = cs.toFinset.card := by
  have t : Tabled lgK L slots n := hs
  rw [← hr.2.2.counted]
  exact length_eq_card t.probed.nodup_live hrec

end Count

/-! ## Lists -/

section List

theorem spill_eq_table (hlg : lgTableFrom ≤ lgK) (hk : lgK ≤ 21) (hcs : ∀ c ∈ cs, c ≠ .empty)
    (hnd : cs.Nodup) (hlen : cs.length = 8) :
    ∃ slots, spill lgK cs m = table lgTable slots 8 ∧
      (table lgTable slots 8).Regular lgK 8 := by
  have hspill : spill lgK cs m = cs.foldl (raise lgK) (table lgTable (fun _ => .empty) 0) :=
    if_neg (Nat.not_lt.2 hlg)
  have hbegun : (table lgTable (fun _ => .empty) 0).Regular lgK 0 :=
    ⟨hlg, Nat.le_refl _, by rw [Slots.live_nil]; rfl, .inl rfl⟩
  obtain ⟨slots, n, htable⟩ := foldl_raise_eq_table lgK (fun _ => .empty)
    (show 0 + cs.length ≤ 24 by omega)
  have hsound := sound_spill lgK cs m
  have hrec : (spill lgK cs m).Records lgK cs := records_spill hcs
  have hreg := regular_foldl_raise hk (h := table lgTable (fun _ => .empty) 0) (tabled_empty hlg)
    hbegun hcs
  rw [hspill, htable] at hsound hrec
  rw [htable] at hreg
  obtain rfl : n = 8 := by
    rw [table_count hsound hreg hrec, ← length_eq_card hnd fun _ => Iff.rfl, hlen]
  exact ⟨slots, hspill.trans htable, hreg.1, Nat.le_refl _, hreg.2.2⟩

theorem regular_spill (hk : lgK ≤ 21) (hcs : ∀ c ∈ cs, c ≠ .empty) (hnd : cs.Nodup)
    (hlen : cs.length = 8) : (spill lgK cs m).Regular lgK 8 := by
  by_cases hlg : lgK < lgTableFrom
  · rw [spill, if_pos hlg]
    exact regular_promote hk _ _
  · obtain ⟨slots, hspill, hreg⟩ := spill_eq_table (m := m) (Nat.le_of_not_lt hlg) hk hcs hnd hlen
    rwa [hspill]

end List

/-! ## Sketches -/

/-- **Taking in an observation keeps a holding regular.** -/
theorem regular_insert (hk : lgK ≤ 21) (hs : h.Sound lgK) (hr : h.Regular lgK 8)
    (hne : c ≠ .empty) : (h.insert lgK c).Regular lgK 8 := by
  cases h with
  | table L slots n => exact regular_raise hk hs hr hne
  | dense g => exact regular_raise hk hs hr hne
  | list ds n =>
    have l : Listable ds n := hs
    have hlen : ds.length = n := hr
    have hroom := l.room
    have happ : append ds c = ds ++ [c] := if_neg hne
    have hlen' : (append ds c).length = n + 1 := by rw [happ, List.length_append, hlen]; rfl
    unfold insert
    dsimp only
    split_ifs with hmem hlt
    · exact hr
    · exact hlen'
    · exact regular_spill hk (ne_empty_append l.live c) (nodup_append l.nodup hmem) (by omega)

theorem regular_foldl_insert (hk : lgK ≤ 21) (hs : h.Sound lgK) (hr : h.Regular lgK 8)
    (hds : ∀ d ∈ ds, d ≠ .empty) : (ds.foldl (insert lgK) h).Regular lgK 8 := by
  induction ds generalizing h with
  | nil => exact hr
  | cons d ds ih =>
    exact ih (sound_insert hs d) (regular_insert hk hs hr (hds d List.mem_cons_self)) fun e he =>
      hds e (List.mem_cons_of_mem _ he)

theorem regular_forget (hr : h.Regular lgK m) : h.forget.Regular lgK m := by
  cases h with
  | list ds n => exact hr
  | table L slots n => exact hr
  | dense g =>
    have hg : g.Exact lgK := hr
    exact hg.putHistory _ _

/-! ## Histories that are known -/

/-- Registers, if they are what is held, know their history. -/
def Orderly : Holding → Prop
  | dense g => g.history.outOfOrder = false
  | _ => True

theorem orderly_promote (lgK : Nat) (cs : List Coupon) (n : Nat) : (promote lgK cs n).Orderly :=
  Registry.outOfOrder_foldl_take lgK (Registry.fresh lgK) cs

theorem orderly_raise (lgK : Nat) (ho : h.Orderly) (c : Coupon) : (h.raise lgK c).Orderly := by
  cases h with
  | list ds n => trivial
  | dense g => exact (Registry.outOfOrder_take lgK g c).trans ho
  | table L slots n =>
    unfold raise
    dsimp only
    split_ifs
    · trivial
    · exact orderly_promote _ _ _
    · trivial
    · trivial

theorem orderly_spill (lgK : Nat) (cs : List Coupon) (n : Nat) : (spill lgK cs n).Orderly := by
  unfold spill
  split_ifs
  · exact orderly_promote _ _ _
  · exact List.foldlRecOn cs (raise lgK) (motive := Orderly) trivial fun h ho c _ =>
      orderly_raise lgK ho c

/-- **Taking in coupons leaves registers that know their history.** -/
theorem orderly_insert (lgK : Nat) (ho : h.Orderly) (c : Coupon) : (h.insert lgK c).Orderly := by
  cases h with
  | table L slots n => exact orderly_raise lgK ho c
  | dense g => exact orderly_raise lgK ho c
  | list ds n =>
    unfold insert
    dsimp only
    split_ifs
    · trivial
    · trivial
    · exact orderly_spill _ _ _

/-! ## The representation -/

/-- The representation of `d` distinct coupons. -/
def stage (lgK d : Nat) : Mode :=
  if d < 8 then .list
  else if lgK < lgTableFrom ∨ 3 * 2 ^ (lgK - 3) < 4 * d then .dense
  else .set

theorem stage_eq_list {d : Nat} (hd : d < 8) : stage lgK d = .list := if_pos hd

theorem stage_eq_dense {d : Nat} (hd : 8 ≤ d)
    (h : lgK < lgTableFrom ∨ 3 * 2 ^ (lgK - 3) < 4 * d) : stage lgK d = .dense := by
  rw [stage, if_neg (Nat.not_lt.2 hd), if_pos h]

theorem stage_eq_set {d : Nat} (hd : 8 ≤ d) (hlg : lgTableFrom ≤ lgK)
    (h : 4 * d ≤ 3 * 2 ^ (lgK - 3)) : stage lgK d = .set := by
  rw [stage, if_neg (Nat.not_lt.2 hd), if_neg (by omega)]

theorem stage_dense_succ {d : Nat} (h : stage lgK d = .dense) : stage lgK (d + 1) = .dense := by
  unfold stage at h
  split_ifs at h with h₁ h₂
  exact stage_eq_dense (by omega) (h₂.imp_right fun hlt => by omega)

theorem stage_table (t : Tabled lgK L slots n) (hr : (table L slots n).Regular lgK 8) {d : Nat}
    (hd : 4 * d ≤ 3 * 2 ^ L) (hn : n ≤ d) : stage lgK d = .set := by
  have hpow : 2 ^ L ≤ 2 ^ (lgK - 3) := Nat.pow_le_pow_right (by decide) t.most
  exact stage_eq_set (hr.2.1.trans hn) hr.1 (by omega)

theorem mode_insert_list (hk : lgK ≤ 21) (l : Listable ds n) (hlen : ds.length = n)
    (hne : c ≠ .empty) (hc : c ∉ ds) : ((list ds n).insert lgK c).mode = stage lgK (n + 1) := by
  have hroom := l.room
  have happ : append ds c = ds ++ [c] := if_neg hne
  have hlen' : (append ds c).length = n + 1 := by rw [happ, List.length_append, hlen]; rfl
  unfold insert
  dsimp only
  rw [if_neg hc]
  by_cases hlt : n + 1 < 8
  · rw [if_pos hlt, stage_eq_list hlt]
    rfl
  rw [if_neg hlt]
  by_cases hlg : lgK < lgTableFrom
  · rw [spill, if_pos hlg, stage_eq_dense (by omega) (.inl hlg)]
    rfl
  · have hpow : 2 ^ 5 ≤ 2 ^ (lgK - 3) := Nat.pow_le_pow_right (by decide) (by
      have : lgTableFrom = 8 := rfl
      omega)
    obtain ⟨slots, hspill, -⟩ := spill_eq_table (m := n + 1) (Nat.le_of_not_lt hlg) hk
      (ne_empty_append l.live c) (nodup_append l.nodup hc) (by omega)
    rw [hspill, stage_eq_set (by omega) (by omega) (by omega)]
    rfl

theorem mode_raise_table (t : Tabled lgK L slots n) (hr : (table L slots n).Regular lgK 8)
    (hc : c ∉ Slots.live (2 ^ L) slots) :
    ((table L slots n).raise lgK c).mode = stage lgK (n + 1) := by
  have hmost := t.most
  have h8 := hr.2.1
  rw [raise_of_not_mem hc]
  dsimp only
  by_cases hfull : 3 * 2 ^ L < 4 * (n + 1)
  · rw [if_pos hfull]
    by_cases hlast : lgK - 3 ≤ L
    · have hL : L = lgK - 3 := by omega
      rw [if_pos hlast, stage_eq_dense (by omega) (.inr (hL ▸ hfull))]
      rfl
    · -- the table is far from the largest, so that one coupon more does not fill that
      have hroom := t.room
      have h32 : 2 ^ 5 ≤ 2 ^ L := Nat.pow_le_pow_right (by decide) t.least
      have hpow : 2 ^ L * 2 ≤ 2 ^ (lgK - 3) := by
        rw [← Nat.pow_succ]
        exact Nat.pow_le_pow_right (by decide) (by omega)
      rw [if_neg hlast, stage_eq_set (by omega) hr.1 (by omega)]
      rfl
  · rw [if_neg hfull, stage_table t hr (by omega) (Nat.le_succ n)]
    rfl

/-- **The representation goes with the number of distinct coupons.** -/
theorem mode_insert (hk : lgK ≤ 21) (hs : h.Sound lgK) (hr : h.Regular lgK 8)
    (hrec : h.Records lgK cs) (hne : c ≠ .empty) (hmode : h.mode = stage lgK cs.toFinset.card) :
    (h.insert lgK c).mode = stage lgK (cs ++ [c]).toFinset.card := by
  cases h with
  | list ds n =>
    have hds : ds = cs.eraseDups := hrec
    have hmem : c ∈ ds ↔ c ∈ cs := by rw [hds, List.mem_eraseDups]
    by_cases hc : c ∈ ds
    · rw [card_append_of_mem (hmem.1 hc)]
      exact (congrArg Holding.mode (if_pos hc)).trans hmode
    · rw [card_append_of_not_mem (mt hmem.2 hc), ← list_count hs hr hrec]
      exact mode_insert_list hk hs hr hne hc
  | table L slots n =>
    change (raise lgK (table L slots n) c).mode = _
    by_cases hc : c ∈ Slots.live (2 ^ L) slots
    · rw [raise_of_mem hc, card_append_of_mem ((hrec c).1 hc)]
      exact hmode
    · rw [card_append_of_not_mem (mt (hrec c).2 hc), ← table_count hs hr hrec]
      exact mode_raise_table hs hr hc
  | dense g =>
    change Mode.dense = _
    by_cases hc : c ∈ cs
    · rw [card_append_of_mem hc]
      exact hmode
    · rw [card_append_of_not_mem hc]
      exact (stage_dense_succ hmode.symm).symm

/-- What a new sketch holds once it has taken in coupons. -/
structure Follows (lgK : Nat) (cs : List Coupon) (h : Holding) : Prop where
  sound : h.Sound lgK
  regular : h.Regular lgK 8
  records : h.Records lgK cs
  orderly : h.Orderly
  mode : h.mode = stage lgK cs.toFinset.card

theorem Follows.insert (hf : Follows lgK cs h) (hk : lgK ≤ 21) (hne : c ≠ .empty) :
    Follows lgK (cs ++ [c]) (h.insert lgK c) where
  sound := sound_insert hf.sound c
  regular := regular_insert hk hf.sound hf.regular hne
  records := records_insert hf.sound hne hf.records
  orderly := orderly_insert lgK hf.orderly c
  mode := mode_insert hk hf.sound hf.regular hf.records hne hf.mode

theorem Follows.foldl_insert (hf : Follows lgK cs h) (hk : lgK ≤ 21)
    (hds : ∀ d ∈ ds, d ≠ .empty) : Follows lgK (cs ++ ds) (ds.foldl (Holding.insert lgK) h) := by
  induction ds generalizing h cs with
  | nil => rwa [List.append_nil]
  | cons d ds ih =>
    have := ih (hf.insert hk (hds d List.mem_cons_self)) fun e he =>
      hds e (List.mem_cons_of_mem _ he)
    rwa [List.append_assoc, List.singleton_append] at this

/-- **A new sketch that has taken in coupons** is in the representation that goes with the number of
distinct ones, and has their observations. -/
theorem follows_run (hk : lgK ≤ 21) (hcs : ∀ c ∈ cs, c ≠ .empty) :
    Follows lgK cs (cs.foldl (Holding.insert lgK) (list [] 0)) := by
  have hnil : Follows lgK [] (list [] 0) := ⟨listable_nil, rfl, rfl, trivial, rfl⟩
  exact hnil.foldl_insert hk hcs

/-- A table that is no larger than it must be has room for its count in no smaller one. -/
theorem Measured.le_of_room (hm : Measured L slots n) {L' : Nat} (hleast : lgTable ≤ L')
    (hroom : 4 * n ≤ 3 * 2 ^ L') : L ≤ L' := by
  by_contra hlt
  rcases hm.least with hL | hfull
  · omega
  · have hpow : 2 ^ L' ≤ 2 ^ (L - 1) := Nat.pow_le_pow_right (by decide) (by omega)
    omega

/-- **Two tables with as many coupons have as many slots**, if neither is larger than it must be. -/
theorem lgArr_unique {L' : Nat} {slots' : Nat → Coupon} (t : Tabled lgK L slots n)
    (t' : Tabled lgK L' slots' n) (hm : Measured L slots n) (hm' : Measured L' slots' n) :
    L = L' :=
  Nat.le_antisymm (hm.le_of_room t'.least t'.room) (hm'.le_of_room t.least t.room)

/-! ## Holdings that differ in the places of coupons -/

/-- The same holding, or two tables of the same coupons in the same number of slots. -/
inductive Similar : Holding → Holding → Prop
  | refl (h : Holding) : Similar h h
  | table {L n : Nat} {slots slots' : Nat → Coupon} :
    (∀ c, c ∈ Slots.live (2 ^ L) slots ↔ c ∈ Slots.live (2 ^ L) slots') →
    Similar (table L slots n) (table L slots' n)

theorem Similar.mode_eq (hsim : Similar h h') : h.mode = h'.mode := by
  cases hsim <;> rfl

theorem Similar.coupons_perm (hsim : Similar h h') (hs : h.Sound lgK) (hs' : h'.Sound lgK) :
    (h.coupons lgK).Perm (h'.coupons lgK) := by
  cases hsim with
  | refl => exact .refl _
  | table hmem =>
    exact (List.perm_ext_iff_of_nodup (Tabled.probed hs).nodup_live
      (Tabled.probed hs').nodup_live).2 hmem

theorem mem_put_iff (t : Tabled lgK L slots n) {d : Coupon} :
    d ∈ Slots.live (2 ^ L) (Slots.put (CouponTable.position L) (2 ^ L) slots c) ↔
      d = c ∧ c ≠ .empty ∨ d ∈ Slots.live (2 ^ L) slots := by
  by_cases hne : c = .empty
  · rw [hne, Slots.Probed.put_empty]
    exact ⟨.inr, fun hd => hd.elim (fun hc => absurd rfl hc.2) id⟩
  · rw [t.probed.mem_put (Slots.covers_position L) hne t.lt_room, and_iff_left hne]

/-- **The places of coupons in a table never show in what it turns into.** -/
theorem similar_insert (hk : lgK ≤ 21) (hs : h.Sound lgK) (hs' : h'.Sound lgK)
    (hsim : Similar h h') (c : Coupon) : Similar (h.insert lgK c) (h'.insert lgK c) := by
  cases hsim with
  | refl => exact .refl _
  | @table L n slots slots' hmem =>
    have t : Tabled lgK L slots n := hs
    have t' : Tabled lgK L slots' n := hs'
    have hput : ∀ d, d ∈ Slots.live (2 ^ L) (Slots.put (CouponTable.position L) (2 ^ L) slots c) ↔
        d ∈ Slots.live (2 ^ L) (Slots.put (CouponTable.position L) (2 ^ L) slots' c) := fun d => by
      rw [mem_put_iff t, mem_put_iff t', hmem]
    change Similar (raise lgK (.table L slots n) c) (raise lgK (.table L slots' n) c)
    by_cases hc : c ∈ Slots.live (2 ^ L) slots
    · rw [raise_of_mem hc, raise_of_mem ((hmem c).1 hc)]
      exact .table hmem
    rw [raise_of_not_mem hc, raise_of_not_mem fun hc' => hc ((hmem c).2 hc')]
    dsimp only
    split_ifs with hfull hmost
    · unfold promote
      rw [Registry.replay_congr hk _ fun d _ => hput d]
      exact .refl _
    · refine .table fun d => ?_
      rw [(tabled_rehash t (by omega) c).2, (tabled_rehash t' (by omega) c).2, hput]
    · exact .table hput

theorem similar_foldl_insert (hk : lgK ≤ 21) (hs : h.Sound lgK) (hs' : h'.Sound lgK)
    (hsim : Similar h h') (cs : List Coupon) :
    Similar (cs.foldl (insert lgK) h) (cs.foldl (insert lgK) h') := by
  induction cs generalizing h h' with
  | nil => exact hsim
  | cons c cs ih =>
    exact ih (sound_insert hs c) (sound_insert hs' c) (similar_insert hk hs hs' hsim c)

/-- **The coupons of a list or a table, taken in again**, give the list, or a table of its size. -/
theorem similar_foldl_coupons (hk : lgK ≤ 21) (hs : h.Sound lgK) (hr : h.Regular lgK 8)
    (hm : h.mode ≠ .dense) : Similar h ((h.coupons lgK).foldl (insert lgK) (list [] 0)) := by
  have hf := follows_run hk (ne_empty_coupons hs)
  generalize (h.coupons lgK).foldl (insert lgK) (list [] 0) = h' at hf ⊢
  obtain ⟨hs', hr', hrec, -, hmode⟩ := hf
  cases h with
  | dense g => exact absurd rfl hm
  | list cs n =>
    have l : Listable cs n := hs
    have hlen : cs.length = n := hr
    have hcard : cs.toFinset.card = n := (List.toFinset_card_of_nodup l.nodup).trans hlen
    rw [show (list cs n).coupons lgK = cs from rfl] at hrec hmode
    rw [hcard, stage_eq_list l.room] at hmode
    cases h' with
    | table L slots m => cases hmode
    | dense g => cases hmode
    | list ds m =>
      have hds : ds = cs.eraseDups := hrec
      have hlen' : ds.length = m := hr'
      rw [eraseDups_of_nodup l.nodup] at hds
      rw [← hlen, ← hlen', hds]
      exact .refl _
  | table L slots n =>
    have t : Tabled lgK L slots n := hs
    have hcard : n = ((table L slots n).coupons lgK).toFinset.card :=
      table_count hs hr fun _ => Iff.rfl
    rw [← hcard, stage_table t hr t.room (Nat.le_refl n)] at hmode
    cases h' with
    | list ds m => cases hmode
    | dense g => cases hmode
    | table L' slots' m =>
      have hcard' : m = ((table L slots n).coupons lgK).toFinset.card := table_count hs' hr' hrec
      obtain rfl : m = n := hcard'.trans hcard.symm
      obtain rfl : L = L' := lgArr_unique t hs' hr.2.2 hr'.2.2
      exact .table fun c => (hrec c).symm

end HyperLogLog.Holding
