import HyperLogLog.Proofs.Refusal
import HyperLogLog.Proofs.Restore

/-!
# Changes that fail and leave everything as it was

A merge reads all of its source before it writes, and an update of registers makes all checks before
it writes, up to the moment when the minimum rises. So what fails has changed nothing, even if the
registers, exceptions and counters of an image contradict each other.

* `Registers.Unlisted`: a register that is marked as an exception and has no entry;
* **`absorb_failed`**: a merge that fails leaves its target untouched, whatever the source;
* `Registers.Excepts`: a coupon that makes an exception of a register that is none;
* `Registers.untouched_insert`: what registers leave when they fail to take in a coupon;
* `Sketch.Withstands`: a sketch that is refused room for exceptions and nothing else;
* **`dense_refusal`**: a dense sketch that fails to take in a coupon is left untouched.
-/

namespace HyperLogLog

variable {cfg : Config} {r : Region} {g : Registry} {slot value : Nat} {c : Coupon} {f : Fault}

/-! ## Registers that cannot be read -/

theorem Region.nibble_le_mark (r : Region) (slot : Nat) : r.nibble slot ≤ Registers.mark := by
  have hb := (r.byte (40 + slot / 2)).toNat_lt
  have hm : Registers.mark = 15 := rfl
  unfold nibble
  dsimp only
  split_ifs <;> omega

namespace Registers

open Exceptions (offset entries)

/-- The field of a slot is marked, and the search in the exception table misses the slot. -/
structure Unlisted (cfg : Config) (r : Region) (slot : Nat) : Prop where
  width : cfg.width = .four
  inside : slot < cfg.k
  marked : r.nibble slot = mark
  missed : Exceptions.get? cfg r slot = none

theorem Unlisted.not_listed (h : Unlisted cfg r slot) (hs : Exceptions.Sorted cfg r) :
    ∀ e ∈ entries cfg r, e.slot ≠ slot := by
  rintro e he rfl
  cases (Exceptions.get?_eq_some hs he).symm.trans h.missed

theorem Unlisted.read_eq (h : Unlisted cfg r slot) :
    read cfg r slot = .error (.exceptionMissing slot) := by
  unfold read
  rw [h.width]
  dsimp only
  rw [if_neg (Nat.not_lt.2 (Nat.le_of_eq h.marked.symm)), h.missed]

theorem unlisted_of_read (hs : slot < cfg.k) (h : read cfg r slot = .error f) :
    Unlisted cfg r slot ∧ f = .exceptionMissing slot := by
  unfold read at h
  cases hw : cfg.width with
  | six | eight =>
    rw [hw] at h
    cases h
  | four =>
    rw [hw] at h
    dsimp only at h
    split_ifs at h with hm
    cases hget : Exceptions.get? cfg r slot with
    | some v =>
      rw [hget] at h
      cases h
    | none =>
      rw [hget] at h
      cases h
      exact ⟨⟨hw, hs, Nat.le_antisymm (r.nibble_le_mark slot) (Nat.le_of_not_lt hm), hget⟩, rfl⟩

/-- All registers are read unless one of them is unlisted. -/
theorem unlisted_of_coupons (h : coupons cfg r = .error f) :
    ∃ i, Unlisted cfg r i ∧ f = .exceptionMissing i := by
  unfold coupons at h
  cases hv : values cfg r with
  | ok vs =>
    rw [hv] at h
    cases h
  | error e =>
    rw [hv] at h
    cases h
    obtain ⟨i, hi, hread⟩ := Except.error_of_mapM hv
    exact ⟨i, unlisted_of_read (List.mem_range.1 hi) hread⟩

theorem Unlisted.not_coupons (h : Unlisted cfg r slot) (cs : List Coupon) :
    coupons cfg r ≠ .ok cs := by
  intro hcs
  obtain ⟨vs, hvs, -⟩ := Except.map_eq_ok hcs
  obtain ⟨v, hv⟩ := Except.ok_of_mapM hvs slot (List.mem_range.2 h.inside)
  cases h.read_eq.symm.trans hv

end Registers

/-! ## Merges -/

namespace Sketch

open Registers (Unlisted Dense)

variable {s t u w : Sketch} {j : Nat}

/-- **A source fails to offer its coupons** for one of two reasons. -/
theorem offered_eq_error (h : s.offered j = .error f) :
    s.mode = .dense ∧ (f = .narrowSource s.config.lgK j ∧ s.config.lgK < j ∨
      ∃ i, f = .exceptionMissing i ∧ Unlisted s.config s.region i) := by
  unfold offered at h
  cases hm : s.mode with
  | list | set =>
    rw [coupons, hm] at h
    cases h
  | dense =>
    refine ⟨rfl, ?_⟩
    rw [coupons, hm] at h
    cases hc : Contents.coupons s.config .dense s.region with
    | error e =>
      rw [hc] at h
      cases h
      obtain ⟨i, hi, rfl⟩ := Registers.unlisted_of_coupons hc
      exact .inr ⟨i, rfl, hi⟩
    | ok cs =>
      rw [hc] at h
      change (if s.config.lgK < j then _ else if j < s.config.lgK then _ else _) = _ at h
      split_ifs at h with hlt
      all_goals cases h
      exact .inl ⟨rfl, hlt⟩

theorem not_offered (hm : s.mode = .dense)
    (h : s.config.lgK < j ∨ ∃ i, Unlisted s.config s.region i) (cs : List Coupon) :
    s.offered j ≠ .ok cs := by
  intro ho
  unfold offered at ho
  rw [coupons, hm] at ho
  cases hc : Contents.coupons s.config .dense s.region with
  | error e =>
    rw [hc] at ho
    cases ho
  | ok ds =>
    rw [hc] at ho
    obtain hlt | ⟨i, hi⟩ := h
    · change (if s.config.lgK < j then _ else if j < s.config.lgK then _ else _) = _ at ho
      rw [if_pos hlt] at ho
      cases ho
    · exact hi.not_coupons ds hc

/-- **A merge that fails leaves its target untouched.** Let `t` be reachable and `s` any sketch, for
instance one that is wrapped around bytes that make sense of their header and of nothing else. If
taking `s` into `t` fails, `t` is the sketch that it was. That is so exactly if `s` is dense and has
fewer registers than `t`, or has four-bit registers one of which is marked as an exception while the
search in the table misses it. Whatever coupons a source offers, taking them in never fails. -/
theorem absorb_failed (ht : t.Reachable) :
    (∀ f u, absorb s t = .error f u → u = t ∧ s.mode = .dense ∧
      (f = .narrowSource s.config.lgK t.config.lgK ∧ f.report.kind = .configInvalid ∧
          s.config.lgK < t.config.lgK ∨
        ∃ i, f = .exceptionMissing i ∧ f.report.kind = .invariantViolation ∧
          Unlisted s.config s.region i ∧ (Exceptions.Sorted s.config s.region →
            ∀ e ∈ Exceptions.entries s.config s.region, e.slot ≠ i))) ∧
    ((∃ f u, absorb s t = .error f u) ↔ s.mode = .dense ∧
      (s.config.lgK < t.config.lgK ∨ ∃ i, Unlisted s.config s.region i)) ∧
    ∀ cs, ∃ u, insertAll cs t = .ok () u := by
  obtain ⟨h, ht⟩ := ht.owns
  have hreplay : ∀ cs, ∃ u, insertAll cs t = .ok () u := fun cs => by
    obtain ⟨u, hu, -⟩ := ht.insertAll cs
    exact ⟨u, hu⟩
  cases ho : s.offered t.config.lgK with
  | ok cs =>
    -- all coupons are offered, and an owner takes in any coupons
    obtain ⟨u, hu, -⟩ := ht.absorb_of_ok ho
    refine ⟨fun f u' hf => (nomatch hu.symm.trans hf), ⟨fun ⟨f, u', hf⟩ => ?_, fun ⟨hm, hj⟩ => ?_⟩,
      hreplay⟩
    · cases hu.symm.trans hf
    · exact absurd ho (not_offered hm hj cs)
  | error e =>
    have hrun := ht.absorb_of_error ho
    obtain ⟨hm, hcause⟩ := offered_eq_error ho
    refine ⟨fun f u hf => ?_, ⟨fun _ => ⟨hm, ?_⟩, fun _ => ⟨e, t, hrun⟩⟩, hreplay⟩
    · cases hrun.symm.trans hf
      refine ⟨rfl, hm, ?_⟩
      obtain ⟨rfl, hlt⟩ | ⟨i, rfl, hi⟩ := hcause
      · exact .inl ⟨rfl, rfl, hlt⟩
      · exact .inr ⟨i, rfl, rfl, hi, hi.not_listed⟩
    · obtain ⟨-, hlt⟩ | ⟨i, -, hi⟩ := hcause
      · exact .inl hlt
      · exact .inr ⟨i, hi⟩

/-- An image of 16 registers of four bits, of which the fifth is marked and the table is empty. -/
def orphaned : ByteArray :=
  ⟨#[10, 1, 7, 4, 0, 0, 0, 2, 0, 0, 0, 0, 0, 0, 0, 0, 0, 0, 0, 0, 0, 0, 0, 0, 0, 0, 0, 0, 0, 0, 0,
    0, 15, 0, 0, 0, 0, 0, 0, 0, 0x21, 0x43, 15, 0, 0, 0, 0, 0]⟩

/-- A list of two coupons is not touched by a merge from that image. -/
theorem absorb_failed_orphaned :
    ∃ s t f, wrap orphaned = .ok s ∧ t.Reachable ∧ t.coupons = .ok [.pack 5 3, .pack 70 1] ∧
      absorb s t = .error f t ∧ f.report.kind = .invariantViolation := by
  let cfg : Config := ⟨4, .four, by decide, by decide⟩
  have hwrap : wrap orphaned = .ok ⟨cfg, .dense, ⟨orphaned, .frozen⟩⟩ := by decide +kernel
  have hmissed : Unlisted cfg ⟨orphaned, .frozen⟩ 4 :=
    ⟨rfl, by decide, by decide +kernel, by decide +kernel⟩
  obtain ⟨t, hrun, hcfg, ht⟩ := (Owns.new cfg).insertAll [.pack 5 3, .pack 70 1]
  have hreach := (Reachable.new cfg).insertAll (by decide) hrun
  obtain ⟨hfailed, hiff, -⟩ :=
    absorb_failed (s := ⟨cfg, .dense, ⟨orphaned, .frozen⟩⟩) hreach
  obtain ⟨f, u, hu⟩ := hiff.2 ⟨rfl, .inr ⟨4, hmissed⟩⟩
  obtain ⟨rfl, -, ⟨-, -, hlt⟩ | ⟨i, -, hkind, -⟩⟩ := hfailed f u hu
  · rw [hcfg] at hlt
    exact absurd hlt (Nat.lt_irrefl _)
  · exact ⟨_, u, f, hwrap, hreach, ht.coupons_eq, hu, hkind⟩

end Sketch

/-! ## Updates of registers -/

namespace Registers

open Exceptions (offset entries)
open Region (Tenure)

/-- **Registers that fail to take in a coupon are left as they were**, unless the minimum was
rising. The registers, the exceptions and the counters may contradict each other. -/
theorem untouched_insert (hw : r.backing ≠ .frozen) (c : Coupon) :
    Ends Tenure (insert cfg c) r (fun _ _ => True) fun f r' =>
      r' = r ∨ cfg.width = .four ∧ f.OfRaise := by
  by_cases hfour : cfg.width = .four
  · rw [insert_of_four hfour]
    exact (ends_insertRelative c hw).mono (fun _ _ _ h => h)
      fun _ _ _ h => h.imp And.left fun hf => ⟨hfour, hf⟩
  · rw [insert_of_ne_four hfour]
    exact (ends_insertWhole c).mono (fun _ _ _ h => h) fun _ _ _ h => .inl h.1

/-! ## Room for exceptions -/

/-- The coupon makes an exception of a register that is none, by the minimum as it is before. -/
structure Excepts (cfg : Config) (c : Coupon) (r : Region) : Prop where
  unmarked : r.nibble (c.slot % cfg.k) ≠ mark
  marked : mark ≤ c.value - r.minimum

theorem Coded.insertException_of_scant {v : Nat → Nat} (h : Coded cfg v r) (hs : slot < cfg.k)
    (hn : r.nibble slot ≠ mark) (hb : r.backing = .lent)
    (hscant : r.size < offset cfg (r.exceptionCount + 1)) :
    Exceptions.insert cfg slot value r =
      .error (.outOfRoom (offset cfg (r.exceptionCount + 1)) r.size) r := by
  have hnone : ∀ e ∈ entries cfg r, e.slot ≠ slot := by
    rintro e he rfl
    have hmarked := h.tall_entry e.slot (List.mem_map_of_mem he)
    exact hn ((h.nibble _ hs).trans (Nat.min_eq_right hmarked.2))
  exact Exceptions.insert_of_scant h.sorted hnone hb hscant

/-- **A coupon that needs a new exception where there is no room for one is refused.** -/
theorem Dense.insert_of_scant (h : Dense cfg g r) (hw : cfg.width = .four) (hb : r.backing = .lent)
    (hc : Excepts cfg c r) (hscant : r.size < offset cfg (r.exceptionCount + 1)) :
    insert cfg c r = .error (.outOfRoom (offset cfg (r.exceptionCount + 1)) r.size) r := by
  have hrel := (packed_of_four hw).1 h.packed
  have hs : c.slot % cfg.k < cfg.k := Nat.mod_lt _ (k_pos cfg)
  have hn := hrel.nibble _ hs
  have hleast := hrel.least _ hs
  have hattained := hrel.attained
  obtain ⟨hunmarked, hmarked⟩ := hc
  have hm : mark = 15 := rfl
  have hstore : store cfg (c.slot % cfg.k) (r.nibble (c.slot % cfg.k)) r.minimum c.value r =
      .error (.outOfRoom (offset cfg (r.exceptionCount + 1)) r.size) r := by
    unfold store
    rw [if_neg hunmarked, if_pos hmarked]
    exact EStateM.bind_of_error (hrel.insertException_of_scant hs hunmarked hb hscant)
  rw [insert_of_four hw]
  refine EStateM.get_bind.trans ?_
  dsimp only
  rw [if_neg (by omega), hrel.read_eq hw hs]
  refine EStateM.ofExcept_bind.trans ?_
  rw [if_neg (by omega)]
  split_ifs
  · exact EStateM.bind_of_error hstore
  · omega
  · exact EStateM.bind_of_error hstore

end Registers

namespace Sketch

open Registers (Dense Excepts)

variable {s t u w : Sketch}

theorem insert_of_dense_ok {r : Region} (hm : s.mode = .dense) (hs : s.region.backing ≠ .frozen)
    (hrun : Registers.insert s.config c s.region = .ok () r) :
    insert c s = .ok () ⟨s.config, .dense, r⟩ := by
  have hedit : edit s.config c .dense s.region = .ok .dense r := EStateM.bind_of_ok hrun
  rw [insert_eq hs, hm, hedit]

theorem insert_of_dense_error {r : Region} (hm : s.mode = .dense)
    (hs : s.region.backing ≠ .frozen) (hrun : Registers.insert s.config c s.region = .error f r) :
    insert c s = .error f ⟨s.config, s.mode, r⟩ := by
  have hedit : edit s.config c s.mode s.region = .error f r := by
    rw [hm]
    exact EStateM.bind_of_error hrun
  rw [insert_eq hs, hedit]

theorem untouched_insert (hm : s.mode = .dense) (h : insert c s = .error f t) :
    t = s ∨ s.config.width = .four ∧ f.OfRaise := by
  by_cases hb : s.region.backing = .frozen
  · have hro : s.isReadOnly = true := decide_eq_true hb
    have hcheck : checkWritable s = .error .noWriteAccess s := by
      unfold checkWritable
      rw [EStateM.get_bind, hro]
      rfl
    cases (EStateM.bind_of_error hcheck).symm.trans h
    exact .inl rfl
  cases hrun : Registers.insert s.config c s.region with
  | ok _ r => cases (insert_of_dense_ok hm hb hrun).symm.trans h
  | error e r =>
    cases (insert_of_dense_error hm hb hrun).symm.trans h
    refine ((Registers.untouched_insert hb c).error _ r hrun).2.imp_left fun hr => ?_
    rw [hr]

/-- The sketch refuses a coupon exactly if it needs an exception more than there is room for, and is
then what it was. -/
structure Withstands (s : Sketch) (c : Coupon) : Prop where
  refused : ∀ f t, insert c s = .error f t →
    f = .outOfRoom (s.imageSize + 4) s.region.size ∧ t = s
  scant : insert c s = .error (.outOfRoom (s.imageSize + 4) s.region.size) s ↔
    Excepts s.config c s.region ∧ s.region.size < s.imageSize + 4
  taken : ¬ Excepts s.config c s.region → ∃ t, insert c s = .ok () t

/-- **Four-bit registers in lent bytes** refuse what needs an exception more than there is room
for. -/
theorem Keeps.withstands (hs : s.Keeps (.dense g)) (hw : s.config.width = .four)
    (hb : s.region.backing = .lent) (c : Coupon) : s.Withstands c := by
  have hd : Dense s.config g s.region := hs.image
  have hmode : s.mode = .dense := hs.mode
  have hsize : s.imageSize + 4 =
      Exceptions.offset s.config (s.region.exceptionCount + 1) := by
    rw [hs.imageSize_eq]
    exact (congrArg (· + 4) (Registers.footprint_of_four hw _)).trans rfl
  have hrefused : ∀ f t, Sketch.insert c s = .error f t →
      (f = .outOfRoom (s.imageSize + 4) s.region.size ∧ t = s) ∧
        Excepts s.config c s.region ∧ s.region.size < s.imageSize + 4 := by
    intro f t h
    obtain ⟨-, required, available, rfl⟩ := (hs.insert c).error f t h
    cases hrun : Registers.insert s.config c s.region with
    | ok _ r => cases (insert_of_dense_ok hmode hs.writable hrun).symm.trans h
    | error e r =>
      cases (insert_of_dense_error hmode hs.writable hrun).symm.trans h
      have hrelative := hrun
      rw [Registers.insert_of_four hw] at hrelative
      obtain ⟨rfl, hcrowded⟩ :=
        ((Registers.ends_insertRelative c hs.writable).error _ r hrelative).2.resolve_right id
      obtain ⟨hunmarked, hmarked, hscant⟩ := hcrowded rfl
      have hexcepts : Excepts s.config c s.region := ⟨hunmarked, hmarked⟩
      cases hrun.symm.trans (hd.insert_of_scant hw hb hexcepts hscant)
      rw [hsize]
      exact ⟨⟨rfl, rfl⟩, hexcepts, hscant⟩
  refine ⟨fun f t h => (hrefused f t h).1, ⟨fun h => (hrefused _ _ h).2, fun ⟨hexcepts, hscant⟩ =>
    ?_⟩, fun hnot => ?_⟩
  · rw [hsize] at hscant ⊢
    exact insert_of_dense_error hmode hs.writable (hd.insert_of_scant hw hb hexcepts hscant)
  · cases hrun : Sketch.insert c s with
    | ok _ t => exact ⟨t, rfl⟩
    | error f t => exact absurd (hrefused f t hrun).2.1 hnot

theorem Keeps.run_inserts (hs : s.Keeps (.dense g)) (hw : s.config.width = .four)
    (hb : s.region.backing = .lent) (cs : List Coupon) :
    s.Tenure (run (cs.map .insert) s).2 ∧ ∃ g', (run (cs.map .insert) s).2.Keeps (.dense g') := by
  induction cs generalizing s g with
  | nil => exact ⟨Std.Refl.refl s, g, hs⟩
  | cons c cs ih =>
    change s.Tenure (run (cs.map .insert) (outcome (Sketch.insert c) s).2).2 ∧
      ∃ g', (run (cs.map .insert) (outcome (Sketch.insert c) s).2).2.Keeps (.dense g')
    cases hrun : Sketch.insert c s with
    | error f t =>
      obtain ⟨-, rfl⟩ := (hs.withstands hw hb c).refused f t hrun
      rw [outcome_of_error hrun]
      exact ih hs hw hb
    | ok _ t =>
      have hstep := (hs.aligned.step (.insert c)).1
      change s.Tenure (outcome (Sketch.insert c) s).2 at hstep
      rw [outcome_of_ok hrun] at hstep ⊢
      obtain ⟨hcfg, hback, ht⟩ := (hs.insert c).ok t hrun
      obtain ⟨htenure, hlast⟩ := ih ht (by rwa [hcfg]) (hback.trans hb)
      exact ⟨IsTrans.trans _ _ _ hstep htenure, hlast⟩

/-- **A dense sketch that fails to take in a coupon is left untouched.** Its registers, exceptions
and counters may contradict each other: only a fault found while the minimum of four-bit registers
rises comes after a write. In lent bytes that start with the image of an evolved sketch, four-bit
registers refuse a coupon for want of room and for no other reason, exactly if it makes an exception
of a register that is none and there are no four bytes left. That is so after any coupons, taken or
refused, so whatever needs no new exception is taken later on. -/
theorem dense_refusal (hm : s.mode = .dense) :
    (∀ c f t, insert c s = .error f t → t = s ∨ s.config.width = .four ∧ f.OfRaise) ∧
    ∀ (w : Sketch) (cs : List Coupon), w.Evolved → s.Borrows w → s.config.width = .four →
      (run (cs.map .insert) s).2.mode = .dense ∧
      (run (cs.map .insert) s).2.region.size = s.region.size ∧
      ∀ c, (run (cs.map .insert) s).2.Withstands c := by
  refine ⟨fun c f t => untouched_insert hm, fun w cs hw hs hfour => ?_⟩
  obtain ⟨h, hw, -⟩ := hw.keeps
  have hk := hw.of_image hs.config hs.mode (by rw [hs.lent]; decide) hs.image
  cases h with
  | list | table => cases hk.mode.symm.trans hm
  | dense g =>
    obtain ⟨htenure, g', hlast⟩ := hk.run_inserts hfour hs.lent cs
    exact ⟨hlast.mode, htenure.region.size hs.lent, hlast.withstands (by rwa [htenure.config])
      (htenure.region.backing.trans hs.lent)⟩

/-- A sketch with four exceptions has no room for a fifth, and takes in a value of the same register
that needs none. -/
theorem dense_refusal_crowded :
    crowded.Evolved ∧ crowded.mode = .dense ∧
      insert (.pack 8 20) crowded = .error (.outOfRoom 68 64) crowded ∧
      ∃ t, insert (.pack 8 5) crowded = .ok () t := by
  have hmode : crowded.mode = .dense := by decide +kernel
  have hlent : crowded.region.backing = .lent := by decide +kernel
  have hfour : crowded.config.width = .four := by decide +kernel
  have hfull : (outcome (insert (.pack 8 20)) crowded).1 = .error (.outOfRoom 68 64) := by
    decide +kernel
  have hplain : ¬ Registers.mark ≤ (Coupon.pack 8 5).value - crowded.region.minimum := by
    decide +kernel
  have hev := evolved_crowded
  generalize crowded = s at *
  obtain ⟨-, -, hwithstands⟩ := (dense_refusal hmode).2 s [] hev ⟨hlent, rfl, rfl, rfl⟩ hfour
  have hrun := eq_error_of_outcome hfull
  obtain ⟨-, hsame⟩ := (hwithstands _).refused _ _ hrun
  rw [hsame] at hrun
  exact ⟨hev, hmode, hrun, (hwithstands _).taken fun hexcepts => hplain hexcepts.marked⟩

end Sketch

end HyperLogLog
