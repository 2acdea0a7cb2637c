import HyperLogLog.Contents
import HyperLogLog.Proofs.Relative

/-!
# Dense images, whatever their width

* `Whole`: fields that hold registers themselves;
* `Packed`: the coding of registers that goes with the width;
* `Dense`: an image whose registers and history are those of a registry;
* `Shown`: a region that shows them to a reader;
* **`Shown.values_eq`**, `Shown.coupons_eq`: what is read is the registry;
* **`meets_clear`**, **`Dense.meets_insert`**: what is written is the registry;
* **`Shown.composite_eq`**, `Shown.lower_eq`, …: answers depend on the registry alone.
-/

namespace HyperLogLog.Registers

open Exceptions (offset entries)
open Estimate (Confidence)

variable {cfg : Config} {r r' : Region} {v : Nat → Nat} {g : Registry}

/-! ## Fields that hold registers -/

/-- The fields hold the registers `v`, and the header counts those that are zero. -/
structure Whole (cfg : Config) (v : Nat → Nat) (r : Region) : Prop where
  fits : 40 + Footprint.registers cfg ≤ r.size
  bounded : ∀ i, i < cfg.k → v i ≤ largest
  field : ∀ i, i < cfg.k → r.field cfg.width i = v i
  minimum : r.minimum = 0
  counted : r.atMinimum = level cfg.k v 0
  exceptions : r.exceptionCount = 0
  /-- The byte after the last field is never written to. -/
  spare : cfg.width = .six → r.byte (40 + cfg.k * 3 / 4) = 0

section Whole

theorem spare_lt (hw : cfg.width = .six) :
    40 + cfg.k * 3 / 4 < 40 + Footprint.registers cfg := by
  rw [Footprint.registers, hw]
  exact Nat.lt_succ_self _

theorem Whole.congr (h : Whole cfg v r) (hs : 40 + Footprint.registers cfg ≤ r'.size)
    (h₆ : r'.byte 6 = r.byte 6)
    (hb : ∀ j, 32 ≤ j → j < 40 + Footprint.registers cfg → r'.byte j = r.byte j) :
    Whole cfg v r' where
  fits := hs
  bounded := h.bounded
  field i hi := by
    rw [Region.field_congr hi fun j hj hj' => hb j (by omega) hj']
    exact h.field i hi
  minimum := (congrArg UInt8.toNat h₆).trans h.minimum
  counted := (congrArg UInt32.toNat (Region.word_congr fun j hj _ => hb j hj (by omega))).trans
    h.counted
  exceptions := (congrArg UInt32.toNat (Region.word_congr fun j hj _ =>
    hb j (by omega) (by omega))).trans h.exceptions
  spare hw := (hb _ (by omega) (spare_lt hw)).trans (h.spare hw)

theorem Whole.read_eq (h : Whole cfg v r) (hw : cfg.width ≠ .four) {slot : Nat}
    (hs : slot < cfg.k) : read cfg r slot = .ok (v slot) := by
  have hf := h.field slot hs
  unfold read
  cases hw' : cfg.width with
  | four => exact absurd hw' hw
  | six =>
    rw [hw'] at hf
    exact congrArg Except.ok hf
  | eight =>
    rw [hw'] at hf
    exact congrArg Except.ok hf

theorem Whole.raised (h : Whole cfg v r) (hw : cfg.width ≠ .four) {slot value : Nat}
    (hs : slot < cfg.k) (hle : value ≤ largest) (lgK old : Nat)
    (hr : r' = (r.putField cfg.width slot value).raiseEstimator lgK old value) :
    r'.size = r.size ∧ r'.backing = r.backing ∧
      (∀ j, j < 8 ∨ 32 ≤ j ∧ j < 40 ∨ 40 + Footprint.registers cfg ≤ j →
        r'.byte j = r.byte j) ∧
      (∀ i, i < cfg.k → r'.field cfg.width i = Function.update v slot value i) ∧
      (cfg.width = .six → r'.byte (40 + cfg.k * 3 / 4) = 0) ∧
      r'.estimator = r.estimator.raise lgK old value := by
  have hfits := h.fits
  have hlargest : largest = 63 := rfl
  have hbits : value < 2 ^ cfg.width.bits := by
    cases hw' : cfg.width with
    | four => exact absurd hw' hw
    | six => exact Nat.lt_of_le_of_lt hle (by decide)
    | eight => exact Nat.lt_of_le_of_lt hle (by decide)
  have hin := Region.within_putField (r := r) value hs
  have hin' := Region.within_raiseEstimator (r.putField cfg.width slot value) lgK old value
  rw [← hr] at hin'
  refine ⟨hin'.size.trans hin.size, hin'.backing.trans hin.backing, fun j hj => ?_,
    fun i hi => ?_, fun hw => ?_, ?_⟩
  · rw [hin'.byte j (by omega), hin.byte j (by omega)]
  · rw [Region.field_congr hi fun j hj _ => hin'.byte j (.inr (by omega)),
      Region.field_putField hs hfits hbits]
    split_ifs with he
    · rw [← he, Function.update_self]
    · rw [Function.update_of_ne (Ne.symm he)]
      exact h.field i hi
  · obtain ⟨m, hm⟩ := cfg.sixteen_dvd_k
    have := spare_lt hw
    rw [hin'.byte _ (.inr (by omega)), hw]
    exact (Region.byte_putSixBits_of_outside value (by omega) (.inr (by omega))).trans (h.spare hw)
  · rw [hr, Region.estimator_raiseEstimator (by rw [hin.size]; omega),
      Region.estimator_congr (hin.byte 5 (.inl (by decide))) fun j _ hj => hin.byte j (by omega)]

theorem Whole.of_raised (h : Whole cfg v r) {slot value : Nat} (hle : value ≤ largest)
    (hsize : r'.size = r.size) (hbyte : ∀ j, j = 6 ∨ 36 ≤ j ∧ j < 40 → r'.byte j = r.byte j)
    (hfield : ∀ i, i < cfg.k → r'.field cfg.width i = Function.update v slot value i)
    (hcount : r'.atMinimum = level cfg.k (Function.update v slot value) 0)
    (hspare : cfg.width = .six → r'.byte (40 + cfg.k * 3 / 4) = 0) :
    Whole cfg (Function.update v slot value) r' where
  fits := hsize ▸ h.fits
  bounded := bounded_update h.bounded hle
  field := hfield
  minimum := (congrArg UInt8.toNat (hbyte 6 (.inl rfl))).trans h.minimum
  counted := hcount
  exceptions := (congrArg UInt32.toNat (Region.word_congr fun j h₁ h₂ =>
    hbyte j (.inr ⟨h₁, h₂⟩))).trans h.exceptions
  spare := hspare

/-- **A coupon takes whole registers where it takes every registry**, and changes no byte of the
header but the counts and the sums. -/
theorem meets_insertWhole (hw : cfg.width ≠ .four) (h : Whole cfg g.values r)
    (he : r.estimator = g.history) (c : Coupon) :
    (insertWhole cfg c).Meets r fun _ r' =>
      Whole cfg (g.take cfg.lgK c).values r' ∧
      r'.estimator = (g.take cfg.lgK c).history ∧ r.size ≤ r'.size ∧
      ∀ j, j < 8 ∧ j ≠ 6 ∨ 40 + Footprint.registers cfg ≤ j → r'.byte j = r.byte j := by
  have hs : c.slot % cfg.k < cfg.k := Nat.mod_lt _ (k_pos cfg)
  have hfits := h.fits
  have hcounted := h.counted
  refine Edit.Meets.read_bind ?_
  dsimp only
  rw [h.field _ hs]
  by_cases hle : c.value ≤ g.values (c.slot % cfg.k)
  · rw [if_pos hle, show g.take cfg.lgK c = g from if_pos hle]
    exact Edit.Meets.done ⟨h, he, Nat.le_refl _, fun _ _ => rfl⟩
  have hg : g.take cfg.lgK c = ⟨Function.update g.values (c.slot % cfg.k) c.value,
      g.history.raise cfg.lgK (g.values (c.slot % cfg.k)) c.value⟩ := if_neg hle
  have hlevel := level_update_of_lt (v := g.values) hs (show 0 < c.value by omega)
  obtain ⟨hsize, hback, hbyte, hfield, hspare, hest⟩ :=
    h.raised hw hs c.value_le cfg.lgK (g.values (c.slot % cfg.k)) rfl
  rw [if_neg hle, hg]
  rw [he] at hest
  by_cases hz : g.values (c.slot % cfg.k) = 0
  · -- one register less is zero
    rw [if_pos hz] at hlevel
    rw [if_neg (not_not.2 hz), if_neg (by omega)]
    refine Edit.Meets.write ((Region.within_putAtMinimum ..).backing.trans hback) ?_
    generalize (r.putField cfg.width (c.slot % cfg.k) c.value).raiseEstimator cfg.lgK
      (g.values (c.slot % cfg.k)) c.value = r₂ at hsize hbyte hfield hspare hest ⊢
    have hput := Region.within_putAtMinimum r₂ (r.atMinimum - 1)
    have hlt : r.atMinimum < 4294967296 := (r.word 32).toNat_lt
    refine ⟨h.of_raised c.value_le (hput.size.trans hsize) (fun j hj => ?_) (fun i hi => ?_) ?_
      fun hw => ?_, ?_, ?_, fun j hj => ?_⟩
    · rw [hput.byte j (by omega), hbyte j (by omega)]
    · rw [Region.field_congr hi fun j hj _ => hput.byte j (.inr (by omega)), hfield i hi]
    · rw [Region.atMinimum_putAtMinimum (by omega) (by omega)]
      omega
    · rw [hput.byte _ (.inr (by omega)), hspare hw]
    · rw [Region.estimator_congr (hput.byte 5 (.inl (by decide)))
        fun j _ hj => hput.byte j (.inl hj), hest]
    · rw [hput.size, hsize]
    · rw [hput.byte j (by omega), hbyte j (by omega)]
  · rw [if_neg hz, Nat.add_zero] at hlevel
    rw [if_pos hz]
    refine Edit.Meets.write hback ⟨h.of_raised c.value_le hsize (fun j hj => hbyte j (by omega))
      hfield ?_ hspare, hest, Nat.le_of_eq hsize.symm, fun j hj => hbyte j (by omega)⟩
    exact (congrArg UInt32.toNat (Region.word_congr fun j h₁ h₂ =>
      hbyte j (by omega))).trans (hcounted.trans hlevel.symm)

end Whole

/-! ## Every width -/

/-- The registers `v` in the coding that goes with the width. -/
def Packed (cfg : Config) (v : Nat → Nat) (r : Region) : Prop :=
  match cfg.width with
  | .four => Relative cfg v r
  | .six | .eight => Whole cfg v r

/-- The flags of a dense image. -/
def flagsOf (outOfOrder : Bool) : UInt8 := if outOfOrder then Flag.outOfOrder.mask else 0

/-- A dense image with the registers and the history of a registry. -/
structure Dense (cfg : Config) (g : Registry) (r : Region) : Prop where
  headed : r.Headed cfg .dense 0 (flagsOf g.history.outOfOrder)
  packed : Packed cfg g.values r
  estimator : r.estimator = g.history

section Packed

theorem packed_of_four (hw : cfg.width = .four) : Packed cfg v r ↔ Relative cfg v r := by
  unfold Packed
  rw [hw]

theorem packed_of_ne_four (hw : cfg.width ≠ .four) : Packed cfg v r ↔ Whole cfg v r := by
  unfold Packed
  cases hw' : cfg.width with
  | four => exact absurd hw' hw
  | six => rfl
  | eight => rfl

theorem insert_of_four (hw : cfg.width = .four) (c : Coupon) :
    insert cfg c = insertRelative cfg c := by
  unfold insert
  rw [hw]

theorem insert_of_ne_four (hw : cfg.width ≠ .four) (c : Coupon) :
    insert cfg c = insertWhole cfg c := by
  unfold insert
  cases hw' : cfg.width with
  | four => exact absurd hw' hw
  | six | eight => rfl

theorem Relative.congr (h : Relative cfg v r) (hs : offset cfg r.exceptionCount ≤ r'.size)
    (h₆ : r'.byte 6 = r.byte 6)
    (hb : ∀ j, 32 ≤ j → j < offset cfg r.exceptionCount → r'.byte j = r.byte j) :
    Relative cfg v r' := by
  have h40 := Exceptions.forty_le_offset cfg r.exceptionCount
  have hm : r'.minimum = r.minimum := congrArg UInt8.toNat h₆
  have hat : r'.atMinimum = r.atMinimum :=
    congrArg UInt32.toNat (Region.word_congr fun j hj _ => hb j hj (by omega))
  refine ⟨h.toCoded.congr hs h₆ fun j hj hj' => hb j (by omega) hj', ?_, ?_⟩
  · rw [hat, hm]
    exact h.counted
  · rw [hat]
    exact h.attained

theorem footprint_of_four (hw : cfg.width = .four) (n : Nat) :
    Footprint.dense cfg n = offset cfg n := by
  rw [Footprint.dense, if_pos hw, Footprint.registers, hw]
  rfl

theorem registers_le_footprint (n : Nat) :
    40 + Footprint.registers cfg ≤ Footprint.dense cfg n :=
  Nat.le_add_right ..

theorem Packed.congr (h : Packed cfg v r) (hs : Footprint.dense cfg r.exceptionCount ≤ r'.size)
    (h₆ : r'.byte 6 = r.byte 6)
    (hb : ∀ j, 32 ≤ j → j < Footprint.dense cfg r.exceptionCount → r'.byte j = r.byte j) :
    Packed cfg v r' := by
  by_cases hw : cfg.width = .four
  · rw [packed_of_four hw] at h ⊢
    rw [footprint_of_four hw] at hs hb
    exact h.congr hs h₆ hb
  · rw [packed_of_ne_four hw] at h ⊢
    exact h.congr (Nat.le_trans (registers_le_footprint _) hs) h₆ fun j hj hj' =>
      hb j hj (Nat.lt_of_lt_of_le hj' (registers_le_footprint _))

theorem Packed.fits (h : Packed cfg v r) : Footprint.dense cfg r.exceptionCount ≤ r.size := by
  by_cases hw : cfg.width = .four
  · rw [footprint_of_four hw]
    exact ((packed_of_four hw).1 h).fits
  · have := ((packed_of_ne_four hw).1 h).fits
    rwa [Footprint.dense, if_neg hw, Nat.add_zero]

theorem Packed.exceptionCount_eq_zero (h : Packed cfg v r) (hv : ∀ i, i < cfg.k → v i < mark) :
    r.exceptionCount = 0 := by
  by_cases hw : cfg.width = .four
  · rw [packed_of_four hw] at h
    rw [← Exceptions.length_entries cfg, List.length_eq_zero_iff, List.eq_nil_iff_forall_not_mem]
    intro c hc
    obtain ⟨hs, hm, -⟩ := (h.exceptional c).1 hc
    have := hv _ hs
    omega
  · exact ((packed_of_ne_four hw).1 h).exceptions

theorem Packed.bounded (h : Packed cfg v r) {i : Nat} (hi : i < cfg.k) : v i ≤ largest := by
  by_cases hw : cfg.width = .four
  · exact ((packed_of_four hw).1 h).bounded i hi
  · exact ((packed_of_ne_four hw).1 h).bounded i hi

theorem Packed.read_eq (h : Packed cfg v r) {slot : Nat} (hs : slot < cfg.k) :
    read cfg r slot = .ok (v slot) := by
  by_cases hw : cfg.width = .four
  · exact ((packed_of_four hw).1 h).read_eq hw hs
  · exact ((packed_of_ne_four hw).1 h).read_eq hw hs

theorem Packed.congr_values {w : Nat → Nat} (h : Packed cfg v r)
    (hv : ∀ i, i < cfg.k → v i = w i) : Packed cfg w r := by
  have hlevel : ∀ m, level cfg.k v m = level cfg.k w m := fun m =>
    level_congr fun i hi => by rw [hv i hi]
  by_cases hw : cfg.width = .four
  · rw [packed_of_four hw] at h ⊢
    refine ⟨⟨h.fits, ?_, ?_, ?_, h.sorted, ?_⟩, ?_, h.attained⟩
    · intro i hi
      rw [← hv i hi]
      exact h.bounded i hi
    · intro i hi
      rw [← hv i hi]
      exact h.least i hi
    · intro i hi
      rw [← hv i hi]
      exact h.nibble i hi
    · intro c
      rw [h.exceptional c]
      exact and_congr_right fun hs => by rw [hv _ hs]
    · rw [← hlevel]
      exact h.counted
  · rw [packed_of_ne_four hw] at h ⊢
    refine ⟨h.fits, ?_, ?_, h.minimum, ?_, h.exceptions, h.spare⟩
    · intro i hi
      rw [← hv i hi]
      exact h.bounded i hi
    · intro i hi
      rw [← hv i hi]
      exact h.field i hi
    · rw [← hlevel]
      exact h.counted

/-- The minimum and the number of registers there, as the header has them, say how many registers
are zero: either the minimum is zero, or no register is. -/
theorem Packed.header (h : Packed cfg v r) :
    r.minimum = 0 ∧ r.atMinimum = level cfg.k v 0 ∨ 0 < r.minimum ∧ level cfg.k v 0 = 0 := by
  by_cases hw : cfg.width = .four
  · rw [packed_of_four hw] at h
    rcases Nat.eq_zero_or_pos r.minimum with hm | hm
    · refine .inl ⟨hm, ?_⟩
      have := h.counted
      rwa [hm] at this
    · refine .inr ⟨hm, Nat.eq_zero_of_not_pos fun hl => ?_⟩
      obtain ⟨i, hi, hv⟩ := level_pos.1 hl
      have := h.least i hi
      omega
  · rw [packed_of_ne_four hw] at h
    exact .inl ⟨h.minimum, h.counted⟩

end Packed

/-- Registers and a history that a region shows to a reader, whatever else its flags say. -/
structure Shown (cfg : Config) (g : Registry) (r : Region) : Prop where
  packed : Packed cfg g.values r
  estimator : r.estimator = g.history

/-! ## Reading -/

namespace Shown

/-- **All registers read are those of the registry.** -/
theorem values_eq (h : Shown cfg g r) : values cfg r = .ok ((List.range cfg.k).map g.values) := by
  have hall : ∀ l : List Nat, (∀ i ∈ l, i < cfg.k) →
      l.mapM (read cfg r) = .ok (l.map g.values) := by
    intro l hl
    induction l with
    | nil => rfl
    | cons i l ih =>
      rw [List.mapM_cons, h.packed.read_eq (hl i List.mem_cons_self),
        ih fun j hj => hl j (List.mem_cons_of_mem _ hj)]
      rfl
  exact hall _ fun i hi => List.mem_range.1 hi

theorem coupons_eq (h : Shown cfg g r) : coupons cfg r = .ok (risen cfg.lgK g.values) := by
  have hzip : ((List.range cfg.k).map g.values).zipIdx =
      (List.range cfg.k).map fun i => (g.values i, i) := by
    refine List.ext_getElem (by simp) fun i _ _ => ?_
    simp
  rw [coupons, h.values_eq]
  refine congrArg Except.ok ?_
  dsimp only
  rw [hzip, List.filter_map, List.map_map]
  rfl

end Shown

namespace Dense

theorem shown (h : Dense cfg g r) : Shown cfg g r := ⟨h.packed, h.estimator⟩

theorem read_eq (h : Dense cfg g r) {slot : Nat} (hs : slot < cfg.k) :
    read cfg r slot = .ok (g.values slot) :=
  h.packed.read_eq hs

theorem values_eq (h : Dense cfg g r) : values cfg r = .ok ((List.range cfg.k).map g.values) :=
  h.shown.values_eq

theorem coupons_eq (h : Dense cfg g r) : coupons cfg r = .ok (risen cfg.lgK g.values) :=
  h.shown.coupons_eq

theorem congr_registry {g' : Registry} (h : Dense cfg g r)
    (hv : ∀ i, i < cfg.k → g.values i = g'.values i) (hh : g.history = g'.history) :
    Dense cfg g' r :=
  ⟨hh ▸ h.headed, h.packed.congr_values hv, h.estimator.trans hh⟩

/-! ## Writing -/

theorem congr (h : Dense cfg g r) (hs : Footprint.dense cfg r.exceptionCount ≤ r'.size)
    (hb : ∀ j, j < Footprint.dense cfg r.exceptionCount → r'.byte j = r.byte j) :
    Dense cfg g r' := by
  have hle : 40 + Footprint.registers cfg ≤ Footprint.dense cfg r.exceptionCount :=
    registers_le_footprint _
  refine ⟨?_, ?_, ?_⟩
  · exact h.headed.congr fun j hj _ => hb j (by omega)
  · exact h.packed.congr hs (hb 6 (by omega)) fun j _ hj => hb j hj
  · refine (Region.estimator_congr (hb 5 (by omega)) fun j _ hj => ?_).trans h.estimator
    exact hb j (by omega)

theorem size_ge (h : Dense cfg g r) : 40 ≤ r.size := by
  by_cases hw : cfg.width = .four
  · exact Nat.le_trans (Exceptions.forty_le_offset cfg 0)
      ((packed_of_four hw).1 h.packed).offset_zero_le_size
  · have := ((packed_of_ne_four hw).1 h.packed).fits
    omega

/-- **A coupon takes the registers of an image where it takes every registry.** -/
theorem meets_insert (h : Dense cfg g r) (hb : r.backing ≠ .frozen) (c : Coupon) :
    (insert cfg c).Meets r fun _ r' => Dense cfg (g.take cfg.lgK c) r' := by
  have hflags : (g.take cfg.lgK c).history.outOfOrder = g.history.outOfOrder := by
    unfold Registry.take
    dsimp only
    split_ifs
    · rfl
    · exact Estimator.outOfOrder_raise ..
  have hdone : ∀ r' : Region, (∀ j, j < 8 → j ≠ 6 → r'.byte j = r.byte j) →
      Packed cfg (g.take cfg.lgK c).values r' → r'.estimator = (g.take cfg.lgK c).history →
      Dense cfg (g.take cfg.lgK c) r' := fun r' hbyte hp he =>
    ⟨by rw [hflags]; exact h.headed.congr hbyte, hp, he⟩
  have hp := h.packed
  by_cases hw : cfg.width = .four
  · rw [packed_of_four hw] at hp
    rw [insert_of_four hw]
    refine (meets_insertRelative hw hp h.estimator hb c).mono ?_
    rintro - r' - ⟨hp', he, -, hbyte, -⟩
    exact hdone r' hbyte ((packed_of_four hw).2 hp') he
  · rw [packed_of_ne_four hw] at hp
    rw [insert_of_ne_four hw]
    refine (meets_insertWhole hw hp h.estimator c).mono ?_
    rintro - r' - ⟨hp', he, -, hbyte⟩
    exact hdone r' (fun j hj h₆ => hbyte j (.inl ⟨hj, h₆⟩)) ((packed_of_ne_four hw).2 hp') he

theorem tidies_insert (h : Dense cfg g r) (hb : r.backing ≠ .frozen) {c : Coupon}
    (hx : insert cfg c r = .ok () r') : Region.Tidies (Footprint.dense cfg r.exceptionCount)
      (Footprint.dense cfg r'.exceptionCount) r r' := by
  have hp := h.packed
  by_cases hw : cfg.width = .four
  · rw [packed_of_four hw] at hp
    rw [insert_of_four hw] at hx
    obtain ⟨-, -, -, -, -, htidies⟩ := (meets_insertRelative hw hp h.estimator hb c).ok _ _ hx
    rwa [footprint_of_four hw, footprint_of_four hw]
  · rw [packed_of_ne_four hw] at hp
    rw [insert_of_ne_four hw] at hx
    obtain ⟨-, -, -, -, hbyte⟩ := (meets_insertWhole hw hp h.estimator c).ok _ _ hx
    have hfoot : ∀ n, Footprint.dense cfg n = 40 + Footprint.registers cfg := fun n => by
      rw [Footprint.dense, if_neg hw, Nat.add_zero]
      rfl
    rw [hfoot, hfoot]
    exact Region.tidies_of_byte_eq (Nat.le_refl _) fun j hj => hbyte j (.inr hj)

theorem meets_insertAll (h : Dense cfg g r) (hb : r.backing ≠ .frozen) (cs : List Coupon) :
    (cs.forM (insert cfg)).Meets r fun _ r' =>
      Dense cfg (cs.foldl (Registry.take cfg.lgK) g) r' :=
  Edit.Meets.forM cs g r (fun g' c r' _ hb' (h' : Dense cfg g' r') =>
    h'.meets_insert (by rwa [hb']) c) h

theorem putTotal (h : Dense cfg g r) (x : Double) :
    Dense cfg { g with history := { g.history with total := x } } (r.putTotal x) := by
  have hin := Region.within_putTotal r x
  refine ⟨h.headed.congr fun j hj _ => hin.byte j (.inl hj), ?_, ?_⟩
  · exact h.packed.congr (Nat.le_trans h.packed.fits (Nat.le_of_eq hin.size.symm))
      (hin.byte 6 (.inl (by decide))) fun j hj _ => hin.byte j (.inr (by omega))
  · have := h.size_ge
    rw [Region.estimator_putTotal (by omega), h.estimator]

theorem putFlag (h : Dense cfg g r) (on : Bool) :
    Dense cfg { g with history := { g.history with outOfOrder := on } }
      (r.putFlag .outOfOrder on) := by
  have hin := Region.within_putFlag r .outOfOrder on
  have hsize := h.size_ge
  have hhead : (r.putFlag .outOfOrder on).Headed cfg .dense 0 (flagsOf on) := by
    refine h.headed.putFlag (by omega) _ _ ?_
    cases g.history.outOfOrder <;> cases on <;> decide
  have hflag : (flagsOf on &&& Flag.outOfOrder.mask != 0) = on := by cases on <;> decide
  have he := h.estimator
  refine ⟨hhead, ?_, ?_⟩
  · exact h.packed.congr (Nat.le_trans h.packed.fits (Nat.le_of_eq hin.size.symm))
      (hin.byte 6 (.inr (by decide))) fun j hj _ => hin.byte j (.inr (by omega))
  · have hreal : ∀ i, 8 ≤ i → (r.putFlag .outOfOrder on).real i = r.real i := fun i hi =>
      hin.real (.inr (by omega))
    rw [← he, Region.estimator, hreal 8 (by decide), hreal 16 (by decide), hreal 24 (by decide),
      hhead.hasFlag_eq, hflag]
    rfl

end Dense

/-! ## Registers that are all zero -/

theorem footprint_zero (cfg : Config) : Footprint.dense cfg 0 = 40 + Footprint.registers cfg := by
  unfold Footprint.dense
  split_ifs <;> rfl

theorem field_eq_zero {i : Nat} (hi : i < cfg.k)
    (hb : ∀ j, 40 ≤ j → j < 40 + Footprint.registers cfg → r.byte j = 0) :
    r.field cfg.width i = 0 := by
  have h : r.field cfg.width i = Region.field ⟨.empty, .owned⟩ cfg.width i :=
    Region.field_congr hi hb
  rw [h]
  cases cfg.width with
  | four =>
    change (if i % 2 = 0 then 0 % 16 else 0 / 16) = 0
    split_ifs <;> rfl
  | six =>
    change (0 + 256 * 0) / Region.windowUnit i % 64 = 0
    rw [Nat.zero_div]
  | eight => rfl

/-- What clearing leaves: a header, the number of registers at zero, and zero bytes. -/
structure Cleared (cfg : Config) (r : Region) : Prop where
  headed : r.Headed cfg .dense 0 0
  fits : 40 + Footprint.registers cfg ≤ r.size
  minimum : r.minimum = 0
  counted : r.atMinimum = cfg.k
  zero : ∀ j, 36 ≤ j → j < 40 + Footprint.registers cfg → r.byte j = 0

namespace Cleared

theorem exceptionCount_eq_zero (h : Cleared cfg r) : r.exceptionCount = 0 := by
  rw [Region.exceptionCount, Region.toNat_word, h.zero 36 (by decide) (by omega),
    h.zero 37 (by decide) (by omega), h.zero 38 (by decide) (by omega),
    h.zero 39 (by decide) (by omega)]
  rfl

theorem relative (h : Cleared cfg r) (hw : cfg.width = .four) : Relative cfg (fun _ => 0) r := by
  have hmin := h.minimum
  have hmark : mark = 15 := rfl
  have hexc := h.exceptionCount_eq_zero
  have hent : entries cfg r = [] := by
    rw [entries, hexc]
    rfl
  have hoff : offset cfg 0 = 40 + Footprint.registers cfg := by
    rw [Footprint.registers, hw]
    rfl
  have hlevel : level cfg.k (fun _ => 0) 0 = cfg.k := level_of_forall fun _ _ => rfl
  refine ⟨⟨?_, fun _ _ => Nat.zero_le _, ?_, fun i hi => ?_, ?_, fun c => ?_⟩, ?_, ?_⟩
  · rw [hexc, hoff]
    exact h.fits
  · exact fun _ _ => Nat.le_of_eq hmin
  · have := field_eq_zero hi fun j h₁ h₂ => h.zero j (by omega) h₂
    rw [hw] at this
    rw [hmin]
    exact this
  · rw [Exceptions.Sorted, hent]
    exact List.Pairwise.nil
  · rw [hent]
    constructor
    · exact fun hc => absurd hc List.not_mem_nil
    · rintro ⟨-, hm, -⟩
      omega
  · rw [h.counted, hmin, hlevel]
  · rw [h.counted]
    exact k_pos cfg

theorem packed (h : Cleared cfg r) : Packed cfg (fun _ => 0) r := by
  by_cases hw : cfg.width = .four
  · exact (packed_of_four hw).2 (h.relative hw)
  · refine (packed_of_ne_four hw).2 ⟨h.fits, fun _ _ => Nat.zero_le _, fun i hi => ?_, h.minimum,
      ?_, h.exceptionCount_eq_zero, fun hw => h.zero _ (by omega) (spare_lt hw)⟩
    · exact field_eq_zero hi fun j h₁ h₂ => h.zero j (by omega) h₂
    · rw [h.counted, level_of_forall fun _ _ => rfl]

end Cleared

theorem cleared_putEstimator (hs : 40 + Footprint.registers cfg ≤ r.size)
    (hr : r' = ((r.putHeader cfg .dense 0 0).zero 8 (Footprint.dense cfg 0 - 8)).putAtMinimum
      cfg.k) (e : Estimator Double) :
    Cleared cfg (r'.putEstimator e) ∧ r'.backing = r.backing ∧ r'.size = r.size ∧
      r'.byte 5 = 0 := by
  have hk := k_le cfg
  have hin₁ := Region.within_putHeader r cfg .dense 0 0
  have hhead : (r.putHeader cfg .dense 0 0).Headed cfg .dense 0 0 :=
    Region.headed_putHeader (by omega) rfl
  have h₆ : (r.putHeader cfg .dense 0 0).byte 6 = 0 := Region.byte_six_putHeader (by omega)
  generalize r.putHeader cfg .dense 0 0 = r₁ at hin₁ hhead h₆ hr
  have hin₂ := Region.within_zero r₁ 8 (Footprint.dense cfg 0 - 8)
  have hzero : ∀ j, 8 ≤ j → j < 40 + Footprint.registers cfg →
      (r₁.zero 8 (Footprint.dense cfg 0 - 8)).byte j = 0 := fun j h₁ h₂ =>
    Region.byte_zero_inside h₁ (by rw [footprint_zero]; omega)
  generalize r₁.zero 8 (Footprint.dense cfg 0 - 8) = r₂ at hin₂ hzero hr
  have hin₃ := Region.within_putAtMinimum r₂ cfg.k
  have hin₄ := Region.within_putEstimator r' e
  have hsize₂ : r₂.size = r.size := hin₂.size.trans hin₁.size
  have hat : r'.atMinimum = cfg.k := by
    rw [hr]
    exact Region.atMinimum_putAtMinimum (by omega) (by omega)
  rw [← hr] at hin₃
  have hlow : ∀ j, j < 8 → (r'.putEstimator e).byte j = r₁.byte j := fun j hj => by
    rw [hin₄.byte j (.inl hj), hin₃.byte j (.inl (by omega)), hin₂.byte j (.inl hj)]
  have hflags : r'.byte 5 = 0 := by
    rw [hin₃.byte 5 (.inl (by decide)), hin₂.byte 5 (.inl (by decide)), hhead.flags]
  refine ⟨⟨hhead.congr fun j hj _ => hlow j hj, ?_, ?_, ?_, fun j h₁ h₂ => ?_⟩,
    hin₃.backing.trans (hin₂.backing.trans hin₁.backing), hin₃.size.trans hsize₂, hflags⟩
  · rwa [hin₄.size, hin₃.size, hsize₂]
  · exact congrArg UInt8.toNat ((hlow 6 (by decide)).trans h₆)
  · exact (congrArg UInt32.toNat (hin₄.word (.inr (by decide)))).trans hat
  · rw [hin₄.byte j (.inr (by omega)), hin₃.byte j (.inr h₁), hzero j (by omega) h₂]

/-- **A cleared image has registers that are all zero.** -/
theorem meets_clear (cfg : Config) (hb : r.backing ≠ .frozen) :
    (clear cfg).Meets r fun _ r' => Dense cfg (Registry.fresh cfg.lgK) r' := by
  refine Edit.Meets.bind ((Edit.meets_reserve _ hb).mono fun _ r₁ _ ⟨hsize, _, _⟩ => ?_)
  rw [footprint_zero] at hsize
  obtain ⟨hcleared, hback, hsize', hflags⟩ :=
    cleared_putEstimator hsize rfl (Estimator.fresh cfg.lgK)
  refine Edit.Meets.write ((Region.within_putEstimator ..).backing.trans hback)
    ⟨hcleared.headed, hcleared.packed, Region.estimator_putEstimator (by omega) _ ?_⟩
  rw [Region.hasFlag, Region.flags, hflags]
  rfl

theorem Dense.exceptionCount_fresh (h : Dense cfg (Registry.fresh cfg.lgK) r) :
    r.exceptionCount = 0 :=
  h.packed.exceptionCount_eq_zero fun _ _ => show 0 < mark by decide

/-- What is cleared beyond registers that are all zero does not belong to them. -/
theorem Dense.zero_fresh (h : Dense cfg (Registry.fresh cfg.lgK) r) (n : Nat) :
    Dense cfg (Registry.fresh cfg.lgK) (r.zero (Footprint.dense cfg 0) n) := by
  refine h.congr (by rw [Region.size_zero]; exact h.packed.fits) fun j hj => ?_
  rw [h.exceptionCount_fresh] at hj
  exact (Region.within_zero ..).byte j (.inl hj)

/-! ## Answers -/

namespace Shown

/-- An answer that does not tell positive minima apart is that of the zero registers alone. -/
theorem answer {β : Type} (h : Shown cfg g r) (f : Nat → Nat → β)
    (hf : ∀ m n, 0 < m → f m n = f 0 0) :
    f r.minimum r.atMinimum = f 0 (level cfg.k g.values 0) := by
  rcases h.packed.header with ⟨hm, hat⟩ | ⟨hm, hl⟩
  · rw [hm, hat]
  · rw [hf _ _ hm, hl]

theorem isEmpty_eq (h : Shown cfg g r) :
    Contents.isEmpty cfg .dense r = decide (level cfg.k g.values 0 = cfg.k) := by
  have := k_pos cfg
  have ha := h.answer (fun m n => decide (m = 0 ∧ n = cfg.k)) fun m n hm => by
    rw [decide_eq_decide]
    omega
  rw [Contents.isEmpty]
  exact ha.trans (by rw [decide_eq_decide]; omega)

theorem composite_of_pos (e : Estimator Double) (lgK : Nat) (m n : Nat) (hm : 0 < m) :
    e.composite lgK m n = e.composite lgK 0 0 := by
  have := Nat.two_pow_pos lgK
  unfold Estimator.composite
  rw [if_neg (by omega), if_neg (by omega), if_neg (by omega),
    if_neg fun h => absurd h.2.1 (by omega)]

theorem estimate_of_pos (e : Estimator Double) (lgK : Nat) (m n : Nat) (hm : 0 < m) :
    e.estimate lgK m n = e.estimate lgK 0 0 := by
  rw [Estimator.estimate, Estimator.estimate, composite_of_pos e lgK m n hm]

/-- **The estimate from registers depends on the registry alone.** -/
theorem composite_eq (h : Shown cfg g r) : Contents.composite cfg .dense r =
    g.history.composite cfg.lgK 0 (level cfg.k g.values 0) := by
  rw [Contents.composite, h.estimator]
  exact h.answer _ (composite_of_pos g.history cfg.lgK)

theorem estimate_eq (h : Shown cfg g r) : Contents.estimate cfg .dense r =
    g.history.estimate cfg.lgK 0 (level cfg.k g.values 0) := by
  rw [Contents.estimate, h.estimator]
  exact h.answer _ (estimate_of_pos g.history cfg.lgK)

theorem upper_eq (h : Shown cfg g r) (c : Confidence) : Contents.upper cfg .dense r c =
    g.history.upper cfg.lgK 0 (level cfg.k g.values 0) c := by
  rw [Contents.upper, h.estimator]
  refine h.answer (fun m n => g.history.upper cfg.lgK m n c) fun m n hm => ?_
  rw [Estimator.upper, Estimator.upper, estimate_of_pos g.history cfg.lgK m n hm]

/-- **The lower bound depends on the registry alone**: above a positive minimum every register has
risen, and where the minimum stays zero none of them is counted as zero. -/
theorem lower_eq (h : Shown cfg g r) (c : Confidence) : Contents.lower cfg .dense r c =
    g.history.lower cfg.lgK 0 (level cfg.k g.values 0) c := by
  rw [Contents.lower, h.estimator]
  refine h.answer (fun m n => g.history.lower cfg.lgK m n c) fun m n hm => ?_
  rw [Estimator.lower, Estimator.lower, estimate_of_pos g.history cfg.lgK m n hm,
    if_neg (by omega), if_pos rfl, Nat.sub_zero]

end Shown

theorem Dense.composite_eq (h : Dense cfg g r) : Contents.composite cfg .dense r =
    g.history.composite cfg.lgK 0 (level cfg.k g.values 0) :=
  h.shown.composite_eq

end HyperLogLog.Registers
