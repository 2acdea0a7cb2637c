import HyperLogLog.Declaration
import HyperLogLog.Proofs.Header

/-!
# Bytes that pass the check

* `Declaration.Plausible`: counts in a header that make sense for its mode;
* `Declaration.Accepted`: what bytes declare, clause by clause;
* **`ofRegion_eq_ok`**: the check passes bytes exactly if they have every clause;
* `Accepted.congr`: the clauses depend on the header and on the number of bytes;
* **`kind_of_ofRegion`**: whatever check fails, the bytes are reported as malformed.
-/

namespace HyperLogLog

theorem Except.bind_eq_ok {ε α β : Type} {x : Except ε α} {f : α → Except ε β} {b : β} :
    x >>= f = .ok b ↔ ∃ a, x = .ok a ∧ f a = .ok b := by
  cases x with
  | ok a => exact ⟨fun h => ⟨a, rfl, h⟩, fun ⟨_, ha, h⟩ => by cases ha; exact h⟩
  | error e => exact ⟨nofun, nofun⟩

namespace Declaration

variable {cfg : Config} {mode : Mode} {r r' : Region} {d : Declaration}

/-! ## Single checks -/

@[simp] theorem require_eq_ok {c : Bool} {f : Fault} {u : Unit} :
    require c f = .ok u ↔ c = true := by
  unfold require
  split_ifs with h <;> simp [h]

@[simp] theorem demand_eq_ok {α : Type} {x : Option α} {f : Fault} {a : α} :
    demand x f = .ok a ↔ x = some a := by
  cases x <;> simp [demand]

@[simp] theorem sizeOf?_eq_ok {lgK : Nat} {x : { n : Nat // 4 ≤ n ∧ n ≤ 21 }} :
    sizeOf? lgK = .ok x ↔ lgK = x := by
  obtain ⟨n, hn⟩ := x
  unfold sizeOf?
  split_ifs with h
  · simp
  · simp
    rintro rfl
    exact absurd hn h

@[simp] theorem check_eq_ok {f : Family} {id : Nat} {u : Unit} :
    f.check id = .ok u ↔ id = f.id := by
  unfold Family.check
  split_ifs with h <;> simp [h]

theorem checkSparse_eq_ok {count : Nat} {u : Unit} :
    checkSparse r cfg mode count = .ok u ↔
      ((lgArrRange cfg mode).1 ≤ r.lgArr ∧ r.lgArr ≤ (lgArrRange cfg mode).2) ∧
        count ≤ 2 ^ r.lgArr := by
  simp [checkSparse, Except.bind_eq_ok]

theorem checkDense_eq_ok {u : Unit} :
    checkDense r cfg = .ok u ↔ (r.atMinimum ≤ cfg.k ∧ r.exceptionCount ≤ cfg.k) ∧
      r.minimum ≤ 63 ∧ (cfg.width = .four ∨ r.exceptionCount = 0) := by
  simp [checkDense, Except.bind_eq_ok]

/-! ## All checks -/

/-- The counts in a header make sense for its mode. -/
def Plausible (cfg : Config) (r : Region) : Mode → Prop
  | .list => ((lgArrRange cfg .list).1 ≤ r.lgArr ∧ r.lgArr ≤ (lgArrRange cfg .list).2) ∧
      r.listCount ≤ 2 ^ r.lgArr
  | .set => ((lgArrRange cfg .set).1 ≤ r.lgArr ∧ r.lgArr ≤ (lgArrRange cfg .set).2) ∧
      r.setCount ≤ 2 ^ r.lgArr
  | .dense => (r.atMinimum ≤ cfg.k ∧ r.exceptionCount ≤ cfg.k) ∧ r.minimum ≤ 63 ∧
      (cfg.width = .four ∨ r.exceptionCount = 0)

/-- The bytes of a region declare a configuration and a mode, and are as many as that takes. -/
structure Accepted (d : Declaration) (r : Region) : Prop where
  shared : 8 ≤ r.size
  preamble : 4 * r.preambleInts ≤ r.size
  family : r.familyId = Family.hll.id
  version : r.version = formatVersion
  lgK : r.lgK = d.config.lgK
  order : r.hasFlag .bigEndian = false
  mode : r.mode? = some d.mode
  width : r.width? = some d.config.width
  preambleInts : r.preambleInts = d.mode.preambleInts
  counts : Plausible d.config r d.mode
  fits : r.footprint d.config d.mode ≤ r.size

/-- **The check passes bytes exactly if they have every clause.** -/
theorem ofRegion_eq_ok : ofRegion r = .ok d ↔ Accepted d r := by
  obtain ⟨⟨lgK, width, h4, h21⟩, mode⟩ := d
  constructor
  · intro h
    simp only [ofRegion, Except.bind_eq_ok, require_eq_ok, check_eq_ok, sizeOf?_eq_ok,
      demand_eq_ok, decide_eq_true_eq, Bool.not_eq_true'] at h
    obtain ⟨-, hshared, -, hpre, -, hfamily, -, hversion, ⟨n, hn⟩, hlgK, -, horder, m, hmode, w,
      hwidth, -, hints, h⟩ := h
    -- the check of the counts is the only step that differs from mode to mode
    have hcounts : Plausible ⟨n, w, hn.1, hn.2⟩ r m ∧
        r.footprint ⟨n, w, hn.1, hn.2⟩ m ≤ r.size ∧
        (⟨⟨n, w, hn.1, hn.2⟩, m⟩ : Declaration) = ⟨⟨lgK, width, h4, h21⟩, mode⟩ := by
      cases m with
      | list | set =>
        simp only [Except.bind_eq_ok, checkSparse_eq_ok, require_eq_ok, decide_eq_true_eq] at h
        obtain ⟨-, hcounts, -, hfits, hd⟩ := h
        exact ⟨hcounts, hfits, Except.ok.inj hd⟩
      | dense =>
        simp only [Except.bind_eq_ok, checkDense_eq_ok, require_eq_ok, decide_eq_true_eq] at h
        obtain ⟨-, hcounts, -, hfits, hd⟩ := h
        exact ⟨hcounts, hfits, Except.ok.inj hd⟩
    obtain ⟨hcounts, hfits, hd⟩ := hcounts
    cases hd
    exact ⟨hshared, hpre, hfamily, hversion, hlgK, horder, hmode, hwidth, hints, hcounts, hfits⟩
  · intro h
    simp only [ofRegion, Except.bind_eq_ok, require_eq_ok, check_eq_ok, sizeOf?_eq_ok,
      demand_eq_ok, decide_eq_true_eq, Bool.not_eq_true']
    refine ⟨(), h.shared, (), h.preamble, (), h.family, (), h.version, ⟨lgK, h4, h21⟩, h.lgK, (),
      h.order, mode, h.mode, width, h.width, (), h.preambleInts, ?_⟩
    have hcounts := h.counts
    have hfits := h.fits
    cases mode with
    | list | set =>
      simp only [Except.bind_eq_ok, checkSparse_eq_ok, require_eq_ok, decide_eq_true_eq]
      exact ⟨(), hcounts, (), hfits, rfl⟩
    | dense =>
      simp only [Except.bind_eq_ok, checkDense_eq_ok, require_eq_ok, decide_eq_true_eq]
      exact ⟨(), hcounts, (), hfits, rfl⟩

namespace Accepted

theorem dataStart_le (ha : Accepted d r) : d.mode.dataStart ≤ r.size := by
  have hpre := ha.preamble
  rw [ha.preambleInts] at hpre
  cases hm : d.mode <;> rw [hm] at hpre <;> exact hpre

/-- **The clauses depend on the header and on the number of bytes.** Of the flags, only the order
of bytes and, through the footprint, the compact flag matter. -/
theorem congr (ha : Accepted d r) (hsize : d.mode.dataStart ≤ r'.size)
    (hb : ∀ j, j < d.mode.dataStart → j ≠ 5 → r'.byte j = r.byte j)
    (horder : r'.hasFlag .bigEndian = false)
    (hfits : r'.footprint d.config d.mode ≤ r'.size) : Accepted d r' := by
  have height : 8 ≤ d.mode.dataStart := by cases d.mode <;> decide
  have hlow : ∀ j, j < 8 → j ≠ 5 → r'.byte j = r.byte j := fun j hj => hb j (by omega)
  have hints : r'.preambleInts = r.preambleInts := by
    rw [Region.preambleInts, hlow 0 (by decide) (by decide), Region.preambleInts]
  have hlgArr : r'.lgArr = r.lgArr := congrArg UInt8.toNat (hlow 4 (by decide) (by decide))
  have hsix : r'.byte 6 = r.byte 6 := hlow 6 (by decide) (by decide)
  have hmodes : r'.byte 7 = r.byte 7 := hlow 7 (by decide) (by decide)
  refine ⟨by omega, ?_, ?_, ?_, ?_, horder, ?_, ?_, ?_, ?_, hfits⟩
  · rw [hints, ha.preambleInts]
    refine Nat.le_trans ?_ hsize
    cases d.mode <;> decide
  · rw [Region.familyId, hlow 2 (by decide) (by decide)]
    exact ha.family
  · rw [Region.version, hlow 1 (by decide) (by decide)]
    exact ha.version
  · rw [Region.lgK, hlow 3 (by decide) (by decide)]
    exact ha.lgK
  · rw [Region.mode?, hmodes]
    exact ha.mode
  · rw [Region.width?, hmodes]
    exact ha.width
  · rw [hints]
    exact ha.preambleInts
  · have hcounts := ha.counts
    cases hm : d.mode with
    | list =>
      rw [hm] at hcounts
      unfold Plausible
      rwa [hlgArr, Region.listCount, hsix]
    | set =>
      rw [hm] at hcounts hb
      have hstart : Mode.set.dataStart = 12 := rfl
      have hcount : r'.setCount = r.setCount := congrArg UInt32.toNat
        (Region.word_congr fun j _ _ => hb j (by omega) (by omega))
      unfold Plausible
      rwa [hlgArr, hcount]
    | dense =>
      rw [hm] at hcounts hb
      have hstart : Mode.dense.dataStart = 40 := rfl
      have hat : r'.atMinimum = r.atMinimum := congrArg UInt32.toNat
        (Region.word_congr fun j _ _ => hb j (by omega) (by omega))
      have hexc : r'.exceptionCount = r.exceptionCount := congrArg UInt32.toNat
        (Region.word_congr fun j _ _ => hb j (by omega) (by omega))
      unfold Plausible
      rwa [hat, hexc, Region.minimum, hsix]

end Accepted

/-! ## Failed checks -/

/-- Whatever fault there is, it is reported as malformed bytes. -/
def Malformed {α : Type} (m : Except Fault α) : Prop :=
  ∀ e, m = .error e → e.report.kind = .malformed

section Malformed

variable {α β : Type} {m : Except Fault α}

theorem malformed_pure (a : α) : Malformed (pure a : Except Fault α) := nofun

theorem Malformed.bind {f : α → Except Fault β} (hm : Malformed m) (hf : ∀ a, Malformed (f a)) :
    Malformed (m >>= f) := by
  intro e he
  cases m with
  | ok a => exact hf a e he
  | error _ =>
    cases he
    exact hm _ rfl

theorem malformed_require {c : Bool} {f : Fault} (hf : f.report.kind = .malformed) :
    Malformed (require c f) := by
  intro e he
  unfold require at he
  split_ifs at he
  cases he
  exact hf

theorem malformed_demand {x : Option α} {f : Fault} (hf : f.report.kind = .malformed) :
    Malformed (demand x f) := by
  intro e he
  cases x with
  | some a => cases he
  | none =>
    cases he
    exact hf

theorem malformed_sizeOf? (lgK : Nat) : Malformed (sizeOf? lgK) := by
  intro e he
  unfold sizeOf? at he
  split_ifs at he
  cases he
  rfl

theorem malformed_check (f : Family) (id : Nat) : Malformed (f.check id) := by
  intro e he
  unfold Family.check at he
  split_ifs at he
  cases he
  rfl

theorem malformed_checkSparse (r : Region) (cfg : Config) (mode : Mode) (count : Nat) :
    Malformed (checkSparse r cfg mode count) :=
  (malformed_require rfl).bind fun _ => malformed_require rfl

theorem malformed_checkDense (r : Region) (cfg : Config) : Malformed (checkDense r cfg) :=
  (malformed_require rfl).bind fun _ => (malformed_require rfl).bind fun _ => malformed_require rfl

/-- **Whatever check fails, the bytes are reported as malformed.** -/
theorem kind_of_ofRegion (r : Region) : Malformed (ofRegion r) := by
  unfold ofRegion
  refine (malformed_require rfl).bind fun _ => ?_
  refine (malformed_require rfl).bind fun _ => ?_
  refine (malformed_check _ _).bind fun _ => ?_
  refine (malformed_require rfl).bind fun _ => ?_
  refine (malformed_sizeOf? _).bind fun _ => ?_
  refine (malformed_require rfl).bind fun _ => ?_
  refine (malformed_demand rfl).bind fun mode => ?_
  refine (malformed_demand rfl).bind fun _ => ?_
  refine (malformed_require rfl).bind fun _ => ?_
  cases mode with
  | list | set =>
    refine (malformed_checkSparse _ _ _ _).bind fun _ => ?_
    exact (malformed_require rfl).bind fun _ => malformed_pure _
  | dense =>
    refine (malformed_checkDense _ _).bind fun _ => ?_
    exact (malformed_require rfl).bind fun _ => malformed_pure _

end Malformed

end Declaration

end HyperLogLog
