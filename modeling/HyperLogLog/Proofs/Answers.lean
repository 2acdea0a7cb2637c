import HyperLogLog.Proofs.Serial
import HyperLogLog.Sketch.Text

/-!
# Answers depend on the image alone

* `Contents.answer_congr`: what lists, tables and registers answer from their header;
* `Sketch.SameHeader`: sketches whose images have the same header, and the answers they share;
* `Sketch.Interchangeable`: sketches that no question but the owner of their bytes tells apart;
* **`Mirrors.interchangeable`**: so are sketches of one configuration that keep the same holding.
-/

namespace HyperLogLog

open Registers (Dense)
open Estimate (Confidence)

/-! ## Answers from the header -/

section Headers

variable {cfg : Config} {r r' : Region} {mode : Mode}

theorem Contents.count_congr (h : ∀ j, j < mode.dataStart → r.byte j = r'.byte j) :
    count mode r = count mode r' := by
  cases mode with
  | list => exact congrArg UInt8.toNat (h 6 (by decide))
  | set =>
    have hstart : Mode.set.dataStart = 12 := rfl
    exact congrArg UInt32.toNat (Region.word_congr fun j _ _ => h j (by omega))
  | dense => rfl

/-- Answers of lists and tables depend on the count in the header, those of registers on the sums,
the minimum and the number of registers there. -/
theorem Contents.answer_congr {β : Type} (f : Nat → β) (g : Estimator Double → Nat → Nat → β) :
    (∀ j, j < mode.dataStart → r.byte j = r'.byte j) →
    (match mode with
      | .dense => g r.estimator r.minimum r.atMinimum
      | m => f (count m r)) =
    match mode with
      | .dense => g r'.estimator r'.minimum r'.atMinimum
      | m => f (count m r') := by
  intro h
  have hcount := count_congr h
  cases mode with
  | list | set => exact congrArg f hcount
  | dense =>
    have hstart : Mode.dense.dataStart = 40 := rfl
    have he : r.estimator = r'.estimator :=
      Region.estimator_congr (h 5 (by decide)) fun j _ _ => h j (by omega)
    have hmin : r.minimum = r'.minimum := congrArg UInt8.toNat (h 6 (by decide))
    have hat : r.atMinimum = r'.atMinimum :=
      congrArg UInt32.toNat (Region.word_congr fun j _ _ => h j (by omega))
    dsimp only
    rw [he, hmin, hat]

theorem Region.summary_congr (hm : r.mode? = some mode)
    (h : ∀ j, j < mode.dataStart → r.byte j = r'.byte j) : r.summary = r'.summary := by
  have hlow : ∀ j, j < 8 → r.byte j = r'.byte j := fun j hj =>
    h j (Nat.lt_of_lt_of_le hj (Mode.eight_le_dataStart mode))
  have hmode : r.mode? = r'.mode? := by rw [mode?, mode?, hlow 7 (by decide)]
  have hcommon : r.commonRows = r'.commonRows := by
    simp only [commonRows, preambleInts, version, familyId, lgK, lgArr, hasFlag, flags,
      hlow 0 (by decide), hlow 1 (by decide), hlow 2 (by decide), hlow 3 (by decide),
      hlow 4 (by decide), hlow 5 (by decide)]
  have hcount : r.countRow = r'.countRow := by
    simp only [countRow, listCount, minimum, hmode, hlow 6 (by decide)]
  have hwidth : r.width? = r'.width? := by rw [width?, width?, hlow 7 (by decide)]
  have hrows : r.modeRows = r'.modeRows := by
    unfold modeRows
    rw [← hmode, hm]
    cases mode with
    | list => rfl
    | set =>
      have hset : r.setCount = r'.setCount := Contents.count_congr h
      dsimp only
      rw [hset]
    | dense =>
      have hstart : Mode.dense.dataStart = 40 := rfl
      have he : r.estimator = r'.estimator :=
        estimator_congr (h 5 (by decide)) fun j _ _ => h j (by omega)
      have hat : r.atMinimum = r'.atMinimum :=
        congrArg UInt32.toNat (word_congr fun j _ _ => h j (by omega))
      have hexc : r.exceptionCount = r'.exceptionCount :=
        congrArg UInt32.toNat (word_congr fun j _ _ => h j (by omega))
      dsimp only
      rw [he, hat, hexc]
  unfold summary
  rw [hmode, hcommon, hcount, hwidth, hrows]

end Headers

namespace Sketch

variable {s t : Sketch} {h : Holding}

/-! ## Sketches with the same header -/

/-- Two sketches of one configuration and mode whose images have the same header. -/
structure SameHeader (s t : Sketch) : Prop where
  config : s.config = t.config
  mode : s.mode = t.mode
  byte : ∀ j, j < s.mode.dataStart → s.region.byte j = t.region.byte j

namespace SameHeader

theorem byte_low (hst : SameHeader s t) {j : Nat} (hj : j < 8) :
    s.region.byte j = t.region.byte j :=
  hst.byte j (Nat.lt_of_lt_of_le hj (Mode.eight_le_dataStart s.mode))

theorem count (hst : SameHeader s t) :
    Contents.count s.mode s.region = Contents.count t.mode t.region := by
  rw [← hst.mode]
  exact Contents.count_congr hst.byte

theorem lgArr (hst : SameHeader s t) : s.region.lgArr = t.region.lgArr :=
  congrArg UInt8.toNat (hst.byte_low (by decide))

theorem estimator (hst : SameHeader s t) (hm : s.mode = .dense) :
    s.region.estimator = t.region.estimator := by
  have hbyte := hst.byte
  have hstart : Mode.dense.dataStart = 40 := rfl
  rw [hm] at hbyte
  exact Region.estimator_congr (hbyte 5 (by decide)) fun j _ _ => hbyte j (by omega)

theorem isOutOfOrder (hst : SameHeader s t) : s.isOutOfOrder = t.isOutOfOrder := by
  simp only [Sketch.isOutOfOrder, Region.hasFlag, Region.flags, hst.byte_low (j := 5) (by decide)]

theorem answer {β : Type} (hst : SameHeader s t) {q : Config → Mode → Region → β}
    (hq : ∀ cfg mode {r r' : Region}, (∀ j, j < mode.dataStart → r.byte j = r'.byte j) →
      q cfg mode r = q cfg mode r') :
    q s.config s.mode s.region = q t.config t.mode t.region := by
  rw [← hst.config, ← hst.mode]
  exact hq _ _ hst.byte

theorem isEmpty (hst : SameHeader s t) : s.isEmpty = t.isEmpty :=
  hst.answer fun cfg _ => Contents.answer_congr (fun n => decide (n = 0))
    fun _ m n => decide (m = 0 ∧ n = cfg.k)

theorem estimate (hst : SameHeader s t) : s.estimate = t.estimate :=
  hst.answer fun cfg _ => Contents.answer_congr Estimate.ofCoupons fun e => e.estimate cfg.lgK

theorem composite (hst : SameHeader s t) : s.composite = t.composite :=
  hst.answer fun cfg _ => Contents.answer_congr Estimate.ofCoupons fun e => e.composite cfg.lgK

theorem lower (hst : SameHeader s t) (c : Confidence) : s.lower c = t.lower c :=
  hst.answer (q := fun cfg mode r => Contents.lower cfg mode r c) fun cfg _ =>
    Contents.answer_congr (Estimate.couponsLower · c) fun e m n => e.lower cfg.lgK m n c

theorem upper (hst : SameHeader s t) (c : Confidence) : s.upper c = t.upper c :=
  hst.answer (q := fun cfg mode r => Contents.upper cfg mode r c) fun cfg _ =>
    Contents.answer_congr (Estimate.couponsUpper · c) fun e m n => e.upper cfg.lgK m n c

end SameHeader

/-! ## Sketches that keep the same holding -/

/-- Two sketches that no question tells apart, unless it is asked who owns their bytes. -/
structure Interchangeable (s t : Sketch) : Prop where
  config : s.config = t.config
  mode : s.mode = t.mode
  image : s.image = t.image
  isEmpty : s.isEmpty = t.isEmpty
  isOutOfOrder : s.isOutOfOrder = t.isOutOfOrder
  isCompact : s.isCompact = t.isCompact
  isReadOnly : s.isReadOnly = t.isReadOnly
  estimate : s.estimate = t.estimate
  composite : s.composite = t.composite
  lower : ∀ c, s.lower c = t.lower c
  upper : ∀ c, s.upper c = t.upper c
  coupons : s.coupons = t.coupons
  compactSize : s.compactSize = t.compactSize
  updatableSize : s.updatableSize = t.updatableSize
  toCompact : s.toCompact = t.toCompact
  toUpdatable : s.toUpdatable = t.toUpdatable
  copy : s.copy = t.copy
  withWidth : ∀ w, s.withWidth w = t.withWidth w
  offered : ∀ lgK, s.offered lgK = t.offered lgK
  union : ∀ u, s.union u = t.union u ∧ u.union s = u.union t
  sameAs : ∀ u, s.sameAs u = t.sameAs u ∧ u.sameAs s = u.sameAs t
  summary : s.region.summary = t.region.summary

/-- Two sketches of one configuration that keep the same holding. -/
def Mirrors (s t : Sketch) : Prop := s.config = t.config ∧ ∃ h, s.Keeps h ∧ t.Keeps h

theorem SameHeader.toCompact (hst : SameHeader s t) (himage : s.image = t.image)
    (hcoupons : s.coupons = t.coupons) (hs : s.mode.dataStart ≤ s.region.size)
    (ht : s.mode.dataStart ≤ t.region.size) : s.toCompact = t.toCompact := by
  obtain ⟨cfg, mode, r⟩ := s
  obtain ⟨cfg', mode', r'⟩ := t
  obtain ⟨rfl, rfl, hbyte⟩ := hst
  have hhead : r.bytes.extract 0 mode.dataStart = r'.bytes.extract 0 mode.dataStart := by
    have hle : mode.dataStart ≤ r.bytes.size := hs
    have hle' : mode.dataStart ≤ r'.bytes.size := ht
    refine Bytes.ext ?_ fun j => ?_
    · rw [ByteArray.size_extract, ByteArray.size_extract]
      omega
    · rw [Bytes.byte_extract, Bytes.byte_extract]
      split_ifs with hj
      · exact hbyte j hj
      · rfl
  cases mode with
  | list | set =>
    have hlive := Except.ok.inj hcoupons
    simp only [Sketch.toCompact, hhead, hlive]
  | dense => exact congrArg markCompact himage

theorem Keeps.sameHeader (hs : s.Keeps h) (ht : t.Keeps h) (hcfg : s.config = t.config) :
    SameHeader s t := by
  refine ⟨hcfg, hs.mode.trans ht.mode.symm, fun j hj => ?_⟩
  have hstart := hs.dataStart_le
  rw [hs.imageSize_eq] at hstart
  exact hs.image.byte_eq (hcfg ▸ ht.image) hs.sound (Nat.lt_of_lt_of_le hj hstart)

/-- **Sketches that keep the same holding are interchangeable.** -/
theorem Mirrors.interchangeable (hst : Mirrors s t) : Interchangeable s t := by
  obtain ⟨hcfg, h, hs, ht⟩ := hst
  have himage := hs.image_eq ht hcfg
  have hcoupons : s.coupons = t.coupons := by rw [hs.coupons_eq, ht.coupons_eq, hcfg]
  have hsize : s.imageSize = t.imageSize := by rw [← hs.size_image, ← ht.size_image, himage]
  have hhead := hs.sameHeader ht hcfg
  have hmode := hhead.mode
  have hoffered : ∀ lgK, s.offered lgK = t.offered lgK := fun lgK => by
    rw [offered, offered, hcoupons, hmode, hcfg]
  have hcopy : s.copy = t.copy := congrArg ofBytes himage
  constructor
  case config => exact hcfg
  case mode => exact hmode
  case image => exact himage
  case isEmpty => exact hhead.isEmpty
  case isOutOfOrder => exact hhead.isOutOfOrder
  case isCompact => exact hs.image.hasFlag_compact.trans ht.image.hasFlag_compact.symm
  case isReadOnly => exact (decide_eq_false hs.writable).trans (decide_eq_false ht.writable).symm
  case estimate => exact hhead.estimate
  case composite => exact hhead.composite
  case lower => exact hhead.lower
  case upper => exact hhead.upper
  case coupons => exact hcoupons
  case compactSize =>
    have hcount := hhead.count
    rw [hmode] at hcount
    rw [compactSize, compactSize, hsize, hmode]
    cases hm : t.mode with
    | list | set =>
      rw [hm] at hcount
      exact congrArg (_ + 4 * ·) hcount
    | dense => rfl
  case updatableSize => rw [updatableSize, updatableSize, hsize, hhead.lgArr, hmode]
  case toCompact =>
    have hstart := hs.dataStart_le
    exact hhead.toCompact himage hcoupons (hstart.trans hs.imageSize_le)
      (hstart.trans (hsize ▸ ht.imageSize_le))
  case toUpdatable => rw [hs.toUpdatable_eq, ht.toUpdatable_eq, himage]
  case copy => exact hcopy
  case withWidth =>
    intro w
    have hestimator := hhead.estimator
    rw [hmode] at hestimator
    rw [withWidth, withWidth, hcopy, hmode, hcfg]
    cases hm : t.mode with
    | list | set => rfl
    | dense =>
      have hconvert : s.convert w = t.convert w := by
        rw [convert, convert, hcoupons, hestimator hm, hhead.isOutOfOrder, hcfg]
      exact congrArg (ite _ _) hconvert
  case offered => exact hoffered
  case union =>
    intro u
    have habsorb : absorb s = absorb t := by simp only [absorb, hoffered]
    exact ⟨by rw [union, union, hcopy], by rw [union, union, habsorb]⟩
  case sameAs =>
    exact fun u => ⟨by rw [sameAs, sameAs, hcoupons, hcfg, hmode],
      by rw [sameAs, sameAs, hcoupons, hcfg, hmode]⟩
  case summary => exact Region.summary_congr (hs.mode ▸ hs.image.mode?_eq) hhead.byte

end Sketch

end HyperLogLog
