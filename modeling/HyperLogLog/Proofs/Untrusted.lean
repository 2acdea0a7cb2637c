import HyperLogLog.Proofs.Readable
import HyperLogLog.Proofs.Views

/-!
# Bytes from anywhere

* `Sketch.owning`: the sketch that bytes give if their coupons need not be taken in again;
* `Sketch.Settled`: a sketch whose image is read back as it is;
* `Sketch.exists_ofBytes`: accepted bytes give such a sketch;
* **`refused_or_taken`**: any bytes are refused by all readers alike, or taken by all and readable.
-/

namespace HyperLogLog

open Declaration (Accepted)

variable {b : ByteArray} {cfg : Config} {mode : Mode} {d : Declaration} {r r' : Region}

theorem Region.bytes_eq (hs : r.size = r'.size) (hb : ∀ j, j < r.size → r.byte j = r'.byte j) :
    r.bytes = r'.bytes := by
  refine Bytes.ext hs fun j => ?_
  by_cases hj : j < r.size
  · exact hb j hj
  · have hle : r.bytes.size ≤ j := Nat.le_of_not_lt hj
    have hle' : r'.bytes.size ≤ j := Nat.le_trans (Nat.le_of_eq hs.symm) hle
    rw [Bytes.byte_of_size_le hle, Bytes.byte_of_size_le hle']

theorem Region.footprint_congr (hb : ∀ j, j < mode.dataStart → j ≠ 5 → r'.byte j = r.byte j)
    (hc : mode = .dense ∨ r'.hasFlag .compact = r.hasFlag .compact) :
    r'.footprint cfg mode = r.footprint cfg mode := by
  cases mode with
  | dense =>
    have hstart : Mode.dense.dataStart = 40 := rfl
    have hexc : r'.exceptionCount = r.exceptionCount :=
      congrArg UInt32.toNat (word_congr fun j _ _ => hb j (by omega) (by omega))
    exact congrArg (Footprint.dense cfg) hexc
  | list =>
    have hlgArr : r'.lgArr = r.lgArr := congrArg UInt8.toNat (hb 4 (by decide) (by decide))
    have hcount : r'.listCount = r.listCount := congrArg UInt8.toNat (hb 6 (by decide) (by decide))
    have hflag := hc.resolve_left (by decide)
    have hslots : r'.slots .list = r.slots .list := by
      unfold slots
      rw [hflag, hlgArr, hcount]
    exact congrArg (_ + 4 * ·) hslots
  | set =>
    have hstart : Mode.set.dataStart = 12 := rfl
    have hlgArr : r'.lgArr = r.lgArr := congrArg UInt8.toNat (hb 4 (by decide) (by decide))
    have hcount : r'.setCount = r.setCount :=
      congrArg UInt32.toNat (word_congr fun j _ _ => hb j (by omega) (by omega))
    have hflag := hc.resolve_left (by decide)
    have hslots : r'.slots .set = r.slots .set := by
      unfold slots
      rw [hflag, hlgArr, hcount]
    exact congrArg (_ + 4 * ·) hslots

theorem Region.dataStart_le_footprint (r : Region) (cfg : Config) (mode : Mode) :
    mode.dataStart ≤ r.footprint cfg mode := by
  cases mode with
  | list | set => exact Nat.le_add_right ..
  | dense => exact Nat.le_trans (Nat.le_add_right ..) (Nat.le_add_right ..)

/-- A copy of the image is accepted, and is all that its header declares. Of the flags, it may have
others as long as they say the same of the order of bytes and, unless it has registers, of the empty
slots. -/
theorem Declaration.Accepted.cut (ha : Accepted d r)
    (hsize : r'.size = r.footprint d.config d.mode)
    (hb : ∀ j, j < r'.size → j ≠ 5 → r'.byte j = r.byte j)
    (horder : r'.hasFlag .bigEndian = false)
    (hc : d.mode = .dense ∨ r'.hasFlag .compact = r.hasFlag .compact) :
    Accepted d r' ∧ r'.footprint d.config d.mode = r'.size := by
  have hstart := r.dataStart_le_footprint d.config d.mode
  have hhead : ∀ j, j < d.mode.dataStart → j ≠ 5 → r'.byte j = r.byte j :=
    fun j hj => hb j (by omega)
  have hsame : r'.footprint d.config d.mode = r'.size := by
    rw [hsize]
    exact Region.footprint_congr hhead hc
  exact ⟨ha.congr (by omega) hhead horder (Nat.le_of_eq hsame), hsame⟩

theorem Declaration.Accepted.lent (ha : Accepted d r) : Accepted d (Region.over r.bytes) :=
  ha.congr ha.dataStart_le (fun _ _ _ => rfl) ha.order ha.fits

theorem Declaration.Accepted.size_extract (ha : Accepted d (Region.over b)) :
    (b.extract 0 ((Region.over b).footprint d.config d.mode)).size =
      (Region.over b).footprint d.config d.mode := by
  have hfits : (Region.over b).footprint d.config d.mode ≤ b.size := ha.fits
  rw [ByteArray.size_extract]
  omega

theorem Declaration.Accepted.extract (ha : Accepted d (Region.over b)) :
    Accepted d (Region.over (b.extract 0 ((Region.over b).footprint d.config d.mode))) := by
  have hsize := ha.size_extract
  have hstart := (Region.over b).dataStart_le_footprint d.config d.mode
  have height := d.mode.eight_le_dataStart
  generalize hm : (Region.over b).footprint d.config d.mode = m at *
  have hbyte : ∀ j, j < m → (Region.over (b.extract 0 m)).byte j = (Region.over b).byte j :=
    fun j hj => (Bytes.byte_extract b m j).trans (if_pos hj)
  have hflag : ∀ f, (Region.over (b.extract 0 m)).hasFlag f = (Region.over b).hasFlag f := by
    intro f
    rw [Region.hasFlag, Region.hasFlag, Region.flags, hbyte 5 (by omega), Region.flags]
  have hcut : Accepted d (Region.over (b.extract 0 m)) ∧ _ := ha.cut (hsize.trans hm.symm)
    (fun j hj _ => hbyte j (Nat.lt_of_lt_of_eq hj hsize)) ((hflag _).trans ha.order)
    (.inr (hflag _))
  exact hcut.1

namespace Sketch

/-- The sketch that owns the image at the start of some bytes, no longer marked as compact. -/
def owning (d : Declaration) (b : ByteArray) : Sketch :=
  ⟨d.config, d.mode, (Region.mk (b.extract 0 ((Region.over b).footprint d.config d.mode))
    .owned).putFlag .compact false⟩

theorem ofBytes_of_room (ha : Accepted d (Region.over b))
    (hc : ¬ (d.mode ≠ .dense ∧ (Region.over b).hasFlag .compact = true)) :
    ofBytes b = .ok (owning d b) := by
  have hdecl : Declaration.ofBytes b = .ok d := Declaration.ofRegion_eq_ok.2 ha
  unfold ofBytes
  rw [hdecl]
  exact if_neg hc

/-- A sketch whose image is accepted, and read back as it is. -/
structure Settled (t : Sketch) : Prop where
  accepted : Declaration.ofBytes t.image = .ok ⟨t.config, t.mode⟩
  again : ∃ u v, t.toUpdatable = .ok u ∧ ofBytes u = .ok v ∧ v.image = t.image

theorem Keeps.settled {t : Sketch} {h : Holding} (ht : t.Keeps h) : t.Settled := by
  obtain ⟨v, hv, -, -, himage⟩ := ht.ofBytes_image
  exact ⟨ht.declared_image, _, v, ht.toUpdatable_eq, hv, himage⟩

/-- The image at the start of some bytes, no longer marked as compact. -/
structure Cleared (d : Declaration) (b : ByteArray) (r : Region) : Prop where
  size : r.size = (Region.over b).footprint d.config d.mode
  byte : ∀ j, j < r.size → j ≠ 5 → r.byte j = (Region.over b).byte j
  flags : r.flags = (Region.over b).flags &&& ~~~ Flag.compact.mask &&& ~~~ Flag.bigEndian.mask

theorem cleared_putFlag (hsize : r.size = (Region.over b).footprint d.config d.mode)
    (hread : ∀ j, j < r.size → r.byte j = (Region.over b).byte j) :
    Cleared d b (r.putFlag .compact false) := by
  have hstart := (Region.over b).dataStart_le_footprint d.config d.mode
  have height := d.mode.eight_le_dataStart
  have hin := Region.within_putFlag r .compact false
  refine ⟨hin.size.trans hsize, fun j hj h5 => ?_, ?_⟩
  · rw [hin.size] at hj
    rw [hin.byte j (by omega), hread j hj]
  · have h5 : r.flags = (Region.over b).flags := hread 5 (by omega)
    rw [Region.putFlag, if_neg (by decide), ← h5]
    exact Region.byte_setByte_self _ (by omega)

theorem owning_cleared (ha : Accepted d (Region.over b)) : Cleared d b (owning d b).region := by
  have hsize := ha.size_extract
  unfold owning
  generalize hm : (Region.over b).footprint d.config d.mode = m at hsize ⊢
  have hcopy : (Region.mk (b.extract 0 m) .owned).size = m := hsize
  have hread : ∀ j, j < m → (Region.mk (b.extract 0 m) .owned).byte j = (Region.over b).byte j :=
    fun j hj => (Bytes.byte_extract b m j).trans (if_pos hj)
  exact cleared_putFlag (hcopy.trans hm.symm) fun j hj => hread j (Nat.lt_of_lt_of_eq hj hcopy)

namespace Cleared

variable {q : Region}

theorem hasFlag_compact (hr : Cleared d b r) : r.hasFlag .compact = false := by
  rw [Region.hasFlag, hr.flags]
  simp only [UInt8.and_assoc]
  exact bne_eq_false_iff_eq.2 UInt8.and_zero

theorem hasFlag_bigEndian (hr : Cleared d b r) : r.hasFlag .bigEndian = false := by
  rw [Region.hasFlag, hr.flags]
  simp only [UInt8.and_assoc]
  exact bne_eq_false_iff_eq.2 UInt8.and_zero

theorem accepted (hr : Cleared d b r) (ha : Accepted d (Region.over b))
    (hc : ¬ (d.mode ≠ .dense ∧ (Region.over b).hasFlag .compact = true)) :
    Accepted d (Region.over r.bytes) ∧ r.footprint d.config d.mode = r.size := by
  have hsame : d.mode = .dense ∨ r.hasFlag .compact = (Region.over b).hasFlag .compact := by
    by_cases hm : d.mode = .dense
    · exact .inl hm
    · rw [hr.hasFlag_compact]
      simpa [hm] using hc
  obtain ⟨hacc, hsize⟩ := ha.cut hr.size hr.byte hr.hasFlag_bigEndian hsame
  exact ⟨hacc.lent, hsize⟩

theorem bytes_eq (hr : Cleared d b r) (hsize : r.footprint d.config d.mode = r.size)
    (hq : Cleared d r.bytes q) : q.bytes = r.bytes := by
  have hfoot : (Region.over r.bytes).footprint d.config d.mode = r.size :=
    (Region.footprint_congr (fun _ _ _ => rfl) (.inr rfl)).trans hsize
  apply Region.bytes_eq (hq.size.trans hfoot)
  intro j hj
  by_cases h5 : j = 5
  · have hfive : (Region.over r.bytes).flags = r.flags := rfl
    rw [h5]
    refine hq.flags.trans ?_
    rw [hfive, hr.flags]
    change _ = r.flags
    rw [hr.flags]
    simp only [UInt8.and_assoc]
    rfl
  · exact hq.byte j hj h5

end Cleared

theorem settled_owning (ha : Accepted d (Region.over b))
    (hc : ¬ (d.mode ≠ .dense ∧ (Region.over b).hasFlag .compact = true)) :
    (owning d b).Settled := by
  have hr := owning_cleared ha
  obtain ⟨hacc, hsize⟩ := hr.accepted ha hc
  have himage : (owning d b).image = (owning d b).region.bytes := image_of_imageSize hsize
  have hflag : (Region.over (owning d b).region.bytes).hasFlag .compact = false :=
    hr.hasFlag_compact
  have hroom : ¬ (d.mode ≠ .dense ∧
      (Region.over (owning d b).region.bytes).hasFlag .compact = true) := by
    rw [hflag]
    exact fun h => Bool.false_ne_true h.2
  have hq := owning_cleared hacc
  have hagain : (owning d (owning d b).region.bytes).image = (owning d b).region.bytes :=
    (image_of_imageSize (hq.accepted hacc hroom).2).trans (hr.bytes_eq hsize hq)
  have hup : (owning d b).toUpdatable = .ok (owning d b).image := by
    rw [toUpdatable, isCompact, hr.hasFlag_compact, if_neg Bool.false_ne_true]
  refine ⟨?_, _, owning d (owning d b).region.bytes, hup, ?_, hagain.trans himage.symm⟩
  · rw [himage]
    exact Declaration.ofRegion_eq_ok.2 hacc
  · rw [himage]
    exact ofBytes_of_room hacc hroom

/-- **Accepted bytes give a sketch of the same configuration whose image is accepted as well**, and
read back as it is. -/
theorem exists_ofBytes (ha : Accepted d (Region.over b)) :
    ∃ t, ofBytes b = .ok t ∧ t.config = d.config ∧ t.Settled := by
  by_cases hc : d.mode ≠ .dense ∧ (Region.over b).hasFlag .compact = true
  · obtain ⟨t, ht, hcfg, howns⟩ := ofBytes_of_compact hc.1
      (Declaration.ofRegion_eq_ok.2 ha) hc.2 rfl
    exact ⟨t, ht, hcfg, howns.toKeeps.settled⟩
  · exact ⟨owning d b, ofBytes_of_room ha hc, rfl, settled_owning ha hc⟩

/-! ## Any bytes -/

/-- Bytes that every reader refuses with the same fault, reported as malformed. -/
structure Refused (b : ByteArray) (e : Fault) : Prop where
  declared : Declaration.ofBytes b = .error e
  wrap : wrap b = .error e
  ofBytes : ofBytes b = .error e
  summary : preambleSummary b = .error e
  kind : e.report.kind = .malformed

/-- Bytes that every reader takes: `s` is the sketch over them and `t` the one of its own. -/
structure Taken (b : ByteArray) (s t : Sketch) : Prop where
  declared : Declaration.ofBytes b = .ok ⟨s.config, s.mode⟩
  wrap : wrap b = .ok s
  ofBytes : ofBytes b = .ok t
  summary : ∃ text, preambleSummary b = .ok text
  region : s.region = Region.over b
  readable : s.Readable
  copied : ∃ u, s.copy = .ok u
  updated : ∃ u, s.toUpdatable = .ok u
  /-- If coupons are taken in again, each sketch on the way to `t` can be read as well. -/
  passed : ∀ cs, cs <+: Contents.live s.mode s.region →
    ∃ u, insertAll cs (new s.config) = .ok () u ∧
      Declaration.ofBytes u.image = .ok ⟨u.config, u.mode⟩ ∧ (u.view u.image).Readable
  settled : t.Settled

/-- **Any bytes are refused by every reader, or taken by every reader and safe to read.** In neither
case does a reader trap. -/
theorem refused_or_taken (b : ByteArray) :
    (Gives Guarded.declaration b (Declaration.ofBytes b) ∧
      Gives (Guarded.wrap b) b (wrap b) ∧ Gives Guarded.ofBytes b (ofBytes b) ∧
      Gives Guarded.summary b (preambleSummary b)) ∧
    ((∃ e, Refused b e) ∨ ∃ s t, Taken b s t) := by
  refine ⟨⟨gives_declaration b, gives_wrap b, gives_ofBytes b, gives_summary b⟩, ?_⟩
  cases hd : Declaration.ofBytes b with
  | error e =>
    refine .inl ⟨e, hd, ?_, ?_, ?_, Declaration.kind_of_ofRegion _ e hd⟩
    · rw [wrap, hd]
      rfl
    · rw [ofBytes, hd]
      rfl
    · rw [preambleSummary, hd]
      rfl
  | ok d =>
    have ha : Accepted d (Region.over b) := Declaration.ofRegion_eq_ok.1 hd
    obtain ⟨t, ht, -, hsettled⟩ := exists_ofBytes ha
    obtain ⟨u, hu, -, -⟩ := exists_ofBytes ha.extract
    have hcopy : copy ⟨d.config, d.mode, Region.over b⟩ = .ok u := hu
    refine .inr ⟨⟨d.config, d.mode, Region.over b⟩, t, hd, ?_, ht, ?_, rfl, ha.readable, ⟨u, hcopy⟩,
      ?_, fun cs _ => ?_, hsettled⟩
    · rw [wrap, hd]
      rfl
    · rw [preambleSummary, hd]
      exact ⟨_, rfl⟩
    · rw [toUpdatable, hcopy]
      split_ifs
      · exact ⟨_, rfl⟩
      · exact ⟨_, rfl⟩
    · obtain ⟨v, hv, -, howns⟩ := (Owns.new d.config).insertAll cs
      have hv' := howns.toKeeps.declared_image
      exact ⟨v, hv, hv', (Declaration.ofRegion_eq_ok.1 hv').readable⟩

end Sketch

end HyperLogLog
