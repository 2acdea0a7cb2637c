import HyperLogLog.Proofs.Evolved
import HyperLogLog.Proofs.Legible
import HyperLogLog.Proofs.Lent
import HyperLogLog.Proofs.Restore

/-!
# The handle and the header name the same mode

A handle notes the configuration and the mode, and the header of the image declares them. A
promotion writes the new header before it takes the coupons in again, while the handle follows once
the promotion has succeeded. In between, lent bytes may prove too few.

* `Region.Declares`, `Sketch.Declares`: the header declares what the handle notes;
* `Sketch.Tenure`: what no change touches, the configuration and the bytes that are lent;
* `Sketch.Aligned`: the image is legible as what the handle notes;
* **`Aligned.ends_change`**: every change keeps that, even if it fails, unless a promotion breaks
  off;
* `Sketch.Fed`: the sketches that grow, are copied and are carried over to lent bytes, each with the
  coupons that it was fed;
* **`Fed.keeps`**: each of them keeps a sound holding that stems from its coupons;
* `Sketch.Opened`: those sketches, whatever they were fed;
* **`Opened.run_declares`**: handle and header agree in every run until a promotion breaks off;
* `run_broken_off`: one that does.
-/

namespace HyperLogLog

open Registers (Dense)

variable {cfg : Config} {mode : Mode} {r : Region} {L n : Nat}

/-! ## What a header declares -/

/-- The header declares the configuration and the mode. -/
structure Region.Declares (cfg : Config) (mode : Mode) (r : Region) : Prop where
  lgK : r.lgK = cfg.lgK
  width : r.width? = some cfg.width
  mode : r.mode? = some mode

theorem Region.Headed.declares {flags : UInt8} (h : r.Headed cfg mode L flags) :
    r.Declares cfg mode where
  lgK := by
    have hk := cfg.le_twentyOne
    rw [Region.lgK, h.lgK, UInt8.toNat_ofNat_of_lt' (Nat.lt_of_le_of_lt hk (by decide))]
  width := h.width?_eq
  mode := h.mode?_eq

theorem Region.Legible.declares (h : r.Legible cfg mode) : r.Declares cfg mode := by
  cases mode with
  | list =>
    have hs : r.Sparse cfg .list Footprint.lgList := h
    obtain ⟨flags, -, hh⟩ := hs.headed
    exact hh.declares
  | set =>
    obtain ⟨L, -, -, hs⟩ := h
    obtain ⟨flags, -, hh⟩ := hs.headed
    exact hh.declares
  | dense =>
    obtain ⟨g, hd⟩ := h
    exact hd.headed.declares

theorem Region.Holds.legible {h : Holding} (hr : r.Holds cfg h) (hs : h.Sound cfg.lgK) :
    r.Legible cfg h.mode := by
  cases h with
  | list cs n =>
    have hl : Listed cfg cs n r := hr
    refine ⟨⟨_, ?_, hl.headed⟩, hl.fits⟩
    unfold flagsOfList
    split_ifs <;> decide
  | table L slots n =>
    have ht : Tabulated cfg L slots n r := hr
    have t : Holding.Tabled cfg.lgK L slots n := hs
    exact ⟨L, t.least, t.most, ⟨_, by decide, ht.headed⟩, ht.fits⟩
  | dense g => exact ⟨g, hr⟩

namespace Sketch

variable {s t : Sketch} {c : Coupon} {cs : List Coupon} {m : Nat} {v : Nat → Nat}

/-! ## What no change touches -/

/-- A sketch of the same configuration in the same hands as another. -/
structure Tenure (s t : Sketch) : Prop where
  config : t.config = s.config
  region : s.region.Tenure t.region

instance : IsPreorder Sketch Tenure where
  refl s := ⟨rfl, .refl s.region⟩
  trans _ _ _ h h' := ⟨h'.config.trans h.config, h.region.trans h'.region⟩

theorem ends_of_edit {α : Type} {g : Edit α} {x : Change Unit} {f : α → Mode}
    {post : α → Region → Prop} {fail : Fault → Region → Prop}
    (hok : ∀ a r, g s.region = .ok a r → x s = .ok () ⟨s.config, f a, r⟩)
    (herror : ∀ e r, g s.region = .error e r → x s = .error e ⟨s.config, s.mode, r⟩)
    (h : Ends Region.Tenure g s.region post fail) :
    Ends Tenure x s (fun _ t => ∃ a, t.mode = f a ∧ post a t.region) fun e t =>
      t.mode = s.mode ∧ fail e t.region := by
  cases hg : g s.region with
  | ok a r =>
    obtain ⟨ht, hpost⟩ := h.ok a r hg
    exact .of_ok (hok a r hg) ⟨rfl, ht⟩ ⟨a, rfl, hpost⟩
  | error e r =>
    obtain ⟨ht, hfail⟩ := h.error e r hg
    exact .of_error (herror e r hg) ⟨rfl, ht⟩ ⟨rfl, hfail⟩

theorem ends_checkWritable {post : Unit → Sketch → Prop} {fail : Fault → Sketch → Prop}
    (hs : s.region.backing ≠ .frozen) (h : post () s) : Ends Tenure checkWritable s post fail :=
  .of_ok (checkWritable_eq hs) (Std.Refl.refl s) h

theorem Leads.ends {x : Change Unit} {h : Holding} {post : Unit → Sketch → Prop}
    {fail : Fault → Sketch → Prop} (hx : Leads x s h) (he : Ends Tenure x s post fail) :
    Ends Tenure x s (fun _ t => t.Keeps h) fun f t =>
      fail f t ∧ f.report.kind = .insufficientCapacity := by
  refine ⟨fun _ t ht => ⟨(he.ok _ t ht).1, (hx.ok t ht).2.2⟩, fun f t ht => ?_⟩
  obtain ⟨-, required, available, rfl⟩ := hx.error f t ht
  obtain ⟨htenure, hfail⟩ := he.error _ t ht
  exact ⟨htenure, hfail, rfl⟩

theorem outcome_of_ends {R : Sketch → Sketch → Prop} {x : Change Unit} {post : Unit → Sketch → Prop}
    {fail : Fault → Sketch → Prop} (h : Ends R x s post fail) :
    R s (outcome x s).2 ∧ (post () (outcome x s).2 ∨
      ∃ f, (outcome x s).1 = .error f ∧ fail f (outcome x s).2) := by
  cases hx : x s with
  | ok _ t =>
    rw [outcome_of_ok hx]
    obtain ⟨hr, hpost⟩ := h.ok () t hx
    exact ⟨hr, .inl hpost⟩
  | error f t =>
    rw [outcome_of_error hx]
    obtain ⟨hr, hfail⟩ := h.error f t hx
    exact ⟨hr, .inr ⟨f, rfl, hfail⟩⟩

/-! ## What changes keep -/

/-- The header of the image declares what the handle notes. -/
def Declares (s : Sketch) : Prop := s.region.Declares s.config s.mode

/-- The bytes may be written to, and are legible as what the handle notes. -/
structure Aligned (s : Sketch) : Prop where
  writable : s.region.backing ≠ .frozen
  legible : s.region.Legible s.config s.mode

/-- What a change leaves that fails. No register was below `m`, and none would have been raised
above `v`. -/
structure Stalls (m : Nat) (v : Nat → Nat) (f : Fault) (s : Sketch) : Prop where
  writable : s.region.backing ≠ .frozen
  fails : Fails s.config m v s.mode f s.region

theorem Aligned.declares (hs : s.Aligned) : s.Declares := hs.legible.declares

theorem Keeps.aligned {h : Holding} (hs : s.Keeps h) : s.Aligned :=
  ⟨hs.writable, hs.mode ▸ hs.image.legible hs.sound⟩

theorem Tenure.writable (h : Tenure s t) (hs : s.region.backing ≠ .frozen) :
    t.region.backing ≠ .frozen := by
  rwa [h.region.backing]

theorem Aligned.stalls {f : Fault} (hs : s.Aligned)
    (hf : f.report.kind ≠ .insufficientCapacity) : Stalls m v f s :=
  ⟨hs.writable, .kept hs.legible fun h => absurd h hf⟩

namespace Aligned

theorem coupons_eq (hs : s.Aligned) : ∃ cs, s.coupons = .ok cs := by
  have hlegible := hs.legible
  unfold Sketch.coupons
  cases hm : s.mode with
  | list | set => exact ⟨_, rfl⟩
  | dense =>
    rw [hm] at hlegible
    obtain ⟨g, hd⟩ := hlegible
    exact ⟨_, hd.coupons_eq⟩

/-- **Taking in a coupon** keeps handle and image aligned, or leaves what a failure leaves. -/
theorem ends_insert (hs : s.Aligned) (hcs : s.coupons = .ok cs)
    (hm : ∀ i, i < s.config.k → m ≤ peak s.config.lgK cs i)
    (hv : ∀ i, i < s.config.k → peak s.config.lgK (c :: cs) i ≤ v i) :
    Ends Tenure (insert c) s (fun _ => Aligned) (Stalls m v) := by
  refine (ends_of_edit (f := id) (fun mode r hr => ?_) (fun f r hr => ?_)
    (ends_edit hs.legible hs.writable hcs hm hv)).mono ?_ ?_
  · rw [insert_eq hs.writable, hr]
    rfl
  · rw [insert_eq hs.writable, hr]
  · rintro - t ht ⟨mode, hmode, hlegible⟩
    exact ⟨ht.writable hs.writable, by rwa [ht.config, hmode]⟩
  · rintro f t ht ⟨hmode, hfails⟩
    exact ⟨ht.writable hs.writable, by rwa [ht.config, hmode]⟩

theorem ends_insertAll (hs : s.Aligned) (cs : List Coupon) :
    Ends Tenure (insertAll cs) s (fun _ => Aligned) (Stalls 0 fun _ => 63) := by
  refine Ends.forM Aligned cs s (fun c t _ _ ht => ?_) hs
  obtain ⟨ds, hds⟩ := ht.coupons_eq
  exact ht.ends_insert hds (fun _ _ => Nat.zero_le _) fun i _ => peak_le ..

theorem ends_forgetHistory {fail : Fault → Sketch → Prop} (hs : s.Aligned) :
    Ends Tenure forgetHistory s (fun _ => Aligned) fail := by
  refine .read_bind ?_
  split_ifs with hm
  · have hrun : editing (modify fun r => (r.putTotal 0.0).putFlag .outOfOrder true) s =
        .ok () ⟨s.config, s.mode, (s.region.putTotal 0.0).putFlag .outOfOrder true⟩ :=
      editing_of_ok rfl
    have ht : s.region.Tenure ((s.region.putTotal 0.0).putFlag .outOfOrder true) :=
      (Region.within_putTotal ..).tenure.trans (Region.within_putFlag ..).tenure
    have hlegible := hs.legible
    rw [hm] at hlegible hrun
    obtain ⟨g, hd⟩ := hlegible
    refine .of_ok hrun ⟨rfl, ht⟩ ⟨?_, _, (hd.putTotal 0.0).putFlag true⟩
    rw [ht.backing]
    exact hs.writable
  · exact .done hs

/-- **Merging** keeps handle and image aligned, or leaves what a failure leaves, whatever the
source. -/
theorem ends_absorb (ht : t.Aligned) (s : Sketch) :
    Ends Tenure (absorb s) t (fun _ => Aligned) (Stalls 0 fun _ => 63) := by
  refine .bind (ends_checkWritable ht.writable (.read_bind ?_))
  refine .ofExcept_bind (fun f hf => ht.stalls (kind_of_offered hf)) fun cs _ => ?_
  split_ifs
  · exact .done ht
  · exact .bind ((ht.ends_insertAll cs).mono (fun _ u _ hu => hu.ends_forgetHistory)
      fun _ _ _ hfail => hfail)

end Aligned

/-- **Forgetting everything** leaves an empty list, whatever the image was before, unless there are
too few bytes for it. -/
theorem ends_reset (hs : s.region.backing ≠ .frozen) :
    Ends Tenure reset s (fun _ t => t.Keeps (.list [] 0)) fun _ t =>
      t = s ∧ s.region.size < CouponList.bytes := by
  have herase : Ends Region.Tenure (erase s) s.region (fun _ _ => True) fun _ r =>
      r = s.region ∧ s.region.size < CouponList.bytes := by
    refine .bind ((Edit.ends_reserve _ hs).mono (fun _ r _ _ => ?_) fun _ _ _ hfail => hfail)
    have hclear : r.Tenure (CouponList.clear s.config r) :=
      (Region.within_putHeader ..).tenure.trans (Region.within_zero ..).tenure
    exact .write_bind (hclear.trans (Region.tenure_shrink _))
      (.write (Region.within_zero ..).tenure trivial)
  have hends := ends_of_edit (x := reset) (f := fun _ => .list)
    (fun _ r hr => by rw [reset_eq hs, hr]) (fun f r hr => by rw [reset_eq hs, hr]) herase
  refine ((leads_reset hs).ends hends).mono (fun _ _ _ ht => ht) ?_
  rintro f ⟨cfg, mode, region⟩ htenure ⟨⟨hmode, hr, hscant⟩, -⟩
  obtain rfl : cfg = s.config := htenure.config
  obtain rfl : mode = s.mode := hmode
  obtain rfl : region = s.region := hr
  exact ⟨rfl, hscant⟩

/-- **Every change keeps handle and image aligned**, or leaves what a failure leaves. -/
theorem Aligned.ends_change (hs : s.Aligned) (a : Action) :
    Ends Tenure a.change s (fun _ => Aligned) (Stalls 0 fun _ => 63) := by
  cases a with
  | insert c =>
    obtain ⟨cs, hcs⟩ := hs.coupons_eq
    exact hs.ends_insert hcs (fun _ _ => Nat.zero_le _) fun i _ => peak_le ..
  | absorb source => exact hs.ends_absorb source
  | reset =>
    refine (ends_reset hs.writable).mono (fun _ t _ ht => ht.aligned) ?_
    rintro f t - ⟨rfl, hscant⟩
    exact ⟨hs.writable, .kept hs.legible fun _ =>
      .inl (Nat.lt_of_lt_of_le hscant (Footprint.list_le_most _))⟩

/-! ## Runs -/

/-- The action fails for want of room in the middle of a promotion: the header declares registers
already, which the handle does not know of. -/
structure BreaksOff (a : Action) (s : Sketch) : Prop where
  scant : ∃ f, (outcome a.change s).1 = .error f ∧ f.report.kind = .insufficientCapacity
  mode : (outcome a.change s).2.mode ≠ .dense
  header : (outcome a.change s).2.region.Declares s.config .dense

theorem Aligned.step (hs : s.Aligned) (a : Action) :
    s.Tenure (outcome a.change s).2 ∧ ((outcome a.change s).2.Aligned ∨
      s.config.width = .four ∧ BreaksOff a s) := by
  obtain ⟨ht, hend⟩ := outcome_of_ends (hs.ends_change a)
  refine ⟨ht, ?_⟩
  obtain halign | ⟨f, hf, hw, hfails⟩ := hend
  · exact .inl halign
  · cases hfails with
    | kept hlegible _ => exact .inl ⟨hw, hlegible⟩
    | torn hmode hdense hkind hfour _ =>
      rw [ht.config] at hfour hdense
      exact .inr ⟨hfour, ⟨f, hf, hkind⟩, hmode, hdense.declares⟩

/-- **Handle and image stay aligned** in every run until a promotion breaks off. -/
theorem Aligned.run (hs : s.Aligned) (as : List Action) :
    (run as s).2.Aligned ∨ s.config.width = .four ∧ ∃ bs a cs, as = bs ++ a :: cs ∧
      (∀ ds, ds <+: bs → (run ds s).2.Aligned) ∧ BreaksOff a (run bs s).2 := by
  induction as generalizing s with
  | nil => exact .inl hs
  | cons a as ih =>
    obtain ⟨ht, halign | ⟨hfour, hbreak⟩⟩ := hs.step a
    · obtain hrest | ⟨hfour, bs, b, cs, rfl, hbefore, hbreak⟩ := ih halign
      · exact .inl hrest
      refine .inr ⟨by rwa [ht.config] at hfour, a :: bs, b, cs, rfl, fun ds hds => ?_, hbreak⟩
      obtain rfl | ⟨ds', rfl, hds'⟩ := List.prefix_cons_iff.1 hds
      · exact hs
      · exact hbefore ds' hds'
    · refine .inr ⟨hfour, [], a, as, rfl, fun ds hds => ?_, hbreak⟩
      rw [List.prefix_nil.1 hds]
      exact hs

/-! ## Sketches that are opened -/

/-- A sketch that was new, in bytes of its own or in lent ones, and the coupons that it has taken in
since then or since its last reset. Its image may have been carried over to other bytes, or copied
with another register width. -/
def Fed : Sketch → List Coupon → Prop :=
  Grown (fun s => ∃ cfg, s.Fresh cfg) fun s t =>
    (∃ w, s.withWidth w = .ok t) ∨ ∃ lent, s.Wraps lent t

theorem Fed.new (cfg : Config) : Fed (new cfg) [] := .start ⟨cfg, .inl rfl⟩

/-- **A sketch keeps a sound holding that stems from the coupons that it was fed.** -/
theorem Fed.keeps (hs : Fed s cs) : ∃ h, s.Keeps h ∧ h.Stems s.config.lgK cs := by
  refine Grown.keeps (fun _ ⟨_, hs⟩ => hs.keeps.2) (fun s t h ht hs hr => ?_) hs
  obtain ⟨w, ht⟩ | ⟨lent, ht⟩ := ht
  · exact hs.of_withWidth hr ht
  · obtain ⟨-, hborrows⟩ := ht.borrows hs
    exact ⟨congrArg Config.lgK hborrows.config, hborrows.keeps hs⟩

/-- The sketches that are opened, in bytes of their own or in lent ones, whatever they were fed. -/
def Opened (s : Sketch) : Prop := ∃ cs, Fed s cs

theorem Evolved.opened (hs : s.Evolved) : s.Opened := by
  obtain ⟨cs, hs⟩ := hs
  exact ⟨cs, hs.mono (fun _ => id) fun _ _ => .inl⟩

theorem Opened.keeps (hs : s.Opened) : ∃ h, s.Keeps h := by
  obtain ⟨cs, hs⟩ := hs
  obtain ⟨h, hs, -⟩ := hs.keeps
  exact ⟨h, hs⟩

theorem Owns.run {h : Holding} (hs : s.Owns h) (as : List Action) :
    s.Tenure (run as s).2 ∧ ∃ h', (run as s).2.Owns h' := by
  induction as generalizing s h with
  | nil => exact ⟨Std.Refl.refl s, h, hs⟩
  | cons a as ih =>
    obtain ⟨-, -, h', hs', -⟩ := Twins.step (⟨rfl, h, hs, hs⟩ : Twins s s) a
    obtain ⟨ht, -⟩ := hs.toKeeps.aligned.step a
    obtain ⟨ht', howns⟩ := ih hs'
    exact ⟨IsTrans.trans _ _ _ ht ht', howns⟩

/-- **The handle and the header name the same mode.** A sketch that owns its image or is over lent
bytes goes through any coupons, merges with any sources and resets, some of which may fail. After
each of them the header of the image declares the configuration and the mode that the handle notes,
until lent bytes prove too few for four-bit registers in the middle of a promotion. -/
theorem Opened.run_declares (hs : s.Opened) (as : List Action) :
    (Sketch.run as s).2.Declares ∨
      s.region.backing = .lent ∧ s.config.width = .four ∧ ∃ bs a cs, as = bs ++ a :: cs ∧
        (∀ ds, ds <+: bs → (Sketch.run ds s).2.Declares) ∧ BreaksOff a (Sketch.run bs s).2 := by
  obtain ⟨h, hs⟩ := hs.keeps
  cases hb : s.region.backing with
  | frozen => exact absurd hb hs.writable
  | owned =>
    obtain ⟨-, h', hs'⟩ := Owns.run ⟨hs, hb⟩ as
    exact .inl hs'.aligned.declares
  | lent =>
    obtain halign | ⟨hfour, bs, a, cs, has, hbefore, hbreak⟩ := hs.aligned.run as
    · exact .inl halign.declares
    · exact .inr ⟨rfl, hfour, bs, a, cs, has, fun ds hds => (hbefore ds hds).declares, hbreak⟩

/-- Coupons of which five are exceptions as registers: where there is room for four, the promotion
of their list breaks off. -/
def throng : List Coupon :=
  [.pack 0 20, .pack 1 20, .pack 2 20, .pack 3 20, .pack 4 20, .pack 5 1, .pack 6 1, .pack 7 1]

/-- The sketch that owns its image has room for all of them, and has registers after that. -/
theorem run_declares_throng :
    let as := throng.map .insert ++ [.absorb crowded]
    (new narrow.config).Opened ∧ (Sketch.run as (new narrow.config)).2.mode = .dense ∧
      (Sketch.run as (new narrow.config)).2.Declares := by
  intro as
  have hnew : (new narrow.config).Opened := (Evolved.new _).opened
  refine ⟨hnew, by decide +kernel, (hnew.run_declares _).resolve_right fun h => ?_⟩
  rw [(Owns.new narrow.config).owned] at h
  exact absurd h.1 (by decide)

/-- **A promotion breaks off** where lent bytes are as many as the sketch asks for: the handle notes
a list still, and the header declares registers. -/
theorem run_broken_off :
    narrow.Opened ∧ (Sketch.run (throng.map .insert) narrow).2.mode = .list ∧
      (Sketch.run (throng.map .insert) narrow).2.region.mode? = some .dense ∧
      ¬ (Sketch.run (throng.map .insert) narrow).2.Declares := by
  have hbuild : buildIn 4 .four ⟨Array.replicate 64 0⟩ = .ok narrow := by decide +kernel
  have hmode : (Sketch.run (throng.map .insert) narrow).2.mode = .list := by decide +kernel
  have hheader : (Sketch.run (throng.map .insert) narrow).2.region.mode? = some .dense := by
    decide +kernel
  refine ⟨(Evolved.buildIn hbuild).opened, hmode, hheader, fun h => ?_⟩
  have hsame := h.mode.symm.trans hheader
  rw [hmode] at hsame
  exact absurd hsame (by decide)

end Sketch

end HyperLogLog
