import HyperLogLog.Proofs.Answers
import HyperLogLog.Proofs.Grown
import HyperLogLog.Proofs.Room
import HyperLogLog.Proofs.Widths

/-!
# Who owns the bytes shows nowhere

A sketch over lent bytes and one that owns its image are the same machine, as long as the lent
bytes are enough. What lies beyond the image, before or after, is never seen.

* `Mirrors.step`: unless lent bytes run out, a change has the same outcome for two sketches that
  keep the same holding;
* `Sketch.Stocked`, **`Stocked.run`**: sketches over lent bytes that never run out;
* `Sketch.Borrows`, `Sketch.Wraps`: sketches over lent bytes that start with an image;
* **`run_lent`**: a sketch in lent bytes behaves like one that owns its image.
-/

namespace HyperLogLog

open Region (Roomy)

namespace Sketch

variable {s t : Sketch} {h : Holding}

/-! ## Runs -/

/-- From sketches of the same holding, a change that leads each of them on has one outcome, unless
lent bytes are too few. -/
theorem Leads.agree {x : Change Unit} {h' : Holding} (hcfg : s.config = t.config)
    (hs : s.Owns h) (hx : Leads x s h') (hy : Leads x t h')
    (hroom : ∀ f, (outcome x t).1 = .error f → f.report.kind ≠ .insufficientCapacity) :
    (outcome x s).1 = (outcome x t).1 ∧ Mirrors (outcome x s).2 (outcome x t).2 ∧
      (outcome x s).2.region.backing = .owned := by
  obtain ⟨s', hs', hcfg', howns⟩ := hx.total hs.owned
  cases hrun : x t with
  | error f t' =>
    obtain ⟨-, required, available, rfl⟩ := hy.error f t' hrun
    rw [outcome_of_error hrun] at hroom
    exact absurd rfl (hroom _ rfl)
  | ok _ t' =>
    obtain ⟨hcfg'', -, hkeeps⟩ := hy.ok t' hrun
    rw [outcome_of_ok hs', outcome_of_ok hrun]
    exact ⟨rfl, ⟨by rw [hcfg', hcfg'', hcfg], _, howns.toKeeps, hkeeps⟩, howns.owned⟩

/-- **Unless lent bytes run out, a change has the same outcome for both**, and leaves sketches that
keep the same holding again. -/
theorem Mirrors.step (hst : Mirrors s t) (hs : s.region.backing = .owned) (a : Action)
    (hroom : ∀ f, (outcome a.change t).1 = .error f → f.report.kind ≠ .insufficientCapacity) :
    (outcome a.change s).1 = (outcome a.change t).1 ∧
      Mirrors (outcome a.change s).2 (outcome a.change t).2 ∧
      (outcome a.change s).2.region.backing = .owned := by
  obtain ⟨hcfg, h, hk, ht⟩ := hst
  have howns : s.Owns h := ⟨hk, hs⟩
  cases a with
  | insert c =>
    exact Leads.agree hcfg howns (hk.insert c) (hcfg ▸ ht.insert c) hroom
  | absorb source =>
    cases ho : source.offered s.config.lgK with
    | error f =>
      have hs' := hk.absorb_of_error ho
      have ht' := ht.absorb_of_error (hcfg ▸ ho)
      rw [Action.change, outcome_of_error hs', outcome_of_error ht']
      exact ⟨rfl, ⟨hcfg, h, hk, ht⟩, hs⟩
    | ok cs =>
      exact Leads.agree hcfg howns (hk.absorb_of_ok ho) (hcfg ▸ ht.absorb_of_ok (hcfg ▸ ho)) hroom
  | reset => exact Leads.agree hcfg howns hk.reset ht.reset hroom

theorem Mirrors.run (hst : Mirrors s t) (hs : s.region.backing = .owned) (as : List Action)
    (hroom : ∀ f, .error f ∈ (Sketch.run as t).1 → f.report.kind ≠ .insufficientCapacity) :
    (Sketch.run as s).1 = (Sketch.run as t).1 ∧
      Mirrors (Sketch.run as s).2 (Sketch.run as t).2 := by
  induction as generalizing s t with
  | nil => exact ⟨rfl, hst⟩
  | cons a as ih =>
    obtain ⟨hfirst, hnext, howned⟩ := hst.step hs a fun f hf =>
      hroom f (hf ▸ List.mem_cons_self)
    obtain ⟨hrest, hlast⟩ := ih hnext howned fun f hf => hroom f (List.mem_cons_of_mem _ hf)
    exact ⟨congrArg₂ List.cons hfirst hrest, hlast⟩

/-! ## Room for whole registers -/

/-- A sketch over lent bytes that has room for whatever it becomes. -/
structure Stocked (cfg : Config) (t : Sketch) : Prop where
  config : t.config = cfg
  roomy : t.region.Roomy (Footprint.most cfg)

section Stocked

variable {cfg : Config}

theorem steady_outcome {P : Sketch → Prop} {x : Change Unit} (hx : Steady P x) (ht : P t) :
    P (outcome x t).2 ∧
      ∀ f, (outcome x t).1 = .error f → f.report.kind ≠ .insufficientCapacity := by
  have hrun := hx t ht
  cases hxt : x t with
  | ok _ u =>
    rw [hxt] at hrun
    rw [outcome_of_ok hxt]
    exact ⟨hrun, nofun⟩
  | error f u =>
    rw [hxt] at hrun
    rw [outcome_of_error hxt]
    refine ⟨hrun.1, fun g hg => ?_⟩
    cases hg
    exact hrun.2

theorem steady_checkWritable : Steady (Stocked cfg) checkWritable := by
  refine Steady.read_bind fun t => ?_
  split_ifs
  · exact Steady.fault nofun
  · exact Steady.done _

theorem steady_editing {x : Edit Unit} (hx : Steady (Roomy (Footprint.most cfg)) x) :
    Steady (Stocked cfg) (editing x) := by
  rintro ⟨cfg', mode, r⟩ ⟨hcfg, hr⟩
  have hrun := hx r hr
  unfold editing
  dsimp only
  cases hxr : x r with
  | ok _ r' =>
    rw [hxr] at hrun
    exact ⟨hcfg, hrun⟩
  | error f r' =>
    rw [hxr] at hrun
    exact ⟨⟨hcfg, hrun.1⟩, hrun.2⟩

theorem steady_forgetHistory : Steady (Stocked cfg) forgetHistory := by
  refine Steady.read_bind fun t => ?_
  split_ifs
  · exact steady_editing (Steady.write fun r hr =>
      (hr.within (Region.within_putTotal ..)).within (Region.within_putFlag ..))
  · exact Steady.done _

theorem steady_reset : Steady (Stocked cfg) reset := by
  refine Steady.bind steady_checkWritable fun _ => Steady.read_bind fun t =>
    Steady.read_bind fun t' => Steady.bind (steady_editing ?_) fun _ =>
    Steady.write fun u hu => ⟨hu.config, hu.roomy⟩
  refine Steady.bind (Region.steady_reserve (Footprint.list_le_most cfg)) fun _ =>
    Steady.bind ?_ fun _ => Steady.write fun r hr => hr.zero _ _
  exact Steady.write fun r hr => ((hr.within (Region.within_putHeader ..)).zero _ _).shrink _

theorem kind_of_offered {lgK : Nat} {f : Fault} (h : s.offered lgK = .error f) :
    f.report.kind ≠ .insufficientCapacity := by
  unfold offered at h
  cases hc : s.coupons with
  | error e =>
    rw [hc] at h
    cases h
    exact Contents.kind_of_coupons hc
  | ok cs =>
    rw [hc] at h
    cases hm : s.mode with
    | list | set =>
      rw [hm] at h
      cases h
    | dense =>
      rw [hm] at h
      change (if s.config.lgK < lgK then _ else if lgK < s.config.lgK then _ else _) = _ at h
      split_ifs at h
      all_goals cases h
      exact nofun

variable (hw : cfg.width ≠ .four)

include hw

theorem steady_insert (c : Coupon) : Steady (Stocked cfg) (insert c) := by
  intro t ht
  have hw' : t.config.width ≠ .four := by rwa [ht.config]
  have hedit : Steady (Roomy (Footprint.most t.config)) (edit t.config c t.mode) := by
    cases t.mode with
    | list => exact CouponList.steady_insertList hw' c
    | set => exact CouponTable.steady_insertTable hw' c
    | dense => exact Steady.bind (Registers.steady_insert hw' _ c) fun _ => Steady.done _
  have hrun := hedit t.region (by rw [ht.config]; exact ht.roomy)
  rw [insert_eq (by rw [ht.roomy.lent]; decide)]
  cases hx : edit t.config c t.mode t.region with
  | ok mode r =>
    rw [hx] at hrun
    exact ⟨ht.config, ht.config ▸ hrun⟩
  | error f r =>
    rw [hx] at hrun
    exact ⟨⟨ht.config, ht.config ▸ hrun.1⟩, hrun.2⟩

theorem steady_absorb (source : Sketch) : Steady (Stocked cfg) (absorb source) := by
  refine Steady.bind steady_checkWritable fun _ => Steady.read_bind fun t =>
    Steady.ofExcept_bind (fun f hf => kind_of_offered hf) fun cs => ?_
  split_ifs
  · exact Steady.done _
  · exact Steady.bind (Steady.forM (steady_insert hw) cs) fun _ => steady_forgetHistory

theorem steady_change (a : Action) : Steady (Stocked cfg) a.change := by
  cases a with
  | insert c => exact steady_insert hw c
  | absorb source => exact steady_absorb hw source
  | reset => exact steady_reset

/-- **Whole registers never run out of room.** -/
theorem Stocked.run (ht : t.Stocked cfg) (as : List Action) :
    ∀ f, .error f ∈ (Sketch.run as t).1 → f.report.kind ≠ .insufficientCapacity := by
  induction as generalizing t with
  | nil => exact fun f hf => absurd hf List.not_mem_nil
  | cons a as ih =>
    obtain ⟨hnext, hkind⟩ := steady_outcome (steady_change hw a) ht
    intro f hf
    change .error f ∈ (outcome a.change t).1 :: (Sketch.run as (outcome a.change t).2).1 at hf
    rcases List.mem_cons.1 hf with hfirst | hrest
    · exact hkind f hfirst.symm
    · exact ih hnext f hrest

end Stocked

/-! ## Sketches over lent bytes -/

/-- A sketch over lent bytes that start with the image of another. -/
structure Borrows (t s : Sketch) : Prop where
  lent : t.region.backing = .lent
  config : t.config = s.config
  mode : t.mode = s.mode
  image : t.image = s.image

theorem Borrows.keeps (ht : t.Borrows s) (hs : s.Keeps h) : t.Keeps h :=
  hs.of_image ht.config ht.mode (by rw [ht.lent]; decide) ht.image

theorem Borrows.mirrors (ht : t.Borrows s) (hs : s.Keeps h) : Mirrors s t :=
  ⟨ht.config.symm, h, hs, ht.keeps hs⟩

theorem buildIn_eq {cfg : Config} {lent : ByteArray} (hroom : Footprint.most cfg ≤ lent.size) :
    buildIn cfg.lgK cfg.width lent = .ok ⟨cfg, .list, CouponList.clear cfg ⟨lent, .lent⟩⟩ := by
  have hsize : Config.ofSize cfg.lgK cfg.width = .ok cfg :=
    dif_pos ⟨cfg.four_le, cfg.le_twentyOne⟩
  unfold buildIn
  rw [hsize]
  exact if_neg (Nat.not_lt.2 hroom)

theorem borrows_buildIn {cfg : Config} {lent : ByteArray} (hroom : Footprint.most cfg ≤ lent.size) :
    ∃ t, buildIn cfg.lgK cfg.width lent = .ok t ∧ t.region.size = lent.size ∧
      t.Borrows (new cfg) := by
  have hbuild := buildIn_eq hroom
  have hkeeps := Keeps.clear cfg (r := ⟨lent, .lent⟩) nofun
    ((Footprint.list_le_most cfg).trans hroom)
  have hback : (CouponList.clear cfg ⟨lent, .lent⟩).backing = .lent := by
    rw [CouponList.clear, Region.backing_zero, (Region.within_putHeader ..).backing]
  have hsize : (CouponList.clear cfg ⟨lent, .lent⟩).size = lent.size := by
    rw [CouponList.clear, Region.size_zero, (Region.within_putHeader ..).size, Region.size]
  generalize CouponList.clear cfg ⟨lent, .lent⟩ = r at *
  exact ⟨_, hbuild, hsize, hback, rfl, rfl, hkeeps.image_eq (Owns.new cfg).toKeeps rfl⟩

theorem borrows_wrapWritable (hs : s.Keeps h) (extra : ByteArray) :
    ∃ t, wrapWritable (s.image ++ extra) = .ok t ∧ t.region.bytes = s.image ++ extra ∧
      t.Borrows s := by
  have himg := hs.holds_image .frozen
  have hholds : (⟨s.image ++ extra, .frozen⟩ : Region).Holds s.config h := by
    refine himg.congr hs.sound ((himg.fits hs.sound).trans ?_) fun j hj => ?_
    · change s.image.size ≤ (s.image ++ extra).size
      rw [ByteArray.size_append]
      exact Nat.le_add_right ..
    · exact Bytes.byte_append_left (Nat.lt_of_lt_of_le hj (himg.fits hs.sound))
  obtain ⟨hwrap, hkeeps⟩ := wrapWritable_of_holds hholds hs.sound
  exact ⟨_, hwrap, rfl, rfl, rfl, hs.mode.symm, hkeeps.image_eq hs rfl⟩

/-- A sketch that is opened for writing in lent bytes that start with the image of another. -/
def Wraps (s : Sketch) (lent : ByteArray) (t : Sketch) : Prop :=
  ∃ b extra, s.toUpdatable = .ok b ∧ lent = b ++ extra ∧ wrapWritable lent = .ok t

theorem Wraps.borrows {lent : ByteArray} (ht : s.Wraps lent t) (hs : s.Keeps h) :
    t.region.bytes = lent ∧ t.Borrows s := by
  obtain ⟨b, extra, hb, rfl, ht⟩ := ht
  cases hs.toUpdatable_eq.symm.trans hb
  obtain ⟨u, hu, hbytes, hborrows⟩ := borrows_wrapWritable hs extra
  cases hu.symm.trans ht
  exact ⟨hbytes, hborrows⟩

theorem Owns.outcome_kind (hs : s.Owns h) {a : Action}
    (ha : ∀ u, a = .absorb u → ∃ h, u.Keeps h) :
    (∃ h', (outcome a.change s).2.Owns h') ∧
      ∀ f, (outcome a.change s).1 = .error f → f.report.kind = .configInvalid := by
  have hok : ∀ {x : Change Unit} {h' : Holding}, Leads x s h' →
      (∃ h', (outcome x s).2.Owns h') ∧
        ∀ f, (outcome x s).1 = .error f → f.report.kind = .configInvalid := by
    intro x h' hx
    obtain ⟨t, hxt, -, howns⟩ := hx.total hs.owned
    rw [outcome_of_ok hxt]
    exact ⟨⟨h', howns⟩, nofun⟩
  cases a with
  | insert c => exact hok (hs.toKeeps.insert c)
  | reset => exact hok hs.toKeeps.reset
  | absorb u =>
    obtain ⟨h', hu⟩ := ha u rfl
    by_cases hj : u.mode = .dense ∧ u.config.lgK < s.config.lgK
    · have hrun := hs.absorb_of_error (hu.offered_narrow hj)
      rw [Action.change, outcome_of_error hrun]
      refine ⟨⟨h, hs⟩, fun f hf => ?_⟩
      cases hf
      rfl
    · exact hok (hs.toKeeps.absorb_of_ok (hu.offered_eq hj))

theorem Owns.run_kind (hs : s.Owns h) {as : List Action}
    (has : ∀ u, .absorb u ∈ as → ∃ h, u.Keeps h) :
    ∀ f, .error f ∈ (Sketch.run as s).1 → f.report.kind = .configInvalid := by
  induction as generalizing s h with
  | nil => exact fun f hf => absurd hf List.not_mem_nil
  | cons a as ih =>
    obtain ⟨⟨h', hnext⟩, hkind⟩ := hs.outcome_kind fun u hu => has u (hu ▸ List.mem_cons_self)
    intro f hf
    change .error f ∈ (outcome a.change s).1 :: (Sketch.run as (outcome a.change s).2).1 at hf
    rcases List.mem_cons.1 hf with hfirst | hrest
    · exact hkind f hfirst.symm
    · exact ih hnext (fun u hu => has u (List.mem_cons_of_mem _ hu)) f hrest

/-- **A sketch in lent bytes behaves like one that owns its image.** It starts as a new one, in as
many bytes as it asks for, or from the image of any reachable sketch, whatever bytes follow. It
then goes through any changes with the same outcomes, and no question tells the two apart, unless a
change of it fails for want of room. Registers that are not four bits wide have room enough from
the start. -/
theorem run_lent :
    (∀ (cfg : Config) (lent : ByteArray), Footprint.most cfg ≤ lent.size →
      ∃ t, buildIn cfg.lgK cfg.width lent = .ok t ∧ t.region.size = lent.size ∧
        t.Borrows (new cfg)) ∧
    (∀ s : Sketch, s.Reachable → ∀ extra : ByteArray,
      ∃ b t, s.toUpdatable = .ok b ∧ wrapWritable (b ++ extra) = .ok t ∧
        t.region.bytes = b ++ extra ∧ t.Borrows s) ∧
    ∀ s t : Sketch, s.Reachable → t.Borrows s → ∀ as : List Action,
      ((∀ f, .error f ∈ (run as t).1 → f.report.kind ≠ .insufficientCapacity) →
        (run as s).1 = (run as t).1 ∧ Interchangeable (run as s).2 (run as t).2) ∧
      ((∀ u, .absorb u ∈ as → u.Reachable) →
        ∀ f, .error f ∈ (run as s).1 → f.report.kind = .configInvalid) ∧
      (t.config.width ≠ .four → Footprint.most t.config ≤ t.region.size →
        ∀ f, .error f ∈ (run as t).1 → f.report.kind ≠ .insufficientCapacity) := by
  refine ⟨fun cfg lent => borrows_buildIn, fun s hs extra => ?_, fun s t hs ht as => ?_⟩
  · obtain ⟨h, hs⟩ := hs.owns
    obtain ⟨t, hwrap, hbytes, ht⟩ := borrows_wrapWritable hs.toKeeps extra
    exact ⟨_, t, hs.toKeeps.toUpdatable_eq, hwrap, hbytes, ht⟩
  obtain ⟨h, hs⟩ := hs.owns
  refine ⟨fun hroom => ?_, fun has => ?_, fun hw hroom => ?_⟩
  · obtain ⟨hout, hmirrors⟩ := (ht.mirrors hs.toKeeps).run hs.owned as hroom
    exact ⟨hout, hmirrors.interchangeable⟩
  · refine hs.run_kind fun u hu => ?_
    obtain ⟨h', hu⟩ := (has u hu).owns
    exact ⟨h', hu.toKeeps⟩
  · exact Stocked.run hw ⟨rfl, ht.lent, hroom⟩ as

/-- Changes that each do something, in bytes that were not cleared. -/
theorem run_lent_uncleared :
    let cfg : Config := ⟨4, .six, by decide, by decide⟩
    let lent : ByteArray := ⟨Array.replicate 60 255⟩
    let as : List Action := [.insert (.pack 5 3), .absorb (new cfg), .reset, .insert (.pack 7 1)]
    ∃ t, buildIn 4 .six lent = .ok t ∧ (run as (new cfg)).1 = (run as t).1 ∧
      Interchangeable (run as (new cfg)).2 (run as t).2 := by
  intro cfg lent as
  obtain ⟨hbuild, -, hrun⟩ := run_lent
  obtain ⟨t, ht, hsize, hborrows⟩ := hbuild cfg lent (by decide)
  obtain ⟨hsame, -, hroom⟩ := hrun _ t (.new cfg) hborrows as
  refine ⟨t, ht, hsame (hroom ?_ ?_)⟩
  · rw [hborrows.config]
    decide
  · rw [hborrows.config, hsize]
    decide

end Sketch

end HyperLogLog
