import HyperLogLog.Proofs.Schedule
import HyperLogLog.Proofs.Sketch

/-!
# Sketches that grow

Sketches come from new ones by updates, merges and resets, and they may be copied or carried over to
other bytes on the way. What all of them have in common is told once: which sketches there are to
start with, and what else may become of them, are parameters.

* `Holding.Stems`: what is known of a holding by the observed coupons that it stems from;
* `Sketch.Fresh`: the sketches that have seen nothing;
* `Sketch.Grown`: a sketch that has grown, with the coupons it has taken in since it was last empty;
* **`Grown.keeps`**: it keeps a sound holding that stems from them;
* `Sketch.Grows`: the sketches that grow, whatever they have taken in;
* `Sketch.Reachable`: those that grow from new ones, in bytes of their own and by changes alone.
-/

namespace HyperLogLog

namespace Holding

variable {lgK : Nat} {h : Holding} {c : Coupon} {cs ds : List Coupon} {g : Registry}

/-! ## Registers that have risen -/

/-- Coupons are observations, and registers have seen one. -/
structure Seen (lgK : Nat) (h : Holding) : Prop where
  positive : ∀ c ∈ h.coupons lgK, 0 < c.value
  risen : h.mode = .dense → h.coupons lgK ≠ []

theorem value_pos_of_mem_risen {v : Nat → Nat} (hv : ∀ i, v i ≤ 63) (hc : c ∈ risen lgK v) :
    0 < c.value := by
  obtain ⟨i, -, hi, rfl⟩ := mem_risen.1 hc
  rw [Coupon.value_pack_of_le _ (hv i)]
  exact Nat.pos_of_ne_zero hi

theorem Seen.offer (hn : h.Seen lgK) (j : Nat) : ∀ c ∈ h.offer lgK j, 0 < c.value := by
  have hpos := hn.positive
  cases h with
  | list cs n => exact hpos
  | table L slots n => exact hpos
  | dense g =>
    unfold Holding.offer
    dsimp only
    split_ifs with hj
    · intro c hc
      obtain ⟨d, hd, rfl⟩ := List.mem_map.1 hc
      rw [Coupon.folded, Coupon.value_pack_of_le _ (Coupon.value_le _)]
      exact hpos d hd
    · exact hpos

theorem Seen.level_ne (hn : (dense g).Seen lgK) : level (2 ^ lgK) g.values 0 ≠ 2 ^ lgK := by
  intro hlevel
  obtain ⟨c, hc⟩ := List.exists_mem_of_ne_nil _ (hn.risen rfl)
  obtain ⟨i, hi, hne, -⟩ := mem_risen.1 hc
  have hall := (List.countP_eq_length (p := fun i => decide (g.values i = 0))
    (l := List.range (2 ^ lgK))).1 (hlevel.trans List.length_range.symm)
  exact hne (of_decide_eq_true (hall i (List.mem_range.2 hi)))

/-! ## What a holding stems from -/

theorem regular_absorb (hk : lgK ≤ 21) (hs : h.Sound lgK) (hr : h.Regular lgK 8)
    (hcs : ∀ c ∈ cs, c ≠ .empty) : (h.absorb lgK cs).Regular lgK 8 := by
  unfold absorb
  split_ifs
  · exact hr
  · exact regular_forget (regular_foldl_insert hk hs hr hcs)

/-- A regular holding with the observations of some coupons, each of which has a value. -/
structure Stems (lgK : Nat) (cs : List Coupon) (h : Holding) : Prop where
  regular : h.Regular lgK 8
  records : h.Records lgK cs
  positive : ∀ c ∈ cs, 0 < c.value
  risen : h.mode = .dense → cs ≠ []

theorem stems_nil : (list [] 0).Stems lgK [] := ⟨rfl, rfl, nofun, nofun⟩

namespace Stems

theorem insert (hst : h.Stems lgK cs) (hk : lgK ≤ 21) (hs : h.Sound lgK) (hc : 0 < c.value) :
    (h.insert lgK c).Stems lgK (cs ++ [c]) where
  regular := regular_insert hk hs hst.regular (Coupon.ne_empty hc)
  records := records_insert hs (Coupon.ne_empty hc) hst.records
  positive d hd := by
    obtain hd | hd := List.mem_append.1 hd
    · exact hst.positive d hd
    · rwa [List.mem_singleton.1 hd]
  risen _ := by simp

theorem absorb (hst : h.Stems lgK cs) (hk : lgK ≤ 21) (hs : h.Sound lgK)
    (hds : ∀ d ∈ ds, 0 < d.value) : (h.absorb lgK ds).Stems lgK (cs ++ ds) where
  regular := regular_absorb hk hs hst.regular fun d hd => Coupon.ne_empty (hds d hd)
  records := records_absorb hs hst.records fun d hd => Coupon.ne_empty (hds d hd)
  positive d hd := (List.mem_append.1 hd).elim (hst.positive d) (hds d)
  risen hm := by
    by_cases hnil : ds = []
    · rw [Holding.absorb, if_pos hnil] at hm
      rw [hnil, List.append_nil]
      exact hst.risen hm
    · simp [hnil]

theorem seen (hst : h.Stems lgK cs) (hs : h.Sound lgK) : h.Seen lgK := by
  have hr := hst.records
  cases h with
  | list ds n =>
    refine ⟨fun c hc => hst.positive c ?_, nofun⟩
    have hds : ds = cs.eraseDups := hr
    have hc' : c ∈ ds := hc
    rwa [hds, List.mem_eraseDups] at hc'
  | table L slots n => exact ⟨fun c hc => hst.positive c ((hr c).1 hc), nofun⟩
  | dense g =>
    refine ⟨fun c => value_pos_of_mem_risen hs, fun _ => ?_⟩
    obtain ⟨c, hc⟩ := List.exists_mem_of_ne_nil cs (hst.risen rfl)
    have hslot : c.slot % 2 ^ lgK < 2 ^ lgK := Nat.mod_lt _ (Nat.two_pow_pos _)
    have hpeak : c.value ≤ peak lgK cs (c.slot % 2 ^ lgK) := value_le_peak hc
    have hpos := hst.positive c hc
    have hvalue := hr _ hslot
    exact List.ne_nil_of_mem (mem_risen.2 ⟨_, hslot, by omega, rfl⟩)

end Stems

end Holding

namespace Sketch

variable {s t u : Sketch} {h : Holding} {c : Coupon} {cs ds : List Coupon} {cfg : Config}

/-! ## New sketches -/

theorem Keeps.of_buildIn {lgK : Nat} {width : Width} {lent : ByteArray}
    (hs : buildIn lgK width lent = .ok s) :
    Config.ofSize lgK width = .ok s.config ∧ s.Keeps (.list [] 0) := by
  unfold buildIn at hs
  cases hcfg : Config.ofSize lgK width with
  | error f =>
    rw [hcfg] at hs
    cases hs
  | ok cfg =>
    rw [hcfg] at hs
    change (if lent.size < Footprint.most cfg then _ else _) = _ at hs
    split_ifs at hs with hroom
    cases hs
    exact ⟨rfl, Keeps.clear cfg (r := ⟨lent, .lent⟩) nofun
      ((Nat.le_max_right ..).trans (Nat.le_of_not_lt hroom))⟩

/-- A sketch that has seen nothing, in bytes of its own or in lent ones. -/
def Fresh (cfg : Config) (s : Sketch) : Prop :=
  s = new cfg ∨ ∃ lent, buildIn cfg.lgK cfg.width lent = .ok s

theorem Fresh.keeps (hs : s.Fresh cfg) : s.config = cfg ∧ s.Keeps (.list [] 0) := by
  rcases hs with rfl | ⟨lent, hs⟩
  · exact ⟨rfl, (Owns.new cfg).toKeeps⟩
  · obtain ⟨hcfg, hkeeps⟩ := Keeps.of_buildIn hs
    have hsize : Config.ofSize cfg.lgK cfg.width = .ok cfg :=
      dif_pos ⟨cfg.four_le, cfg.le_twentyOne⟩
    exact ⟨Except.ok.inj (hcfg.symm.trans hsize), hkeeps⟩

theorem Fresh.of_buildIn {lgK : Nat} {width : Width} {lent : ByteArray}
    (hs : buildIn lgK width lent = .ok s) : ∃ cfg, s.Fresh cfg := by
  have hsize := (Keeps.of_buildIn hs).1
  unfold Config.ofSize at hsize
  split_ifs at hsize with hlg
  exact ⟨⟨lgK, width, hlg.1, hlg.2⟩, .inr ⟨lent, hs⟩⟩

/-! ## One closure for all histories -/

/-- The sketches that grow out of those with `start`, each with the coupons that it has taken in
since it was last empty. They take in observed coupons, are merged with one another, are reset, and
become others as `turn` has it, by which nothing is taken in. What a source offers in a merge that
succeeds is known, see `absorb_eq_ok`. -/
inductive Grown (start : Sketch → Prop) (turn : Sketch → Sketch → Prop) :
    Sketch → List Coupon → Prop
  | start {s : Sketch} : start s → Grown start turn s []
  | insert {s t : Sketch} {cs : List Coupon} {c : Coupon} :
    Grown start turn s cs → 0 < c.value → insert c s = .ok () t → Grown start turn t (cs ++ [c])
  | absorb {s t u : Sketch} {cs ds es : List Coupon} :
    Grown start turn s ds → Grown start turn t cs → s.offered t.config.lgK = .ok es →
      absorb s t = .ok () u → Grown start turn u (cs ++ es)
  | reset {s t : Sketch} {cs : List Coupon} :
    Grown start turn s cs → reset s = .ok () t → Grown start turn t []
  | turn {s t : Sketch} {cs : List Coupon} :
    Grown start turn s cs → turn s t → Grown start turn t cs

/-- The sketches that grow, whatever they have taken in. -/
def Grows (start : Sketch → Prop) (turn : Sketch → Sketch → Prop) (s : Sketch) : Prop :=
  ∃ cs, Grown start turn s cs

variable {start start' : Sketch → Prop} {turn turn' : Sketch → Sketch → Prop} {B : Backing → Prop}

theorem Keeps.positive_offered (hs : s.Keeps h) (hst : h.Stems s.config.lgK ds) {j : Nat}
    (ho : s.offered j = .ok cs) : ∀ c ∈ cs, 0 < c.value := by
  rw [hs.eq_offer ho]
  exact (hst.seen hs.sound).offer j

namespace Grown

/-- What has grown keeps a sound holding that stems from the coupons taken in, in bytes of which `B`
holds, if that is so at the start and where a sketch becomes another. -/
theorem keeps_in (hstart : ∀ s, start s → s.Keeps (.list [] 0) ∧ B s.region.backing)
    (hturn : ∀ s t h, turn s t → s.Keeps h → h.Regular s.config.lgK 8 →
      t.config.lgK = s.config.lgK ∧ t.Keeps h ∧ B t.region.backing)
    (hs : Grown start turn s cs) :
    ∃ h, s.Keeps h ∧ h.Stems s.config.lgK cs ∧ B s.region.backing := by
  induction hs with
  | start hs =>
    obtain ⟨hs, hb⟩ := hstart _ hs
    exact ⟨_, hs, Holding.stems_nil, hb⟩
  | @insert s t cs c _ hc ht ih =>
    obtain ⟨h, hs, hst, hb⟩ := ih
    obtain ⟨hcfg, hback, hkeeps⟩ := (hs.insert c).ok t ht
    refine ⟨_, hkeeps, ?_, by rwa [hback]⟩
    rw [hcfg]
    exact hst.insert s.config.le_twentyOne hs.sound hc
  | @absorb s t u cs ds es _ _ ho hu ihs iht =>
    obtain ⟨h', hs, hst', -⟩ := ihs
    obtain ⟨h, ht, hst, hb⟩ := iht
    obtain ⟨hcfg, hback, hkeeps⟩ := (ht.absorb_of_ok ho).ok u hu
    refine ⟨_, hkeeps, ?_, by rwa [hback]⟩
    rw [hcfg]
    exact hst.absorb t.config.le_twentyOne ht.sound (hs.positive_offered hst' ho)
  | @reset s t cs _ ht ih =>
    obtain ⟨h, hs, -, hb⟩ := ih
    obtain ⟨-, hback, hkeeps⟩ := hs.reset.ok t ht
    exact ⟨_, hkeeps, Holding.stems_nil, by rwa [hback]⟩
  | @turn s t cs _ ht ih =>
    obtain ⟨h, hs, hst, -⟩ := ih
    obtain ⟨hk, ht, hb⟩ := hturn s t h ht hs hst.regular
    exact ⟨h, ht, hk ▸ hst, hb⟩

/-- **What has grown keeps a sound holding that stems from the coupons taken in**, wherever its
bytes are. -/
theorem keeps (hstart : ∀ s, start s → s.Keeps (.list [] 0))
    (hturn : ∀ s t h, turn s t → s.Keeps h → h.Regular s.config.lgK 8 →
      t.config.lgK = s.config.lgK ∧ t.Keeps h)
    (hs : Grown start turn s cs) : ∃ h, s.Keeps h ∧ h.Stems s.config.lgK cs := by
  obtain ⟨h, hs, hst, -⟩ := hs.keeps_in (B := fun _ => True)
    (fun s h => ⟨hstart s h, trivial⟩) fun s t h ht hs hr =>
      ⟨(hturn s t h ht hs hr).1, (hturn s t h ht hs hr).2, trivial⟩
  exact ⟨h, hs, hst⟩

theorem insertAll (hs : Grown start turn s cs) (hds : ∀ c ∈ ds, 0 < c.value)
    (ht : Sketch.insertAll ds s = .ok () t) : Grown start turn t (cs ++ ds) := by
  induction ds generalizing s cs with
  | nil =>
    cases ht
    rwa [List.append_nil]
  | cons c ds ih =>
    obtain ⟨hc, hds⟩ := List.forall_mem_cons.1 hds
    obtain ⟨_, u, hu, hrest⟩ := EStateM.bind_eq_ok ht
    have hgrown := ih (hs.insert hc hu) hds hrest
    rwa [List.append_assoc, List.singleton_append] at hgrown

theorem mono (hstart : ∀ s, start s → start' s) (hturn : ∀ s t, turn s t → turn' s t)
    (hs : Grown start turn s cs) : Grown start' turn' s cs := by
  induction hs with
  | start hs => exact .start (hstart _ hs)
  | insert _ hc ht ih => exact ih.insert hc ht
  | absorb _ _ ho hu ihs iht => exact ihs.absorb iht ho hu
  | reset _ ht ih => exact ih.reset ht
  | turn _ ht ih => exact ih.turn (hturn _ _ ht)

end Grown

namespace Grows

theorem insert (hs : Grows start turn s) (hc : 0 < c.value) (ht : Sketch.insert c s = .ok () t) :
    Grows start turn t := by
  obtain ⟨cs, hs⟩ := hs
  exact ⟨_, hs.insert hc ht⟩

/-- Items lead on to sketches that grow, since each of them has a coupon with a value. -/
theorem update (hs : Grows start turn s) {i : Item} (ht : Sketch.update i s = .ok () t) :
    Grows start turn t :=
  hs.insert (Item.value_coupon_pos i) ht

theorem insertAll (hs : Grows start turn s) (hcs : ∀ c ∈ cs, 0 < c.value)
    (ht : Sketch.insertAll cs s = .ok () t) : Grows start turn t := by
  obtain ⟨ds, hs⟩ := hs
  exact ⟨_, hs.insertAll hcs ht⟩

end Grows

/-! ## Reachable sketches -/

/-- The sketches that new ones become by taking in coupons, by merges and by resets. -/
def Reachable (s : Sketch) : Prop :=
  Grows (fun s => ∃ cfg, s = new cfg) (fun _ _ => False) s

theorem Reachable.new (cfg : Config) : (new cfg).Reachable := ⟨[], .start ⟨cfg, rfl⟩⟩

/-- **A reachable sketch owns the image of a sound holding.** -/
theorem Reachable.owns (hs : s.Reachable) : ∃ h, s.Owns h := by
  obtain ⟨cs, hs⟩ := hs
  have hnew (s : Sketch) (hs : ∃ cfg, s = .new cfg) :
      s.Keeps (.list [] 0) ∧ s.region.backing = .owned := by
    obtain ⟨cfg, rfl⟩ := hs
    exact ⟨(Owns.new cfg).toKeeps, (Owns.new cfg).owned⟩
  obtain ⟨h, hs, -, howned⟩ := hs.keeps_in (B := (· = .owned)) hnew fun _ _ _ hno => hno.elim
  exact ⟨h, hs, howned⟩

end Sketch

end HyperLogLog
