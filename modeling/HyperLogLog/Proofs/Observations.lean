import HyperLogLog.Proofs.Grown

/-!
# No observation is lost, invented or altered

* `Sketch.peaks`: the registers that the coupons of a sketch stand for;
* `Sketch.observes`: a new sketch that takes in coupons has their observations;
* **`insertAll_observations`**: what a sketch holds after any run of coupons;
* **`absorb_maximum`**: a merge takes the larger of each two registers, or is refused.
-/

namespace HyperLogLog

namespace Sketch

variable {s t : Sketch} {h : Holding} {j : Nat} {cs : List Coupon}

/-- The registers, `2 ^ j` of them, that the coupons of a sketch stand for. -/
def peaks (j : Nat) (s : Sketch) : Except Fault (Nat → Nat) := s.coupons.map (peak j)

theorem Owns.peaks_eq (hs : s.Owns h) (j : Nat) :
    s.peaks j = .ok (peak j (h.coupons s.config.lgK)) := by
  rw [peaks, hs.coupons_eq]
  rfl

theorem Owns.peaks_of_records {lgK : Nat} (hs : s.Owns h) (hlgK : s.config.lgK = lgK)
    (hr : h.Records lgK cs) (hj : s.mode = .dense → j ≤ lgK) : s.peaks j = .ok (peak j cs) := by
  subst hlgK
  rw [hs.mode] at hj
  rw [hs.peaks_eq]
  exact congrArg Except.ok (funext (hr.peak_coupons (lgK_le s) hj))

/-! ## Runs from a new sketch -/

theorem observes (cfg : Config) (hcs : ∀ c ∈ cs, 0 < c.value) :
    ∃ s h, insertAll cs (new cfg) = .ok () s ∧ s.config = cfg ∧ s.Owns h ∧
      h.Records cfg.lgK cs := by
  have hnew := Owns.new cfg
  have hnil : (Holding.list [] 0).Records cfg.lgK [] := rfl
  obtain ⟨s, hs, hcfg, howns⟩ := hnew.insertAll cs
  exact ⟨s, _, hs, hcfg, howns, Holding.records_foldl_insert hnew.sound hnil fun c hc =>
    Coupon.ne_empty (hcs c hc)⟩

theorem peaks_insertAll (cfg : Config) (hcs : ∀ c ∈ cs, 0 < c.value) :
    ∃ s, insertAll cs (new cfg) = .ok () s ∧
      ((s.mode = .dense → j ≤ cfg.lgK) → s.peaks j = .ok (peak j cs)) := by
  obtain ⟨s, h, hs, hcfg, howns, hrec⟩ := observes cfg hcs
  exact ⟨s, hs, howns.peaks_of_records (congrArg Config.lgK hcfg) hrec⟩

/-- **What a sketch holds after any run of coupons.** The run succeeds, whatever the size and the
width. A list then has the coupons in order of first occurrence and a table has them in some order,
each once; each register is the largest value among the coupons that fall on it. -/
theorem insertAll_observations (cfg : Config) (cs : List Coupon) (hcs : ∀ c ∈ cs, 0 < c.value) :
    ∃ s, insertAll cs (new cfg) = .ok () s ∧ s.config = cfg ∧
      (s.mode = .list → s.coupons = .ok cs.eraseDups) ∧
      (s.mode = .set → ∃ ds, s.coupons = .ok ds ∧ ds.Nodup ∧ ∀ c, c ∈ ds ↔ c ∈ cs) ∧
      (s.mode = .dense → ∀ i, i < cfg.k → Registers.read cfg s.region i =
        .ok (((cs.filter fun c => c.slot % cfg.k = i).map Coupon.value).foldr max 0)) := by
  obtain ⟨s, h, hs, hcfg, howns, hrec⟩ := observes cfg hcs
  have hcoupons := howns.coupons_eq
  have himg := howns.image
  have hsound := howns.sound
  refine ⟨s, hs, hcfg, ?_⟩
  rw [howns.mode]
  cases h with
  | list ds n =>
    have hds : ds = cs.eraseDups := hrec
    refine ⟨fun _ => ?_, fun hm => (nomatch hm), fun hm => (nomatch hm)⟩
    rw [hcoupons, ← hds]
    rfl
  | table L slots n =>
    have ht : Holding.Tabled s.config.lgK L slots n := hsound
    exact ⟨fun hm => (nomatch hm), fun _ => ⟨_, hcoupons, ht.probed.nodup_live, hrec⟩,
      fun hm => (nomatch hm)⟩
  | dense g =>
    have hd : Registers.Dense s.config g s.region := himg
    rw [hcfg] at hd
    refine ⟨fun hm => (nomatch hm), fun hm => (nomatch hm), fun _ i hi => ?_⟩
    rw [hd.read_eq hi, hrec i hi]
    rfl

/-- A list of coupons one of which comes twice. -/
theorem insertAll_observations_repeated :
    (∀ c ∈ [Coupon.pack 5 3, .pack 70 1, .pack 5 3], 0 < c.value) ∧
      ∃ s, insertAll [.pack 5 3, .pack 70 1, .pack 5 3] (new ⟨4, .four, by decide, by decide⟩) =
          .ok () s ∧
        (s.mode = .list → s.coupons = .ok [.pack 5 3, .pack 70 1]) := by
  have hcs : ∀ c ∈ [Coupon.pack 5 3, .pack 70 1, .pack 5 3], 0 < c.value := by decide
  obtain ⟨s, hs, -, hlist, -⟩ :=
    insertAll_observations ⟨4, .four, by decide, by decide⟩ _ hcs
  exact ⟨hcs, s, hs, fun hm => (hlist hm).trans (congrArg Except.ok (by decide))⟩

/-! ## Merges -/

theorem offered_cases {h : Holding} (hs : s.Owns h) (j : Nat) :
    s.mode = .dense ∧ s.config.lgK < j ∧ s.offered j = .error (.narrowSource s.config.lgK j) ∨
      ¬ (s.mode = .dense ∧ s.config.lgK < j) ∧ s.offered j = .ok (h.offer s.config.lgK j) := by
  by_cases hj : s.mode = .dense ∧ s.config.lgK < j
  · exact .inl ⟨hj.1, hj.2, hs.offered_narrow hj⟩
  · exact .inr ⟨hj, hs.offered_eq hj⟩

theorem peak_coupons_absorb {h h' : Holding} {lgK j : Nat} (hk : j ≤ 26) (hh : h.Sound j)
    (hh' : h'.Sound lgK) (i : Nat) :
    peak j ((h.absorb j (h'.offer lgK j)).coupons j) i =
      max (peak j (h.coupons j) i) (peak j (h'.coupons lgK) i) := by
  have hrec := Holding.records_absorb hh (Holding.records_coupons hk hh)
    (Holding.ne_empty_offer j hh')
  rw [hrec.peak_coupons hk (fun _ => Nat.le_refl _), peak_append, Holding.peak_offer h' hk]

/-- **A merge takes the larger of each two registers.** Let `s` and `t` be reachable sketches of any
sizes, widths and modes. Taking `s` into `t` is refused as an invalid configuration exactly if `s`
is dense with fewer registers than `t`. Otherwise it succeeds, and each register of `t` is the
larger of what it was and what it is for `s`. So if both are runs of coupons, the registers are
those of any sketch, not smaller than `t`, that takes in the coupons of `t`, then those of `s`. -/
theorem absorb_maximum (hs : s.Reachable) (ht : t.Reachable) :
    ((∃ f u, absorb s t = .error f u ∧ f.report.kind = .configInvalid) ↔
      s.mode = .dense ∧ s.config.lgK < t.config.lgK) ∧
    (¬ (s.mode = .dense ∧ s.config.lgK < t.config.lgK) →
      ∃ u p q, absorb s t = .ok () u ∧ u.config = t.config ∧
        s.peaks t.config.lgK = .ok p ∧ t.peaks t.config.lgK = .ok q ∧
        u.peaks t.config.lgK = .ok fun i => max (q i) (p i)) ∧
    ∀ cs ds u cfg, (∀ c ∈ cs, 0 < c.value) → (∀ d ∈ ds, 0 < d.value) →
      insertAll cs (new s.config) = .ok () s → insertAll ds (new t.config) = .ok () t →
      absorb s t = .ok () u → t.config.lgK ≤ cfg.lgK →
      ∃ w, insertAll (ds ++ cs) (new cfg) = .ok () w ∧
        u.peaks t.config.lgK = w.peaks t.config.lgK := by
  obtain ⟨h', hs'⟩ := hs.owns
  obtain ⟨h, ht'⟩ := ht.owns
  have hk := lgK_le t
  rcases offered_cases hs' t.config.lgK with ⟨hm, hlt, ho⟩ | ⟨hj, ho⟩
  · have herror := ht'.absorb_of_error ho
    refine ⟨⟨fun _ => ⟨hm, hlt⟩, fun _ => ⟨_, t, herror, rfl⟩⟩, fun hj => absurd ⟨hm, hlt⟩ hj, ?_⟩
    intro cs ds u cfg _ _ _ _ hu
    cases herror.symm.trans hu
  obtain ⟨u, hu, hcfg, howns⟩ := ht'.absorb_of_ok ho
  have hmax : u.peaks t.config.lgK =
      .ok fun i => max (peak t.config.lgK (h.coupons t.config.lgK) i)
        (peak t.config.lgK (h'.coupons s.config.lgK) i) := by
    rw [howns.peaks_eq, hcfg]
    exact congrArg Except.ok (funext (peak_coupons_absorb hk ht'.sound hs'.sound))
  refine ⟨⟨?_, fun hj' => absurd hj' hj⟩, fun _ => ?_, ?_⟩
  · rintro ⟨f, u', hu', -⟩
    cases hu.symm.trans hu'
  · exact ⟨u, _, _, hu, hcfg, hs'.peaks_eq _, ht'.peaks_eq _, hmax⟩
  · intro cs ds u' cfg hcs hds hruns hrunt hu' hle
    cases hu.symm.trans hu'
    -- the registers before the merge are the peaks of the two runs
    have hp : peak t.config.lgK (h'.coupons s.config.lgK) = peak t.config.lgK cs := by
      obtain ⟨s', hs₁, hpeaks⟩ := peaks_insertAll s.config hcs
      cases hruns.symm.trans hs₁
      refine Except.ok.inj ((hs'.peaks_eq _).symm.trans (hpeaks fun hm => ?_))
      exact Nat.le_of_not_lt fun hlt => hj ⟨hm, hlt⟩
    have hq : peak t.config.lgK (h.coupons t.config.lgK) = peak t.config.lgK ds := by
      obtain ⟨t', ht₁, hpeaks⟩ := peaks_insertAll t.config hds
      cases hrunt.symm.trans ht₁
      exact Except.ok.inj ((ht'.peaks_eq _).symm.trans (hpeaks fun _ => Nat.le_refl _))
    have hboth : ∀ c ∈ ds ++ cs, 0 < c.value := fun c hc =>
      (List.mem_append.1 hc).elim (hds c) (hcs c)
    obtain ⟨w, hw, hpeaks⟩ := peaks_insertAll cfg hboth
    refine ⟨w, hw, hmax.trans (Eq.trans ?_ (hpeaks fun _ => hle).symm)⟩
    rw [hp, hq]
    exact congrArg Except.ok (funext fun i => peak_append.symm)

/-- Two lists of different sizes and widths, one coupon of which falls on the same register. -/
theorem absorb_maximum_lists :
    ∃ s t, s.Reachable ∧ t.Reachable ∧ ¬ (s.mode = .dense ∧ s.config.lgK < t.config.lgK) ∧
      ∃ u w, absorb s t = .ok () u ∧
        insertAll [.pack 3 1, .pack 19 2] (new ⟨4, .four, by decide, by decide⟩) = .ok () w ∧
        u.peaks 4 = w.peaks 4 := by
  have hcs : ∀ c ∈ [Coupon.pack 19 2], 0 < c.value := by decide
  have hds : ∀ d ∈ [Coupon.pack 3 1], 0 < d.value := by decide
  obtain ⟨s, hs, hscfg, -⟩ := (Owns.new ⟨5, .six, by decide, by decide⟩).insertAll [.pack 19 2]
  obtain ⟨t, ht, htcfg, -⟩ := (Owns.new ⟨4, .four, by decide, by decide⟩).insertAll [.pack 3 1]
  have hsr := (Reachable.new _).insertAll hcs hs
  have htr := (Reachable.new _).insertAll hds ht
  have hj : ¬ (s.mode = .dense ∧ s.config.lgK < t.config.lgK) := by
    rw [hscfg, htcfg]
    exact fun h => absurd h.2 (by decide)
  obtain ⟨-, hok, hruns⟩ := absorb_maximum hsr htr
  obtain ⟨u, -, -, hu, -⟩ := hok hj
  obtain ⟨w, hw, heq⟩ := hruns [.pack 19 2] [.pack 3 1] u (new t.config).config hcs hds
    (by rw [hscfg]; exact hs) (by rw [htcfg]; exact ht) hu (Nat.le_refl _)
  rw [htcfg] at hw heq
  exact ⟨s, t, hsr, htr, hj, u, w, hu, hw, heq⟩

end Sketch

end HyperLogLog
