import HyperLogLog.Proofs.Sparse

/-!
# Four-bit images keep their minimum, counts and exceptions

* `Registers.Reached`: the dense images that clearing, promotion and coupons lead to;
* `Registers.Faithful`: what every part of a four-bit image says about the registers;
* `Dense.faithful`: a coding relative to the minimum is faithful;
* **`Reached.stays_faithful`**: every image reached is, for the peaks of its coupons, and goes on.
-/

namespace HyperLogLog.Registers

open Exceptions (entries)

variable {cfg : Config} {r r' : Region} {v : Nat → Nat} {cs : List Coupon}

/-- The dense images that a sketch which owns its bytes comes to, with the coupons that they have
seen: an image without registers risen, what a promotion makes of an image, and what these become
by taking in coupons and by losing their history in a merge. -/
inductive Reached (cfg : Config) : List Coupon → Region → Prop
  | clear {r r' : Region} :
    r.backing = .owned → clear cfg r = .ok () r' → Reached cfg [] r'
  | promote {mode : Mode} {cs : List Coupon} {r r' : Region} :
    r.backing = .owned → r.mode? = some mode → Contents.coupons cfg mode r = .ok cs →
    Promotion.toDense cfg r = .ok () r' → Reached cfg cs r'
  | insert {cs : List Coupon} {c : Coupon} {r r' : Region} :
    Reached cfg cs r → insert cfg c r = .ok () r' → Reached cfg (cs ++ [c]) r'
  | forgetHistory {cs : List Coupon} {r : Region} :
    Reached cfg cs r → Reached cfg cs ((r.putTotal 0.0).putFlag .outOfOrder true)

/-- What the parts of an image with four-bit fields say about the registers `v`. -/
structure Faithful (cfg : Config) (v : Nat → Nat) (r : Region) : Prop where
  /-- The registers read are `v`. -/
  read : values cfg r = .ok ((List.range cfg.k).map v)
  /-- The minimum is the smallest register. -/
  least : ∀ i, i < cfg.k → r.minimum ≤ v i
  attained : ∃ i, i < cfg.k ∧ v i = r.minimum
  minimum_le : r.minimum ≤ largest
  /-- The header counts the registers at the minimum. -/
  counted : r.atMinimum = (List.range cfg.k).countP fun i => v i = r.minimum
  counted_pos : 1 ≤ r.atMinimum
  /-- Fields are marked if they cannot hold the distance to the minimum, and hold it if not. -/
  marked : ∀ i, i < cfg.k → (r.nibble i = mark ↔ 15 ≤ v i - r.minimum)
  unmarked : ∀ i, i < cfg.k → r.nibble i ≠ mark → r.nibble i = v i - r.minimum
  /-- The exceptions are the marked registers, in strict order of their slots. -/
  sorted : (entries cfg r).Pairwise fun c d => c.slot < d.slot
  listed : ∀ c, c ∈ entries cfg r ↔
    c.slot < cfg.k ∧ r.nibble c.slot = mark ∧ c.value = v c.slot
  length : r.exceptionCount = (entries cfg r).length
  fits : Footprint.dense cfg r.exceptionCount ≤ r.size

theorem Dense.faithful (hw : cfg.width = .four) {g : Registry} (hd : Dense cfg g r) :
    Faithful cfg g.values r := by
  have h : Relative cfg g.values r := (packed_of_four hw).1 hd.packed
  have hmark : mark = 15 := rfl
  have hpos := h.attained
  rw [h.counted] at hpos
  obtain ⟨i, hi, hv⟩ := level_pos.1 hpos
  have hle := h.bounded i hi
  constructor
  case read => exact hd.values_eq
  case least => exact h.least
  case attained => exact ⟨i, hi, hv⟩
  case minimum_le => omega
  case counted => exact h.counted
  case counted_pos => exact h.attained
  case marked =>
    intro i hi
    have := h.nibble i hi
    omega
  case unmarked =>
    intro i hi hm
    have := h.nibble i hi
    omega
  case sorted => exact h.sorted
  case listed =>
    intro c
    rw [h.exceptional]
    refine and_congr_right fun hs => and_congr_left fun _ => ?_
    have := h.nibble _ hs
    omega
  case length => exact (Exceptions.length_entries cfg r).symm
  case fits =>
    rw [footprint_of_four hw]
    exact h.fits

theorem Reached.dense (h : Reached cfg cs r) :
    r.backing = .owned ∧ ∃ g, Dense cfg g r ∧ g.values = peak cfg.lgK cs := by
  induction h with
  | @clear r r' hb hr =>
    obtain ⟨hb', hd⟩ := (meets_clear cfg (by rw [hb]; decide)).ok () r' hr
    exact ⟨hb'.trans hb, _, hd, funext fun _ => rfl⟩
  | @promote mode cs r r' hb hm hc hr =>
    obtain ⟨hb', hd⟩ := (meets_toDense hm hc (by rw [hb]; decide)).ok () r' hr
    exact ⟨hb'.trans hb, _, hd, funext (Registry.values_replay _ _ _)⟩
  | @insert cs c r r' _ hr ih =>
    obtain ⟨hb, g, hd, hg⟩ := ih
    obtain ⟨hb', hd'⟩ := (hd.meets_insert (by rw [hb]; decide) c).ok () r' hr
    refine ⟨hb'.trans hb, _, hd', funext fun i => ?_⟩
    rw [Registry.values_take, hg, peak_append, peak_cons, peak_nil, Nat.max_zero]
  | @forgetHistory cs r _ ih =>
    obtain ⟨hb, g, hd, hg⟩ := ih
    refine ⟨?_, _, (hd.putTotal 0.0).putFlag true, hg⟩
    rw [(Region.within_putFlag ..).backing, (Region.within_putTotal ..).backing, hb]

/-- **Every image with four-bit fields that is reached is faithful**: the minimum, its count, the
fields and the exceptions are what the peaks of the coupons make them. It takes in any further
coupon, which means that none of the faults on the way is met and that the minimum comes to rest,
and the result is faithful again. -/
theorem Reached.stays_faithful (hw : cfg.width = .four) (h : Reached cfg cs r) :
    Faithful cfg (peak cfg.lgK cs) r ∧
      ∀ c, ∃ r', Registers.insert cfg c r = .ok () r' ∧
        Faithful cfg (peak cfg.lgK (cs ++ [c])) r' := by
  obtain ⟨hb, g, hd, hg⟩ := h.dense
  refine ⟨hg ▸ Dense.faithful hw hd, fun c => ?_⟩
  obtain ⟨⟨⟩, r', hr, -⟩ := (hd.meets_insert (by rw [hb]; decide) c).total hb
  obtain ⟨-, g', hd', hg'⟩ := (h.insert hr).dense
  exact ⟨r', hr, hg' ▸ Dense.faithful hw hd'⟩

/-- A coupon far above the minimum marks its register. -/
theorem Reached.stays_faithful_marked :
    ∃ r r', Reached ⟨4, .four, by decide, by decide⟩ [] r ∧
      Registers.insert ⟨4, .four, by decide, by decide⟩ (.pack 3 20) r = .ok () r' ∧
      r'.minimum = 0 ∧ r'.nibble 3 = mark := by
  obtain ⟨⟨⟩, r, hr, -⟩ := (meets_clear ⟨4, .four, by decide, by decide⟩
    (r := ⟨.empty, .owned⟩) (by decide)).total rfl
  have h := Reached.clear (r := ⟨.empty, .owned⟩) rfl hr
  obtain ⟨-, hinsert⟩ := Reached.stays_faithful rfl h
  obtain ⟨r', hr', hf⟩ := hinsert (.pack 3 20)
  have hmin : r'.minimum = 0 := Nat.le_zero.1 (hf.least 0 (by decide))
  refine ⟨r, r', h, hr', hmin, (hf.marked 3 (by decide)).2 ?_⟩
  rw [hmin]
  decide

end HyperLogLog.Registers
