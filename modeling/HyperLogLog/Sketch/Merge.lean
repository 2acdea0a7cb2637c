import HyperLogLog.Sketch.Serial

/-!
# Merging and converting

* `Sketch.absorb`: the target of a merge takes in what a source holds;
* `Sketch.union`: a new sketch that holds what two sketches hold;
* `Sketch.withWidth`: a copy whose registers have another width.
-/

namespace HyperLogLog.Sketch

/-- What a target with `2 ^ lgK` registers takes in of a source. Registers fit a target that has no
more of them: several slots of the source then fall on one of the target. -/
def offered (source : Sketch) (lgK : Nat) : Except Fault (List Coupon) := do
  let coupons ← source.coupons
  match source.mode with
  | .dense =>
    if source.config.lgK < lgK then throw (.narrowSource source.config.lgK lgK)
    else if lgK < source.config.lgK then return coupons.map (Coupon.folded lgK)
    else return coupons
  | _ => return coupons

/-- Makes the running total of a dense image void. -/
def forgetHistory : Change Unit := do
  if (← get).mode = .dense then
    editing (modify fun r => (r.putTotal 0.0).putFlag .outOfOrder true)
  else pure ()

/-- Takes in what a source holds. Unless that is nothing, a dense target no longer knows its
history. -/
def absorb (source : Sketch) : Change Unit := do
  checkWritable
  let coupons ← ofExcept (source.offered (← get).config.lgK)
  if coupons.isEmpty then pure ()
  else do
    insertAll coupons
    forgetHistory

/-- A sketch that holds what two sketches hold, set up like the first. -/
def union (s t : Sketch) : Except Fault Sketch := do
  after (absorb t) (← s.copy)

/-- The registers of a dense sketch in an image of another width, with their history. -/
def convert (s : Sketch) (width : Width) : Except Fault Sketch := do
  let cfg := s.config.withWidth width
  let coupons ← s.coupons
  let filled : Edit Unit := do
    Registers.clear cfg
    coupons.forM (Registers.insert cfg)
  match filled ⟨.empty, .owned⟩ with
  | .ok _ r =>
    let total := s.region.estimator.total
    return ⟨cfg, .dense, (r.putTotal total).putFlag .outOfOrder s.isOutOfOrder⟩
  | .error e _ => throw e

/-- A copy whose registers have the given width. A list or a table only notes the width. -/
def withWidth (s : Sketch) (width : Width) : Except Fault Sketch :=
  if width = s.config.width then s.copy
  else
    match s.mode with
    | .dense => s.convert width
    | _ => s.copy.map fun ⟨cfg, mode, region⟩ =>
      ⟨cfg.withWidth width, mode, region.putModes mode width⟩

end HyperLogLog.Sketch
