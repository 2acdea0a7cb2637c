import HyperLogLog.Estimate.Coupons
import HyperLogLog.Header

/-!
# Estimates from registers

A dense image carries the sum of `2⁻ᵛ` over its registers, in two parts so that neither loses
precision, and a running total: each time a register rises, the total grows by the inverse of the
chance that an item makes some register rise.

* `Estimator`: the three sums and whether the running total counts;
* `Estimator.raise`: a register rises;
* `Estimator.estimate`, `Estimator.composite`: the running total, and what the registers alone say;
* `Estimator.upper`, `Estimator.lower`: bounds;
* `Region.estimator`, `Region.putEstimator`: the sums in an image.
-/

namespace HyperLogLog

open Scalar (ofCount invPow larger atMost)
open Estimate (occupancy Confidence)

/-- The sums that a dense image keeps up to date. -/
structure Estimator (α : Type) where
  /-- The running total. -/
  total : α
  /-- The sum of `2⁻ᵛ` over the registers below 32. -/
  lowSum : α
  /-- The sum of `2⁻ᵛ` over the registers from 32 on. -/
  highSum : α
  /-- The running total is void. -/
  outOfOrder : Bool

namespace Estimator

variable {α : Type} [Scalar α]

/-- The sums of `2 ^ lgK` registers that are all zero. -/
def fresh (lgK : Nat) : Estimator α := ⟨0.0, ofCount (2 ^ lgK), 0.0, false⟩

/-- A register of value `v` leaves the sums. -/
@[specialize] def withdraw (e : Estimator α) (v : Nat) : Estimator α :=
  if v < 32 then { e with lowSum := e.lowSum - invPow v }
  else { e with highSum := e.highSum - invPow v }

/-- A register of value `v` enters the sums. -/
@[specialize] def deposit (e : Estimator α) (v : Nat) : Estimator α :=
  if v < 32 then { e with lowSum := e.lowSum + invPow v }
  else { e with highSum := e.highSum + invPow v }

/-- The running total goes by the sums before the register rises. -/
@[specialize] def advance (e : Estimator α) (lgK : Nat) : Estimator α :=
  if e.outOfOrder then e
  else { e with total := e.total + ofCount (2 ^ lgK) / (e.lowSum + e.highSum) }

/-- One of `2 ^ lgK` registers rises from `old` to `new`. -/
@[specialize] def raise (e : Estimator α) (lgK old new : Nat) : Estimator α :=
  ((e.advance lgK).withdraw old).deposit new

/-- The correction for the bias of the harmonic mean. -/
@[specialize] def correction (lgK : Nat) : α :=
  match lgK with
  | 4 => 0.673
  | 5 => 0.697
  | 6 => 0.709
  | _ => 0.7213 / (1.0 + 1.079 / ofCount (2 ^ lgK))

/-- The corrected harmonic mean of the registers, scaled to items. -/
@[specialize] def rawEstimate (e : Estimator α) (lgK : Nat) : α :=
  correction lgK * ofCount (2 ^ lgK) * ofCount (2 ^ lgK) / (e.lowSum + e.highSum)

/-- Up to this multiple of the number of registers, empty registers tell more than the mean. -/
def cutoff : α := 2.5

/-- What the registers alone say, `n` of them being at the common minimum: nothing has been seen
if all are zero; while some are zero and the mean is small, their number decides. -/
@[specialize] def composite (e : Estimator α) (lgK minimum n : Nat) : α :=
  if minimum = 0 ∧ n = 2 ^ lgK then 0.0
  else if minimum = 0 ∧ 0 < n ∧ atMost (e.rawEstimate lgK) (cutoff * ofCount (2 ^ lgK)) then
    occupancy (2 ^ lgK) (2 ^ lgK - n)
  else e.rawEstimate lgK

/-- The running total, or what the registers alone say if it is void. -/
@[specialize] def estimate (e : Estimator α) (lgK minimum n : Nat) : α :=
  if e.outOfOrder then e.composite lgK minimum n else e.total

/-- The relative standard error at a single register. -/
def spread (e : Estimator α) : α := if e.outOfOrder then 1.03896 else 0.8326

/-- The relative error at a given confidence. -/
@[specialize] def relativeError (e : Estimator α) (lgK : Nat) (c : Confidence) : α :=
  ofCount c.deviations * e.spread / Scalar.sqrt (ofCount (2 ^ lgK))

/-- The upper bound. -/
@[specialize] def upper (e : Estimator α) (lgK minimum n : Nat) (c : Confidence) : α :=
  e.estimate lgK minimum n / (1.0 - e.relativeError lgK c)

/-- The lower bound, never below the number of registers that have risen. -/
@[specialize] def lower (e : Estimator α) (lgK minimum n : Nat) (c : Confidence) : α :=
  larger (e.estimate lgK minimum n / (1.0 + e.relativeError lgK c))
    (ofCount (if minimum = 0 then 2 ^ lgK - n else 2 ^ lgK))

end Estimator

namespace Region

/-- The sums of a dense image. -/
def estimator (r : Region) : Estimator Double :=
  ⟨r.real 8, r.real 16, r.real 24, r.hasFlag .outOfOrder⟩

/-- Writes the running total. -/
def putTotal (r : Region) (x : Double) : Region := r.setReal 8 x

/-- Writes the sums; the flag is written on its own. -/
def putEstimator (r : Region) (e : Estimator Double) : Region :=
  ((r.setReal 8 e.total).setReal 16 e.lowSum).setReal 24 e.highSum

/-- Takes into account that one of `2 ^ lgK` registers rose. -/
def raiseEstimator (r : Region) (lgK old new : Nat) : Region :=
  r.putEstimator (r.estimator.raise lgK old new)

end Region

end HyperLogLog
