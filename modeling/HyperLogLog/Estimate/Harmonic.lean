import HyperLogLog.Estimate.Scalar

/-!
# Harmonic numbers and linear counting

* `Estimate.harmonic`: `1 + 1/2 + … + 1/n`, added up for small `n` and by its asymptotic series
  for others;
* `Estimate.occupancy`: the expected number of items that fill a given number of cells.

Sums are taken in the order written, since rounded sums do not associate.
-/

namespace HyperLogLog.Estimate

open Scalar (ofCount log)

variable {α : Type} [Scalar α]

/-- The Euler–Mascheroni constant. -/
def euler : α := 0.5772156649015329

/-- From this number on the asymptotic series is used. -/
def seriesStart : Nat := 25

/-- The sum `1 + 1/2 + … + 1/n`, from the largest term on. -/
@[specialize] def harmonicSum : (n : Nat) → α
  | 0 => 0.0
  | n + 1 => harmonicSum n + 1.0 / ofCount (n + 1)

/-- The asymptotic series of the harmonic numbers, up to its fourth power. -/
@[specialize] def harmonicSeries (n : Nat) : α :=
  let x : α := ofCount n
  let square := 1.0 / (x * x)
  euler + log x + 0.5 / x - square / 12.0 + square * square / 120.0

/-- The harmonic numbers. -/
@[specialize] def harmonic (n : Nat) : α :=
  if n < seriesStart then harmonicSum n else harmonicSeries n

/-- The expected number of items that leave `filled` of `cells` cells filled. -/
@[specialize] def occupancy (cells filled : Nat) : α :=
  if filled = 0 then 0.0
  else ofCount cells * (harmonic cells - harmonic (cells - filled))

end HyperLogLog.Estimate
