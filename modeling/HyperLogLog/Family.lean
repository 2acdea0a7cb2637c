/-!
# Families of sketches

Images of every family share their first three bytes: preamble size, version and family id.

* `Family`, `Family.theta`, `Family.hll`: the known families;
* `Family.ofId?`: the family with a given id.
-/

namespace HyperLogLog

/-- A family of sketches, with the range its preamble size may take in the family's own units. -/
structure Family where
  id : Nat
  name : String
  minPreamble : Nat
  maxPreamble : Nat
deriving DecidableEq

namespace Family

/-- Theta sketches count their preamble in 8-byte units. -/
def theta : Family := ⟨3, "THETA", 1, 3⟩

/-- HyperLogLog sketches count their preamble in 4-byte units. -/
def hll : Family := ⟨7, "HLL", 2, 10⟩

/-- The family with the given id. -/
def ofId? (id : Nat) : Option Family :=
  [theta, hll].find? (·.id = id)

end Family

end HyperLogLog
