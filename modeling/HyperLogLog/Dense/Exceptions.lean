import HyperLogLog.Footprint

/-!
# The exception table

Four-bit registers that hold too much for their field are kept whole, as coupons, in a table that
follows the fields. The table is sorted by slot, its length is in the header, and it is searched
by halving.

* `Exceptions.search`: where a slot is, or where it would go;
* `Exceptions.get?`, `Exceptions.insert`, `Exceptions.replace`, `Exceptions.retain`.
-/

namespace HyperLogLog.Exceptions

/-- The offset of the `i`-th entry. -/
def offset (cfg : Config) (i : Nat) : Nat := 40 + cfg.k / 2 + 4 * i

/-- All entries, in the order of the table. -/
def entries (cfg : Config) (r : Region) : List Coupon :=
  r.coupons (offset cfg 0) r.exceptionCount

/-- The outcome of a search. -/
inductive Place where
  /-- The slot has the entry at this index. -/
  | found (index : Nat)
  /-- The slot has no entry; one would go to this index. -/
  | missing (index : Nat)
deriving DecidableEq

/-- Searches for a slot among the entries from `low` up to but not including `high`. -/
def searchBetween (cfg : Config) (r : Region) (slot low high : Nat) : Place :=
  if h : low < high then
    let middle := low + (high - low) / 2
    let here := (r.coupon (offset cfg middle)).slot
    if here < slot then searchBetween cfg r slot (middle + 1) high
    else if slot < here then searchBetween cfg r slot low middle
    else .found middle
  else .missing low
termination_by high - low

/-- Searches for a slot in the whole table. -/
def search (cfg : Config) (r : Region) (slot : Nat) : Place :=
  searchBetween cfg r slot 0 r.exceptionCount

/-- The register kept for a slot. -/
def get? (cfg : Config) (r : Region) (slot : Nat) : Option Nat :=
  match search cfg r slot with
  | .found i => some (r.coupon (offset cfg i)).value
  | .missing _ => none

/-- Moves the `n` entries from index `i` on one place up, the last one first. -/
def openGap (cfg : Config) (i : Nat) : (n : Nat) → Region → Region
  | 0, r => r
  | n + 1, r =>
    let last := r.coupon (offset cfg (i + n))
    openGap cfg i n (r.setCoupon (offset cfg (i + n + 1)) last)

/-- Adds an entry for a slot that has none. Room is made before anything is written. -/
def insert (cfg : Config) (slot value : Nat) : Edit Unit := do
  let r ← get
  match search cfg r slot with
  | .found _ => throw (.exceptionRepeated slot)
  | .missing i => do
    let n := r.exceptionCount
    Region.reserve (offset cfg (n + 1))
    modify fun r =>
      ((openGap cfg i (n - i) r).setCoupon (offset cfg i) (.pack slot value)).putExceptionCount
        (n + 1)

/-- Changes the entry of a slot that has one. -/
def replace (cfg : Config) (slot value : Nat) : Edit Unit := do
  match search cfg (← get) slot with
  | .found i => modify (·.setCoupon (offset cfg i) (.pack slot value))
  | .missing _ => throw (.exceptionUnknown slot)

/-- Keeps the given entries alone, from the start of the table on, and clears the rest of it. -/
def retain (cfg : Config) (kept : List Coupon) (r : Region) : Region :=
  let n := r.exceptionCount
  ((r.setCoupons (offset cfg 0) kept).zero (offset cfg kept.length)
    (4 * (n - kept.length))).putExceptionCount kept.length

end HyperLogLog.Exceptions
