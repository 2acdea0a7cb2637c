import HyperLogLog.Region

/-!
# Probing for a coupon

Lists and tables are both searched by trying one slot after the other, up to a slot that is empty
or has the coupon; they differ in which slots they try.

* `Probe`, `Probe.seek`: where a search ends.
-/

namespace HyperLogLog

/-- Where the search for a coupon ends. -/
inductive Probe where
  /-- A slot has the coupon. -/
  | present
  /-- The slot at this offset is empty, and none tried before it has the coupon. -/
  | free (offset : Nat)
  /-- Every slot is taken by another coupon. -/
  | full
deriving DecidableEq

/-- Tries the slots at the offsets `place j`, `place (j + 1)`, …, `n` of them. -/
def Probe.seek (r : Region) (c : Coupon) (place : Nat → Nat) : (n j : Nat) → Probe
  | 0, _ => .full
  | n + 1, j =>
    let here := r.coupon (place j)
    if here = .empty then .free (place j)
    else if here = c then .present
    else Probe.seek r c place n (j + 1)

end HyperLogLog
