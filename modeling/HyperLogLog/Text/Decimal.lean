import HyperLogLog.Double

/-!
# Shortest decimals

A double is written with the fewest significant digits that read back as the same double; of
several such numbers, the nearest to it. Notation is always positional.

* `Decimal.Scaled`: a number of the form `digits · 10 ^ exponent`;
* `Decimal.shortest`: the shortest such number for a positive finite double;
* `Decimal.positional`: the text of any double.
-/

namespace HyperLogLog.Text.Decimal

/-- The number `digits · 10 ^ exponent`. -/
structure Scaled where
  digits : Nat
  exponent : Int

/-- The reals that round to a double, in quarters of its last place: the double is
`mid · 2 ^ exponent`, its nearest neighbours lie beyond `low` and `high`, and the ends belong to it
when `closed`. -/
structure Interval where
  low : Nat
  mid : Nat
  high : Nat
  exponent : Int
  closed : Bool

/-- The interval of the positive finite double with the given bits. Below a power of two the
doubles lie twice as close, so there the lower end is nearer. -/
def Interval.ofBits (bits : Nat) : Interval :=
  let fraction : Nat := bits % 2 ^ (52 : Nat)
  let field : Nat := bits / 2 ^ (52 : Nat) % 2048
  let mantissa : Nat := if field = 0 then fraction else 2 ^ (52 : Nat) + fraction
  let exponent : Int := if field = 0 then -1076 else (field : Int) - 1077
  { low := if fraction = 0 ∧ 1 < field then 4 * mantissa - 1 else 4 * mantissa - 2
    mid := 4 * mantissa
    high := 4 * mantissa + 2
    exponent := exponent
    closed := mantissa % 2 = 0 }

/-- The multiple of `10 ^ e` in the interval that is nearest to the double, if there is one; of two
equally near, the larger. Only the two neighbours of the double can be it. -/
def Interval.onGrid? (v : Interval) (e : Int) : Option Nat :=
  let up := 2 ^ v.exponent.toNat * 10 ^ (-e).toNat
  let unit := 2 ^ (-v.exponent).toNat * 10 ^ e.toNat
  let inside (n : Nat) : Bool :=
    if v.closed then v.low * up ≤ n * unit ∧ n * unit ≤ v.high * up
    else v.low * up < n * unit ∧ n * unit < v.high * up
  let floor := v.mid * up / unit
  let rest := v.mid * up % unit
  match inside floor, inside (floor + 1) with
  | true, true => some (if 2 * rest < unit then floor else floor + 1)
  | true, false => some floor
  | false, true => some (floor + 1)
  | false, false => none

/-- The first grid that meets the interval, from `10 ^ e` down through `n` finer ones. -/
def Interval.search (v : Interval) : (n : Nat) → (e : Int) → Option Scaled
  | 0, _ => none
  | n + 1, e =>
    match v.onGrid? e with
    | some digits => some ⟨digits, e⟩
    | none => v.search n (e - 1)

/-- The shortest number in the interval of a positive finite double. The first grid is coarser
than the double; seventeen digits always suffice, which is reached within twenty grids. -/
def shortest (bits : Nat) : Scaled :=
  let v := Interval.ofBits bits
  let coarse : Int := (v.exponent + v.mid.log2 + 1) * 30103 / 100000 + 1
  (v.search 20 coarse).getD ⟨v.mid, v.exponent⟩

/-- Positional notation: zeros fill up to the point on either side, and a whole number has no
point. -/
def Scaled.text (x : Scaled) : String :=
  let digits := Nat.toDigits 10 x.digits
  if 0 ≤ x.exponent then String.ofList (digits ++ List.replicate x.exponent.toNat '0')
  else
    let places := (-x.exponent).toNat
    let padded := List.replicate (places + 1 - digits.length) '0' ++ digits
    String.ofList (padded.take (padded.length - places)) ++ "."
      ++ String.ofList (padded.drop (padded.length - places))

/-- The text of a double. -/
def positional (x : Double) : String :=
  if x.isNaN then "NaN"
  else
    let bits := x.bits.toNat
    let magnitude := bits % 2 ^ (63 : Nat)
    let sign := if bits / 2 ^ (63 : Nat) = 1 then "-" else ""
    sign ++
      (if magnitude = 0 then "0"
       else if magnitude = 2047 * 2 ^ (52 : Nat) then "inf"
       else (shortest magnitude).text)

end HyperLogLog.Text.Decimal
