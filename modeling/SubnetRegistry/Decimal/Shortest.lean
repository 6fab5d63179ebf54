/-!
# Shortest decimals

The fewest decimal digits that still name a given binary number among its neighbours. A binary
number stands for the interval of reals that round to it; a decimal inside the interval reads back
as the number. The search goes over the grids of 1, 2, … digits and tries the two grid points next
to the number, in exact arithmetic on naturals.

## Main definitions

* `Binary` — a positive number `significand * 2 ^ exponent` and the shape of its interval.
* `Binary.shortest` — the digits and the decimal exponent of the first of them.
-/
namespace SubnetRegistry.Decimal

/-- The positive number `significand * 2 ^ exponent`. `halfBelow` holds of a power of two whose
lower neighbour is at half the distance of the upper one. -/
structure Binary where
  significand : Nat
  exponent : Int
  halfBelow : Bool

namespace Binary

/-- The finite positive double with the given biased exponent and fraction. -/
def ofFields (biased fraction : Nat) : Binary :=
  if biased = 0 then ⟨fraction, -1074, false⟩
  else ⟨fraction + 0x10000000000000, (biased : Int) - 1075, fraction = 0 && 1 < biased⟩

/-- The number and the two ends of its interval, over one common denominator. -/
structure Interval where
  low : Nat
  value : Nat
  high : Nat
  denominator : Nat
  closed : Bool

/-- The interval of the reals that round to the number; its ends belong to it iff the significand
is even. -/
def interval (b : Binary) : Interval :=
  let up := Nat.pow 2 (b.exponent - 2).toNat
  { low := (4 * b.significand - if b.halfBelow then 1 else 2) * up
    value := 4 * b.significand * up
    high := (4 * b.significand + 2) * up
    denominator := Nat.pow 2 (2 - b.exponent).toNat
    closed := b.significand % 2 = 0 }

/-- Whether `point * num / den`, a grid point, lies in the interval. -/
def Interval.holds (i : Interval) (point : Nat) (num den : Nat) : Bool :=
  let p := point * num * i.denominator
  if i.closed then i.low * den ≤ p && p ≤ i.high * den else i.low * den < p && p < i.high * den

/-- The number of digits before the decimal point, or minus the number of zeros after it: the `k`
with `10 ^ (k - 1) ≤ value < 10 ^ k`, found from an estimate that is never too large. -/
def Interval.magnitude (i : Interval) : Int :=
  let digits (n : Nat) : Int := (Nat.toDigits 10 n).length
  if i.denominator ≤ i.value then digits (i.value / i.denominator)
  else
    let k := digits i.value - digits i.denominator
    -- `10 ^ (k - 1) ≤ value / denominator < 10 ^ (k + 1)`
    if i.value * Nat.pow 10 (-k).toNat < i.denominator then k else k + 1

/-- The point nearest to the number among its two neighbours on the grid of `count` digits, if one
lies in the interval, with the decimal exponent of its last digit. An exact tie goes to the even
digit. -/
def Interval.nearest? (i : Interval) (k : Int) (count : Nat) : Option (Nat × Int) :=
  let unit := k - count
  let num := Nat.pow 10 unit.toNat
  let den := Nat.pow 10 (-unit).toNat
  let below := i.value * den / (num * i.denominator)
  let above := below + 1
  let twice := 2 * (i.value * den)
  let middle := (below + above) * (num * i.denominator)
  match i.holds below num den, i.holds above num den with
  | false, false => none
  | true, false => some (below, unit)
  | false, true => some (above, unit)
  | true, true =>
    if twice < middle || (twice = middle && below % 2 = 0) then some (below, unit)
    else some (above, unit)

/-- The shortest decimal of the number: its digits, and the exponent of the first of them. -/
def shortest (b : Binary) : List Char × Int :=
  let i := b.interval
  let k := i.magnitude
  let (point, unit) := ((List.range 17).findSome? fun n => i.nearest? k (n + 1)).getD (0, 0)
  let digits := Nat.toDigits 10 point
  let kept := (digits.reverse.dropWhile (· = '0')).reverse
  (kept, unit + digits.length - 1)

end Binary
end SubnetRegistry.Decimal
