import BusScript.Number.Binary

namespace BusScript.Number

/-- `digits * 10 ^ exponent`. -/
structure Decimal where
  digits : Nat
  exponent : Int
  deriving DecidableEq, Repr

namespace Decimal

/-- The reals that round to one double, as `low / unit` to `high / unit` around `value / unit`. -/
structure Interval where
  low : Nat
  value : Nat
  high : Nat
  unit : Nat
  closed : Bool

/-- The rounding interval of `mantissa * 2 ^ exponent`: half a unit in the last place to either side,
half of that below a power of two. The ends belong to an even mantissa. -/
def Interval.ofBinary (mantissa : Nat) (exponent : Int) : Interval :=
  let scale := Nat.pow 2 (exponent - 2).toNat
  let below := if mantissa = 0x10000000000000 then 1 else 2
  { low := (4 * mantissa - below) * scale
    value := 4 * mantissa * scale
    high := (4 * mantissa + 2) * scale
    unit := Nat.pow 2 (2 - exponent).toNat
    closed := mantissa % 2 == 0 }

/-- Whether `numerator / (unit * denominator)` lies in the interval. -/
def Interval.contains (i : Interval) (numerator denominator : Nat) : Bool :=
  if i.closed then i.low * denominator ≤ numerator && numerator ≤ i.high * denominator
  else i.low * denominator < numerator && numerator < i.high * denominator

/-- The decimal point position of `value / unit`: the greatest `p` with `10 ^ p ≤ value / unit`. -/
def Interval.magnitude (i : Interval) : Int :=
  if i.unit ≤ i.value then
    Int.ofNat ((Nat.toDigits 10 (i.value / i.unit)).length - 1)
  else
    below 400 1
where
  below : Nat → Nat → Int
    | 0, p => -(Int.ofNat p)
    | fuel + 1, p => if i.unit ≤ i.value * Nat.pow 10 p then -(Int.ofNat p) else below fuel (p + 1)

/-- The best multiple of `10 ^ p` in the interval, if there is one: the nearer neighbour of the value,
the upper one when both are equally near. -/
def Interval.onGrid (i : Interval) (p : Int) : Option Decimal :=
  let numerator := Nat.pow 10 p.toNat * i.unit
  let denominator := Nat.pow 10 (-p).toNat
  let below := i.value * denominator / numerator
  let above := below + 1
  let hitBelow := i.contains (below * numerator) denominator
  let hitAbove := i.contains (above * numerator) denominator
  let upperNearer :=
    above * numerator - i.value * denominator ≤ i.value * denominator - below * numerator
  if hitBelow && hitAbove then some ⟨if upperNearer then above else below, p⟩
  else if hitBelow then some ⟨below, p⟩
  else if hitAbove then some ⟨above, p⟩
  else none

/-- Tries grids of one digit, two digits and so on. Seventeen digits always suffice. -/
def Interval.shortest (i : Interval) : Decimal :=
  search 17 i.magnitude
where
  search : Nat → Int → Decimal
    | 0, p => ⟨i.value * Nat.pow 10 (-p).toNat / (Nat.pow 10 p.toNat * i.unit), p⟩
    | fuel + 1, p =>
      match i.onGrid p with
      | some d => d
      | none => search fuel (p - 1)

def trim (d : Decimal) : Decimal :=
  if d.digits % 10 = 0 ∧ d.digits ≠ 0 then ⟨d.digits / 10, d.exponent + 1⟩ else d

/-- The digits around the decimal point, with zeros where there are none. -/
def positional (d : Decimal) : String :=
  let digits := Nat.toDigits 10 d.digits
  if 0 ≤ d.exponent then
    String.ofList (digits ++ List.replicate d.exponent.toNat '0')
  else
    let places := d.exponent.natAbs
    let padded := List.replicate (places + 1 - digits.length) '0' ++ digits
    let whole := padded.length - places
    String.ofList (padded.take whole ++ '.' :: padded.drop whole)

end Decimal

def shortest (mantissa : Nat) (exponent : Int) : Decimal :=
  (Decimal.Interval.ofBinary mantissa exponent).shortest.trim

/-- The text of a number: shortest digits, whole numbers without a point, `-0` with its sign. -/
def display (x : Number) : String :=
  if x.isNaN then "NaN"
  else
    let magnitude :=
      match x.binary? with
      | none => "inf"
      | some ⟨_, 0, _⟩ => "0"
      | some parts => (shortest parts.mantissa parts.exponent).positional
    if x.signBit then "-" ++ magnitude else magnitude

end BusScript.Number
