import BusScript.Number.Binary

namespace BusScript.Number.Single

def infinityBits : Nat := 0x7f800000

/-- `numerator / 2 ^ shift` to the nearest whole number, ties to the even one. -/
def roundShift (numerator shift : Nat) : Nat :=
  let unit := Nat.pow 2 shift
  let quotient := numerator / unit
  let twice := 2 * (numerator % unit)
  if twice < unit then quotient
  else if unit < twice then quotient + 1
  else quotient + quotient % 2

/-- The magnitude bits of `mantissa * 2 ^ exponent`. A mantissa that rounds up to the next power of
two carries into the exponent field. -/
def magnitudeBits (mantissa : Nat) (exponent : Int) : Nat :=
  if mantissa = 0 then 0
  else
    let target := max (exponent + mantissa.log2 - 23) (-149)
    let scaled :=
      if target ≤ exponent then mantissa * Nat.pow 2 (exponent - target).toNat
      else roundShift mantissa (target - exponent).toNat
    min infinityBits ((target + 149).toNat * 0x800000 + scaled)

/-- Narrows a number. A NaN keeps its sign and the front of its payload, and is quiet. -/
def ofNumber (x : Number) : UInt32 :=
  let magnitude :=
    match x.binary? with
    | some parts => magnitudeBits parts.mantissa parts.exponent
    | none =>
      if x.isNaN then x.quiet.abs.bits.toNat % 0x10000000000000 / 0x20000000 + infinityBits
      else infinityBits
  (magnitude + if x.signBit then 0x80000000 else 0).toUInt32

/-- Widens a number. A NaN keeps its sign and payload, and is quiet. -/
def toNumber (bits : UInt32) : Number :=
  let n := bits.toNat
  let field := n / 0x800000 % 256
  let fraction := n % 0x800000
  let magnitude :=
    if field = 255 then
      if fraction = 0 then infinity
      else quiet ⟨infinity.bits + (fraction * 0x20000000).toUInt64⟩
    else if field = 0 then ofNat fraction / powerOfTwo 149
    else if field < 150 then ofNat (0x800000 + fraction) / powerOfTwo (150 - field)
    else ofNat (0x800000 + fraction) * powerOfTwo (field - 150)
  if 0x80000000 ≤ n then -magnitude else magnitude

end BusScript.Number.Single
