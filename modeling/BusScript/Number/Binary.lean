import BusScript.Number.Basic

namespace BusScript.Number

/-- A finite number is `± mantissa * 2 ^ exponent`, with `mantissa < 2 ^ 53`. -/
structure Binary where
  negative : Bool
  mantissa : Nat
  exponent : Int
  deriving DecidableEq, Repr

/-- The parts of a finite number; none for infinities and for what is not a number. -/
def binary? (x : Number) : Option Binary :=
  let bits : Nat := x.bits.toNat
  let field : Nat := bits / 0x10000000000000 % 0x800
  let fraction : Nat := bits % 0x10000000000000
  if field = 2047 then none
  else if field = 0 then some ⟨x.signBit, fraction, -1074⟩
  else some ⟨x.signBit, 0x10000000000000 + fraction, Int.ofNat field - 1075⟩

/-- The number `± n`. Exact for `n ≤ 2 ^ 53`. -/
def signed (negative : Bool) (n : Nat) : Number :=
  if negative then -(ofNat n) else ofNat n

def isWhole (x : Number) : Bool :=
  match x.binary? with
  | none => false
  | some ⟨_, mantissa, exponent⟩ =>
    0 ≤ exponent || mantissa % Nat.pow 2 exponent.natAbs == 0

/-- Whether `x` is an odd whole number, for which a power keeps the sign of its base. -/
def isOdd (x : Number) : Bool :=
  match x.binary? with
  | none => false
  | some ⟨_, mantissa, exponent⟩ =>
    x.isWhole && exponent ≤ 0 && mantissa / Nat.pow 2 exponent.natAbs % 2 == 1

inductive Rounding where
  | down
  | up
  | nearestAway
  deriving DecidableEq, Repr

/-- The whole number that stands for `quotient + remainder / unit`, as a magnitude. -/
def Rounding.magnitude (dir : Rounding) (negative : Bool) (quotient remainder unit : Nat) : Nat :=
  match dir with
  | .down => if negative && remainder != 0 then quotient + 1 else quotient
  | .up => if !negative && remainder != 0 then quotient + 1 else quotient
  | .nearestAway => if unit ≤ 2 * remainder then quotient + 1 else quotient

/-- `x` as a whole number. The sign stays, also that of a zero; infinities are kept. -/
def round (dir : Rounding) (x : Number) : Number :=
  match x.binary? with
  | none => if x.isNaN then x.quiet else x
  | some ⟨negative, mantissa, exponent⟩ =>
    if 0 ≤ exponent then x
    else
      let unit := Nat.pow 2 exponent.natAbs
      signed negative (dir.magnitude negative (mantissa / unit) (mantissa % unit) unit)

def floor (x : Number) : Number := x.round .down

def ceil (x : Number) : Number := x.round .up

def roundHalfUp (x : Number) : Number :=
  let below := x.floor
  if 0.5 ≤ x - below then below + 1 else below

end BusScript.Number
