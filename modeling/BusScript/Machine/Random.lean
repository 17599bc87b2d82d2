import BusScript.Number.Basic

namespace BusScript

structure Random where
  state : UInt64
  increment : UInt64
  deriving DecidableEq, Repr

namespace Random

def multiplier : UInt64 := 6364136223846793005

/-- The 32 bits that a state gives: folded, then turned by the top five bits. -/
def output (state : UInt64) : UInt32 :=
  let folded := (((state >>> 18) ^^^ state) >>> 27).toUInt32
  let turn := (state >>> 59).toUInt32
  (folded >>> turn) ||| (folded <<< ((32 - turn) % 32))

def next32 (r : Random) : UInt32 × Random :=
  (output r.state, { r with state := r.state * multiplier + r.increment })

def next64 (r : Random) : UInt64 × Random :=
  let (low, r) := r.next32
  let (high, r) := r.next32
  ((high.toUInt64 <<< 32) ||| low.toUInt64, r)

/-- The words of a sequence that spreads a seed. -/
def seedWords : Nat → UInt64 → List UInt32
  | 0, _ => []
  | n + 1, s =>
    let s := s * multiplier + 11634580027462260723
    output s :: seedWords n s

def ofWords (a b c d : UInt32) : Random :=
  let state := (b.toUInt64 <<< 32) ||| a.toUInt64
  let increment := ((d.toUInt64 <<< 32) ||| c.toUInt64) ||| 1
  { state := (state + increment) * multiplier + increment, increment }

def ofSeed (seed : UInt64) : Random :=
  match seedWords 4 seed with
  | [a, b, c, d] => ofWords a b c d
  | _ => ofWords 0 0 0 0

/-- A number from zero up to, but not including, one. -/
def nextNumber (r : Random) : Number × Random :=
  let (bits, r) := r.next64
  (Number.ofNat (bits.toNat / 2048) / Number.powerOfTwo 53, r)

def modulus : Nat := 0x10000000000000000

/-- Draws until a product falls into the part of the range that is a whole multiple of `range`. Each
draw fails with probability below one half. -/
def draw (range zone : Nat) : (tries : Nat) → Random → Nat × Random
  | 0, r => (0, r)
  | tries + 1, r =>
    let (bits, r) := r.next64
    let product := bits.toNat * range
    if product % modulus ≤ zone then (product / modulus, r) else draw range zone tries r

def maxTries : Nat := 1000

/-- A whole number from `low` to `high`, both below `2 ^ 64`. -/
def between (r : Random) (low high : Nat) : Nat × Random :=
  let range := high - low + 1
  if modulus ≤ range then
    let (bits, r) := r.next64
    (bits.toNat, r)
  else
    let zone := range * Nat.pow 2 (63 - Nat.log2 range) - 1
    let (offset, r) := draw range zone maxTries r
    (low + offset, r)

end Random

end BusScript
