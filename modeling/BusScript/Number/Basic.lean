/-!
The numbers of scripts: doubles as their 64 bits. What is not a number (NaN) has a sign and a payload,
which packets carry over the bus, so the operations say what becomes of them. All other results are
those of `Float`.
-/

namespace BusScript

/-- The bits of a double: sign, eleven bits of exponent, 52 bits of fraction. Two zeros and many NaN
differ in their bits alone, so `=` is finer than `equals`. -/
structure Number where
  bits : UInt64
  deriving DecidableEq, Repr

namespace Number

def signMask : UInt64 := 0x8000000000000000

def infinity : Number := ⟨0x7ff0000000000000⟩

def nan : Number := ⟨0x7ff8000000000000⟩

/-- What an operation without a result gives, such as zero divided by zero. -/
def invalid : Number := ⟨0xfff8000000000000⟩

/-- The bit that tells a quiet NaN from a signalling one. -/
def quietBit : UInt64 := 0x8000000000000

def signBit (x : Number) : Bool := x.bits &&& signMask != 0

def abs (x : Number) : Number := ⟨x.bits &&& ~~~signMask⟩

instance : Neg Number := ⟨fun x => ⟨x.bits ^^^ signMask⟩⟩

def isNaN (x : Number) : Bool := infinity.bits < x.abs.bits

def isSignalling (x : Number) : Bool := x.isNaN && x.bits &&& quietBit == 0

/-- A NaN as operations pass it on: its sign and payload stay. -/
def quiet (x : Number) : Number := ⟨x.bits ||| quietBit⟩

def toFloat (x : Number) : Float := Float.ofBits x.bits

def ofFloat (x : Float) : Number := if x.isNaN then invalid else ⟨x.toBits⟩

/-- The whole part. It stops at the ends of the range, and what is not a number becomes zero. -/
def toUInt32 (x : Number) : UInt32 := x.toFloat.toUInt32

def ofNat (n : Nat) : Number := ofFloat (Float.ofNat n)

instance (n : Nat) : OfNat Number n := ⟨ofNat n⟩

instance : OfScientific Number :=
  ⟨fun mantissa negative exponent => ofFloat (Float.ofScientific mantissa negative exponent)⟩

/-- Applies an operation. A NaN among the operands is the result, the first one if there are two. -/
def lift2 (op : Float → Float → Float) (x y : Number) : Number :=
  if x.isNaN then x.quiet
  else if y.isNaN then y.quiet
  else ofFloat (op x.toFloat y.toFloat)

instance : Add Number := ⟨lift2 Float.add⟩

instance : Sub Number := ⟨lift2 Float.sub⟩

instance : Mul Number := ⟨lift2 Float.mul⟩

instance : Div Number := ⟨lift2 Float.div⟩

/-- Equality as scripts see it: zeros are equal, and NaN equals nothing. -/
def equals (x y : Number) : Bool := x.toFloat == y.toFloat

instance : LT Number := ⟨fun x y => x.toFloat < y.toFloat⟩

instance : LE Number := ⟨fun x y => x.toFloat ≤ y.toFloat⟩

instance (x y : Number) : Decidable (x < y) := inferInstanceAs (Decidable (x.toFloat < y.toFloat))

instance (x y : Number) : Decidable (x ≤ y) := inferInstanceAs (Decidable (x.toFloat ≤ y.toFloat))

/-- Of a number and NaN, the number; of two NaN, the first; of equal numbers, the second. -/
protected def min (x y : Number) : Number := if y.isNaN || x < y then x else y

/-- Of a number and NaN, the number; of two NaN, the first; of equal numbers, the second. -/
protected def max (x y : Number) : Number := if y.isNaN || y < x then x else y

def isZero (x : Number) : Bool := x.abs.bits == 0

/-- Neither a zero nor NaN. -/
def truthy (x : Number) : Bool := !x.isZero && !x.isNaN

def ofBool (b : Bool) : Number := if b then 1 else 0

/-- `2 ^ n`, infinite from `2 ^ 1024` on. -/
def powerOfTwo (n : Nat) : Number :=
  if n ≤ 1023 then ⟨((1023 + n) * 0x10000000000000).toUInt64⟩ else infinity

end Number

end BusScript
