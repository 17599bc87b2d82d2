import BusScript.Bytes
import BusScript.Number.Single

/-!
Number fields in packet buffers. Scripts compute with doubles; a field holds an integer or a float of
fixed width, little-endian. Loads divide by `2 ^ shift`, stores multiply by it, then round and clamp.
-/

namespace BusScript

inductive FieldFormat where
  | u8
  | u16
  | u32
  | u64
  | i8
  | i16
  | i32
  | i64
  | f32
  | f64
  deriving DecidableEq, Repr

namespace FieldFormat

/-- The low two bits give the width, bit 2 marks signed integers and bit 3 floats. -/
def code : FieldFormat → Nat
  | .u8 => 0
  | .u16 => 1
  | .u32 => 2
  | .u64 => 3
  | .i8 => 4
  | .i16 => 5
  | .i32 => 6
  | .i64 => 7
  | .f32 => 10
  | .f64 => 11

def ofCode? : Nat → Option FieldFormat
  | 0 => some .u8
  | 1 => some .u16
  | 2 => some .u32
  | 3 => some .u64
  | 4 => some .i8
  | 5 => some .i16
  | 6 => some .i32
  | 7 => some .i64
  | 10 => some .f32
  | 11 => some .f64
  | _ => none

def name : FieldFormat → String
  | .u8 => "U8"
  | .u16 => "U16"
  | .u32 => "U32"
  | .u64 => "U64"
  | .i8 => "I8"
  | .i16 => "I16"
  | .i32 => "I32"
  | .i64 => "I64"
  | .f32 => "F32"
  | .f64 => "F64"

@[simp] theorem ofCode?_code (f : FieldFormat) : ofCode? f.code = some f := by
  cases f <;> rfl

def size (f : FieldFormat) : Nat := Nat.pow 2 (f.code % 4)

def bits (f : FieldFormat) : Nat := 8 * f.size

def isFloat (f : FieldFormat) : Bool := f.code / 8 % 2 == 1

def isSigned (f : FieldFormat) : Bool := f.code / 4 % 2 == 1

def int? (bytes : Nat) (isSigned : Bool) : Option FieldFormat :=
  match bytes, isSigned with
  | 1, false => some .u8
  | 2, false => some .u16
  | 4, false => some .u32
  | 8, false => some .u64
  | 1, true => some .i8
  | 2, true => some .i16
  | 4, true => some .i32
  | 8, true => some .i64
  | _, _ => none

def float? : Nat → Option FieldFormat
  | 4 => some .f32
  | 8 => some .f64
  | _ => none

/-- The number that is written as `raw`. -/
def decode (f : FieldFormat) (raw : Nat) : Number :=
  match f with
  | .u8 | .u16 | .u32 => Number.ofNat raw
  | .u64 => .ofFloat raw.toUInt64.toFloat
  | .i8 | .i16 | .i32 =>
    if raw < Nat.pow 2 (f.bits - 1) then Number.ofNat raw
    else -(Number.ofNat (Nat.pow 2 f.bits - raw))
  | .i64 =>
    if raw < 0x8000000000000000 then .ofFloat raw.toUInt64.toFloat
    else -(.ofFloat (0x10000000000000000 - raw).toUInt64.toFloat)
  | .f32 => Number.Single.toNumber raw.toUInt32
  | .f64 => ⟨raw.toUInt64⟩

/-- The number that stands for `x`: integers drop the fraction and stop at the ends of the range, and
what is not a number becomes zero. -/
def encode (f : FieldFormat) (x : Number) : Nat :=
  match f with
  | .u8 => x.toFloat.toUInt8.toNat
  | .u16 => x.toFloat.toUInt16.toNat
  | .u32 => x.toFloat.toUInt32.toNat
  | .u64 => x.toFloat.toUInt64.toNat
  | .i8 => x.toFloat.toModel.toInt8.toUInt8.toNat
  | .i16 => x.toFloat.toModel.toInt16.toUInt16.toNat
  | .i32 => x.toFloat.toModel.toInt32.toUInt32.toNat
  | .i64 => x.toFloat.toModel.toInt64.toUInt64.toNat
  | .f32 => (Number.Single.ofNumber x).toNat
  | .f64 => x.bits.toNat

/-- The field at `offset`, or none if it does not fit. -/
def read? (f : FieldFormat) (buffer : Bytes) (offset : Nat) : Option Number :=
  if offset + f.size ≤ buffer.size then some (f.decode (buffer.natAt offset f.size)) else none

/-- Writes a field that fits; the buffer stays as it is otherwise. -/
def write (f : FieldFormat) (buffer : Bytes) (offset : Nat) (x : Number) : Bytes :=
  if offset + f.size ≤ buffer.size then buffer.overwrite offset (Bytes.ofNat f.size (f.encode x))
  else buffer

/-- The nearest value in range. Floats and what is not a number pass. -/
def clamp (f : FieldFormat) (x : Number) : Number :=
  if f.isFloat then x
  else
    let x := x.roundHalfUp
    let low := if f.isSigned then -(Number.powerOfTwo (f.bits - 1)) else 0
    let high :=
      if f.isSigned then Number.powerOfTwo (f.bits - 1) - 1 else Number.powerOfTwo f.bits - 1
    if x < low then low else if x > high then high else x

/-- The field at `offset` with `shift` bits behind the binary point, NaN if it does not fit. -/
def load (f : FieldFormat) (buffer : Bytes) (offset shift : Nat) : Number :=
  match f.read? buffer offset with
  | some x => x / Number.powerOfTwo shift
  | none => Number.nan

/-- Stores `x` with `shift` bits behind the binary point. -/
def store (f : FieldFormat) (buffer : Bytes) (offset shift : Nat) (x : Number) : Bytes :=
  f.write buffer offset (f.clamp (x * Number.powerOfTwo shift))

end FieldFormat

end BusScript
