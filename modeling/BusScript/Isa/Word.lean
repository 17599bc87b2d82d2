import BusScript.Isa.Opcode

/-!
Instruction words and the operands collected for them. A word is a class in the top four bits and a
twelve-bit argument. Prefix words collect operands A to D; any other word combines them with its own
fields (`Operands.resolve`) and leaves none behind.
-/

namespace BusScript

abbrev Reg := Fin 16

/-- The register of a function's first argument and of its result. -/
def Reg.first : Reg := ⟨0, by decide⟩

def Reg.second : Reg := ⟨1, by decide⟩

def Reg.ofNat (n : Nat) : Reg := Fin.ofNat 16 n

structure Word where
  bits : UInt16
  deriving DecidableEq, Repr, Inhabited

namespace Word

def val (w : Word) : Nat := w.bits.toNat

/-- The word of a class and an argument below `2 ^ 12`. -/
def make (cls : OpClass) (arg : Nat) : Word := ⟨(cls.code * 4096 + arg).toUInt16⟩

def opClass? (w : Word) : Option OpClass := OpClass.ofCode? (w.val / 4096)

def arg12 (w : Word) : Nat := w.val % 4096

def arg10 (w : Word) : Nat := w.val % 1024

def arg8 (w : Word) : Nat := w.val % 256

def arg6 (w : Word) : Nat := w.val % 64

def arg4 (w : Word) : Nat := w.val % 16

/-- Bits 8 to 11: an operation, a register, or the argument count of a call. -/
def high4 (w : Word) : Nat := w.arg12 / 256

def kind2 (w : Word) : Nat := w.arg8 / 64

def highReg (w : Word) : Reg := Reg.ofNat w.high4

def dstReg (w : Word) : Reg := Reg.ofNat (w.arg8 / 16)

def srcReg (w : Word) : Reg := Reg.ofNat w.arg4

def jumpsBack (w : Word) : Bool := w.val / 128 % 2 == 1

def jumpsIfZero (w : Word) : Bool := w.val / 64 % 2 == 1

def isOperandPrefix (w : Word) : Bool := w.val / 4096 ≤ 4

end Word

def OpClass.isOperandPrefix (cls : OpClass) : Bool := cls.code ≤ 4

structure Operands where
  a : Nat := 0
  b : Nat := 0
  c : Nat := 0
  d : Nat := 0
  deriving DecidableEq, Repr, Inhabited

namespace Operands

/-- The operands after a prefix word; none for any other word. A `setA` to `setD` word replaces its
operand, a `setHigh` word adds bits 12 to 21 to the operand it names. -/
def absorb? (p : Operands) (w : Word) : Option Operands :=
  match w.opClass? with
  | some .setA => some { p with a := w.arg12 }
  | some .setB => some { p with b := w.arg12 }
  | some .setC => some { p with c := w.arg12 }
  | some .setD => some { p with d := w.arg12 }
  | some .setHigh =>
    let high := w.arg10 * 4096
    match w.arg12 / 1024 with
    | 0 => some { p with a := p.a ||| high }
    | 1 => some { p with b := p.b ||| high }
    | 2 => some { p with c := p.c ||| high }
    | _ => some { p with d := p.d ||| high }
  | _ => none

/-- The operands as the word `w` sees them: its own fields are the low bits. -/
def resolve (p : Operands) (w : Word) : Operands :=
  match w.opClass? with
  | some .loadCell | some .storeCell => { p with a := p.a * 4 + w.kind2, b := p.b * 64 + w.arg6 }
  | some .jump | some .call => { p with b := p.b * 64 + w.arg6 }
  | some .sync => { p with a := p.a * 16 + w.high4 }
  | some .async => { p with d := p.d * 16 + w.high4 }
  | _ => p

end Operands

end BusScript
