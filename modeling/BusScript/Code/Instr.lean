import BusScript.Code.Defect
import BusScript.Isa.Word

namespace BusScript

/-- The largest operand that a prefix word and its extension carry. -/
def maxOperand : Nat := 0x3fffff

inductive Instr where
  | unary (op : UnaryOp) (dst src : Nat)
  | binary (op : BinaryOp) (dst src : Nat)
  | load (dst : Nat) (kind : CellKind) (index c : Nat)
  | store (src : Nat) (kind : CellKind) (index c : Nat)
  | call (kind : CallKind) (numArgs function saved : Nat)
  | sync (op : SyncOp) (a b c d : Nat)
  | async (op : AsyncOp) (a b c saved : Nat)
  deriving DecidableEq, Repr

namespace Instr

/-- The word of a class and an argument that has to fit twelve bits. -/
def word (cls : OpClass) (arg : Nat) : Except Defect Word :=
  if arg ≤ 0xfff then .ok (Word.make cls arg) else .error (.wordOperand arg)

/-- The prefix words of one operand: the low twelve bits, then the rest if there is any. A zero needs
no words. -/
def operandWords (set : OpClass) (slot operand : Nat) : List (Except Defect Word) :=
  if operand = 0 then []
  else if maxOperand < operand then [.error (.prefixOperand operand)]
  else
    word set (operand % 4096)
      :: if operand / 4096 = 0 then [] else [word .setHigh (slot * 1024 + operand / 4096)]

def prefixWords (a b c d : Nat) : List (Except Defect Word) :=
  operandWords .setA 0 a ++ operandWords .setB 1 b ++ operandWords .setC 2 c
    ++ operandWords .setD 3 d

def cellWords (cls : OpClass) (reg : Nat) (kind : CellKind) (index c : Nat) :
    List (Except Defect Word) :=
  prefixWords (kind.code / 4) (index / 64) c 0
    ++ [word cls (reg * 256 ||| kind.code % 4 * 64 ||| index % 64)]

/-- The words of an instruction in order. An operand that fits nowhere stands as the defect it is. -/
def encode : Instr → List (Except Defect Word)
  | .unary op dst src => [word .unary (op.code * 256 ||| dst * 16 ||| src)]
  | .binary op dst src => [word .binary (op.code * 256 ||| dst * 16 ||| src)]
  | .load dst kind index c => cellWords .loadCell dst kind index c
  | .store src kind index c => cellWords .storeCell src kind index c
  | .call kind numArgs function saved =>
    prefixWords 0 (function / 64) 0 saved
      ++ [word .call (numArgs * 256 ||| kind.code * 64 ||| function % 64)]
  | .sync op a b c d => prefixWords (a / 16) b c d ++ [word .sync (a % 16 * 256 ||| op.code)]
  | .async op a b c saved =>
    prefixWords a b c (saved / 16) ++ [word .async (saved % 16 * 256 ||| op.code)]

end Instr

end BusScript
