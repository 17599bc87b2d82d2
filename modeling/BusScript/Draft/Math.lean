import BusScript.Draft.Operand

namespace BusScript

namespace Math

def e : Number := 2.718281828459045

def pi : Number := 3.141592653589793

def ln2 : Number := 0.6931471805599453

def ln10 : Number := 2.302585092994046

def log2E : Number := 1.4426950408889634

def log10E : Number := 0.4342944819032518

def sqrt2 : Number := 1.4142135623730951

def sqrtHalf : Number := 0.7071067811865476

def constant? : String → Option Number
  | "E" => some e
  | "PI" => some pi
  | "LN2" => some ln2
  | "LN10" => some ln10
  | "LOG2E" => some log2E
  | "LOG10E" => some log10E
  | "SQRT2" => some sqrt2
  | "SQRT1_2" => some sqrtHalf
  | _ => none

/-- An operation of the machine that a function comes down to. -/
inductive Primitive where
  | unary (op : UnaryOp)
  | one (op : Math1)
  | two (op : Math2)
  deriving DecidableEq, Repr

structure Function where
  op : Primitive
  numArgs : Nat
  /-- A constant operand in front of the arguments. -/
  first : Option Number := none
  /-- A constant operand behind the arguments. -/
  last : Option Number := none
  scale : Option Number := none
  deriving Repr

def function? : String → Option Function
  | "floor" => some { op := .one .floor, numArgs := 1 }
  | "round" => some { op := .one .round, numArgs := 1 }
  | "ceil" => some { op := .one .ceil, numArgs := 1 }
  | "log" => some { op := .one .logE, numArgs := 1 }
  | "random" => some { op := .one .random, numArgs := 0, last := some 1 }
  | "log10" => some { op := .one .logE, numArgs := 1, scale := some log10E }
  | "log2" => some { op := .one .logE, numArgs := 1, scale := some log2E }
  | "max" => some { op := .two .max, numArgs := 2 }
  | "min" => some { op := .two .min, numArgs := 2 }
  | "pow" => some { op := .two .pow, numArgs := 2 }
  | "sqrt" => some { op := .two .pow, numArgs := 1, last := some 0.5 }
  | "cbrt" => some { op := .two .pow, numArgs := 1, last := some (1 / 3) }
  | "exp" => some { op := .two .pow, numArgs := 1, first := some e }
  | "abs" => some { op := .unary .abs, numArgs := 1 }
  | _ => none

end Math

namespace Lowering

open CodeWriter

def applyUnary (op : UnaryOp) (p : Part) : Lowering Nat := do
  push
  let r ← inReg p
  emitUnary op r r
  popExcept (some r)
  return r

/-- Applies an operation of the machine that takes its operands in the argument registers. -/
def applyMath (op : SyncOp) (code : Nat) (first : Option Number) (args : List Part)
    (last : Option Number) : Lowering Nat := do
  push
  let values ← numbers args
  passValues (first.toList.map .float ++ values ++ last.toList.map .float)
  emitSync op code 0 0 0
  pop
  let r ← allocReg
  emitMove r 0
  return r

/-- A constant in `first` or `last` stands beside the arguments; a function of one register has none. -/
def applyPrimitive (f : Math.Function) (args : List Part) : Lowering Nat :=
  match f.op with
  | .unary op =>
    match args with
    | p :: _ => applyUnary op p
    | [] => reject .valueRequired
  | .one op => applyMath .math1 op.code f.first args f.last
  | .two op => applyMath .math2 op.code f.first args f.last

def applyFunction (f : Math.Function) (args : List Part) : Lowering Nat := do
  let r ← applyPrimitive f args
  match f.scale with
  | none => return r
  | some factor =>
    push
    let t ← allocReg
    loadFloat t factor
    emitBinary .mul r t
    pop
    return r

def applyPow (left right : Part) : Lowering Nat := applyMath .math2 Math2.pow.code none [left, right] none

end Lowering

end BusScript
