import BusScript.Isa.Opcode
import BusScript.Number.Power

namespace BusScript

def UnaryOp.eval (op : UnaryOp) (x : Number) : Number :=
  match op with
  | .id => x
  | .neg => -x
  | .not => Number.ofBool (!x.truthy)
  | .abs => x.abs
  | .isNan => Number.ofBool x.isNaN

/-- Comparisons give one or zero; the logical operations give one of their operands. -/
def BinaryOp.eval (op : BinaryOp) (x y : Number) : Number :=
  match op with
  | .add => x + y
  | .sub => x - y
  | .div => x / y
  | .mul => x * y
  | .lt => Number.ofBool (x < y)
  | .le => Number.ofBool (x ≤ y)
  | .eq => Number.ofBool (x.equals y)
  | .ne => Number.ofBool (!x.equals y)
  | .and => if x.truthy then y else x
  | .or => if x.truthy then x else y

def Math2.eval (op : Math2) (x y : Number) : Number :=
  match op with
  | .min => x.min y
  | .max => x.max y
  | .pow => x.pow y

end BusScript
