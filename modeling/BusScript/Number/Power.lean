import BusScript.Number.Binary

namespace BusScript.Number

/-- `x` to the power of `y`. The zeroth power of anything and any power of one is one, of a quiet NaN
too. An odd power of a negative NaN loses the sign. -/
def pow (x y : Number) : Number :=
  if y.isZero then if x.isSignalling then x.quiet else 1
  else if x = 1 then if y.isSignalling then y.quiet else 1
  else if x.isNaN then if x.signBit && y.isOdd then -x.quiet else x.quiet
  else if y.isNaN then y.quiet
  else ofFloat (x.toFloat.pow y.toFloat)

def log (x : Number) : Number := if x.isNaN then x.quiet else ofFloat x.toFloat.log

end BusScript.Number
