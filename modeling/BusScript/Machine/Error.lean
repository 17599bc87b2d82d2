import BusScript.Image.Error
import BusScript.Panic

namespace BusScript

inductive MachineError where
  /-- The program stopped. The call that made it stop says so; later calls run nothing. -/
  | panicked (code : PanicCode)
  /-- A fiber ran past its step budget and was dropped. The others go on. -/
  | timeout (function steps : Nat)
  | host (message : String)
  | image (error : ImageError)
  deriving DecidableEq, Repr

namespace MachineError

def message : MachineError → String
  | .panicked code => s!"script stopped: {code.message}"
  | .timeout function steps => s!"execution timeout in function {function} after {steps} steps"
  | .host message => s!"environment error: {message}"
  | .image error => error.message

def panicCode? : MachineError → Option PanicCode
  | .panicked code => some code
  | _ => none

end MachineError

end BusScript
