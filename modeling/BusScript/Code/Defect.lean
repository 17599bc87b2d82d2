import BusScript.Image.Error
import BusScript.Script.Diagnostic

namespace BusScript

inductive Defect where
  | wordOperand (arg : Nat)
  | prefixOperand (operand : Nat)
  | callArguments (count : Nat)
  | scopeUnderflow
  | keptOutermost
  | freedTwice (reg : Nat)
  | allocatedOutsideScope
  | boundTwice (label : String)
  | neverBound (label : String)
  | jumpToItself (location : Nat)
  | jumpTooFar (distance : Nat)
  | scopeImbalance (found expected : Nat)
  | procedureImbalance (name : String)
  | shiftPastWidth (field : String)
  | registerNumber
  | pauseOverflow
  | rejectedImage (error : ImageError)
  deriving DecidableEq, Repr

def Defect.message : Defect → String
  | .wordOperand arg => s!"instruction operand {Text.hexMarked arg} out of range"
  | .prefixOperand operand => s!"operand {Text.hexMarked operand} does not fit a prefix"
  | .callArguments count => s!"{count} call arguments"
  | .scopeUnderflow => "register scope popped without a matching push"
  | .keptOutermost => "pop_except() on the outermost register scope"
  | .freedTwice reg => s!"register {reg} freed twice"
  | .allocatedOutsideScope => "register allocated outside of any scope"
  | .boundTwice label => s!"label '{label}' bound twice"
  | .neverBound label => s!"label '{label}' used but never bound"
  | .jumpToItself location => s!"jump to itself at {location}"
  | .jumpTooFar distance => s!"jump offset {distance} out of range"
  | .scopeImbalance found expected => s!"register scope imbalance: {found} open, expected {expected}"
  | .procedureImbalance name => s!"register scope imbalance in {name}"
  | .shiftPastWidth field => s!"field '{field}' shifted past its width"
  | .registerNumber => "attempt to shift left with overflow"
  | .pauseOverflow => "attempt to add with overflow"
  | .rejectedImage error => s!"compiled image failed verification: {error.message}"

inductive Stop where
  | reject (diagnostic : Diagnostic)
  | abort (defect : Defect)
  deriving DecidableEq, Repr

def Stop.orAt (span : Span) : Stop → Stop
  | .reject d => .reject (d.orAt span)
  | .abort d => .abort d

end BusScript
