import BusScript.Draft.Bus
import BusScript.Draft.Math

namespace BusScript

namespace Lowering

open CodeWriter

def minPeriod : Nat := 20

def reservedNames : List String :=
  ["wait", "every", "upload", "print", "format", "panic", "reboot", "isNaN"]

def callWait (call : CallSite) : Lowering Unit := do
  let seconds ← literalNumber (← oneArg "wait" call)
  let ms := seconds * 1000
  emitPause (if 0 < ms then ms else 0).toUInt32

def callEvery (call : CallSite) : Lowering Unit := do
  requireTopLevel "every()"
  let (period, p) ← twoArgs "every" call
  let seconds ← literalNumber period
  let ms := (seconds * 1000).round .nearestAway
  if ms < Number.ofNat minPeriod then
    rejectAt period.expr.span (.other s!"every() period must be at least {minPeriod}ms")
  let index ← handler "every" (some ms.toUInt32) p
  emitCall index 0 .background

def callUpload (call : CallSite) : Lowering Unit := do
  match call.args with
  | [] => rejectAt call.span (.argumentCount "upload" 1 0)
  | label :: rest =>
    let text ← literalString label
    push
    passArgs rest
    let _ ← loadText text
    pop
    emitAsync .cloudUpload rest.length 0 0

/-- Splits off the template of `print` or `format` and passes the rest. Gives the template's place
in the pool and the number of arguments. -/
def passTemplate (name : String) (call : CallSite) : Lowering (Nat × Nat) := do
  match call.args with
  | [] => rejectAt call.span (.argumentCount name 1 0)
  | template :: rest =>
    let index ← stringLiteral (← literalString template)
    push
    passArgs rest
    pop
    return (index, rest.length)

def callPrint (call : CallSite) : Lowering Unit := do
  let (index, count) ← passTemplate "print" call
  emitSync .logFormat index count 0 0

def callFormat (call : CallSite) : Lowering Value := do
  let (index, count) ← passTemplate "format" call
  allocBuffer
  emitSync .setupBuffer 0 0 0 0
  emitSync .format index count 0 0
  return .buffer

def callPanic (call : CallSite) : Lowering Unit := do
  let p ← oneArg "panic" call
  let code ← literalNumber p
  if code.isWhole && 1 ≤ code && code ≤ 9999 then
    emitSync .panic code.toUInt32.toNat 0 0 0
  else
    rejectAt p.expr.span .invalidPanicCode

def callReboot (call : CallSite) : Lowering Unit := do
  noArgs "reboot" call
  emitSync .panic 0 0 0 0

def callDeclared (index : Nat) (call : CallSite) : Lowering Value := do
  match (← get).functions[index]? with
  | none => reject .valueRequired
  | some f =>
    requireArgs f.name call f.numParams
    push
    passArgs call.args
    pop
    emitCall f.procedure f.numParams .sync
    let r ← allocReg
    emitMove r 0
    return .reg r

def callNamed (id : Ident) (call : CallSite) : Lowering Value := do
  match (← get).resolve? id.name with
  | some (.function index) => callDeclared index call
  | some other =>
    rejectAt id.span (.unsupported s!"'{id.name}' is {other.describe}, not a function")
  | none => rejectAt id.span (.unknownName id.name)

def callFunction (id : Ident) (call : CallSite) : Lowering Value :=
  match id.name with
  | "wait" => noResult (callWait call)
  | "every" => noResult (callEvery call)
  | "upload" => noResult (callUpload call)
  | "print" => noResult (callPrint call)
  | "format" => callFormat call
  | "panic" => noResult (callPanic call)
  | "reboot" => noResult (callReboot call)
  | "isNaN" => do return .reg (← applyUnary .isNan (← oneArg "isNaN" call))
  | "condition" => rejectAt call.span (.topLevelOnly "role declaration")
  | _ => callNamed id call

def callMath (name : String) (call : CallSite) : Lowering Value := do
  match Math.function? name with
  | none => rejectAt call.span (.unknownMember "Math" name)
  | some f =>
    requireArgs s!"Math.{name}" call f.numArgs
    return .reg (← applyFunction f call.args)

def callMember (object : Part) (member : Ident) (call : CallSite) : Lowering Value := do
  if object.expr.isNamed "Math" then callMath member.name call
  else if object.expr.isNamed "roles" && ((← get).resolve? "roles").isNone then
    rejectAt call.span (.topLevelOnly "role declaration")
  else
    let value ← object.value
    callMethod value member call

end Lowering

end BusScript
