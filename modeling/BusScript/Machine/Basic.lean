import BusScript.Machine.Config
import BusScript.Machine.Error
import BusScript.Machine.Fiber
import BusScript.Machine.Host
import BusScript.Machine.Random
import BusScript.Machine.RegisterCache

namespace BusScript

structure Machine where
  image : Image
  config : Config
  host : Host
  registers : Registers
  /-- What prefix words have collected for the next word. -/
  operands : Operands
  globals : Array Number
  roles : List Role
  /-- The packet at hand: the one that woke the fiber, a cached value, or one being built. -/
  packet : Packet
  wokenBy : Option Nat
  /-- In the order in which they were started. -/
  fibers : List Fiber
  nextFiberId : UInt32
  cache : RegisterCache
  random : Random
  panic : Option PanicCode
  nextAutobind : Nat
  /-- Local roles that were signalled, in order. -/
  signals : List Nat
  /-- The first fiber of this call that ran too long: its function, and the steps it took. -/
  overrun : Option (Nat × Nat)
  deriving DecidableEq

/-- What no image that passes the checks makes happen. -/
inductive Flaw where
  | noFiber
  | pcOutside (pc : Nat)
  | jumpOutside
  | unknownCode (code : Nat)
  | noFunction (index : Nat)
  | noString (index : Nat)
  | noRole (index : Nat)
  | noCell (kind index : Nat)
  | readOnlyCell (kind : CellKind)
  | saveArea (function : Nat)
  | bufferSize (size : Nat)
  deriving DecidableEq, Repr

/-- Why a fiber stopped running before it parked or finished. -/
inductive Fault where
  | invalid (flaw : Flaw)
  | host (message : String)
  | panic (code : PanicCode)
  | timeout (function steps : Nat)
  deriving DecidableEq, Repr

/-- Running a fiber. What was done stays done when it ends early. -/
abbrev Stepping := EStateM Fault Machine

namespace Stepping

def invalid {α : Type} (flaw : Flaw) : Stepping α := throw (.invalid flaw)

/-- The value of a code, which has to be a known one. -/
def known {α : Type} (code : Nat) : Option α → Stepping α
  | some v => return v
  | none => invalid (.unknownCode code)

def fiber (index : Nat) : Stepping Fiber := do
  match (← get).fibers[index]? with
  | some f => return f
  | none => invalid .noFiber

def modifyFiber (index : Nat) (f : Fiber → Fiber) : Stepping Unit :=
  modify fun m => { m with fibers := m.fibers.modify index f }

def modifyFrame (index : Nat) (f : Frame → Frame) : Stepping Unit :=
  modifyFiber index fun fiber => { fiber with frame := f fiber.frame }

def readReg (r : Reg) : Stepping Number := do return (← get).registers.get r

def writeReg (r : Reg) (x : Number) : Stepping Unit :=
  modify fun m => { m with registers := m.registers.set r x r.isLt }

def function (index : Nat) : Stepping FunctionInfo := do
  match (← get).image.functions[index]? with
  | some info => return info
  | none => invalid (.noFunction index)

def string (index : Nat) : Stepping Bytes := do
  match (← get).image.strings[index]? with
  | some s => return s
  | none => invalid (.noString index)

def role (index : Nat) : Stepping Role := do
  match (← get).roles[index]? with
  | some r => return r
  | none => invalid (.noRole index)

def firstRegs (count : Nat) : Stepping (List Number) := do
  return (← get).registers.toList.take count

def send (p : Packet) : Stepping Unit := do
  let m ← get
  match m.host.send? p with
  | some host => set { m with host }
  | none => throw (.host (MachineError.host "bus down").message)

end Stepping

end BusScript
