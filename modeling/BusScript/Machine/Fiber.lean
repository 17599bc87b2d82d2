import BusScript.Bus.Packet
import BusScript.Image.Basic
import BusScript.Isa.RegSet

namespace BusScript

abbrev Registers := Vector Number 16

def Registers.zero : Registers := Vector.replicate 16 0

structure Frame where
  function : Nat
  startPc : Nat
  /-- The next word, counted from the start of the image. -/
  pc : Nat
  /-- The locals, then the saved registers. -/
  slots : Array Number
  numLocals : Nat
  /-- The registers to bring back when the function goes on. -/
  saved : RegSet
  deriving DecidableEq, Repr

namespace Frame

/-- Puts values into slots from `start` on, as far as there are slots. -/
def fill (slots : Array Number) (start : Nat) : List Number → Array Number
  | [] => slots
  | x :: rest => fill (slots.setIfInBounds start x) (start + 1) rest

/-- The frame of a call. Arguments become the first locals. -/
def enter (function : Nat) (info : FunctionInfo) (args : List Number) : Frame where
  function
  startPc := info.startPc
  pc := info.startPc
  slots := fill (Array.replicate info.frameSize 0) 0 args
  numLocals := info.numLocals
  saved := .empty

/-- Goes back to the first word. Locals stay as they are. -/
def restart (f : Frame) : Frame := { f with pc := f.startPc }

def hasRoom (f : Frame) (set : RegSet) : Bool := f.numLocals + set.toList.length ≤ f.slots.size

/-- Saves registers, the lowest one first. Without enough room some are written, but none will be
brought back on their account. -/
def save (f : Frame) (set : RegSet) (regs : Registers) : Frame :=
  let slots := fill f.slots f.numLocals (set.toList.map fun r => regs.toArray.getD r 0)
  if f.hasRoom set then { f with slots, saved := set } else { f with slots }

def fetch (slots : Array Number) (slot : Nat) (regs : Registers) : List Nat → Registers
  | [] => regs
  | r :: rest => fetch slots (slot + 1) (regs.setIfInBounds r (slots.getD slot 0)) rest

def restoredRegs (f : Frame) (regs : Registers) : Registers :=
  fetch f.slots f.numLocals regs f.saved.toList

def restored (f : Frame) : Frame := { f with saved := .empty }

def overflowMessage (f : Frame) : String :=
  s!"register save area of function {f.function} overflows"

end Frame

/-- What a parked fiber still wants from a role. -/
inductive Request where
  /-- A command that has to be sent. -/
  | send (role : Nat) (code : CommandCode) (payload : Bytes)
  /-- A register value; asked for again after `resend` milliseconds, then after twice that. -/
  | query (role : Nat) (code : CommandCode) (resend : Nat)
  deriving DecidableEq, Repr

def Request.role : Request → Nat
  | .send role .. => role
  | .query role .. => role

structure Fiber where
  id : UInt32
  /-- The function that it was started with. -/
  function : Nat
  frame : Frame
  /-- The frames of the functions that called it, the last caller first. -/
  callers : List Frame := []
  /-- When it goes on by itself. -/
  wakeAt : Option Nat
  observed : Option Nat := none
  request : Option Request := none
  isPending : Bool := false
  deriving DecidableEq, Repr

namespace Fiber

def start (id : UInt32) (frame : Frame) (now : Nat) : Fiber where
  id
  function := frame.function
  frame
  wakeAt := some now

def isDue (f : Fiber) (now : Nat) : Bool := f.wakeAt.any (· ≤ now)

end Fiber

end BusScript
