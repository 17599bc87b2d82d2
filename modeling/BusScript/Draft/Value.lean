import BusScript.Catalog.Spec
import BusScript.Isa.Opcode

namespace BusScript

inductive Value where
  | reg (r : Nat)
  /-- Text in the packet buffer. -/
  | buffer
  | cell (kind : CellKind) (index : Nat)
  | float (x : Number)
  | role (role : Nat)
  | register (role : Nat) (packet : PacketSpec)
  | event (role : Nat) (packet : PacketSpec)
  | command (role : Nat) (packet : PacketSpec)
  /-- A register of several fields, read into the packet buffer. -/
  | fields (role : Nat) (packet : PacketSpec)
  | function (index : Nat)
  deriving Repr

namespace Value

def isNumber : Value → Bool
  | .reg _ => true
  | .cell .. => true
  | .float _ => true
  | _ => false

def isVariable : Value → Bool
  | .cell .local _ => true
  | .cell .global _ => true
  | _ => false

def describe : Value → String
  | .reg _ => "a number"
  | .cell .. => "a number"
  | .float _ => "a number"
  | .buffer => "a string"
  | .role _ => "a role"
  | .register .. => "a register"
  | .event .. => "an event"
  | .command .. => "a command"
  | .fields .. => "a multi-field value"
  | .function _ => "a function"

end Value

end BusScript
