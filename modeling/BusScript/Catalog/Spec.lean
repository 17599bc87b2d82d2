import BusScript.Bus.Command
import BusScript.Isa.Field
import BusScript.Text.Case

namespace BusScript

inductive PacketKind where
  | const
  | readOnly
  | readWrite
  | event
  | command
  | report
  deriving DecidableEq, Repr

namespace PacketKind

def name : PacketKind → String
  | .const => "Const"
  | .readOnly => "Ro"
  | .readWrite => "Rw"
  | .event => "Event"
  | .command => "Command"
  | .report => "Report"

def ofKeyword? : String → Option PacketKind
  | "const" => some .const
  | "ro" => some .readOnly
  | "rw" => some .readWrite
  | "event" => some .event
  | "command" => some .command
  | "report" => some .report
  | _ => none

def isRegister (k : PacketKind) : Bool := k = .const || k = .readOnly || k = .readWrite

def isMember (k : PacketKind) : Bool := k != .report

end PacketKind

structure FieldSpec where
  name : String
  /-- The width in bytes, negative for signed integers. -/
  storage : Int
  /-- Bits behind the binary point. -/
  shift : Nat := 0
  isFloat : Bool := false
  deriving DecidableEq, Repr

namespace FieldSpec

def size (f : FieldSpec) : Nat := f.storage.natAbs

def isSigned (f : FieldSpec) : Bool := f.storage < 0

def format? (f : FieldSpec) : Option FieldFormat :=
  if f.isFloat then FieldFormat.float? f.size else FieldFormat.int? f.size f.isSigned

def isNamed (f : FieldSpec) (id : String) : Bool := f.name == id || Text.camelCase f.name == id

end FieldSpec

structure PacketSpec where
  name : String
  kind : PacketKind
  identifier : UInt16
  fields : List FieldSpec := []
  deriving DecidableEq, Repr

namespace PacketSpec

def payloadSize (p : PacketSpec) : Nat := p.fields.foldr (fun f total => f.size + total) 0

def getCode (p : PacketSpec) : CommandCode := CommandCode.getReg p.identifier

def setCode (p : PacketSpec) : CommandCode := CommandCode.setReg p.identifier

def isNamed (p : PacketSpec) (id : String) : Bool := p.name == id || Text.camelCase p.name == id

end PacketSpec

structure ServiceSpec where
  name : String
  classId : UInt32
  packets : List PacketSpec := []
  deriving DecidableEq, Repr

/-- Sensors can be asked to send readings unasked. -/
def ServiceSpec.isSensor (s : ServiceSpec) : Bool :=
  s.packets.any fun p => p.kind.isRegister && p.identifier == streamingSamplesRegister

end BusScript
