import BusScript.Bus.Command
import BusScript.Isa.Field
import BusScript.Text.Hex

namespace BusScript

structure DeviceId where
  val : UInt64
  deriving DecidableEq, Repr, Inhabited

def DeviceId.text (d : DeviceId) : String := Text.hexPadded 16 d.val.toNat

structure Packet where
  device : DeviceId := ⟨0⟩
  service : UInt8 := 0
  code : CommandCode := 0
  /-- Sent to the device rather than reported by it. -/
  isCommand : Bool := false
  data : Bytes := #[]
  deriving DecidableEq, Repr, Inhabited

namespace Packet

def report (device : DeviceId) (service : UInt8) (code : CommandCode) (data : Bytes) : Packet :=
  ⟨device, service, code, false, data⟩

def command (device : DeviceId) (service : UInt8) (code : CommandCode) (data : Bytes) : Packet :=
  ⟨device, service, code, true, data⟩

def event (device : DeviceId) (service : UInt8) (number : UInt8) (data : Bytes) : Packet :=
  report device service (CommandCode.event number) data

def isReport (p : Packet) : Bool := !p.isCommand

def eventNumber? (p : Packet) : Option Nat :=
  if p.isReport && CommandCode.isEvent p.code then some (CommandCode.eventNumber p.code) else none

def register? (p : Packet) : Option Nat :=
  if CommandCode.isGet p.code || CommandCode.isSet p.code then some (CommandCode.register p.code)
  else none

def field? (p : Packet) (format : FieldFormat) (offset : Nat) : Option Number :=
  format.read? p.data offset

/-- Writes a field, lengthening the payload to make room. -/
def setField (p : Packet) (format : FieldFormat) (offset : Nat) (x : Number) : Packet :=
  { p with data := format.write (p.data.growTo (offset + format.size)) offset (format.clamp x) }

def text (p : Packet) : String :=
  let direction := if p.isCommand then "to" else "from"
  let kind :=
    match p.eventNumber?, p.register? with
    | some number, _ => "event " ++ Text.hexMarkedPadded 4 number
    | none, some register =>
      (if CommandCode.isGet p.code then "get" else "set") ++ " reg "
        ++ Text.hexMarkedPadded 5 register
    | none, none => "cmd " ++ Text.hexMarkedPadded 6 p.code.toNat
  let payload := if p.data.isEmpty then "" else " " ++ Text.hexBytes p.data
  direction ++ " " ++ p.device.text ++ "/" ++ toString p.service.toNat ++ " " ++ kind ++ payload

end Packet

end BusScript
