import BusScript.Bus.Condition
import BusScript.Catalog.Basic

namespace BusScript.Builtin

def buttonClass : UInt32 := 0x1473a263

def switchClass : UInt32 := 0x1ad29402

def potentiometerClass : UInt32 := 0x1f274746

def thermometerClass : UInt32 := 0x1421bac7

def servoClass : UInt32 := 0x12fc9103

def ledClass : UInt32 := 0x1e3048f8

def relayClass : UInt32 := 0x183fe656

def event (name : String) (identifier : UInt16) (fields : List FieldSpec) : PacketSpec :=
  ⟨name, .event, identifier, fields⟩

def command (name : String) (identifier : UInt16) (fields : List FieldSpec) : PacketSpec :=
  ⟨name, .command, identifier, fields⟩

def register (name : String) (kind : PacketKind) (identifier : UInt16) (storage : Int)
    (shift : Nat) : PacketSpec :=
  ⟨name, kind, identifier, [⟨name, storage, shift, false⟩]⟩

def byteField (name : String) : FieldSpec := ⟨name, 1, 0, false⟩

def system : ServiceSpec where
  name := "_system"
  classId := 0
  packets := [
    ⟨"intensity", .readWrite, 0x01, []⟩,
    ⟨"value", .readWrite, 0x02, []⟩,
    ⟨"streaming_samples", .readWrite, 0x03, []⟩,
    ⟨"streaming_interval", .readWrite, 0x04, []⟩,
    ⟨"low_threshold", .readWrite, 0x05, []⟩,
    ⟨"high_threshold", .readWrite, 0x06, []⟩,
    ⟨"max_power", .readWrite, 0x07, []⟩,
    ⟨"reading_range", .readWrite, 0x08, []⟩,
    ⟨"reading", .readOnly, 0x101, []⟩,
    ⟨"streaming_preferred_interval", .const, 0x102, []⟩,
    ⟨"status_code", .readOnly, 0x103, []⟩,
    ⟨"min_reading", .const, 0x104, []⟩,
    ⟨"max_reading", .const, 0x105, []⟩,
    ⟨"reading_error", .readOnly, 0x106, []⟩,
    ⟨"variant", .const, 0x107, []⟩,
    ⟨"reading_resolution", .const, 0x108, []⟩,
    ⟨"min_value", .const, 0x110, []⟩,
    ⟨"max_value", .const, 0x111, []⟩,
    event "active" 0x01 [],
    event "inactive" 0x02 [],
    event "change" 0x03 [],
    event "status_code_changed" 0x04 [],
    command "announce" 0x00 [],
    command "calibrate" 0x02 []]

/-- The registers that control how a sensor streams its reading. -/
def streaming : List PacketSpec := [
  ⟨"streaming_samples", .readWrite, 0x03, [byteField "samples"]⟩,
  ⟨"streaming_interval", .readWrite, 0x04, [⟨"interval", 4, 0, false⟩]⟩]

def button : ServiceSpec where
  name := "button"
  classId := buttonClass
  packets := [
    register "pressure" .readOnly 0x101 2 16,
    register "analog" .const 0x180 1 0,
    event "pressed" 0x01 [],
    event "released" 0x02 [⟨"time", 4, 0, false⟩],
    event "hold" 0x81 [⟨"time", 4, 0, false⟩]] ++ streaming

def switch : ServiceSpec where
  name := "switch"
  classId := switchClass
  packets := [
    register "active" .readOnly 0x101 1 0,
    event "on" 0x01 [],
    event "off" 0x02 []] ++ streaming

def potentiometer : ServiceSpec where
  name := "potentiometer"
  classId := potentiometerClass
  packets := [register "position" .readOnly 0x101 2 16] ++ streaming

def thermometer : ServiceSpec where
  name := "thermometer"
  classId := thermometerClass
  packets := [
    register "temperature" .readOnly 0x101 (-4) 10,
    register "min_temperature" .const 0x104 (-4) 10,
    register "max_temperature" .const 0x105 (-4) 10,
    register "temperature_error" .readOnly 0x106 4 10] ++ streaming

def servo : ServiceSpec where
  name := "servo"
  classId := servoClass
  packets := [
    register "angle" .readWrite 0x02 (-4) 16,
    register "enabled" .readWrite 0x01 1 0,
    register "offset" .readWrite 0x81 (-4) 16,
    register "min_angle" .const 0x110 (-4) 16,
    register "max_angle" .const 0x111 (-4) 16]

def colorFields : List FieldSpec := [byteField "red", byteField "green", byteField "blue"]

def led : ServiceSpec where
  name := "led"
  classId := ledClass
  packets := [
    register "brightness" .readWrite 0x01 2 16,
    ⟨"color", .readWrite, 0x180, colorFields⟩,
    command "on" 0x80 [],
    command "off" 0x81 [],
    command "set_color" 0x82 colorFields]

def relay : ServiceSpec where
  name := "relay"
  classId := relayClass
  packets := [
    register "active" .readWrite 0x01 1 0,
    register "variant" .const 0x107 1 0,
    event "active" 0x01 [],
    event "inactive" 0x02 []]

def condition : ServiceSpec where
  name := "condition"
  classId := Condition.classId
  packets := [
    command "signal" Condition.signal [],
    event "signalled" Condition.signalled.toUInt16 []]

def services : List ServiceSpec :=
  [button, switch, potentiometer, thermometer, servo, led, relay, condition]

end BusScript.Builtin

namespace BusScript.Catalog

def bare : Catalog := ⟨[], Builtin.system⟩

def builtin : Catalog := bare.registerAll Builtin.services

end BusScript.Catalog
