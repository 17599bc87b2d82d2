import BusScript.Machine.Role

namespace BusScript

structure Host where
  /-- The clock, in milliseconds. It stands still during a call of the machine. -/
  now : Nat := 0
  devices : List Device := []
  /-- How many packets can still be sent; all if none is given. -/
  sendsLeft : Option Nat := none
  sent : Array Packet := #[]
  logs : Array String := #[]
  uploads : Array (String × List Number) := #[]
  deriving DecidableEq, Repr

namespace Host

/-- The bus after a packet went out; none if the bus is down. -/
def send? (h : Host) (p : Packet) : Option Host :=
  match h.sendsLeft with
  | some 0 => none
  | some (n + 1) => some { h with sendsLeft := some n, sent := h.sent.push p }
  | none => some { h with sent := h.sent.push p }

def log (h : Host) (message : String) : Host := { h with logs := h.logs.push message }

def upload (h : Host) (label : String) (values : List Number) : Host :=
  { h with uploads := h.uploads.push (label, values) }

def addDevice (h : Host) (d : Device) : Host := { h with devices := h.devices ++ [d] }

def removeDevice (h : Host) (id : DeviceId) : Host :=
  { h with devices := h.devices.filter (·.id != id) }

def clearOutput (h : Host) : Host := { h with sent := #[], logs := #[], uploads := #[] }

end Host

end BusScript
