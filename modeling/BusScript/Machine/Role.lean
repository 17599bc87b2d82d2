import BusScript.Bus.Condition
import BusScript.Bus.Packet

namespace BusScript

structure Device where
  id : DeviceId
  /-- The class of each service; the first one is the device's control service. -/
  services : List UInt32
  deriving DecidableEq, Repr

structure Binding where
  device : DeviceId
  service : UInt8
  deriving DecidableEq, Repr

def Binding.text (b : Binding) : String := b.device.text ++ "/" ++ toString b.service.toNat

structure Role where
  classId : UInt32
  /-- Served by the machine itself and never bound. -/
  isLocal : Bool
  binding : Option Binding := none
  deriving DecidableEq, Repr

namespace Role

def ofClass (classId : UInt32) : Role := { classId, isLocal := classId == Condition.classId }

def isConnected (r : Role) : Bool := r.isLocal || r.binding.isSome

/-- Whether a packet comes from the service that the role is bound to. What a device announces about
itself is for all of its services. -/
def receives (r : Role) (p : Packet) : Bool :=
  r.binding.any fun b =>
    b.device == p.device && (b.service == p.service || (p.service == 0 && p.code == 0))

def command? (r : Role) (code : CommandCode) (data : Bytes) : Option Packet :=
  r.binding.map fun b => .command b.device b.service code data

end Role

/-- Services from this index on are never bound. -/
def maxServices : Nat := 32

/-- The first service of a class that is not held, the control service apart. -/
def Device.freeService? (d : Device) (classId : UInt32) (held : List Binding) : Option Binding :=
  ((d.services.zipIdx.take maxServices).drop 1).findSome? fun (cls, index) =>
    let b : Binding := ⟨d.id, index.toUInt8⟩
    if cls == classId && !held.contains b then some b else none

namespace Roles

def held (roles : List Role) : List Binding := roles.filterMap (·.binding)

/-- Binds roles from index `index` on, each to the first free service of its class. Gives the roles and
the indices of those newly bound. -/
def bindEach (devices : List Device) (held : List Binding) (index : Nat) :
    List Role → List Role × List Nat
  | [] => ([], [])
  | role :: rest =>
    if role.isConnected then
      let (roles, bound) := bindEach devices held (index + 1) rest
      (role :: roles, bound)
    else
      match devices.findSome? (·.freeService? role.classId held) with
      | some b =>
        let (roles, bound) := bindEach devices (b :: held) (index + 1) rest
        ({ role with binding := some b } :: roles, index :: bound)
      | none =>
        let (roles, bound) := bindEach devices held (index + 1) rest
        (role :: roles, bound)

def byId (devices : List Device) : List Device :=
  devices.mergeSort fun a b => decide (a.id.val ≤ b.id.val)

structure Bound where
  roles : List Role
  devices : List Device
  bound : List Nat

def autobind (roles : List Role) (devices : List Device) : Bound :=
  if roles.all Role.isConnected then ⟨roles, devices, []⟩
  else
    let devices := byId devices
    let (roles, bound) := bindEach devices (held roles) 0 roles
    ⟨roles, devices, bound⟩

def isOn (device : DeviceId) (role : Role) : Bool := role.binding.any (·.device == device)

/-- Takes the roles off a device. Gives the roles and the indices of those dropped. -/
def unbind (roles : List Role) (device : DeviceId) : List Role × List Nat :=
  (roles.map fun r => if isOn device r then { r with binding := none } else r,
    (roles.zipIdx.filter fun (r, _) => isOn device r).map (·.2))

end Roles

end BusScript
