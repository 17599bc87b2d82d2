import BusScript.Image.Verify
import BusScript.Machine.Schedule

/-!
The calls through which a host drives a machine. Nothing runs between calls: the host delivers packets
and news of devices, and calls `tick` when `nextDeadline?` has come.

Programs can keep a call busy for ever, so every call takes fuel; a call that does not end on its fuel
gives nothing.
-/

namespace BusScript

abbrev Called := Except MachineError Unit × Machine

namespace Machine

/-- A machine with an image that passes the checks. The program does not run before `start`. -/
def new (bytes : Bytes) (host : Host) (config : Config) (random : Random) :
    Except ImageError Machine := do
  let image ← Image.load bytes
  image.verify
  return {
    image
    config
    host
    registers := .zero
    operands := {}
    globals := Array.replicate image.numGlobals 0
    roles := image.roles.toList.map Role.ofClass
    packet := {}
    wokenBy := none
    fibers := []
    nextFiberId := 0
    cache := .new config.cacheCapacity
    random
    panic := none
    nextAutobind := host.now + config.autobindInterval
    signals := []
    overrun := none }

/-- Drops what the program did and all bindings. -/
def reset (m : Machine) : Machine :=
  { m with
    registers := .zero
    operands := {}
    globals := Array.replicate m.globals.size 0
    roles := m.roles.map ({ · with binding := none })
    packet := {}
    wokenBy := none
    fibers := []
    cache := .new m.config.cacheCapacity
    panic := none
    nextAutobind := m.host.now + m.config.autobindInterval
    signals := []
    overrun := none }

/-- When the next `tick` has something to do; none once the program has stopped. -/
def nextDeadline? (m : Machine) : Option Nat :=
  if m.panic.isSome then none
  else some ((m.fibers.filterMap (·.wakeAt)).foldl min m.nextAutobind)

/-- Ends a call: a failure comes first, then the first fiber that ran too long. -/
def conclude : EStateM.Result Interrupt Machine Unit → Option Called
  | .ok () m =>
    let outcome := match m.overrun with
      | none => .ok ()
      | some (function, steps) => .error (.timeout function steps)
    some (outcome, { m with overrun := none })
  | .error (.failed e) m => some (.error e, { m with overrun := none })
  | .error .outOfFuel _ => none

/-- Does something unless the program has stopped. -/
def call (act : Scheduling Unit) (m : Machine) : Option Called :=
  if m.panic.isSome then some (.ok (), m) else conclude (act m)

end Machine

namespace Scheduling

def startMain : Scheduling Unit := fun m =>
  match startFiber 0 [] .background m with
  | .ok () m => .ok () m
  | .error fault m => fail fault m

def wakeBound : List Nat → Scheduling Unit
  | [] => return ()
  | role :: rest => do
    wakeRole role {}
    wakeBound rest

def autobind : Scheduling Unit := do
  let m ← get
  let result := Roles.autobind m.roles m.host.devices
  set { m with roles := result.roles }
  wakeBound result.bound

def autobindIfDue : Scheduling Unit := do
  let m ← get
  let now := m.host.now
  if m.nextAutobind ≤ now then
    set { m with nextAutobind := now + m.config.autobindInterval }
    autobind

def deliver (p : Packet) : List Nat → Scheduling Unit
  | [] => return ()
  | index :: rest => do
    let m ← get
    if m.roles[index]?.any (·.receives p) then
      set { m with cache := m.cache.update index p m.host.now }
      wakeRole index p
    deliver p rest

def detach (m : Machine) (role : Nat) : Machine := { m with cache := m.cache.detach role }

/-- Drops the cached values of roles that lost their device and wakes those who observe them. After a
failure no one is woken any more, but the values still go. -/
def wakeDropped (device : DeviceId) : List Nat → Scheduling Unit
  | [] => return ()
  | role :: rest => fun m =>
    match wakeRole role { device } (detach m role) with
    | .ok () m => wakeDropped device rest m
    | .error e m => .error e (rest.foldl detach m)

def dropDevice (device : DeviceId) : Scheduling Unit := do
  let m ← get
  let (roles, dropped) := Roles.unbind m.roles device
  set { m with roles }
  wakeDropped device dropped

end Scheduling

namespace Machine

def start (fuel : Nat) : Machine → Option Called :=
  call do
    Scheduling.startMain
    Scheduling.settle fuel

def tick (fuel : Nat) : Machine → Option Called :=
  call do
    Scheduling.autobindIfDue
    Scheduling.settle fuel

def processPacket (fuel : Nat) (p : Packet) : Machine → Option Called :=
  call do
    Scheduling.deliver p (List.range (← get).roles.length)
    Scheduling.settle fuel

def deviceConnected (fuel : Nat) : Machine → Option Called :=
  call do
    Scheduling.autobind
    Scheduling.settle fuel

def deviceDisconnected (fuel : Nat) (device : DeviceId) : Machine → Option Called :=
  call do
    Scheduling.dropDevice device
    Scheduling.settle fuel

end Machine

end BusScript
