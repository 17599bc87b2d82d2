import BusScript.Machine.Call

namespace BusScript

inductive RunnerState where
  /-- Waiting for devices to announce themselves; roles are bound already. -/
  | initializing
  | running
  /-- Stopped for good. -/
  | error
  deriving DecidableEq, Repr

structure Runner where
  machine : Machine
  config : RunnerConfig
  state : RunnerState
  /-- When the program starts, while initializing. -/
  startAt : Nat

/-- The outcome of a call, with the code of the program's stop if it stopped, and the runner after it. -/
abbrev Polled := Except MachineError (Option Nat) × Runner

namespace Runner

def new (machine : Machine) (config : RunnerConfig) : Runner where
  machine
  config
  state := .initializing
  startAt := machine.host.now + config.startDelay

def restart (r : Runner) : Runner :=
  let machine := r.machine.reset
  { r with machine, state := .initializing, startAt := machine.host.now + r.config.startDelay }

def reported : PanicCode → Nat
  | .restart => 0
  | code => code.code

/-- Turns the outcome of a machine call into the runner's. -/
def settle (r : Runner) : Called → Polled
  | (.ok (), machine) => (.ok none, { r with machine })
  | (.error e, machine) =>
    let r := { r with machine }
    let stopped := if r.config.autoRestart then r.restart else { r with state := .error }
    match e with
    | .panicked .restart => (.ok (some (reported .restart)), r.restart)
    | .panicked code => (.ok (some (reported code)), stopped)
    | .host message => (.error (.host message), stopped)
    | e => (.error e, r)

def call (act : Machine → Option Called) (r : Runner) : Option Polled :=
  if r.state = .error then some (.ok none, r) else (act r.machine).map r.settle

/-- Brings the program up to the current time, and starts it when its time has come. -/
def poll (fuel : Nat) (r : Runner) : Option Polled :=
  match r.state with
  | .error => some (.ok none, r)
  | .running => (r.machine.tick fuel).map r.settle
  | .initializing =>
    match r.machine.tick fuel with
    | none => none
    | some (.ok (), machine) =>
      if machine.host.now < r.startAt then some (.ok none, { r with machine })
      else
        let r := { r with machine, state := .running }
        (machine.start fuel).map r.settle
    | some (.error e, machine) => some (r.settle (.error e, machine))

def processPacket (fuel : Nat) (p : Packet) : Runner → Option Polled :=
  call (Machine.processPacket fuel p)

def deviceConnected (fuel : Nat) : Runner → Option Polled := call (Machine.deviceConnected fuel)

def deviceDisconnected (fuel : Nat) (device : DeviceId) : Runner → Option Polled :=
  call (Machine.deviceDisconnected fuel device)

def nextDeadline? (r : Runner) : Option Nat :=
  match r.state with
  | .error => none
  | .running => r.machine.nextDeadline?
  | .initializing =>
    match r.machine.nextDeadline? with
    | some t => some (min t r.startAt)
    | none => some r.startAt

end Runner

end BusScript
