import BusScript.Machine.Step

/-!
Running fibers, and choosing which fibers run. A fiber runs until it parks or finishes. A pass wakes
the fibers that are due, or those that observe a role, as they were when the pass began.
-/

namespace BusScript

namespace Stepping

/-- Serves the request of the fiber at `index`. Whether the fiber has to stay parked. -/
def serveRequest (index : Nat) : Stepping Bool := do
  let f ← fiber index
  match f.request with
  | none => return false
  | some request =>
    let m ← get
    let r ← role request.role
    match r.binding, request with
    | none, _ =>
      -- the role has to be bound first
      modifyFiber index ({ · with wakeAt := none })
      return true
    | some b, .send _ code payload =>
      send (.command b.device b.service code payload)
      modifyFiber index ({ · with request := none })
      return false
    | some b, .query roleIdx code resend =>
      let now := m.host.now
      let entry : Option CachedRegister :=
        if r.receives m.packet then
          CachedRegister.update? { role := roleIdx, code } roleIdx m.packet now
        else none
      match entry with
      | some entry =>
        set { m with cache := m.cache.add entry }
        modifyFiber index ({ · with request := none })
        return false
      | none =>
        if f.wakeAt.all (· ≤ now) then
          let later := Request.query roleIdx code (min (2 * resend) m.config.resendMax)
          modifyFiber index
            ({ · with request := some later, wakeAt := some (now + resend) })
          send (.command b.device b.service code #[])
        return true

/-- Makes the fiber at `index` go on, if its request has been served. Whether it does. -/
def resume (index : Nat) : Stepping Bool := do
  if ← serveRequest index then return false
  modifyFiber index ({ · with wakeAt := none, observed := none })
  restoreRegs index
  return true

/-- The fiber at `index` has finished. It goes away, unless it was told to run once more. Whether it
runs on. -/
def finish (index : Nat) : Stepping Bool := do
  if (← fiber index).isPending then
    modifyFiber index fun f => { f with isPending := false, frame := f.frame.restart }
    return true
  else
    modify fun m => { m with fibers := m.fibers.eraseIdx index }
    return false

def runWords (index budget : Nat) : (left : Nat) → Stepping Unit
  | 0 => do throw (.timeout (← fiber index).frame.function budget)
  | left + 1 => do
    match ← step index with
    | .next => runWords index budget left
    | .park => return ()
    | .finish => if ← finish index then runWords index budget left
    | .stop code => throw (.panic code)

/-- Runs the fiber at `index` until it parks or finishes. The budget is one word at least. -/
def runFiber (index : Nat) : Stepping Unit := do
  if ← resume index then
    let budget := max (← get).config.stepBudget 1
    runWords index budget budget

end Stepping

inductive Interrupt where
  | failed (error : MachineError)
  | outOfFuel
  deriving DecidableEq, Repr

abbrev Scheduling := EStateM Interrupt Machine

namespace Machine

/-- Stops the program. The first reason counts. -/
def latch (m : Machine) (code : PanicCode) : Machine := { m with panic := m.panic <|> some code }

def betweenFibers (m : Machine) : Machine := { m with operands := {} }

end Machine

namespace Scheduling

/-- Stops the program because of a fault, and tells the host. -/
def fail (fault : Fault) (m : Machine) : EStateM.Result Interrupt Machine Unit :=
  match fault with
  | .panic code => .error (.failed (.panicked code)) (m.latch code)
  | .invalid _ => .error (.failed (.panicked .internal)) (m.latch .internal)
  | .host message => .error (.failed (.host message)) (m.latch .internal)
  | .timeout function steps => .error (.failed (.timeout function steps)) (m.latch .internal)

/-- Runs the fiber at `index`. One that runs too long is removed; the others are not affected. -/
def run (index : Nat) : Scheduling Unit := fun m =>
  if m.panic.isSome then .ok () m
  else
    match Stepping.runFiber index m with
    | .ok () m => .ok () m.betweenFibers
    | .error (.timeout function steps) m =>
      let m := m.betweenFibers
      .ok () { m with
        fibers := m.fibers.eraseIdx index
        overrun := m.overrun <|> some (function, steps) }
    | .error fault m => fail fault m.betweenFibers

def fiberIndex? (m : Machine) (id : UInt32) : Option Nat := m.fibers.findIdx? (·.id == id)

def runDue (now : Nat) : List UInt32 → Scheduling Unit
  | [] => return ()
  | id :: rest => do
    let m ← get
    if m.panic.isSome then return ()
    match fiberIndex? m id with
    | some index => if m.fibers[index]?.any (·.isDue now) then run index
    | none => pure ()
    runDue now rest

def wakeDue : (fuel : Nat) → Scheduling Unit
  | 0 => throw .outOfFuel
  | fuel + 1 => do
    let m ← get
    let now := m.host.now
    let due := m.fibers.filter (·.isDue now)
    if !due.isEmpty then
      runDue now (due.map (·.id))
      wakeDue fuel

def runWoken (role : Nat) (p : Packet) (index : Nat) : Scheduling Unit := fun m =>
  match run index { m with packet := p, wokenBy := some role } with
  | .ok () m => .ok () { m with wokenBy := none }
  | .error e m => .error e { m with wokenBy := none }

def runObservers (role : Nat) (p : Packet) : List UInt32 → Scheduling Unit
  | [] => return ()
  | id :: rest => do
    let m ← get
    match fiberIndex? m id with
    | some index =>
      if m.fibers[index]?.any (·.observed == some role) then runWoken role p index
    | none => pure ()
    runObservers role p rest

def wakeRole (role : Nat) (p : Packet) : Scheduling Unit := do
  modify ({ · with packet := p })
  let waiting := (← get).fibers.filter (·.observed == some role)
  runObservers role p (waiting.map (·.id))

def signalPacket : Packet := .event ⟨0⟩ 0 Condition.signalled #[]

def wakeSignalled : List Nat → Scheduling Unit
  | [] => return ()
  | role :: rest => do
    wakeRole role signalPacket
    wakeSignalled rest

/-- Delivers signals and runs what is due until nothing is left to do at this time. -/
def settle : (fuel : Nat) → Scheduling Unit
  | 0 => throw .outOfFuel
  | fuel + 1 => do
    let signals := (← get).signals
    modify ({ · with signals := [] })
    wakeSignalled signals
    modify ({ · with packet := {} })
    wakeDue fuel
    let m ← get
    if !m.signals.isEmpty && m.panic.isNone then settle fuel

end Scheduling

end BusScript
