import BusScript.Draft.Bus

/-!
The procedures behind subscriptions. Each role that a script subscribed to has a dispatcher, which
observes the role for ever and starts handlers; one refresh loop keeps asking for the registers that
are watched for changes.

Handlers are started so that one which still runs when its trigger comes again runs once more.
-/

namespace BusScript

namespace Lowering

open CodeWriter

def refreshPeriod : Nat := 521

def streamingSamples : Nat := 255

def startHandler (index : Nat) : Lowering Unit := emitCall index 0 .backgroundPending

def startHandlers : List Nat → Lowering Unit
  | [] => return ()
  | index :: rest => do
    startHandler index
    startHandlers rest

def requestStreaming (role : Nat) : Lowering Unit := do
  push
  allocBuffer
  emitSync .setupBuffer 1 0 0 0
  let r ← allocReg
  loadFloat r (Number.ofNat streamingSamples)
  emitStore r .buffer FieldFormat.u8.code 0
  emitAsync .sendCmd role (CommandCode.setReg streamingSamplesRegister).toNat 0
  pop

def requestRegister (role : Nat) (packet : PacketSpec) : Lowering Unit := do
  push
  allocBuffer
  emitSync .setupBuffer 0 0 0 0
  emitAsync .sendCmd role packet.getCode.toNat 0
  pop

def requestAll (role : Nat) (service : ServiceSpec) : List PacketSpec → Lowering Unit
  | [] => return ()
  | packet :: rest => do
    if service.isSensor && packet.identifier == readingRegister then requestStreaming role
    else requestRegister role packet
    requestAll role service rest

def refreshRole (role : Nat) (entry : RoleEntry) : Lowering Unit := do
  let skip ← newLabel "not_connected"
  push
  let r ← loadConnected role
  emitJump skip (some r)
  pop
  requestAll role entry.service entry.refreshed
  bindLabel skip

def refreshRoles : List (RoleEntry × Nat) → Lowering Unit
  | [] => return ()
  | (entry, role) :: rest => do
    if !entry.refreshed.isEmpty then refreshRole role entry
    refreshRoles rest

def refreshLoop : Lowering Unit := do
  refreshRoles (← get).roles.toList.zipIdx
  emitAsync .pause refreshPeriod 0 0
  emitJump topLabel none
  emitReturn

/-- Remembers whether the role is connected, and starts the handlers of that if it is. Gives the slot
in which the state is kept. -/
def connectionPrologue (role : Nat) (dispatcher : Dispatcher) : Lowering Nat := do
  let slot ← addHiddenLocal "connected"
  push
  let r ← loadConnected role
  emitStore r .local slot 0
  if !dispatcher.connected.isEmpty then
    let skip ← newLabel "skip_connected"
    emitJump skip (some r)
    startHandlers dispatcher.connected
    bindLabel skip
  pop
  return slot

/-- Gives each watch a slot for the last value, NaN at first. -/
def watchSlots : List Watch → Lowering (List (Watch × Nat))
  | [] => return []
  | watch :: rest => do
    let slot ← addHiddenLocal s!"{watch.packet.name}_prev"
    emitLoad 0 .special SpecialValue.nan.code 0
    emitStore 0 .local slot 0
    let slots ← watchSlots rest
    return (watch, slot) :: slots

def checkConnection (role slot : Nat) (dispatcher : Dispatcher) : Lowering Unit := do
  let unchanged ← newLabel "unchanged"
  let down ← newLabel "disconnected"
  push
  let now ← loadConnected role
  let changed ← allocReg
  emitLoad changed .local slot 0
  emitBinary .ne changed now
  emitJump unchanged (some changed)
  emitStore now .local slot 0
  emitJump down (some now)
  pop
  startHandlers dispatcher.connected
  emitJump unchanged none
  bindLabel down
  startHandlers dispatcher.disconnected
  bindLabel unchanged

def checkEvents : List (UInt16 × Nat) → Lowering Unit
  | [] => return ()
  | (code, index) :: rest => do
    let skip ← newLabel "skip_event"
    push
    let hit ← checkCode .eventCode code
    emitJump skip (some hit)
    pop
    startHandler index
    bindLabel skip
    checkEvents rest

/-- Starts the handler of a watch if a report moved the value past the threshold. The first report
always does: no comparison with NaN holds. -/
def checkWatch (watch : Watch) (slot : Nat) (field : FieldSpec) : Lowering Unit := do
  let skip ← newLabel "skip_change"
  push
  let hit ← checkCode .registerGetCode watch.packet.identifier
  emitJump skip (some hit)
  let value ← allocReg
  loadField value field 0
  let moved ← allocReg
  emitLoad moved .local slot 0
  emitBinary .sub moved value
  emitUnary .abs moved moved
  let limit ← allocReg
  loadFloat limit watch.threshold
  emitBinary .le moved limit
  emitUnary .not moved moved
  emitJump skip (some moved)
  emitStore value .local slot 0
  pop
  startHandler watch.handler
  bindLabel skip

def checkWatches : List (Watch × Nat) → Lowering Unit
  | [] => return ()
  | (watch, slot) :: rest => do
    match watch.packet.fields with
    | field :: _ => checkWatch watch slot field
    | [] => pure ()
    checkWatches rest

def dispatchLoop (role : Nat) (dispatcher : Dispatcher) (refresh : Option Nat) : Lowering Unit := do
  match refresh with
  | some index => emitCall index 0 .backgroundOnce
  | none => pure ()
  let slot ← connectionPrologue role dispatcher
  let slots ← watchSlots dispatcher.watches
  let again ← newLabel "observe"
  bindLabel again
  emitSync .observeRole role 0 0 0
  emitAsync .pause 0 0 0
  if !dispatcher.connected.isEmpty || !dispatcher.disconnected.isEmpty then
    checkConnection role slot dispatcher
  checkEvents dispatcher.events
  checkWatches slots
  emitJump again none
  emitReturn

def lowerDispatchers (refresh : Option Nat) : List (RoleEntry × Nat) → Lowering Unit
  | [] => return ()
  | (entry, role) :: rest => do
    match entry.dispatcher with
    | some dispatcher =>
      let refresh := if entry.refreshed.isEmpty then none else refresh
      reporting (inProcedure dispatcher.procedure (dispatchLoop role dispatcher refresh))
    | none => pure ()
    lowerDispatchers refresh rest

def dispatchers : Lowering Unit := do
  let roles := (← get).roles
  let refresh ←
    if roles.any fun entry => !entry.refreshed.isEmpty then do
      let index ← addProcedure "_autoRefresh_" 0
      reporting (inProcedure index refreshLoop)
      pure (some index)
    else pure none
  lowerDispatchers refresh roles.toList.zipIdx

end Lowering

end BusScript
