import BusScript.Bus.Condition
import BusScript.Draft.Operand

namespace BusScript

/-- A call as it is written, with its arguments. -/
structure CallSite where
  span : Span
  args : List Part

namespace Lowering

open CodeWriter

def readValidity : Nat := 500

def requireArgs (name : String) (call : CallSite) (expected : Nat) : Lowering Unit := do
  let got := call.args.length
  if got ≠ expected then rejectAt call.span (.argumentCount name expected got)

def noArgs (name : String) (call : CallSite) : Lowering Unit := requireArgs name call 0

def oneArg (name : String) (call : CallSite) : Lowering Part := do
  match call.args with
  | [p] => return p
  | args => rejectAt call.span (.argumentCount name 1 args.length)

def twoArgs (name : String) (call : CallSite) : Lowering (Part × Part) := do
  match call.args with
  | [p, q] => return (p, q)
  | args => rejectAt call.span (.argumentCount name 2 args.length)

def literalNumber (p : Part) : Lowering Number := do
  match p.expr.signedNumber? with
  | some x => return x
  | none => rejectAt p.expr.span .literalRequired

def literalString (p : Part) : Lowering String := do
  match p.expr.string? with
  | some s => return s
  | none => rejectAt p.expr.span .literalRequired

def emitPause (ms : UInt32) : Lowering Unit := do
  if ms = 0xffffffff then abort .pauseOverflow
  emitAsync .pause (ms.toNat + 1) 0 0

def unknownMember {α : Type} (role : Nat) (member : Ident) : Lowering α := do
  rejectAt member.span (.unknownMember ((← get).roleName role) member.name)

def roleEntry (role : Nat) : Lowering RoleEntry := do
  match (← get).roles[role]? with
  | some entry => return entry
  | none => reject .valueRequired

def packetNamed (role : Nat) (member : Ident) : Lowering PacketSpec := do
  let entry ← roleEntry role
  match (← get).catalog.member? entry.service member.name with
  | some packet => return packet
  | none => unknownMember role member

def roleMember (role : Nat) (member : Ident) : Lowering Value := do
  let packet ← packetNamed role member
  match packet.kind with
  | .event => return .event role packet
  | .command => return .command role packet
  | _ => return .register role packet

/-- Asks for a register; its value ends up in the packet buffer. -/
def emitQuery (role : Nat) (packet : PacketSpec) : Lowering Unit :=
  emitAsync .queryReg role packet.identifier.toNat (if packet.kind = .const then 0 else readValidity)

def readField (role : Nat) (packet : PacketSpec) (field : FieldSpec) (offset : Nat) :
    Lowering Value := do
  push
  allocBuffer
  emitQuery role packet
  let r ← allocReg
  loadField r field offset
  popExcept (some r)
  return .reg r

/-- Reads a register: one field into a register, several into the packet buffer. -/
def readRegister (role : Nat) (packet : PacketSpec) (span : Span) : Lowering Value := do
  match packet.fields with
  | [] => rejectAt span (.unsupported s!"'{packet.name}' has no fields to read")
  | [field] => readField role packet field 0
  | _ =>
    allocBuffer
    emitQuery role packet
    return .fields role packet

def fieldNamed? (member : String) (offset : Nat) : List FieldSpec → Option (FieldSpec × Nat)
  | [] => none
  | field :: rest =>
    if field.isNamed member then some (field, offset)
    else fieldNamed? member (offset + field.size) rest

def readMember (role : Nat) (packet : PacketSpec) (member : Ident) : Lowering Value := do
  match fieldNamed? member.name 0 packet.fields with
  | some (field, offset) => readField role packet field offset
  | none => rejectAt member.span (.unknownMember packet.name member.name)

def storeFields (offset : Nat) : List (Value × FieldSpec) → Lowering Unit
  | [] => return ()
  | (value, field) :: rest => do
    push
    let r ← forceReg value
    storeField r field offset
    pop
    storeFields (offset + field.size) rest

/-- Sends a packet with one argument per field. Arguments are lowered before the buffer is set up,
since an argument may need the buffer itself. -/
def send (role : Nat) (packet : PacketSpec) (code : UInt16) (call : CallSite) : Lowering Unit := do
  requireArgs packet.name call packet.fields.length
  let size := packet.payloadSize
  if maxPayload < size then
    rejectAt call.span (.other s!"'{packet.name}' payload of {size} bytes is too large")
  push
  let values ← numbers call.args
  allocBuffer
  emitSync .setupBuffer size 0 0 0
  storeFields 0 (values.zip packet.fields)
  emitAsync .sendCmd role code.toNat 0
  pop

def loadConnected (role : Nat) : Lowering Nat := do
  let r ← allocReg
  emitLoad r .roleProperty role RoleProperty.isConnected.code
  return r

def checkCode (special : SpecialValue) (code : UInt16) : Lowering Nat := do
  push
  let r ← allocReg
  emitLoad r .special special.code 0
  let t ← allocReg
  loadFloat t (Number.ofNat code.toNat)
  emitBinary .eq r t
  popExcept (some r)
  return r

def waitEvent (role : Nat) (code : UInt16) : Lowering Unit := do
  let again ← newLabel "wait"
  bindLabel again
  emitSync .observeRole role 0 0 0
  emitAsync .pause 0 0 0
  push
  let hit ← checkCode .eventCode code
  emitJump again (some hit)
  pop

def emitReturn : Lowering Unit := do
  bindLabel retLabel
  emitSync .ret 0 0 0 0

/-- Lowers an arrow function into a procedure of its own. With `every`, its body runs again and again,
with a pause of that many milliseconds in front of each run. -/
def handler (name : String) (every : Option UInt32) (p : Part) : Lowering Nat := do
  match p.expr.arrowParams? with
  | none => rejectAt p.expr.span (.unsupported "handlers must be arrow functions")
  | some (_ :: _) => rejectAt p.expr.span (.unsupported "handlers take no parameters")
  | some [] =>
    let index ← addProcedure name 0
    nested <| inProcedure index do
      match every with
      | some ms =>
        emitPause ms
        p.body
        emitJump topLabel none
      | none => p.body
      emitReturn
    return index

/-- The procedure that serves the subscriptions of a role, new on first use. -/
def dispatcherOf (role : Nat) : Lowering Nat := do
  let entry ← roleEntry role
  match entry.dispatcher with
  | some dispatcher => return dispatcher.procedure
  | none =>
    let index ← addProcedure s!"{entry.name}_disp" 0
    modify (·.modifyRole role ({ · with dispatcher := some { procedure := index } }))
    return index

/-- Adds a subscription to a role and starts its dispatcher here. Starting it twice does no harm. -/
def subscribe (role : Nat) (add : Dispatcher → Dispatcher) : Lowering Unit := do
  let index ← dispatcherOf role
  modify (·.modifyRole role fun entry => { entry with dispatcher := entry.dispatcher.map add })
  emitCall index 0 .backgroundOnce

def onEvent (role : Nat) (packet : PacketSpec) (call : CallSite) : Lowering Unit := do
  requireTopLevel "sub()"
  let p ← oneArg "sub" call
  let name := (← get).roleName role
  let index ← handler s!"{name}_{packet.name}" none p
  subscribe role fun d => { d with events := d.events ++ [(packet.identifier, index)] }

def onChange (role : Nat) (packet : PacketSpec) (call : CallSite) : Lowering Unit := do
  requireTopLevel "onChange()"
  let (limit, p) ← twoArgs "onChange" call
  if packet.fields.isEmpty then
    rejectAt call.span (.unsupported s!"'{packet.name}' has no value to watch")
  let threshold ← literalNumber limit
  let name := (← get).roleName role
  let index ← handler s!"{name}_{packet.name}_change" none p
  modify (·.modifyRole role (·.refresh packet))
  subscribe role fun d => { d with watches := d.watches ++ [⟨packet, threshold, index⟩] }

def onConnection (role : Nat) (member : Ident) (call : CallSite)
    (add : Nat → Dispatcher → Dispatcher) : Lowering Unit := do
  requireTopLevel member.name
  let p ← oneArg member.name call
  let name := (← get).roleName role
  let index ← handler s!"{name}_{member.name}" none p
  subscribe role (add index)

/-- Methods without a result count as zero. -/
def noResult (act : Lowering Unit) : Lowering Value := do
  act
  return .float 0

def callRoleMethod (role : Nat) (member : Ident) (call : CallSite) : Lowering Value := do
  let entry ← roleEntry role
  match member.name with
  | "isConnected" =>
    noArgs "isConnected" call
    return .reg (← loadConnected role)
  | "onConnected" =>
    noResult <| onConnection role member call fun h d => { d with connected := d.connected ++ [h] }
  | "onDisconnected" =>
    noResult <| onConnection role member call fun h d =>
      { d with disconnected := d.disconnected ++ [h] }
  | name =>
    if name == "wait" && entry.service.classId == Condition.classId then
      noArgs "wait" call
      match (← get).catalog.member? entry.service "signalled" with
      | some signalled => noResult (waitEvent role signalled.identifier)
      | none => unknownMember role member
    else
      match ← roleMember role member with
      | .command _ packet => noResult (send role packet packet.identifier call)
      | _ => unknownMember role member

def callMethod (object : Value) (member : Ident) (call : CallSite) : Lowering Value := do
  let unknown : Lowering Value :=
    rejectAt member.span (.unknownMember object.describe member.name)
  let eventMethod (role : Nat) (packet : PacketSpec) : Lowering Value := do
    match member.name with
    | "sub" => noResult (onEvent role packet call)
    | "wait" =>
      noArgs "wait" call
      noResult (waitEvent role packet.identifier)
    | _ => unknown
  match object with
  | .role role => callRoleMethod role member call
  | .event role packet => eventMethod role packet
  | .command role packet => eventMethod role packet
  | .register role packet =>
    match member.name with
    | "read" =>
      noArgs "read" call
      readRegister role packet call.span
    | "write" =>
      if packet.kind = .readWrite then noResult (send role packet packet.setCode call)
      else rejectAt member.span (.other s!"'{packet.name}' is read-only")
    | "onChange" => noResult (onChange role packet call)
    | _ => unknown
  | _ => unknown

end Lowering

end BusScript
