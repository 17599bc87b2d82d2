import BusScript.Machine.Arithmetic
import BusScript.Machine.Cell
import BusScript.Machine.Template

namespace BusScript

inductive Flow where
  | next
  /-- It waits until its time has come or its role is woken. -/
  | park
  /-- The function that it was started with has returned. -/
  | finish
  | stop (code : PanicCode)
  deriving DecidableEq, Repr

/-- Starts a fiber. All but plain background calls leave it at one fiber per function: if there is one,
it is at most told to run once more. -/
def startFiber (function : Nat) (args : List Number) (kind : CallKind) : Stepping Unit := do
  let info ← Stepping.function function
  let m ← get
  match if kind = .background then none else m.fibers.findIdx? (·.function == function) with
  | some index =>
    if kind = .backgroundPending then
      Stepping.modifyFiber index ({ · with isPending := true })
  | none =>
    let f := Fiber.start m.nextFiberId (.enter function info args) m.host.now
    set { m with fibers := m.fibers ++ [f], nextFiberId := m.nextFiberId + 1 }

namespace Stepping

def saveRegs (index mask : Nat) : Stepping Unit := do
  let set : RegSet := ⟨mask % 65536⟩
  let regs := (← get).registers
  let frame := (← fiber index).frame
  modifyFrame index (·.save set regs)
  if !frame.hasRoom set then invalid (.saveArea frame.function)

def restoreRegs (index : Nat) : Stepping Unit := do
  let frame := (← fiber index).frame
  modify fun m => { m with registers := frame.restoredRegs m.registers }
  modifyFrame index Frame.restored

def call (index : Nat) (word : Word) (p : Operands) : Stepping Flow := do
  let kind ← known word.kind2 (CallKind.ofCode? word.kind2)
  saveRegs index p.d
  let args ← firstRegs word.high4
  if kind = .sync then
    let info ← function p.b
    modifyFiber index fun f =>
      { f with frame := .enter p.b info args, callers := f.frame :: f.callers }
  else
    startFiber p.b args kind
  return .next

def ret (index : Nat) : Stepping Flow := do
  match (← fiber index).callers with
  | [] => return .finish
  | caller :: rest =>
    modifyFiber index ({ · with frame := caller, callers := rest })
    restoreRegs index
    return .next

def jump (index : Nat) (word : Word) (distance : Nat) : Stepping Unit := do
  if word.jumpsIfZero && (← readReg word.highReg).truthy then return ()
  let pc := (← fiber index).frame.pc
  if word.jumpsBack then
    if pc < distance then invalid .jumpOutside
    modifyFrame index ({ · with pc := pc - distance })
  else
    modifyFrame index ({ · with pc := pc + distance })

def math1 (op : Math1) : Stepping Unit := do
  let x ← readReg .first
  match op with
  | .floor => writeReg .first (x.floor)
  | .round => writeReg .first (x.roundHalfUp)
  | .ceil => writeReg .first (x.ceil)
  | .logE => writeReg .first x.log
  | .random =>
    let (factor, random) := (← get).random.nextNumber
    modify ({ · with random })
    writeReg .first (x * factor)

def formatted (p : Operands) : Stepping String := do
  let template ← string p.a
  return Template.render template (← firstRegs p.b)

def syncOp (index : Nat) (op : SyncOp) (p : Operands) : Stepping Flow := do
  match op with
  | .ret => ret index
  | .setupBuffer =>
    if (← get).config.payloadLimit < p.a then invalid (.bufferSize p.a)
    modify fun m => { m with packet.data := Array.replicate p.a 0 }
    return .next
  | .observeRole =>
    let _ ← role p.a
    modifyFiber index ({ · with observed := some p.a })
    return .next
  | .format =>
    fillBuffer (Text.encodeUtf8 (← formatted p)) p.c
    return .next
  | .memcpy =>
    fillBuffer (← string p.a) p.c
    return .next
  | .logFormat =>
    let message ← formatted p
    modify fun m => { m with host := m.host.log message }
    return .next
  | .math1 =>
    math1 (← known p.a (Math1.ofCode? p.a))
    return .next
  | .math2 =>
    let op ← known p.a (Math2.ofCode? p.a)
    writeReg .first (op.eval (← readReg .first) (← readReg .second))
    return .next
  | .panic => return .stop (.ofOperand p.a)

def parkWith (index : Nat) (request : Request) : Stepping Flow := do
  let now := (← get).host.now
  modifyFiber index
    ({ · with observed := some request.role, request := some request, wakeAt := some now })
  return .park

def bufferText : Stepping String := do
  let text := Text.decodeUtf8 (← get).packet.data
  return String.ofList (text.toList.reverse.dropWhile (· == '\x00')).reverse

def upload (index count : Nat) : Stepping Flow := do
  let label ← bufferText
  let values ← firstRegs count
  let m ← get
  let (pause, random) := m.random.between m.config.backoffMin m.config.backoffMax
  set { m with host := m.host.upload label values, random }
  modifyFiber index ({ · with wakeAt := some (m.host.now + pause) })
  return .park

/-- Sends the packet buffer to a role. A local role takes no commands but the signal. -/
def sendCommand (index roleIdx : Nat) (code : CommandCode) : Stepping Flow := do
  let r ← role roleIdx
  if r.isLocal then
    if code == Condition.signal then
      modify fun m => { m with signals := m.signals ++ [roleIdx] }
    return .next
  else
    if CommandCode.isSet code then
      modify fun m => { m with cache := m.cache.invalidate roleIdx (CommandCode.pairedGet code) }
    parkWith index (.send roleIdx code (← get).packet.data)

/-- Reads a register: from the cache if the value is fresh, else from the device. -/
def queryRegister (index roleIdx : Nat) (code : CommandCode) (validity : Nat) : Stepping Flow := do
  let r ← role roleIdx
  let m ← get
  let query : Stepping Flow := parkWith index (.query roleIdx code m.config.resendInitial)
  match r.binding with
  | none => query
  | some b =>
    let validity := if validity = 0 then m.config.defaultValidity else validity
    let (hit, cache) := m.cache.lookup roleIdx code none m.host.now validity
    set { m with cache }
    match hit with
    | some entry =>
      modify ({ · with packet := .report b.device b.service code entry.value })
      return .next
    | none => query

def asyncOp (index : Nat) (op : AsyncOp) (p : Operands) : Stepping Flow := do
  saveRegs index p.d
  match op with
  | .pause =>
    let now := (← get).host.now
    modifyFiber index ({ · with wakeAt := if p.a = 0 then none else some (now + p.a) })
    return .park
  | .cloudUpload => upload index p.a
  | .sendCmd => sendCommand index p.a p.b.toUInt16
  | .queryReg => queryRegister index p.a (CommandCode.getReg p.b.toUInt16) p.c

def execute (index : Nat) (word : Word) (p : Operands) : Stepping Flow := do
  match ← known word.val word.opClass? with
  | .unary =>
    let op ← known word.high4 (UnaryOp.ofCode? word.high4)
    writeReg word.dstReg (op.eval (← readReg word.srcReg))
    return .next
  | .binary =>
    let op ← known word.high4 (BinaryOp.ofCode? word.high4)
    writeReg word.dstReg (op.eval (← readReg word.dstReg) (← readReg word.srcReg))
    return .next
  | .loadCell =>
    writeReg word.highReg (← loadCell index p.a p.b p.c)
    return .next
  | .storeCell =>
    storeCell index p.a p.b p.c (← readReg word.highReg)
    return .next
  | .jump =>
    jump index word p.b
    return .next
  | .call => call index word p
  | .sync => syncOp index (← known word.arg8 (SyncOp.ofCode? word.arg8)) p
  | .async => asyncOp index (← known word.arg8 (AsyncOp.ofCode? word.arg8)) p
  | _ => invalid (.unknownCode word.val)

def step (index : Nat) : Stepping Flow := do
  let pc := (← fiber index).frame.pc
  modifyFrame index ({ · with pc := pc + 1 })
  let m ← get
  match m.image.words[pc]? with
  | none => invalid (.pcOutside pc)
  | some word =>
    match m.operands.absorb? word with
    | some operands =>
      set { m with operands }
      return .next
    | none =>
      set { m with operands := {} }
      execute index word (m.operands.resolve word)

end Stepping

end BusScript
