import BusScript.Code.Instr
import BusScript.Isa.RegSet
import BusScript.Script.DebugInfo

/-!
The code of one procedure while it is written: words, labels, source map, and the registers in use.

Registers are handed out in scopes. What is allocated belongs to the innermost scope and is free again
when that scope is popped; `popExcept` hands one register on to the scope around it.
-/

namespace BusScript

/-- A jump target: its place once it is bound, and the jumps to it. -/
structure Label where
  name : String
  offset : Option Nat := none
  uses : List Nat := []
  deriving DecidableEq, Repr

structure CodeWriter where
  code : Array Word
  labels : Array Label
  allocated : RegSet
  /-- The registers of each scope, the innermost scope first. -/
  scopes : List (List Nat)
  /-- The most registers that any instruction saves. -/
  maxRegs : Nat
  sourceMap : Array SourceRun
  /-- The line of the statement being written and the place where its run starts. -/
  statement : Option (Nat × Nat)
  deriving Repr

/-- Steps of writing one procedure. What was written stays when a step stops. -/
abbrev Writing := EStateM Stop CodeWriter

namespace CodeWriter

def topLabel : Nat := 0

def retLabel : Nat := 1

def new : CodeWriter where
  code := #[]
  labels := #[⟨"top", some 0, []⟩, ⟨"ret", none, []⟩]
  allocated := .empty
  scopes := []
  maxRegs := 0
  sourceMap := #[]
  statement := none

def location (w : CodeWriter) : Nat := w.code.size

def numScopes (w : CodeWriter) : Nat := w.scopes.length

def currentLine (w : CodeWriter) : Option Nat := w.statement.map (·.1)

def labelOffsets (w : CodeWriter) : List Nat := w.labels.toList.filterMap (·.offset)

def abort {α : Type} (defect : Defect) : Writing α := throw (.abort defect)

def reject {α : Type} (problem : Problem) : Writing α := throw (.reject ⟨problem, {}⟩)

def push : Writing Unit := modify fun w => { w with scopes := [] :: w.scopes }

def free (r : Nat) : Writing Unit := do
  if !(← get).allocated.has r then abort (.freedTwice r)
  modify fun w => { w with allocated := w.allocated.erase r }

def freeAll : List Nat → Writing Unit
  | [] => return ()
  | r :: rest => do
    free r
    freeAll rest

def takeScope : Writing (List Nat) := do
  match (← get).scopes with
  | [] => abort .scopeUnderflow
  | scope :: rest =>
    modify fun w => { w with scopes := rest }
    return scope

def pop : Writing Unit := do freeAll (← takeScope)

def addToScope (r : Nat) (outside : Defect) : Writing Unit := do
  match (← get).scopes with
  | [] => abort outside
  | scope :: rest => modify fun w => { w with scopes := (scope ++ [r]) :: rest }

/-- Pops the innermost scope but leaves `keep` allocated, in the scope around it. -/
def popExcept (keep : Option Nat) : Writing Unit := do
  let scope ← takeScope
  freeAll (scope.filter fun r => some r ≠ keep)
  match keep with
  | some r => if r ∈ scope then addToScope r .keptOutermost
  | none => return ()

def alloc (r : Nat) : Writing Unit := do
  if 32 ≤ r then abort .registerNumber
  if (← get).allocated.has r then
    reject (if r = RegSet.bufferReg then .bufferInUse else .expressionTooComplex)
  addToScope r .allocatedOutsideScope
  modify fun w => { w with allocated := w.allocated.insert r }

def allocReg : Writing Nat := do
  let allocated := (← get).allocated
  match (List.range 16).reverse.find? fun r => !allocated.has r with
  | none => reject .expressionTooComplex
  | some r =>
    alloc r
    return r

def allocBuffer : Writing Unit := alloc RegSet.bufferReg

def allocEach : List Nat → Writing Unit
  | [] => return ()
  | r :: rest => do
    alloc r
    allocEach rest

/-- Allocates the first `count` registers, counted modulo 256, one after the other. -/
def allocArgs (count : Nat) : Writing (List Nat) := do
  let regs := List.range (count % 256)
  allocEach regs
  return regs

def pushWord (word : Word) : Writing Unit := modify fun w => { w with code := w.code.push word }

def pushWords : List (Except Defect Word) → Writing Unit
  | [] => return ()
  | .ok word :: rest => do
    pushWord word
    pushWords rest
  | .error defect :: _ => abort defect

def emit (i : Instr) : Writing Unit := pushWords i.encode

def emitRaw (cls : OpClass) (arg : Nat) : Writing Unit := pushWords [Instr.word cls arg]

/-- The registers that have to survive a call or a pause at this point. -/
def saveRegs : Writing Nat := do
  let saved := (← get).allocated.general
  modify fun w => { w with maxRegs := max w.maxRegs saved.size }
  return saved.mask

def emitSync (op : SyncOp) (a b c d : Nat) : Writing Unit := emit (.sync op a b c d)

/-- Writes an operation that may park the fiber, saving every live register. -/
def emitAsync (op : AsyncOp) (a b c : Nat) : Writing Unit := do
  let saved ← saveRegs
  emit (.async op a b c saved)

def emitUnary (op : UnaryOp) (dst src : Nat) : Writing Unit := emit (.unary op dst src)

def emitMove (dst src : Nat) : Writing Unit := emitUnary .id dst src

def emitBinary (op : BinaryOp) (dst src : Nat) : Writing Unit := emit (.binary op dst src)

def emitLoad (dst : Nat) (kind : CellKind) (index c : Nat) : Writing Unit :=
  emit (.load dst kind index c)

def emitStore (src : Nat) (kind : CellKind) (index c : Nat) : Writing Unit :=
  emit (.store src kind index c)

/-- Writes a call. Only a call in the same fiber saves registers. -/
def emitCall (function numArgs : Nat) (kind : CallKind) : Writing Unit := do
  if 16 ≤ numArgs then abort (.callArguments numArgs)
  let saved ← if kind = .sync then saveRegs else pure 0
  emit (.call kind numArgs function saved)

def newLabel (name : String) : Writing Nat := do
  let index := (← get).labels.size
  modify fun w => { w with labels := w.labels.push { name } }
  return index

def bindLabel (label : Nat) : Writing Unit := do
  let w ← get
  match w.labels[label]? with
  | some { name, offset := some _, .. } => abort (.boundTwice name)
  | _ =>
    set { w with labels := w.labels.modify label fun l => { l with offset := some w.location } }

/-- A jump of still unknown distance, taken always or only if a register is zero. -/
def emitJump (label : Nat) (ifZero : Option Nat) : Writing Unit := do
  modify fun w =>
    { w with labels := w.labels.modify label fun l => { l with uses := l.uses ++ [w.location] } }
  emitRaw .setB 0
  emitRaw .jump (match ifZero with
    | some r => r * 256 ||| 64
    | none => 0)

def maxJump : Nat := 0x3ffff

def orWord (code : Array Word) (location bits : Nat) : Array Word :=
  code.modify location fun word => ⟨word.bits ||| bits.toUInt16⟩

/-- Fills in the distance of the jump at `location`, counted from the word behind it. -/
def patchJump (target location : Nat) : Writing Unit := do
  let ahead : Int := (target : Int) - location - 2
  if ahead = -2 then abort (.jumpToItself location)
  let distance := ahead.natAbs
  if maxJump < distance then abort (.jumpTooFar distance)
  let back := if ahead < 0 then 128 else 0
  modify fun w =>
    let code := orWord w.code location (distance / 64)
    { w with code := orWord code (location + 1) (distance % 64 ||| back) }

def patchJumps (target : Nat) : List Nat → Writing Unit
  | [] => return ()
  | location :: rest => do
    patchJump target location
    patchJumps target rest

/-- Patches the jumps to each label. If `strict`, jumps to a label that was never bound are a defect;
otherwise they stay as they are. -/
def patchLabels (strict : Bool) : List Label → Writing Unit
  | [] => return ()
  | label :: rest => do
    match label.offset with
    | some target => patchJumps target label.uses
    | none => if strict && !label.uses.isEmpty then abort (.neverBound label.name)
    patchLabels strict rest

/-- Closes the current run; an empty one leaves no trace. -/
def closeRun (w : CodeWriter) : CodeWriter :=
  match w.statement with
  | none => w
  | some (line, start) =>
    let len := w.location - start
    { w with
      statement := none
      sourceMap := if len = 0 then w.sourceMap else w.sourceMap.push ⟨line, start, len⟩ }

def startStatement (line : Nat) : Writing Unit :=
  modify fun w => { closeRun w with statement := some (line, w.location) }

/-- Ends a statement; words from here on belong to the one around it, if there is one. -/
def endStatement (outer : Option Nat) : Writing Unit :=
  modify fun w => { closeRun w with statement := outer.map (·, w.location) }

/-- Closes the source map, patches jumps and fills the body up to an even number of words. -/
def finalize (strict : Bool) : Writing Unit := do
  modify closeRun
  patchLabels strict (← get).labels.toList
  if (← get).location % 2 = 1 then emitSync .ret 0 0 0 0

end CodeWriter

end BusScript
