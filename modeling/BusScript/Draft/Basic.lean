import BusScript.Catalog.Basic
import BusScript.Code.Writer
import BusScript.Draft.Value
import BusScript.Script.Tree

namespace BusScript

structure Variable where
  name : String
  /-- Temporaries take a slot, but no script can name them. -/
  isHidden : Bool := false
  deriving DecidableEq, Repr

structure Variables where
  slots : Array Variable := #[]
  deriving DecidableEq, Repr

namespace Variables

def size (v : Variables) : Nat := v.slots.size

def find? (v : Variables) (name : String) : Option Nat :=
  v.slots.findIdx? fun slot => !slot.isHidden && slot.name == name

def add (v : Variables) (name : String) : Variables := ⟨v.slots.push { name }⟩

def addHidden (v : Variables) (name : String) : Variables := ⟨v.slots.push ⟨name, true⟩⟩

def names (v : Variables) : List String := v.slots.toList.map (·.name)

end Variables

structure Procedure where
  name : String
  numParams : Nat
  locals : Variables := {}
  writer : CodeWriter := .new
  deriving Repr

/-- A handler that runs when the value of a register has moved. -/
structure Watch where
  packet : PacketSpec
  threshold : Number
  handler : Nat
  deriving Repr

/-- What a script subscribed to on one role, and the procedure that serves it. -/
structure Dispatcher where
  procedure : Nat
  events : List (UInt16 × Nat) := []
  watches : List Watch := []
  connected : List Nat := []
  disconnected : List Nat := []
  deriving Repr

structure RoleEntry where
  name : String
  service : ServiceSpec
  dispatcher : Option Dispatcher := none
  /-- The registers that the refresh loop keeps asking for. -/
  refreshed : List PacketSpec := []
  deriving Repr

def RoleEntry.refresh (r : RoleEntry) (packet : PacketSpec) : RoleEntry :=
  if r.refreshed.any (·.identifier == packet.identifier) then r
  else { r with refreshed := r.refreshed ++ [packet] }

structure FunctionEntry where
  name : String
  procedure : Nat
  numParams : Nat
  isLowered : Bool := false
  deriving Repr

structure CompileOptions where
  debugInfo : Bool := true
  verify : Bool := true
  /-- How many problems are listed at most; zero for all. -/
  maxErrors : Nat := 0
  deriving DecidableEq, Repr

/-- The problems found so far: all of them count, but only so many are listed. -/
structure Findings where
  listed : Array Diagnostic := #[]
  count : Nat := 0
  deriving Repr

def Findings.add (limit : Nat) (found : Findings) (p : Diagnostic) : Findings where
  listed := if limit = 0 ∨ found.listed.size < limit then found.listed.push p else found.listed
  count := found.count + 1

structure Draft where
  catalog : Catalog
  options : CompileOptions
  /-- The first one is the main procedure. -/
  procedures : Array Procedure
  current : Nat
  roles : Array RoleEntry
  globals : Variables
  functions : Array FunctionEntry
  floats : Array Number
  strings : Array String
  findings : Findings
  topLevel : Bool

abbrev Lowering := EStateM Stop Draft

namespace Draft

def mainIndex : Nat := 0

def new (catalog : Catalog) (options : CompileOptions) : Draft where
  catalog
  options
  procedures := #[{ name := "main", numParams := 0 }]
  current := mainIndex
  roles := #[]
  globals := {}
  functions := #[]
  floats := #[]
  strings := #[]
  findings := {}
  topLevel := false

def procedure (d : Draft) : Procedure :=
  d.procedures.getD d.current { name := "", numParams := 0 }

def writer (d : Draft) : CodeWriter := d.procedure.writer

def modifyProcedure (d : Draft) (f : Procedure → Procedure) : Draft :=
  { d with procedures := d.procedures.modify d.current f }

def setWriter (d : Draft) (w : CodeWriter) : Draft := d.modifyProcedure ({ · with writer := w })

def modifyRole (d : Draft) (role : Nat) (f : RoleEntry → RoleEntry) : Draft :=
  { d with roles := d.roles.modify role f }

def roleName (d : Draft) (role : Nat) : String := (d.roles[role]?.map (·.name)).getD ""

/-- What a name stands for: a local, a global, a role or a function, looked up in this order. -/
def resolve? (d : Draft) (name : String) : Option Value :=
  (d.procedure.locals.find? name).map (.cell .local ·)
    <|> (d.globals.find? name).map (.cell .global ·)
    <|> (d.roles.findIdx? (·.name == name)).map .role
    <|> (d.functions.findIdx? (·.name == name)).map .function

def atTopLevel (d : Draft) : Bool := d.topLevel && d.current == mainIndex

def isClean (d : Draft) : Bool := d.findings.count == 0

def reported (d : Draft) (p : Diagnostic) : Draft :=
  { d with findings := d.findings.add d.options.maxErrors p }

end Draft

namespace Lowering

def abort {α : Type} (defect : Defect) : Lowering α := throw (.abort defect)

/-- A problem without a place; what is being lowered places it. -/
def reject {α : Type} (problem : Problem) : Lowering α := throw (.reject ⟨problem, {}⟩)

def rejectAt {α : Type} (span : Span) (problem : Problem) : Lowering α :=
  throw (.reject ⟨problem, span⟩)

def write {α : Type} (act : Writing α) : Lowering α := fun d =>
  match act d.writer with
  | .ok a w => .ok a (d.setWriter w)
  | .error e w => .error e (d.setWriter w)

instance : MonadLift Writing Lowering := ⟨write⟩

def located {α : Type} (span : Span) (act : Lowering α) : Lowering α := fun d =>
  match act d with
  | .ok a d => .ok a d
  | .error e d => .error (e.orAt span) d

/-- Catches problems, but no defects. What was written stays. -/
def attempt {α : Type} (act : Lowering α) : Lowering (Except Diagnostic α) := fun d =>
  match act d with
  | .ok a d => .ok (.ok a) d
  | .error (.reject p) d => .ok (.error p) d
  | .error (.abort e) d => .error (.abort e) d

def ofExcept {α : Type} : Except Diagnostic α → Lowering α
  | .ok a => return a
  | .error p => throw (.reject p)

def report (p : Diagnostic) : Lowering Unit := modify (·.reported p)

def reporting (act : Lowering Unit) : Lowering Unit := do
  match ← attempt act with
  | .ok () => return ()
  | .error p => report p

def numScopes : Lowering Nat := do return (← get).writer.numScopes

def popScopes : Nat → Lowering Unit
  | 0 => return ()
  | n + 1 => do
    CodeWriter.pop
    popScopes n

/-- Pops the scopes that a failed step left open. -/
def unwind (depth : Nat) : Lowering Unit := do popScopes ((← numScopes) - depth)

/-- Runs `act` in a register scope of its own. A problem is reported, at `span` if it has no place, and
lowering goes on behind it. -/
def guarded (span : Span) (act : Lowering Unit) : Lowering Unit := do
  let depth ← numScopes
  CodeWriter.push
  match ← attempt act with
  | .ok () =>
    CodeWriter.pop
    let found ← numScopes
    if found ≠ depth then abort (.scopeImbalance found depth)
  | .error p =>
    report (p.orAt span)
    unwind depth

/-- Lowers one statement: its words belong to its line, and the words behind it to the statement
around it. -/
def statement (span : Span) (act : Lowering Unit) : Lowering Unit := do
  let outer := (← get).writer.currentLine
  CodeWriter.startStatement span.line
  guarded span act
  CodeWriter.endStatement outer

def addProcedure (name : String) (numParams : Nat) : Lowering Nat := do
  let index := (← get).procedures.size
  modify fun d => { d with procedures := d.procedures.push { name, numParams } }
  return index

def inProcedure {α : Type} (index : Nat) (act : Lowering α) : Lowering α := do
  let outer := (← get).current
  modify ({ · with current := index })
  let depth ← numScopes
  CodeWriter.push
  let result ← attempt act
  match result with
  | .ok _ =>
    CodeWriter.pop
    if (← numScopes) ≠ depth then abort (.procedureImbalance (← get).procedure.name)
  | .error _ => unwind depth
  modify ({ · with current := outer })
  ofExcept result

/-- Runs `act` as a part of something that is not at the top level. -/
def nested {α : Type} (act : Lowering α) : Lowering α := do
  let outer := (← get).topLevel
  modify ({ · with topLevel := false })
  let result ← attempt act
  modify ({ · with topLevel := outer })
  ofExcept result

def requireTopLevel (construct : String) : Lowering Unit := do
  if !(← get).atTopLevel then reject (.topLevelOnly construct)

def requireFree (id : Ident) : Lowering Unit := do
  if ((← get).resolve? id.name).isSome then rejectAt id.span (.alreadyDefined id.name)

def variableNamed (id : Ident) : Lowering Value := do
  match (← get).resolve? id.name with
  | some v => if v.isVariable then return v else rejectAt id.span .expectedVariable
  | none => rejectAt id.span (.unknownName id.name)

def addLocal (name : String) : Lowering Nat := do
  let slot := (← get).procedure.locals.size
  modify (·.modifyProcedure fun p => { p with locals := p.locals.add name })
  return slot

def addHiddenLocal (name : String) : Lowering Nat := do
  let slot := (← get).procedure.locals.size
  modify (·.modifyProcedure fun p => { p with locals := p.locals.addHidden name })
  return slot

def addGlobal (name : String) : Lowering Nat := do
  let slot := (← get).globals.size
  modify fun d => { d with globals := d.globals.add name }
  return slot

end Lowering

end BusScript
