import BusScript.Draft.Dispatch
import BusScript.Draft.Lower
import BusScript.Image.Layout
import BusScript.Image.Verify
import BusScript.Text.Utf8

namespace BusScript

structure CompiledFunction where
  name : String
  code : Array Word
  numLocals : Nat
  numRegs : Nat
  numParams : Nat
  labels : List Nat
  deriving Repr

structure Compiled where
  image : Bytes
  debug : Option DebugInfo
  functions : List CompiledFunction
  roles : List (String × UInt32)
  floats : List Number
  strings : List String
  numGlobals : Nat
  errors : List Diagnostic
  numErrors : Nat

namespace Lowering

def declareFunction (span : Span) (head : FunctionHead) : Lowering Unit := do
  let id := head.name
  if id.name ∈ reservedNames then rejectAt id.span (.alreadyDefined id.name)
  requireFree id
  match signatureProblem? span head with
  | some p => throw (.reject p)
  | none =>
    let numParams := head.params.length
    let procedure ← addProcedure id.name numParams
    modify fun d => { d with functions := d.functions.push { name := id.name, procedure, numParams } }

def declareFunctions : List Stmt → Lowering Unit
  | [] => return ()
  | .function span head _ :: rest => do
    reporting (declareFunction span head)
    declareFunctions rest
  | _ :: rest => declareFunctions rest

def declareGlobal (roles : List (String × ServiceSpec)) :
    Declarator → Lowering (List (String × ServiceSpec))
  | .mk id init _ => do
    requireFree id
    if roles.any (·.1 == id.name) then rejectAt id.span (.alreadyDefined id.name)
    match init.bind (roleService? (← get).catalog) with
    | some service => return roles ++ [(id.name, ← ofExcept service)]
    | none =>
      let _ ← addGlobal id.name
      return roles

def declareGlobals (roles : List (String × ServiceSpec)) :
    List Declarator → Lowering (List (String × ServiceSpec))
  | [] => return roles
  | declarator :: rest => do
    match ← attempt (declareGlobal roles declarator) with
    | .ok roles => declareGlobals roles rest
    | .error p =>
      report p
      declareGlobals roles rest

def declareVariables (roles : List (String × ServiceSpec)) :
    List Stmt → Lowering (List (String × ServiceSpec))
  | [] => return roles
  | .var _ .var declarators :: rest => do
    let roles ← declareGlobals roles declarators
    declareVariables roles rest
  | _ :: rest => declareVariables roles rest

/-- Roles are numbered by name, whatever the order of their declarations. -/
def addRoles (roles : List (String × ServiceSpec)) : Lowering Unit :=
  let sorted := roles.mergeSort fun a b => decide (¬ b.1 < a.1)
  let entries := sorted.map fun (name, service) => { name, service : RoleEntry }
  modify fun d => { d with roles := entries.toArray }

def lowerTopLevel : List Stmt → Lowering Unit
  | [] => return ()
  | s :: rest => do
    modify ({ · with topLevel := true })
    lowerStmt s
    lowerTopLevel rest

def lowerScript (script : List Stmt) : Lowering Unit := do
  declareFunctions script
  let roles ← declareVariables [] script
  addRoles roles
  lowerTopLevel script
  modify ({ · with topLevel := false })
  emitReturn
  dispatchers

/-- A procedure can save at most this many registers. -/
def maxSavedRegs : Nat := FunctionTable.maxCount

def checkSavedRegs : List Procedure → Lowering Unit
  | [] => return ()
  | p :: rest => do
    if maxSavedRegs < p.writer.maxRegs then report ⟨.expressionTooComplex, {}⟩
    checkSavedRegs rest

end Lowering

def Procedure.finalize (strict : Bool) (p : Procedure) : Except Stop Procedure :=
  match CodeWriter.finalize strict p.writer with
  | .ok () writer => .ok { p with writer }
  | .error stop _ => .error stop

namespace Draft

def tables (d : Draft) : ImageTables where
  numGlobals := d.globals.size
  functions := d.procedures.toList.map fun p =>
    ⟨p.writer.code, p.locals.size, p.writer.maxRegs, p.numParams⟩
  floats := d.floats.toList
  roles := d.roles.toList.map (·.service.classId)
  strings := d.strings.toList.map Text.encodeUtf8

def debugInfo (d : Draft) : DebugInfo where
  functions := d.procedures.toList.map fun p =>
    ⟨p.name, p.writer.sourceMap.toList, p.locals.names⟩
  roles := d.roles.toList.map (·.name)
  globals := d.globals.names

def compiled (d : Draft) (image : Bytes) : Compiled where
  image
  debug := if d.options.debugInfo then some d.debugInfo else none
  functions := d.procedures.toList.map fun p =>
    { name := p.name
      code := p.writer.code
      numLocals := p.locals.size
      numRegs := p.writer.maxRegs
      numParams := p.numParams
      labels := p.writer.labelOffsets }
  roles := d.roles.toList.map fun r => (r.name, r.service.classId)
  floats := d.floats.toList
  strings := d.strings.toList
  numGlobals := d.globals.size
  errors := d.findings.listed.toList
  numErrors := d.findings.count

end Draft

/-- Lowers a script and patches every procedure. Jumps without a target are tolerated if the script has
problems. -/
def draftOf (catalog : Catalog) (options : CompileOptions) (script : List Stmt) : Except Stop Draft := do
  let lowering : Lowering Unit := do
    Lowering.lowerScript script
    Lowering.checkSavedRegs (← get).procedures.toList
  match lowering (Draft.new catalog options) with
  | .error stop _ => throw stop
  | .ok () d =>
    let procedures ← d.procedures.toList.mapM (Procedure.finalize d.isClean)
    return { d with procedures := procedures.toArray }

def checkImage (image : Bytes) : Except ImageError Unit := do (← Image.load image).verify

/-- Compiles a script. Scripts with problems have an image, too. -/
def compile (catalog : Catalog) (options : CompileOptions) (script : List Stmt) :
    Except Stop Compiled := do
  let d ← draftOf catalog options script
  let image := d.tables.image
  if d.isClean && d.options.verify then
    match checkImage image with
    | .ok () => pure ()
    | .error e => throw (.abort (.rejectedImage e))
  return d.compiled image

end BusScript
