import BusScript.Draft.Call

/-!
Lowering of expressions and statements. The functions of the first part say what each construct does
with its lowered parts; `lowerExpr` and `lowerStmt` apply them along the tree.
-/

namespace BusScript

namespace Lowering

open CodeWriter

def literal : Literal → Lowering Value
  | .number x => return .float x
  | .bool b => return .float (Number.ofBool b)
  | .null => return .float Number.nan
  | .string s => loadText s

def identifier (id : Ident) : Lowering Value := do
  match (← get).resolve? id.name with
  | some v => return v
  | none =>
    match id.name with
    | "NaN" => return .float Number.nan
    | "undefined" => return .float Number.nan
    | "Infinity" => return .float Number.infinity
    | name => rejectAt id.span (.unknownName name)

def foldSign (op : Sign) (x : Number) : Number :=
  match op with
  | .neg => -x
  | .plus => x
  | .not => Number.ofBool (!x.truthy)

def signOp : Sign → UnaryOp
  | .not => .not
  | .neg => .neg
  | .plus => .id

def unary (op : Sign) (operand : Part) : Lowering Value := do
  match operand.expr.number? with
  | some x => return .float (foldSign op x)
  | none => return .reg (← applyUnary (signOp op) operand)

/-- The operation behind an operator, and whether it takes its operands the other way round. The
power has no operation of its own. -/
def operatorOp? : Operator → Option (BinaryOp × Bool)
  | .add => some (.add, false)
  | .sub => some (.sub, false)
  | .mul => some (.mul, false)
  | .div => some (.div, false)
  | .less => some (.lt, false)
  | .lessEqual => some (.le, false)
  | .greater => some (.lt, true)
  | .greaterEqual => some (.le, true)
  | .equal => some (.eq, false)
  | .strictEqual => some (.eq, false)
  | .notEqual => some (.ne, false)
  | .strictNotEqual => some (.ne, false)
  | .and => some (.and, false)
  | .or => some (.or, false)
  | .pow => none

def binary (op : Operator) (left right : Part) : Lowering Value := do
  match operatorOp? op with
  | none => return .reg (← applyPow left right)
  | some (op, swapped) =>
    push
    let a ← inReg left
    let b ← inReg right
    let (dst, src) := if swapped then (b, a) else (a, b)
    emitBinary op dst src
    popExcept (some dst)
    return .reg dst

def assignVariable (id : Ident) (value : Part) : Lowering Value := do
  let dst ← variableNamed id
  let src ← value.value
  located value.expr.span (assign dst src)
  return src

def assignEach (tmp offset : Nat) : List (Expr × FieldSpec) → Lowering Unit
  | [] => return ()
  | (target, field) :: rest => do
    match target.ident? with
    | none => rejectAt target.span .expectedVariable
    | some id =>
      let dst ← variableNamed id
      loadField tmp field offset
      assign dst (.reg tmp)
      assignEach tmp (offset + field.size) rest

def assignFields (span : Span) (targets : List Expr) (value : Part) : Lowering Value := do
  match ← value.value with
  | .fields _ packet =>
    let count := packet.fields.length
    if count < targets.length then
      rejectAt span (.other s!"'{packet.name}' has only {count} field(s)")
    push
    let tmp ← allocReg
    assignEach tmp 0 (targets.zip packet.fields)
    pop
    return .float 0
  | _ => rejectAt value.expr.span (.unsupported "destructuring needs a multi-field register read")

def assignTo (target : Expr) (value : Part) : Lowering Value :=
  match target with
  | .ident id => assignVariable id value
  | .array span targets => assignFields span targets value
  | other => rejectAt other.span .expectedVariable

def member (object : Part) (name : Ident) : Lowering Value := do
  if object.expr.isNamed "Math" then
    match Math.constant? name.name with
    | some x => return .float x
    | none => rejectAt name.span (.unknownMember "Math" name.name)
  else
    let value ← object.value
    let unknown : Lowering Value :=
      rejectAt name.span (.unknownMember value.describe name.name)
    match value with
    | .role role => roleMember role name
    | .register role packet =>
      if 1 < packet.fields.length then readMember role packet name else unknown
    | _ => unknown

def roleService? (catalog : Catalog) (init : Expr) : Option (Except Diagnostic ServiceSpec) :=
  match init with
  | .call _ (.member _ object name) _ =>
    if object.isNamed "roles" then
      some <| match catalog.byName? name.name with
        | some service => .ok service
        | none => .error ⟨.unknownService name.name, name.span⟩
    else none
  | .call _ (.ident id) _ =>
    if id.name == "condition" then
      some <| match catalog.byClass? Condition.classId with
        | some service => .ok service
        | none => .error ⟨.unknownService "condition", id.span⟩
    else none
  | _ => none

/-- The variable that a declaration names: at the top level it is there already, unless declaring it
failed; elsewhere it is new. -/
def declaredVariable? (id : Ident) : Lowering (Option Value) := do
  let d ← get
  if d.atTopLevel then
    return (d.globals.find? id.name).map (.cell .global ·)
  else
    requireFree id
    if d.current = Draft.mainIndex then return some (.cell .global (← addGlobal id.name))
    else return some (.cell .local (← addLocal id.name))

/-- Roles are declared ahead of all code, so here their declarations are passed over at the top level
and misplaced anywhere else. -/
def declare (name : Ident) (init : Option Part) (span : Span) : Lowering Unit := do
  let d ← get
  match init.bind fun p => roleService? d.catalog p.expr with
  | some service =>
    if !d.atTopLevel then
      let _ ← ofExcept service
      rejectAt span (.topLevelOnly "role declaration")
  | none =>
    match ← declaredVariable? name, init with
    | some dst, some p =>
      let src ← p.value
      located p.expr.span (assign dst src)
    | _, _ => return ()

/-- A condition that is written as a literal chooses its branch here and now. -/
def constantCondition? : Expr → Option Bool
  | .literal _ value => some value.truthy
  | _ => none

def ifElse (condition : Part) (thenBranch : Lowering Unit) (elseBranch : Option (Lowering Unit)) :
    Lowering Unit := do
  match constantCondition? condition.expr with
  | some true => nested thenBranch
  | some false => nested (elseBranch.getD (pure ()))
  | none =>
    let elseLabel ← newLabel "else"
    push
    let r ← inReg condition
    emitJump elseLabel (some r)
    pop
    nested thenBranch
    match elseBranch with
    | some branch =>
      let endLabel ← newLabel "endif"
      emitJump endLabel none
      bindLabel elseLabel
      nested branch
      bindLabel endLabel
    | none => bindLabel elseLabel

/-- Leaves the result in the first register and goes to the end of the procedure. Without a value the
result is NaN. -/
def returnResult (value : Option Part) : Lowering Unit := do
  let result ← match value with
    | some p => number p
    | none => pure (.float Number.nan)
  push
  let _ ← allocArgs 1
  loadValue 0 result
  emitJump retLabel none
  pop

def maxParams : Nat := 8

def patternParam? : List Param → Option Span
  | [] => none
  | .pattern span :: _ => some span
  | .ident _ :: rest => patternParam? rest

/-- Why a function cannot be compiled, whatever its name. -/
def signatureProblem? (span : Span) (head : FunctionHead) : Option Diagnostic :=
  let count := head.params.length
  if head.isAsync || head.isGenerator then
    some ⟨.unsupported "async and generator functions are not supported", span⟩
  else if maxParams < count then
    some ⟨.other s!"too many parameters ({count} > {maxParams})", span⟩
  else (patternParam? head.params).map fun span =>
    ⟨.unsupported "only plain identifiers are supported as parameters", span⟩

/-- Parameters arrive in the first registers and move to the first locals. -/
def spillParams (reg : Nat) : List Param → Lowering Unit
  | [] => return ()
  | .pattern _ :: rest => spillParams (reg + 1) rest
  | .ident id :: rest => do
    requireFree id
    let slot ← addLocal id.name
    emitStore reg .local slot 0
    spillParams (reg + 1) rest

def function (span : Span) (head : FunctionHead) (body : Lowering Unit) : Lowering Unit := do
  requireTopLevel "function declaration"
  if (signatureProblem? span head).isSome then return ()
  let functions := (← get).functions
  match functions.findIdx? (·.name == head.name.name) with
  | none => return ()
  | some index =>
    match functions[index]? with
    | none => return ()
    | some f =>
      if f.isLowered then return ()
      modify fun d =>
        { d with functions := d.functions.modify index ({ · with isLowered := true }) }
      nested <| inProcedure f.procedure do
        spillParams 0 head.params
        body
        emitLoad 0 .special SpecialValue.nan.code 0
        emitReturn

end Lowering

open Lowering

mutual

def lowerExpr : Expr → Lowering Value
  | .literal span value => located span (literal value)
  | .ident id => located id.span (identifier id)
  | .unary span op operand => located span (unary op ⟨operand, lowerExpr operand, lowerBody operand⟩)
  | .binary span op left right =>
    located span (binary op ⟨left, lowerExpr left, lowerBody left⟩
      ⟨right, lowerExpr right, lowerBody right⟩)
  | .assign span target value =>
    located span (assignTo target ⟨value, lowerExpr value, lowerBody value⟩)
  | .call span (.ident id) args => located span (callFunction id ⟨span, lowerParts args⟩)
  | .call span (.member _ object name) args =>
    located span (callMember ⟨object, lowerExpr object, lowerBody object⟩ name
      ⟨span, lowerParts args⟩)
  | .call span callee _ =>
    located span (rejectAt callee.span (.unsupported "only functions and methods can be called"))
  | .member span object name =>
    located span (member ⟨object, lowerExpr object, lowerBody object⟩ name)
  | .array span _ =>
    rejectAt span (.unsupported "array literals are only allowed as assignment targets")
  | .arrow span .. =>
    rejectAt span (.unsupported "arrow functions are only allowed as handler arguments")
  | .arrowExpr span .. =>
    rejectAt span (.unsupported "arrow functions are only allowed as handler arguments")

def lowerBody : Expr → Lowering Unit
  | .arrow _ _ body => lowerStmts body
  | .arrowExpr span _ body => statement span (discard (lowerExpr body))
  | _ => return ()

def lowerParts : List Expr → List Part
  | [] => []
  | e :: rest => ⟨e, lowerExpr e, lowerBody e⟩ :: lowerParts rest

def lowerDeclarators : List Declarator → Lowering Unit
  | [] => return ()
  | .mk name (some init) span :: rest => do
    declare name (some ⟨init, lowerExpr init, lowerBody init⟩) span
    lowerDeclarators rest
  | .mk name none span :: rest => do
    declare name none span
    lowerDeclarators rest

def lowerStmt : Stmt → Lowering Unit
  | .var span kind declarators =>
    statement span (
      if kind = .var then lowerDeclarators declarators
      else rejectAt span (.unsupported "only 'var' declarations are supported"))
  | .expr span value => statement span (discard (lowerExpr value))
  | .ifElse span condition thenStmt none =>
    statement span (ifElse ⟨condition, lowerExpr condition, lowerBody condition⟩
      (lowerStmt thenStmt) none)
  | .ifElse span condition thenStmt (some elseStmt) =>
    statement span (ifElse ⟨condition, lowerExpr condition, lowerBody condition⟩
      (lowerStmt thenStmt) (some (lowerStmt elseStmt)))
  | .block span stmts => statement span (nested (lowerStmts stmts))
  | .ret span none => statement span (returnResult none)
  | .ret span (some value) =>
    statement span (returnResult (some ⟨value, lowerExpr value, lowerBody value⟩))
  | .function span head body => statement span (function span head (lowerStmts body))

def lowerStmts : List Stmt → Lowering Unit
  | [] => return ()
  | s :: rest => do
    lowerStmt s
    lowerStmts rest

end

end BusScript
