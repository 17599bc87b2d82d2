import BusScript.Draft.Basic

namespace BusScript

/-- Whether two constants share a place in the pool: all NaNs do, and so do the two zeros. -/
def samePoolFloat (x y : Number) : Bool := x.equals y || (x.isNaN && y.isNaN)

/-- An expression as its context uses it: as it is written, lowered to a value, or, of an arrow
function, the lowered body. -/
structure Part where
  expr : Expr
  value : Lowering Value
  body : Lowering Unit

namespace Lowering

open CodeWriter

def floatLiteral (x : Number) : Lowering Nat := do
  let floats := (← get).floats
  match floats.findIdx? (samePoolFloat x) with
  | some index => return index
  | none =>
    modify fun d => { d with floats := d.floats.push x }
    return floats.size

def stringLiteral (s : String) : Lowering Nat := do
  let strings := (← get).strings
  match strings.findIdx? (· == s) with
  | some index => return index
  | none =>
    modify fun d => { d with strings := d.strings.push s }
    return strings.size

/-- Loads a constant from the cheapest cell that has it: small whole numbers stand in the instruction
itself. -/
def loadFloat (dst : Nat) (x : Number) : Lowering Unit := do
  if x.isNaN then
    emitLoad dst .special SpecialValue.nan.code 0
  else if x.isWhole && 0 ≤ x && x ≤ 65535 then
    emitLoad dst .identity x.toUInt32.toNat 0
  else
    let index ← floatLiteral x
    emitLoad dst .floatConst index 0

def loadValue (dst : Nat) : Value → Lowering Unit
  | .reg src => if src = dst then pure () else emitMove dst src
  | .float x => loadFloat dst x
  | .cell kind index => emitLoad dst kind index 0
  | _ => reject .valueRequired

/-- A register that holds the number, a new one unless it is in one already. -/
def forceReg : Value → Lowering Nat
  | .reg r => return r
  | v => do
    if !v.isNumber then reject .valueRequired
    let r ← allocReg
    loadValue r v
    return r

def assign (dst src : Value) : Lowering Unit := do
  if !src.isNumber then reject .valueRequired
  match dst, src with
  | .cell kind index, .reg r =>
    if dst.isVariable then emitStore r kind index 0 else reject .expectedVariable
  | .cell kind index, _ =>
    if !dst.isVariable then reject .expectedVariable
    push
    let r ← forceReg src
    emitStore r kind index 0
    pop
  | _, _ => reject .expectedVariable

def inReg (p : Part) : Lowering Nat := do
  let v ← p.value
  located p.expr.span (forceReg v)

def number (p : Part) : Lowering Value := do
  let v ← p.value
  if !v.isNumber then rejectAt p.expr.span .valueRequired
  return v

def numbers : List Part → Lowering (List Value)
  | [] => return []
  | p :: rest => do
    let v ← number p
    let vs ← numbers rest
    return v :: vs

def loadValues : List (Nat × Value) → Lowering Unit
  | [] => return ()
  | (r, v) :: rest => do
    loadValue r v
    loadValues rest

def passValues (values : List Value) : Lowering Unit := do
  let regs ← allocArgs values.length
  loadValues (regs.zip values)

/-- Lowers all arguments, then moves them into the argument registers. These are claimed only when
every argument is lowered, so that calls inside arguments are free to use them. -/
def passArgs (args : List Part) : Lowering Unit := do
  let values ← numbers args
  passValues values

def bufferCell (field : FieldSpec) : Lowering Nat := do
  match field.format? with
  | none => reject (.unsupported s!"field '{field.name}' has an unsupported width")
  | some format =>
    if format.bits < field.shift then abort (.shiftPastWidth field.name)
    return field.shift * 16 ||| format.code

def loadField (dst : Nat) (field : FieldSpec) (offset : Nat) : Lowering Unit := do
  let cell ← bufferCell field
  emitLoad dst .buffer cell offset

def storeField (src : Nat) (field : FieldSpec) (offset : Nat) : Lowering Unit := do
  let cell ← bufferCell field
  emitStore src .buffer cell offset

def loadText (s : String) : Lowering Value := do
  allocBuffer
  let index ← stringLiteral s
  emitSync .setupBuffer 0 0 0 0
  emitSync .memcpy index 0 0 0
  return .buffer

end Lowering

end BusScript
