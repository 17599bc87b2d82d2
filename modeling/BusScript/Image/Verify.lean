import BusScript.Bus.Command
import BusScript.Image.Basic
import BusScript.Isa.Field
import BusScript.Isa.RegSet

/-!
Verification of loaded images: sections and bodies stand in order without gaps, and every instruction
names only what exists and jumps only inside its function.

Cell kinds, math operations and role properties are looked up by their low eight bits.
-/

namespace BusScript.Image

def ensure (condition : Bool) (flaw : InstructionFlaw) : Except InstructionFlaw Unit :=
  if condition then .ok () else .error flaw

def checkRole (image : Image) (index : Nat) : Except InstructionFlaw Unit :=
  ensure (index < image.roles.size) (.unknownRole index)

/-- A save mask names general registers only, no more than the frame has slots. -/
def checkSaved (f : FunctionInfo) (mask : Nat) : Except InstructionFlaw Unit := do
  ensure (mask ≤ 0xffff) (.saveMask mask)
  let saved := (RegSet.mk mask).size
  ensure (saved ≤ f.numRegs) (.saveArea saved f.numRegs)

def CellKind.isStorable (kind : CellKind) : Bool :=
  kind = .local || kind = .global || kind = .buffer

def cellExists (image : Image) (f : FunctionInfo) (kind : CellKind) (p : Operands) :
    Except InstructionFlaw Bool :=
  match kind with
  | .local => return p.b < f.numLocals
  | .global => return p.b < image.numGlobals
  | .floatConst => return p.b < image.floats.size
  | .identity => return true
  | .buffer =>
    match FieldFormat.ofCode? (p.b % 16) with
    | none => throw (.unknownFormat (p.b % 16))
    | some format => return p.b / 16 ≤ format.bits && p.c + format.size ≤ maxPayload
  | .special => return (SpecialValue.ofCode? (p.b % 256)).isSome && p.b ≤ 0xff
  | .roleProperty =>
    return p.b < image.roles.size && (RoleProperty.ofCode? (p.c % 256)).isSome

def checkCell (image : Image) (f : FunctionInfo) (p : Operands) (isStore : Bool) :
    Except InstructionFlaw Unit := do
  match CellKind.ofCode? (p.a % 256) with
  | none => throw (.unknownCellKind p.a)
  | some kind =>
    ensure (!isStore || CellKind.isStorable kind) (.notStorable kind)
    let found ← cellExists image f kind p
    ensure found (.badCell kind p.b)

def checkJump (length pc : Nat) (w : Word) (p : Operands) : Except InstructionFlaw Unit :=
  let next : Int := pc + 1
  let target := if w.jumpsBack then next - p.b else next + p.b
  ensure (0 ≤ target && target < length) (.jumpOutside target)

def checkCall (image : Image) (f : FunctionInfo) (w : Word) (p : Operands) :
    Except InstructionFlaw Unit :=
  match CallKind.ofCode? w.kind2 with
  | none => throw .unknownCallKind
  | some kind =>
    match image.functions[p.b]? with
    | none => throw (.unknownFunction p.b)
    | some callee => do
      ensure (w.high4 ≤ callee.numLocals) (.tooManyArguments w.high4 callee.numLocals)
      if kind = .sync then checkSaved f p.d else ensure (p.d = 0) .backgroundSaves

def checkString (image : Image) (index : Nat) : Except InstructionFlaw Unit :=
  ensure (index < image.strings.size) (.unknownString index)

def checkOffset (offset : Nat) : Except InstructionFlaw Unit :=
  ensure (offset ≤ maxPayload) (.bufferOffset offset)

def checkSync (image : Image) (w : Word) (p : Operands) : Except InstructionFlaw Unit :=
  match SyncOp.ofCode? w.arg8 with
  | none => throw (.unknownSync w.arg8)
  | some .ret | some .panic => return ()
  | some .setupBuffer => ensure (p.a ≤ maxPayload) (.bufferSize p.a)
  | some .observeRole => checkRole image p.a
  | some .format | some .memcpy => do
    checkString image p.a
    checkOffset p.c
  | some .logFormat => checkString image p.a
  | some .math1 => ensure (Math1.ofCode? (p.a % 256)).isSome (.unknownMath1 p.a)
  | some .math2 => ensure (Math2.ofCode? (p.a % 256)).isSome (.unknownMath2 p.a)

def checkAsync (image : Image) (f : FunctionInfo) (w : Word) (p : Operands) :
    Except InstructionFlaw Unit :=
  match AsyncOp.ofCode? w.arg8 with
  | none => throw (.unknownAsync w.arg8)
  | some .queryReg | some .sendCmd => do
    checkRole image p.a
    checkSaved f p.d
  | some .pause | some .cloudUpload => checkSaved f p.d

/-- Checks a word that is no prefix, given the operands it sees, at `pc` in a body of `length`
words. -/
def checkWord (image : Image) (f : FunctionInfo) (length pc : Nat) (w : Word) (p : Operands) :
    Except InstructionFlaw Unit :=
  match w.opClass? with
  | none => throw (.unknownOpcode w.val)
  | some .unary => ensure (UnaryOp.ofCode? w.high4).isSome (.unknownUnary w.high4)
  | some .binary => ensure (BinaryOp.ofCode? w.high4).isSome (.unknownBinary w.high4)
  | some .loadCell => checkCell image f p false
  | some .storeCell => checkCell image f p true
  | some .jump => checkJump length pc w p
  | some .call => checkCall image f w p
  | some .sync => checkSync image w p
  | some .async => checkAsync image f w p
  | some _ => return ()

/-- Checks the words from `pc` on. The operands collected so far are `none` right behind a word that
is no prefix. -/
def checkWords (image : Image) (f : FunctionInfo) (length : Nat) :
    Nat → Option Operands → List Word → Except (Nat × InstructionFlaw) Unit
  | _, none, [] => return ()
  | _, some _, [] => throw (length - 1, .danglingPrefix)
  | pc, collected, w :: rest => do
    let p := collected.getD {}
    match p.absorb? w with
    | some p => checkWords image f length (pc + 1) (some p) rest
    | none =>
      match checkWord image f length pc w (p.resolve w) with
      | .error flaw => throw (pc, flaw)
      | .ok () => checkWords image f length (pc + 1) none rest

def checkBody (image : Image) (index : Nat) (f : FunctionInfo) : Except ImageError Unit :=
  let body := image.body f
  match checkWords image f body.size 0 none body.toList with
  | .ok () => .ok ()
  | .error (pc, flaw) => .error (.badInstruction index pc flaw)

/-- Checks functions whose bodies follow each other from `next` on; gives the end of the last. -/
def checkFunctions (image : Image) : Nat → Nat → List FunctionInfo → Except ImageError Nat
  | next, _, [] => return next
  | next, index, f :: rest => do
    if f.code.start ≠ next then throw (.badFunction index (.misplaced f.code.start next))
    if f.code.len = 0 then throw (.badFunction index .empty)
    if 16 < f.numRegs then throw (.badFunction index (.tooManyRegs f.numRegs))
    checkBody image index f
    checkFunctions image f.code.stop (index + 1) rest

def checkOrder (sections : Sections) : Nat → List SectionName → Except ImageError Unit
  | _, [] => return ()
  | next, name :: rest =>
    if (sections.get name).start = next then checkOrder sections (sections.get name).stop rest
    else throw (.sectionOrder name)

def verify (image : Image) : Except ImageError Unit := do
  checkOrder image.sections sectionsStart SectionName.all
  let code := image.sections.functionCode
  let stop ← checkFunctions image code.start 0 image.functions.toList
  if stop ≠ code.stop then throw (.sectionOrder .functionCode)

end BusScript.Image
