import BusScript.Isa.Opcode
import BusScript.Text.Hex

namespace BusScript

inductive SectionName where
  | functionDesc
  | functionCode
  | floatLiterals
  | roles
  | stringDesc
  | stringData
  deriving DecidableEq, Repr

namespace SectionName

def all : List SectionName :=
  [.functionDesc, .functionCode, .floatLiterals, .roles, .stringDesc, .stringData]

def text : SectionName → String
  | .functionDesc => "function-desc"
  | .functionCode => "function-code"
  | .floatLiterals => "float-literals"
  | .roles => "roles"
  | .stringDesc => "string-desc"
  | .stringData => "string-data"

def index : SectionName → Nat
  | .functionDesc => 0
  | .functionCode => 1
  | .floatLiterals => 2
  | .roles => 3
  | .stringDesc => 4
  | .stringData => 5

def recordSize? : SectionName → Option Nat
  | .functionDesc => some 16
  | .functionCode => none
  | .floatLiterals => some 8
  | .roles => some 8
  | .stringDesc => some 8
  | .stringData => none

end SectionName

/-- What a pair of offset and length in an image describes. -/
inductive ImagePart where
  | table (name : SectionName)
  | function
  | string
  deriving DecidableEq, Repr

def ImagePart.text : ImagePart → String
  | .table name => name.text
  | .function => "function"
  | .string => "string"

inductive FunctionFlaw where
  | outsideCode (start len : Nat)
  | misplaced (start expected : Nat)
  | empty
  | tooManyRegs (count : Nat)
  deriving DecidableEq, Repr

def FunctionFlaw.message : FunctionFlaw → String
  | .outsideCode start len => s!"body {Text.hexMarked start}+{len} outside code section"
  | .misplaced start expected =>
    s!"body at {Text.hexMarked start}, expected {Text.hexMarked expected}"
  | .empty => "empty body"
  | .tooManyRegs count => s!"{count} saved registers"

inductive StringFlaw where
  | outsideData
  | unterminated
  deriving DecidableEq, Repr

def StringFlaw.message : StringFlaw → String
  | .outsideData => "outside string data"
  | .unterminated => "missing NUL terminator"

inductive InstructionFlaw where
  | unknownOpcode (word : Nat)
  | unknownUnary (op : Nat)
  | unknownBinary (op : Nat)
  | jumpOutside (target : Int)
  | unknownCallKind
  | unknownFunction (index : Nat)
  | tooManyArguments (count locals : Nat)
  | backgroundSaves
  | unknownSync (op : Nat)
  | bufferSize (size : Nat)
  | bufferOffset (offset : Nat)
  | unknownRole (index : Nat)
  | unknownString (index : Nat)
  | unknownMath1 (op : Nat)
  | unknownMath2 (op : Nat)
  | unknownAsync (op : Nat)
  | unknownCellKind (kind : Nat)
  | notStorable (kind : CellKind)
  | unknownFormat (code : Nat)
  | badCell (kind : CellKind) (index : Nat)
  | saveMask (mask : Nat)
  | saveArea (saved available : Nat)
  | danglingPrefix
  deriving DecidableEq, Repr

def InstructionFlaw.message : InstructionFlaw → String
  | .unknownOpcode word => "unknown opcode " ++ Text.hexMarkedPadded 6 word
  | .unknownUnary op => s!"unknown unary op {op}"
  | .unknownBinary op => s!"unknown binary op {op}"
  | .jumpOutside target => s!"jump target {target} outside function"
  | .unknownCallKind => "unknown call kind"
  | .unknownFunction index => s!"call to unknown function {index}"
  | .tooManyArguments count locals => s!"{count} arguments for {locals} locals"
  | .backgroundSaves => "background call saves registers"
  | .unknownSync op => s!"unknown sync op {op}"
  | .bufferSize size => s!"buffer size {size}"
  | .bufferOffset offset => s!"buffer offset {offset}"
  | .unknownRole index => s!"unknown role {index}"
  | .unknownString index => s!"unknown string {index}"
  | .unknownMath1 op => s!"unknown math1 op {op}"
  | .unknownMath2 op => s!"unknown math2 op {op}"
  | .unknownAsync op => s!"unknown async op {op}"
  | .unknownCellKind kind => s!"unknown cell kind {kind}"
  | .notStorable kind => s!"cannot store into {kind.name}"
  | .unknownFormat code => s!"unknown number format {code}"
  | .badCell kind index => s!"bad {kind.name} cell {index}"
  | .saveMask mask => s!"save mask {Text.hexMarked mask}"
  | .saveArea saved available => s!"saves {saved} registers, frame has {available}"
  | .danglingPrefix => "function ends with a prefix"

inductive ImageError where
  | tooShort (len : Nat)
  | badMagic (first second : Nat)
  | misaligned (name : SectionName) (offset : Nat)
  | outOfBounds (part : ImagePart) (offset len : Nat)
  | sectionOrder (name : SectionName)
  | recordSize (name : SectionName) (len record : Nat)
  | badFunction (index : Nat) (flaw : FunctionFlaw)
  | badString (index : Nat) (flaw : StringFlaw)
  | badInstruction (function pc : Nat) (flaw : InstructionFlaw)
  deriving DecidableEq, Repr

namespace ImageError

def name : ImageError → String
  | .tooShort .. => "TooShort"
  | .badMagic .. => "BadMagic"
  | .misaligned .. => "Misaligned"
  | .outOfBounds .. => "SectionOutOfBounds"
  | .sectionOrder .. => "SectionOrder"
  | .recordSize .. => "RecordSize"
  | .badFunction .. => "BadFunction"
  | .badString .. => "BadString"
  | .badInstruction .. => "BadInstruction"

def message : ImageError → String
  | .tooShort len => s!"image too short: {len} bytes"
  | .badMagic first second =>
    "bad magic: " ++ Text.hexMarkedPadded 10 first ++ " " ++ Text.hexMarkedPadded 10 second
  | .misaligned name offset =>
    s!"section {name.text} at {Text.hexMarked offset} is not 4-byte aligned"
  | .outOfBounds part offset len =>
    s!"section {part.text} ({Text.hexMarked offset}+{len}) lies outside the image"
  | .sectionOrder name => s!"section {name.text} does not follow the previous section"
  | .recordSize name len record =>
    s!"section {name.text} length {len} is not a multiple of {record}"
  | .badFunction index flaw => s!"function {index}: {flaw.message}"
  | .badString index flaw => s!"string {index}: {flaw.message}"
  | .badInstruction function pc flaw => s!"function {function} at pc {pc}: {flaw.message}"

end ImageError

end BusScript
