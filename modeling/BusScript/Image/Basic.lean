import BusScript.Bytes
import BusScript.Image.Error
import BusScript.Isa.Word
import BusScript.Number.Basic

namespace BusScript

structure Extent where
  start : Nat
  len : Nat
  deriving DecidableEq, Repr, Inhabited

namespace Extent

def stop (e : Extent) : Nat := e.start + e.len

def contains (outer inner : Extent) : Bool :=
  outer.start ≤ inner.start && inner.stop ≤ outer.stop

def records (e : Extent) (size : Nat) : List Nat :=
  (List.range (e.len / size)).map fun i => e.start + size * i

end Extent

structure FunctionInfo where
  code : Extent
  numLocals : Nat
  /-- Slots behind the locals in which registers are saved. -/
  numRegs : Nat
  numParams : Nat
  flags : Nat
  deriving DecidableEq, Repr

namespace FunctionInfo

def startPc (f : FunctionInfo) : Nat := f.code.start / 2

def endPc (f : FunctionInfo) : Nat := f.code.stop / 2

def frameSize (f : FunctionInfo) : Nat := f.numLocals + f.numRegs

end FunctionInfo

structure Sections where
  functionDesc : Extent
  functionCode : Extent
  floatLiterals : Extent
  roles : Extent
  stringDesc : Extent
  stringData : Extent
  deriving DecidableEq, Repr

def Sections.get (s : Sections) : SectionName → Extent
  | .functionDesc => s.functionDesc
  | .functionCode => s.functionCode
  | .floatLiterals => s.floatLiterals
  | .roles => s.roles
  | .stringDesc => s.stringDesc
  | .stringData => s.stringData

structure Image where
  numGlobals : Nat
  sections : Sections
  functions : Array FunctionInfo
  roles : Array UInt32
  floats : Array Number
  strings : Array Bytes
  /-- The whole image as words; program counters index into it. -/
  words : Array Word
  deriving DecidableEq

namespace Image

def magic0 : Nat := 0x5363614a

def magic1 : Nat := 0x9a6a7e0a

def fixedHeaderSize : Nat := 64

def sectionsStart : Nat := 112

def headerOffset (name : SectionName) : Nat := fixedHeaderSize + 8 * name.index

def body (image : Image) (f : FunctionInfo) : Array Word :=
  image.words.extract f.startPc f.endPc

def functionBody (image : Image) (index : Nat) : Array Word :=
  match image.functions[index]? with
  | some f => image.body f
  | none => #[]

def readExtent (bytes : Bytes) (offset : Nat) (part : ImagePart) : Except ImageError Extent :=
  let start := bytes.natAt offset 4
  let len := bytes.natAt (offset + 4) 4
  if start + len ≤ bytes.size then .ok ⟨start, len⟩ else .error (.outOfBounds part start len)

def readSection (bytes : Bytes) (name : SectionName) : Except ImageError Extent := do
  let extent ← readExtent bytes (headerOffset name) (.table name)
  if extent.start % 4 ≠ 0 then throw (.misaligned name extent.start)
  match name.recordSize? with
  | some record =>
    if extent.len % record ≠ 0 then throw (.recordSize name extent.len record)
    return extent
  | none => return extent

def readSections (bytes : Bytes) : Except ImageError Sections := do
  let functionDesc ← readSection bytes .functionDesc
  let functionCode ← readSection bytes .functionCode
  let floatLiterals ← readSection bytes .floatLiterals
  let roles ← readSection bytes .roles
  let stringDesc ← readSection bytes .stringDesc
  let stringData ← readSection bytes .stringData
  return { functionDesc, functionCode, floatLiterals, roles, stringDesc, stringData }

def readFunction (bytes : Bytes) (code : Extent) (index offset : Nat) :
    Except ImageError FunctionInfo := do
  let body ← readExtent bytes offset .function
  if !code.contains body || body.start % 2 ≠ 0 then
    throw (.badFunction index (.outsideCode body.start body.len))
  let packed := bytes.natAt (offset + 10) 1
  return {
    code := body
    numLocals := bytes.natAt (offset + 8) 2
    numRegs := packed % 16
    numParams := packed / 16
    flags := bytes.natAt (offset + 11) 1 }

def readString (bytes : Bytes) (data : Extent) (index offset : Nat) : Except ImageError Bytes := do
  let text ← readExtent bytes offset .string
  if !data.contains ⟨text.start, text.len + 1⟩ then throw (.badString index .outsideData)
  if bytes.natAt text.stop 1 ≠ 0 then throw (.badString index .unterminated)
  return bytes.extract text.start text.stop

/-- Applies `read` to the index and the offset of each record, in order. -/
def readRecords {α : Type} (read : Nat → Nat → Except ImageError α) (offsets : List Nat) :
    Except ImageError (List α) :=
  offsets.zipIdx.mapM fun (offset, index) => read index offset

/-- The words of a byte string; an odd last byte is left out. -/
def readWords (bytes : Bytes) : Array Word :=
  Array.ofFn fun i : Fin (bytes.size / 2) => ⟨(bytes.natAt (2 * i.val) 2).toUInt16⟩

def load (bytes : Bytes) : Except ImageError Image := do
  if bytes.size < sectionsStart then throw (.tooShort bytes.size)
  let first := bytes.natAt 0 4
  let second := bytes.natAt 4 4
  if first ≠ magic0 ∨ second ≠ magic1 then throw (.badMagic first second)
  let sections ← readSections bytes
  let functions ← readRecords (readFunction bytes sections.functionCode)
    (sections.functionDesc.records 16)
  let strings ← readRecords (readString bytes sections.stringData) (sections.stringDesc.records 8)
  return {
    numGlobals := bytes.natAt 8 2
    sections
    functions := functions.toArray
    roles := ((sections.roles.records 8).map fun offset => (bytes.natAt offset 4).toUInt32).toArray
    floats := ((sections.floatLiterals.records 8).map fun offset =>
      Number.mk (bytes.natAt offset 8).toUInt64).toArray
    strings := strings.toArray
    words := readWords bytes }

end Image

end BusScript
