import BusScript.Image.Basic

namespace BusScript

/-- A function as its descriptor tells of it, with its body. -/
structure FunctionTable where
  body : Array Word
  numLocals : Nat
  numRegs : Nat
  numParams : Nat

structure ImageTables where
  numGlobals : Nat
  functions : List FunctionTable
  floats : List Number
  roles : List UInt32
  strings : List Bytes

namespace FunctionTable

/-- Descriptors have four bits each for registers and parameters. -/
def maxCount : Nat := 15

def code (f : FunctionTable) : Bytes :=
  f.body.flatMap fun w => Bytes.ofNat 2 w.val

def descriptor (f : FunctionTable) (start : Nat) : Bytes :=
  Bytes.ofNat 4 start ++ Bytes.ofNat 4 f.code.size ++ Bytes.ofNat 2 f.numLocals
    ++ Bytes.ofNat 1 (min f.numRegs maxCount + 16 * min f.numParams maxCount)
    ++ Bytes.ofNat 5 0

end FunctionTable

namespace ImageTables

/-- Descriptors of bodies that follow one another from byte `start`. -/
def descriptors (start : Nat) : List FunctionTable → Bytes
  | [] => #[]
  | f :: rest => f.descriptor start ++ descriptors (start + f.code.size) rest

def code (t : ImageTables) : Bytes := (t.functions.map FunctionTable.code).foldl (· ++ ·) #[]

def floatBytes (t : ImageTables) : Bytes :=
  (t.floats.map fun x => Bytes.ofNat 8 x.bits.toNat).foldl (· ++ ·) #[]

def roleBytes (t : ImageTables) : Bytes :=
  (t.roles.map fun c => Bytes.ofNat 4 c.toNat ++ Bytes.ofNat 4 0).foldl (· ++ ·) #[]

/-- Descriptors of strings that follow one another from byte `start`, each with a zero behind it. -/
def stringDescriptors (start : Nat) : List Bytes → Bytes
  | [] => #[]
  | s :: rest =>
    Bytes.ofNat 4 start ++ Bytes.ofNat 4 s.size ++ stringDescriptors (start + s.size + 1) rest

def padded (bytes : Bytes) : Bytes := bytes ++ Bytes.ofNat ((4 - bytes.size % 4) % 4) 0

def stringBytes (t : ImageTables) : Bytes :=
  padded ((t.strings.map fun s => s.push 0).foldl (· ++ ·) #[])

def sections (t : ImageTables) : List Bytes :=
  let codeStart := Image.sectionsStart + 16 * t.functions.length
  let stringStart := codeStart + t.code.size + t.floatBytes.size + t.roleBytes.size
    + 8 * t.strings.length
  [descriptors codeStart t.functions, t.code, t.floatBytes, t.roleBytes,
    stringDescriptors stringStart t.strings, t.stringBytes]

/-- The section table of sections that follow one another from byte `start`. -/
def sectionTable (start : Nat) : List Bytes → Bytes
  | [] => #[]
  | s :: rest => Bytes.ofNat 4 start ++ Bytes.ofNat 4 s.size ++ sectionTable (start + s.size) rest

def header (t : ImageTables) : Bytes :=
  Bytes.ofNat 4 Image.magic0 ++ Bytes.ofNat 4 Image.magic1 ++ Bytes.ofNat 2 t.numGlobals
    ++ Bytes.ofNat (Image.fixedHeaderSize - 10) 0

def image (t : ImageTables) : Bytes :=
  t.header ++ sectionTable Image.sectionsStart t.sections ++ t.sections.foldl (· ++ ·) #[]

end ImageTables

end BusScript
