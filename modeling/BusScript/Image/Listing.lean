import BusScript.Image.Basic
import BusScript.Isa.Field
import BusScript.Number.Decimal
import BusScript.Script.DebugInfo
import BusScript.Text.Quoted
import BusScript.Text.Utf8

namespace BusScript

structure Names where
  function : Nat → Option String := fun _ => none
  role : Nat → Option String := fun _ => none
  globalVar : Nat → Option String := fun _ => none
  localVar : Nat → Option String := fun _ => none
  float : Nat → Option Number := fun _ => none

namespace Listing

def operandLetter : Nat → String
  | 0 => "A"
  | 1 => "B"
  | 2 => "C"
  | _ => "D"

def binaryDigits (n : Nat) : String := String.ofList (Nat.toDigits 2 n)

def unarySymbol (code : Nat) : String :=
  match UnaryOp.ofCode? code with
  | some .id => ""
  | some .neg => "-"
  | some .not => "!"
  | some .abs => "abs "
  | some .isNan => "isnan "
  | none => "??? "

def binarySymbol (code : Nat) : String :=
  match BinaryOp.ofCode? code with
  | some .add => "+"
  | some .sub => "-"
  | some .div => "/"
  | some .mul => "*"
  | some .lt => "<"
  | some .le => "<="
  | some .eq => "=="
  | some .ne => "!="
  | some .and => "&&"
  | some .or => "||"
  | none => "???"

def callSymbol (code : Nat) : String :=
  match CallKind.ofCode? code with
  | some .sync => ""
  | some .background => " bg"
  | some .backgroundOnce => " bg (max1)"
  | some .backgroundPending => " bg (max1 pend1)"
  | none => " ???"

def fieldText (index : Nat) : String :=
  match FieldFormat.ofCode? (index % 16) with
  | none => "fmt" ++ Text.hexMarked index
  | some format =>
    let letter := if format.isFloat then "f" else if format.isSigned then "i" else "u"
    let shift := index / 16
    if shift = 0 then s!"{letter}{format.bits}" else s!"{letter}{format.bits - shift}.{shift}"

def specialText (index : Nat) : String :=
  match SpecialValue.ofCode? (index % 256) with
  | some .nan => "NAN"
  | some .size => "SIZE"
  | some .eventCode => "EV_CODE"
  | some .registerGetCode => "REG_GET_CODE"
  | some .roleId => "ROLE_ID"
  | none => s!"SPEC[{index}]"

/-- A name, if there is one, and a number marked by a letter. -/
def numbered (name : Option String) (mark : String) (index : Nat) : String :=
  name.getD "" ++ "_" ++ mark ++ toString index

def roleText (names : Names) (index : Nat) : String := numbered (names.role index) "r" index

def cellText (names : Names) (p : Operands) : String :=
  match CellKind.ofCode? (p.a % 256) with
  | some .local => numbered (names.localVar p.b) "L" p.b
  | some .global => numbered (names.globalVar p.b) "G" p.b
  | some .floatConst => numbered ((names.float p.b).map Number.display) "F" p.b
  | some .identity => toString p.b
  | some .buffer => s!"buf[{p.c} @ {fieldText p.b}]"
  | some .special => specialText p.b
  | some .roleProperty =>
    match RoleProperty.ofCode? (p.c % 256) with
    | some .isConnected => roleText names p.b ++ ".isConnected"
    | none => roleText names p.b ++ s!".prop{p.c}"
  | none => s!"C{p.a}[{p.b}]"

def math1Text (code : Nat) : String :=
  match Math1.ofCode? (code % 256) with
  | some .floor => "R0 := floor(R0)"
  | some .round => "R0 := round(R0)"
  | some .ceil => "R0 := ceil(R0)"
  | some .logE => "R0 := loge(R0)"
  | some .random => "R0 := random(R0)"
  | none => s!"math1_{code}"

def math2Text (code : Nat) : String :=
  match Math2.ofCode? (code % 256) with
  | some .min => "R0 := min(R0, R1)"
  | some .max => "R0 := max(R0, R1)"
  | some .pow => "R0 := pow(R0, R1)"
  | none => s!"math2_{code}"

def syncText (names : Names) (w : Word) (p : Operands) : String :=
  match SyncOp.ofCode? w.arg8 with
  | some .ret => "return"
  | some .setupBuffer => s!"setup_buffer(size={p.a})"
  | some .observeRole => s!"observe({roleText names p.a})"
  | some .format => s!"format(str={p.a} #{p.b} @{p.c})"
  | some .memcpy => s!"memcpy(str={p.a} @{p.c})"
  | some .logFormat => s!"log(str={p.a} #{p.b})"
  | some .math1 => math1Text p.a
  | some .math2 => math2Text p.a
  | some .panic => s!"panic({p.a})"
  | none => "sync_" ++ Text.hexMarked w.arg8

def asyncText (names : Names) (w : Word) (p : Operands) : String :=
  let action :=
    match AsyncOp.ofCode? w.arg8 with
    | some .pause => s!"yield(wait={p.a}ms)"
    | some .cloudUpload => s!"upload(#{p.a})"
    | some .queryReg =>
      s!"query({roleText names p.a}.reg_{Text.hexMarked p.b} timeout={p.c}ms)"
    | some .sendCmd => s!"send({roleText names p.a}.cmd_{Text.hexMarked p.b})"
    | none => "async_" ++ Text.hexMarked w.arg8
  s!"{action} save={binaryDigits p.d}"

def instructionText (names : Names) (w : Word) (p : Operands) : String :=
  let first := w.high4
  let dst := w.dstReg.val
  let src := w.srcReg.val
  match w.opClass? with
  | some .unary => s!"R{dst} := {unarySymbol w.high4}R{src}"
  | some .binary => s!"R{dst} := R{dst} {binarySymbol w.high4} R{src}"
  | some .loadCell => s!"R{first} := {cellText names p}"
  | some .storeCell => s!"{cellText names p} := R{first}"
  | some .jump =>
    let direction := if w.jumpsBack then "-" else "+"
    let guard := if w.jumpsIfZero then s!" if R{first} == 0" else ""
    s!"jump {direction}{p.b}{guard}"
  | some .call =>
    let callee := numbered (names.function p.b) "F" p.b
    s!"call{callSymbol w.kind2} {callee} #{first} save={binaryDigits p.d}"
  | some .sync => syncText names w p
  | some .async => asyncText names w p
  | _ => "??? " ++ Text.hexMarkedPadded 6 w.val

def wordText (names : Names) (p : Operands) (w : Word) : String × Operands :=
  match p.absorb? w with
  | some next =>
    if w.opClass? = some .setHigh then
      (s!"[upper {operandLetter (w.arg12 / 1024)} {Text.hexMarked w.arg10}]", next)
    else (s!"[{operandLetter (w.val / 4096)} {Text.hexMarked w.arg12}]", next)
  | none => (instructionText names w (p.resolve w), {})

def column (n : Nat) : String :=
  let digits := toString n
  String.ofList (List.replicate (4 - digits.length) ' ') ++ digits

/-- The lines of a body from `pc` on; `line` is the source line named last. -/
def bodyLines (names : Names) (sourceMap : List SourceRun) :
    Nat → Option Nat → Operands → List Word → List String
  | _, _, _, [] => []
  | pc, line, p, w :: rest =>
    let here := lineAt? sourceMap pc
    let heading :=
      match here with
      | some l => if line = some l then [] else [s!"  ; line {l}"]
      | none => []
    let (text, next) := wordText names p w
    let indent := if w.isOperandPrefix then "    " else "        "
    heading ++ (column pc ++ ":" ++ indent ++ text)
      :: bodyLines names sourceMap (pc + 1) (here.or line) next rest

def imageNames (image : Image) (debug : Option DebugInfo) (index : Nat) : Names where
  function i := debug.bind fun d => (d.functions[i]?).map (·.name)
  role i := debug.bind fun d => d.roles[i]?
  globalVar i := debug.bind fun d => d.globals[i]?
  localVar i := debug.bind fun d => (d.functions[index]?).bind fun f => f.locals[i]?
  float i := image.floats[i]?

def functionLines (image : Image) (debug : Option DebugInfo) (index : Nat) (f : FunctionInfo) :
    List String :=
  let names := imageNames image debug index
  let known := debug.bind fun d => d.functions[index]?
  let name := (known.map (·.name)).getD ""
  let sourceMap := (known.map (·.sourceMap)).getD []
  s!"fun {name}_F{index} locals={f.numLocals} regs={f.numRegs} params={f.numParams}"
    :: bodyLines names sourceMap 0 none {} (image.body f).toList ++ [""]

def roleLine (debug : Option DebugInfo) (index : Nat) (classId : UInt32) : String :=
  let name := (debug.bind fun d => d.roles[index]?).getD ""
  s!"role #{index} = {Text.hexMarkedPadded 10 classId.toNat} {name}"

def floatLine (index : Nat) (x : Number) : String := s!"float #{index} = {x.display}"

def stringLine (index : Nat) (bytes : Bytes) : String :=
  s!"str #{index} = {Text.quoted (Text.decodeUtf8 bytes)}"

def lines (image : Image) (debug : Option DebugInfo) : List String :=
  (image.functions.toList.zipIdx.flatMap fun (f, i) => functionLines image debug i f)
    ++ (image.roles.toList.zipIdx.map fun (r, i) => roleLine debug i r)
    ++ (image.floats.toList.zipIdx.map fun (x, i) => floatLine i x)
    ++ (image.strings.toList.zipIdx.map fun (s, i) => stringLine i s)

def text (image : Image) (debug : Option DebugInfo) : String :=
  String.join ((lines image debug).map (· ++ "\n"))

end Listing

end BusScript
