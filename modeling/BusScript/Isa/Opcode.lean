namespace BusScript

/-- The class of an instruction word, in its top four bits. The first five only feed operands to the
word that follows. -/
inductive OpClass where
  | setA
  | setB
  | setC
  | setD
  | setHigh
  | unary
  | binary
  | loadCell
  | storeCell
  | jump
  | call
  | sync
  | async
  deriving DecidableEq, Repr

namespace OpClass

def code : OpClass → Nat
  | .setA => 0
  | .setB => 1
  | .setC => 2
  | .setD => 3
  | .setHigh => 4
  | .unary => 5
  | .binary => 6
  | .loadCell => 7
  | .storeCell => 8
  | .jump => 9
  | .call => 10
  | .sync => 11
  | .async => 12

def ofCode? : Nat → Option OpClass
  | 0 => some .setA
  | 1 => some .setB
  | 2 => some .setC
  | 3 => some .setD
  | 4 => some .setHigh
  | 5 => some .unary
  | 6 => some .binary
  | 7 => some .loadCell
  | 8 => some .storeCell
  | 9 => some .jump
  | 10 => some .call
  | 11 => some .sync
  | 12 => some .async
  | _ => none

def name : OpClass → String
  | .setA => "SetA"
  | .setB => "SetB"
  | .setC => "SetC"
  | .setD => "SetD"
  | .setHigh => "SetHigh"
  | .unary => "Unary"
  | .binary => "Binary"
  | .loadCell => "LoadCell"
  | .storeCell => "StoreCell"
  | .jump => "Jump"
  | .call => "Call"
  | .sync => "Sync"
  | .async => "Async"

@[simp] theorem ofCode?_code (op : OpClass) : ofCode? op.code = some op := by
  cases op <;> rfl

end OpClass

/-- Operations that may park the running fiber. -/
inductive AsyncOp where
  | pause
  | cloudUpload
  | queryReg
  | sendCmd
  deriving DecidableEq, Repr

namespace AsyncOp

def code : AsyncOp → Nat
  | .pause => 0
  | .cloudUpload => 1
  | .queryReg => 2
  | .sendCmd => 3

def ofCode? : Nat → Option AsyncOp
  | 0 => some .pause
  | 1 => some .cloudUpload
  | 2 => some .queryReg
  | 3 => some .sendCmd
  | _ => none

def name : AsyncOp → String
  | .pause => "Yield"
  | .cloudUpload => "CloudUpload"
  | .queryReg => "QueryReg"
  | .sendCmd => "SendCmd"

@[simp] theorem ofCode?_code (op : AsyncOp) : ofCode? op.code = some op := by
  cases op <;> rfl

end AsyncOp

inductive SyncOp where
  | ret
  | setupBuffer
  | observeRole
  | format
  | memcpy
  | logFormat
  | math1
  | math2
  | panic
  deriving DecidableEq, Repr

namespace SyncOp

def code : SyncOp → Nat
  | .ret => 0
  | .setupBuffer => 1
  | .observeRole => 2
  | .format => 3
  | .memcpy => 4
  | .logFormat => 5
  | .math1 => 6
  | .math2 => 7
  | .panic => 8

def ofCode? : Nat → Option SyncOp
  | 0 => some .ret
  | 1 => some .setupBuffer
  | 2 => some .observeRole
  | 3 => some .format
  | 4 => some .memcpy
  | 5 => some .logFormat
  | 6 => some .math1
  | 7 => some .math2
  | 8 => some .panic
  | _ => none

def name : SyncOp → String
  | .ret => "Return"
  | .setupBuffer => "SetupBuffer"
  | .observeRole => "ObserveRole"
  | .format => "Format"
  | .memcpy => "Memcpy"
  | .logFormat => "LogFormat"
  | .math1 => "Math1"
  | .math2 => "Math2"
  | .panic => "Panic"

@[simp] theorem ofCode?_code (op : SyncOp) : ofCode? op.code = some op := by
  cases op <;> rfl

end SyncOp

/-- How a call starts its callee: in the caller's fiber, in a new fiber, in a new fiber unless one is
busy with the function, or so that a busy one starts over when it is done. -/
inductive CallKind where
  | sync
  | background
  | backgroundOnce
  | backgroundPending
  deriving DecidableEq, Repr

namespace CallKind

def code : CallKind → Nat
  | .sync => 0
  | .background => 1
  | .backgroundOnce => 2
  | .backgroundPending => 3

def ofCode? : Nat → Option CallKind
  | 0 => some .sync
  | 1 => some .background
  | 2 => some .backgroundOnce
  | 3 => some .backgroundPending
  | _ => none

def name : CallKind → String
  | .sync => "Sync"
  | .background => "Bg"
  | .backgroundOnce => "BgMax1"
  | .backgroundPending => "BgMax1Pend1"

@[simp] theorem ofCode?_code (op : CallKind) : ofCode? op.code = some op := by
  cases op <;> rfl

end CallKind

inductive CellKind where
  | local
  | global
  | floatConst
  | identity
  | buffer
  | special
  | roleProperty
  deriving DecidableEq, Repr

namespace CellKind

def code : CellKind → Nat
  | .local => 0
  | .global => 1
  | .floatConst => 2
  | .identity => 3
  | .buffer => 4
  | .special => 5
  | .roleProperty => 6

def ofCode? : Nat → Option CellKind
  | 0 => some .local
  | 1 => some .global
  | 2 => some .floatConst
  | 3 => some .identity
  | 4 => some .buffer
  | 5 => some .special
  | 6 => some .roleProperty
  | _ => none

def name : CellKind → String
  | .local => "Local"
  | .global => "Global"
  | .floatConst => "FloatConst"
  | .identity => "Identity"
  | .buffer => "Buffer"
  | .special => "Special"
  | .roleProperty => "RoleProperty"

@[simp] theorem ofCode?_code (op : CellKind) : ofCode? op.code = some op := by
  cases op <;> rfl

end CellKind

/-- Values of the packet at hand and of the wake-up. -/
inductive SpecialValue where
  | nan
  | size
  | eventCode
  | registerGetCode
  | roleId
  deriving DecidableEq, Repr

namespace SpecialValue

def code : SpecialValue → Nat
  | .nan => 0
  | .size => 1
  | .eventCode => 2
  | .registerGetCode => 3
  | .roleId => 4

def ofCode? : Nat → Option SpecialValue
  | 0 => some .nan
  | 1 => some .size
  | 2 => some .eventCode
  | 3 => some .registerGetCode
  | 4 => some .roleId
  | _ => none

def name : SpecialValue → String
  | .nan => "Nan"
  | .size => "Size"
  | .eventCode => "EvCode"
  | .registerGetCode => "RegGetCode"
  | .roleId => "RoleId"

@[simp] theorem ofCode?_code (op : SpecialValue) : ofCode? op.code = some op := by
  cases op <;> rfl

end SpecialValue

/-- Operations on two registers. `and` and `or` yield one of their operands. -/
inductive BinaryOp where
  | add
  | sub
  | div
  | mul
  | lt
  | le
  | eq
  | ne
  | and
  | or
  deriving DecidableEq, Repr

namespace BinaryOp

def code : BinaryOp → Nat
  | .add => 1
  | .sub => 2
  | .div => 3
  | .mul => 4
  | .lt => 5
  | .le => 6
  | .eq => 7
  | .ne => 8
  | .and => 9
  | .or => 10

def ofCode? : Nat → Option BinaryOp
  | 1 => some .add
  | 2 => some .sub
  | 3 => some .div
  | 4 => some .mul
  | 5 => some .lt
  | 6 => some .le
  | 7 => some .eq
  | 8 => some .ne
  | 9 => some .and
  | 10 => some .or
  | _ => none

def name : BinaryOp → String
  | .add => "Add"
  | .sub => "Sub"
  | .div => "Div"
  | .mul => "Mul"
  | .lt => "Lt"
  | .le => "Le"
  | .eq => "Eq"
  | .ne => "Ne"
  | .and => "And"
  | .or => "Or"

@[simp] theorem ofCode?_code (op : BinaryOp) : ofCode? op.code = some op := by
  cases op <;> rfl

end BinaryOp

inductive UnaryOp where
  | id
  | neg
  | not
  | abs
  | isNan
  deriving DecidableEq, Repr

namespace UnaryOp

def code : UnaryOp → Nat
  | .id => 0
  | .neg => 1
  | .not => 2
  | .abs => 3
  | .isNan => 4

def ofCode? : Nat → Option UnaryOp
  | 0 => some .id
  | 1 => some .neg
  | 2 => some .not
  | 3 => some .abs
  | 4 => some .isNan
  | _ => none

def name : UnaryOp → String
  | .id => "Id"
  | .neg => "Neg"
  | .not => "Not"
  | .abs => "Abs"
  | .isNan => "IsNan"

@[simp] theorem ofCode?_code (op : UnaryOp) : ofCode? op.code = some op := by
  cases op <;> rfl

end UnaryOp

inductive Math1 where
  | floor
  | round
  | ceil
  | logE
  | random
  deriving DecidableEq, Repr

namespace Math1

def code : Math1 → Nat
  | .floor => 0
  | .round => 1
  | .ceil => 2
  | .logE => 3
  | .random => 4

def ofCode? : Nat → Option Math1
  | 0 => some .floor
  | 1 => some .round
  | 2 => some .ceil
  | 3 => some .logE
  | 4 => some .random
  | _ => none

def name : Math1 → String
  | .floor => "Floor"
  | .round => "Round"
  | .ceil => "Ceil"
  | .logE => "LogE"
  | .random => "Random"

@[simp] theorem ofCode?_code (op : Math1) : ofCode? op.code = some op := by
  cases op <;> rfl

end Math1

inductive Math2 where
  | min
  | max
  | pow
  deriving DecidableEq, Repr

namespace Math2

def code : Math2 → Nat
  | .min => 0
  | .max => 1
  | .pow => 2

def ofCode? : Nat → Option Math2
  | 0 => some .min
  | 1 => some .max
  | 2 => some .pow
  | _ => none

def name : Math2 → String
  | .min => "Min"
  | .max => "Max"
  | .pow => "Pow"

@[simp] theorem ofCode?_code (op : Math2) : ofCode? op.code = some op := by
  cases op <;> rfl

end Math2

inductive RoleProperty where
  | isConnected
  deriving DecidableEq, Repr

namespace RoleProperty

def code : RoleProperty → Nat
  | .isConnected => 0

def ofCode? : Nat → Option RoleProperty
  | 0 => some .isConnected
  | _ => none

def name : RoleProperty → String
  | .isConnected => "IsConnected"

@[simp] theorem ofCode?_code (op : RoleProperty) : ofCode? op.code = some op := by
  cases op
  rfl

end RoleProperty

end BusScript
