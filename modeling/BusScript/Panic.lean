namespace BusScript

inductive PanicCode where
  | restart
  | internal
  | user (code : Nat)
  deriving DecidableEq, Repr

namespace PanicCode

def restartCode : Nat := 0x100000

def internalCode : Nat := 0x100001

def ofOperand (n : Nat) : PanicCode :=
  if n = 0 ∨ n = restartCode then .restart
  else if n = internalCode then .internal
  else .user n

def code : PanicCode → Nat
  | .restart => restartCode
  | .internal => internalCode
  | .user n => n

def message : PanicCode → String
  | .restart => "restart requested"
  | .internal => "internal error"
  | .user n => s!"panic {n}"

end PanicCode

end BusScript
