namespace BusScript

structure RegSet where
  mask : Nat
  deriving DecidableEq, Repr, Inhabited

namespace RegSet

def bufferReg : Nat := 17

def empty : RegSet := ⟨0⟩

def has (s : RegSet) (r : Nat) : Bool := s.mask.testBit r

def insert (s : RegSet) (r : Nat) : RegSet := ⟨s.mask ||| Nat.pow 2 r⟩

def erase (s : RegSet) (r : Nat) : RegSet := ⟨if s.has r then s.mask - Nat.pow 2 r else s.mask⟩

def general (s : RegSet) : RegSet := ⟨s.mask % 0x10000⟩

/-- The general registers of the set, in ascending order. -/
def toList (s : RegSet) : List Nat := (List.range 16).filter s.has

def size (s : RegSet) : Nat := (List.range 32).countP s.has

end RegSet

end BusScript
