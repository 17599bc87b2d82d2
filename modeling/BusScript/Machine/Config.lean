import BusScript.Bus.Command

namespace BusScript

structure Config where
  /-- How many words a fiber may run before it parks. -/
  stepBudget : Nat := 131072
  cacheCapacity : Nat := 50
  defaultValidity : Nat := 900000
  autobindInterval : Nat := 500
  /-- When an unanswered query is repeated for the first time. -/
  resendInitial : Nat := 20
  resendMax : Nat := 1000
  payloadLimit : Nat := maxPayload
  backoffMin : Nat := 50
  backoffMax : Nat := 100
  deriving DecidableEq, Repr

namespace Config

/-- Repeats queries after `initial` milliseconds, then after twice as long each time up to `max`. -/
def withResend (c : Config) (initial max : Nat) : Config :=
  { c with resendInitial := initial, resendMax := Nat.max max initial }

def withBackoff (c : Config) (min max : Nat) : Config :=
  { c with backoffMin := min, backoffMax := Nat.max max min }

end Config

structure RunnerConfig where
  /-- How long devices have to announce themselves before the program starts. -/
  startDelay : Nat := 1100
  autoRestart : Bool := false
  deriving DecidableEq, Repr

end BusScript
