namespace BusScript

/-- A run of words that one source line gave rise to. -/
structure SourceRun where
  line : Nat
  start : Nat
  len : Nat
  deriving DecidableEq, Repr

/-- The line of the word at `pc`: that of the first run around it. -/
def lineAt? (runs : List SourceRun) (pc : Nat) : Option Nat :=
  (runs.find? fun run => run.start ≤ pc && pc < run.start + run.len).map (·.line)

structure FunctionDebug where
  name : String
  sourceMap : List SourceRun
  locals : List String
  deriving DecidableEq, Repr

structure DebugInfo where
  functions : List FunctionDebug
  roles : List String
  globals : List String
  deriving DecidableEq, Repr

end BusScript
