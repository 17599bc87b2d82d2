import BusScript.Script.Span

namespace BusScript

inductive Problem where
  | unknownName (name : String)
  | alreadyDefined (name : String)
  | unknownService (name : String)
  | unknownMember (object member : String)
  | argumentCount (name : String) (expected got : Nat)
  | valueRequired
  | expectedVariable
  | literalRequired
  | expressionTooComplex
  | bufferInUse
  | invalidPanicCode
  | topLevelOnly (construct : String)
  | unsupported (message : String)
  | other (message : String)
  deriving DecidableEq, Repr

namespace Problem

def name : Problem → String
  | .unknownName .. => "UnknownName"
  | .alreadyDefined .. => "AlreadyDefined"
  | .unknownService .. => "UnknownService"
  | .unknownMember .. => "UnknownMember"
  | .argumentCount .. => "ArgumentCount"
  | .valueRequired => "ValueRequired"
  | .expectedVariable => "ExpectedVariable"
  | .literalRequired => "LiteralRequired"
  | .expressionTooComplex => "ExpressionTooComplex"
  | .bufferInUse => "BufferInUse"
  | .invalidPanicCode => "InvalidPanicCode"
  | .topLevelOnly .. => "TopLevelOnly"
  | .unsupported .. => "Unsupported"
  | .other .. => "Other"

def message : Problem → String
  | .unknownName name => s!"cannot find '{name}'"
  | .alreadyDefined name => s!"name '{name}' already defined"
  | .unknownService name => s!"no such service '{name}'"
  | .unknownMember object member => s!"'{member}' is not a member of {object}"
  | .argumentCount name expected got => s!"{name} expects {expected} argument(s), got {got}"
  | .valueRequired => "a number required here"
  | .expectedVariable => "expecting variable"
  | .literalRequired => "expecting a literal here"
  | .expressionTooComplex => "expression too complex"
  | .bufferInUse => "buffer already in use"
  | .invalidPanicCode => "panic() code must be integer between 1 and 9999"
  | .topLevelOnly construct => s!"{construct} only allowed at top level"
  | .unsupported message => message
  | .other message => message

end Problem

structure Diagnostic where
  problem : Problem
  span : Span
  deriving DecidableEq, Repr

namespace Diagnostic

def orAt (d : Diagnostic) (span : Span) : Diagnostic :=
  if d.span.isKnown then d else { d with span }

def message (d : Diagnostic) : String := s!"at {d.span.text}: {d.problem.message}"

end Diagnostic

end BusScript
