import BusScript.Text.CaseData
import BusScript.Text.Stretches

namespace BusScript.Text

def upperChar (c : Char) : List Char :=
  if c.toNat < 128 then [c.toUpper]
  else
    match upperSequences.lookup c.toNat with
    | some codes => codes.map Char.ofNat
    | none => [mapCase upperRuns c]

/-- Whether the first character that is not skipped is a cased one. -/
def startsCased (text : List Char) : Bool :=
  match text.dropWhile (inStretches caseIgnorableStretches) with
  | c :: _ => inStretches casedStretches c
  | [] => false

/-- The lower case of a character between the text before it, read backwards, and the text after it.
A capital sigma that ends a word has a form of its own. -/
def lowerChar (before : List Char) (c : Char) (after : List Char) : List Char :=
  if c.toNat < 128 then [c.toLower]
  else if c = 'Σ' then (if startsCased before && !startsCased after then ['ς'] else ['σ'])
  else if c = 'İ' then ['i', Char.ofNat 0x307]
  else [mapCase lowerRuns c]

def lowerFrom (before : List Char) : List Char → List Char
  | [] => []
  | c :: after => lowerChar before c after ++ lowerFrom (c :: before) after

def lower (s : String) : String := String.ofList (lowerFrom [] s.toList)

/-- Camel case of words joined by underscores: `raise` says that the next character starts a word. -/
def camelFrom (raise started : Bool) : List Char → List Char
  | [] => []
  | c :: rest =>
    if c = '_' then camelFrom started started rest
    else (if raise then upperChar c else [c]) ++ camelFrom false true rest

/-- `some_name` as `someName`. Underscores in front vanish. -/
def camelCase (name : String) : String := String.ofList (camelFrom false false name.toList)

end BusScript.Text
