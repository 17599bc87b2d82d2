import BusScript.Text.Hex
import BusScript.Text.HiddenData
import BusScript.Text.Stretches

namespace BusScript.Text

def isHidden (c : Char) : Bool :=
  if c.toNat < 127 then c.toNat < 32
  else inStretches hiddenStretches c

def quoteChar (c : Char) : List Char :=
  match c with
  | '"' => ['\\', '"']
  | '\\' => ['\\', '\\']
  | '\n' => ['\\', 'n']
  | '\r' => ['\\', 'r']
  | '\t' => ['\\', 't']
  | '\x00' => ['\\', '0']
  | c =>
    if isHidden c then ['\\', 'u', '\x7b'] ++ Nat.toDigits 16 c.toNat ++ ['\x7d'] else [c]

def quoted (s : String) : String :=
  String.ofList ('"' :: s.toList.flatMap quoteChar ++ ['"'])

end BusScript.Text
