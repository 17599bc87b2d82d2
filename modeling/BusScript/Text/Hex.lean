namespace BusScript.Text

/-- The digits of `n`, with zeros in front up to `width` digits. -/
def hexPadded (width n : Nat) : String :=
  let digits := Nat.toDigits 16 n
  String.ofList (List.replicate (width - digits.length) '0' ++ digits)

/-- The digits of `n` behind the mark `0x`. -/
def hexMarked (n : Nat) : String :=
  "0x" ++ hexPadded 1 n

/-- The mark `0x` and digits of `n`, filled with zeros to `width` characters in all. -/
def hexMarkedPadded (width n : Nat) : String :=
  "0x" ++ hexPadded (width - 2) n

def hexBytes (bytes : Array UInt8) : String :=
  bytes.foldl (fun text b => text ++ hexPadded 2 b.toNat) ""

def hexDigit? (c : Char) : Option Nat :=
  if '0' ≤ c ∧ c ≤ '9' then some (c.toNat - 48)
  else if 'a' ≤ c ∧ c ≤ 'f' then some (c.toNat - 87)
  else if 'A' ≤ c ∧ c ≤ 'F' then some (c.toNat - 55)
  else none

def natOfHex? (text : String) : Option Nat :=
  text.toList.foldlM (fun n c => (hexDigit? c).map (16 * n + ·)) 0

def bytesOfDigits? : List Char → Option (List UInt8)
  | [] => some []
  | high :: low :: rest => do
    let x ← hexDigit? high
    let y ← hexDigit? low
    return (16 * x + y).toUInt8 :: (← bytesOfDigits? rest)
  | [_] => none

/-- The bytes that `hexBytes` writes as `text`. -/
def bytesOfHex? (text : String) : Option (Array UInt8) :=
  (bytesOfDigits? text.toList).map List.toArray

end BusScript.Text
