namespace BusScript.Text

/-- A character of which the first bytes have been read: its bits so far, how many bytes are to come,
and the range of the next one. -/
structure PartialChar where
  value : Nat
  left : Nat
  low : Nat
  high : Nat

def replacement : Char := Char.ofNat 0xfffd

inductive FirstByte where
  | whole (c : Char)
  | part (p : PartialChar)
  | stray

/-- The ranges keep out overlong forms, surrogates and numbers past the last character. -/
def firstByte (b : Nat) : FirstByte :=
  if b < 0x80 then .whole (Char.ofNat b)
  else if b < 0xc2 then .stray
  else if b < 0xe0 then .part ⟨b % 0x20, 1, 0x80, 0xbf⟩
  else if b < 0xf0 then
    .part ⟨b % 0x10, 2, if b = 0xe0 then 0xa0 else 0x80, if b = 0xed then 0x9f else 0xbf⟩
  else if b < 0xf5 then
    .part ⟨b % 0x08, 3, if b = 0xf0 then 0x90 else 0x80, if b = 0xf4 then 0x8f else 0xbf⟩
  else .stray

def start (b : Nat) : List Char × Option PartialChar :=
  match firstByte b with
  | .whole c => ([c], none)
  | .part p => ([], some p)
  | .stray => ([replacement], none)

/-- Takes one byte: the characters it completes and what remains open. -/
def feed (state : Option PartialChar) (b : Nat) : List Char × Option PartialChar :=
  match state with
  | none => start b
  | some p =>
    if p.low ≤ b ∧ b ≤ p.high then
      let value := p.value * 64 + b % 64
      if p.left = 1 then ([Char.ofNat value], none)
      else ([], some ⟨value, p.left - 1, 0x80, 0xbf⟩)
    else
      let (chars, next) := start b
      (replacement :: chars, next)

def decodeFrom (state : Option PartialChar) : List UInt8 → List Char
  | [] => if state.isSome then [replacement] else []
  | b :: rest =>
    let (chars, next) := feed state b.toNat
    chars ++ decodeFrom next rest

def decodeUtf8 (bytes : Array UInt8) : String := String.ofList (decodeFrom none bytes.toList)

def encodeUtf8 (s : String) : Array UInt8 := s.toUTF8.data

end BusScript.Text
