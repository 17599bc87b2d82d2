namespace BusScript.Text

/-- Whether the code point `c`, counted from where the stretches begin, lies inside. -/
def insideAt : List Nat → Nat → Bool
  | outside :: inside :: rest, c =>
    outside ≤ c && (c < outside + inside || insideAt rest (c - outside - inside))
  | _, _ => false

def inStretches (stretches : List Nat) (c : Char) : Bool := insideAt stretches c.toNat

end BusScript.Text
