import BusScript.Number.Decimal
import BusScript.Text.Utf8

namespace BusScript.Template

/-- A number as scripts print it: both zeros as `0`. -/
def numberText (x : Number) : String :=
  if x.isNaN then "NaN"
  else if x = .infinity then "Infinity"
  else if x = -.infinity then "-Infinity"
  else if x.isZero then "0"
  else x.display

def digitsValue (digits : List Char) : Nat :=
  digits.foldl (fun n c => 10 * n + (c.toNat - 48)) 0

/-- The argument that a placeholder names, read behind its opening brace, and the text after it. -/
def placeholder? (args : List Number) (text : List Char) : Option (Number × List Char) :=
  let digits := text.takeWhile Char.isDigit
  match text.dropWhile Char.isDigit with
  | '\x7d' :: rest =>
    if digits.isEmpty then none else (args[digitsValue digits]?).map (·, rest)
  | _ => none

theorem length_of_placeholder? {args : List Number} {text rest : List Char} {x : Number}
    (h : placeholder? args text = some (x, rest)) : rest.length < text.length := by
  have hle : (text.dropWhile Char.isDigit).length ≤ text.length :=
    (List.dropWhile_sublist _).length_le
  simp only [placeholder?] at h
  split at h
  · rename_i tail hdrop
    split at h
    · simp at h
    · obtain ⟨y, _, hy⟩ := Option.map_eq_some_iff.1 h
      have hrest : tail = rest := congrArg Prod.snd hy
      rw [hdrop, List.length_cons, hrest] at hle
      omega
  · simp at h

def expand (args : List Number) : List Char → List Char
  | [] => []
  | '\x7b' :: '\x7b' :: rest => '\x7b' :: expand args rest
  | '\x7b' :: rest =>
    match _h : placeholder? args rest with
    | some (x, after) => (numberText x).toList ++ expand args after
    | none => '\x7b' :: expand args rest
  | c :: rest => c :: expand args rest
termination_by text => text.length
decreasing_by
  · simp only [List.length_cons]; omega
  · have hlt := length_of_placeholder? _h
    simp only [List.length_cons]; omega
  · simp only [List.length_cons]; omega
  · simp only [List.length_cons]; omega

def render (template : Array UInt8) (args : List Number) : String :=
  String.ofList (expand args (Text.decodeUtf8 template).toList)

end BusScript.Template
