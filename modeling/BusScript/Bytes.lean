namespace BusScript

abbrev Bytes := Array UInt8

namespace Bytes

/-- The `width` low bytes of `n`, the lowest first. -/
def ofNat (width n : Nat) : Bytes :=
  Array.ofFn fun i : Fin width => (n / Nat.pow 256 i.val).toUInt8

/-- The number written in `width` bytes from `offset` on; bytes past the end count as zero. -/
def natAt (bytes : Bytes) (offset : Nat) : (width : Nat) → Nat
  | 0 => 0
  | width + 1 => (bytes.getD offset 0).toNat + 256 * natAt bytes (offset + 1) width

/-- Writes `part` over `bytes` from `offset` on. What would stand past the end is dropped. -/
def overwrite (bytes : Bytes) (offset : Nat) (part : Bytes) : Bytes :=
  bytes.mapIdx fun i b => if i < offset then b else part.getD (i - offset) b

/-- Lengthens `bytes` with zeros to at least `size` bytes. -/
def growTo (bytes : Bytes) (size : Nat) : Bytes :=
  bytes ++ Array.replicate (size - bytes.size) 0

@[simp] theorem size_ofNat (width n : Nat) : (ofNat width n).size = width := by
  simp [ofNat]

end Bytes

end BusScript
