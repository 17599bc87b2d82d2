import BusScript.Image.Verify
import Mathlib.Algebra.Ring.Nat

namespace BusScript

theorem OpClass.code_of_ofCode? {n : Nat} {cls : OpClass} (h : ofCode? n = some cls) : cls.code = n := by
  unfold ofCode? at h
  split at h <;> cases h <;> rfl

theorem OpClass.ofCode?_eq_none {n : Nat} (h : ofCode? n = none) : 12 < n := by
  unfold ofCode? at h
  split at h <;> simp_all
  omega

namespace Operands

theorem absorb?_eq_none_iff {p : Operands} {w : Word} : p.absorb? w = none ↔ w.isOperandPrefix = false := by
  rw [absorb?, Word.isOperandPrefix]
  cases h : w.opClass? with
  | none =>
    have hlt := OpClass.ofCode?_eq_none h
    simp
    omega
  | some cls =>
    have hcode := OpClass.code_of_ofCode? h
    rw [← hcode]
    cases cls <;> simp [OpClass.code]
    split <;> simp

theorem absorb?_isSome_iff {p : Operands} {w : Word} : (p.absorb? w).isSome ↔ w.isOperandPrefix = true := by
  rw [Option.isSome_iff_ne_none, Ne, absorb?_eq_none_iff, Bool.not_eq_false]

/-- What is collected from prefix words has 22 bits. -/
structure Collected (p : Operands) : Prop where
  a : p.a < 2 ^ 22
  b : p.b < 2 ^ 22
  c : p.c < 2 ^ 22
  d : p.d < 2 ^ 22

theorem Collected.empty : Collected {} := ⟨by decide, by decide, by decide, by decide⟩

theorem Collected.absorb? {p q : Operands} {w : Word} (h : Collected p) (hq : p.absorb? w = some q) : Collected q := by
  have harg : w.arg12 < 2 ^ 22 := Nat.lt_trans (Nat.mod_lt _ (by decide)) (by decide)
  have hhigh : w.arg10 * 4096 < 2 ^ 22 := by
    have := Nat.mod_lt w.val (show 1024 > 0 by decide)
    rw [Word.arg10]
    omega
  unfold Operands.absorb? at hq
  split at hq
  · cases hq; exact { h with a := harg }
  · cases hq; exact { h with b := harg }
  · cases hq; exact { h with c := harg }
  · cases hq; exact { h with d := harg }
  · split at hq
    · cases hq; exact { h with a := Nat.or_lt_two_pow h.a hhigh }
    · cases hq; exact { h with b := Nat.or_lt_two_pow h.b hhigh }
    · cases hq; exact { h with c := Nat.or_lt_two_pow h.c hhigh }
    · cases hq; exact { h with d := Nat.or_lt_two_pow h.d hhigh }
  · cases hq

theorem Collected.resolve {p : Operands} (h : Collected p) (w : Word) :
    (p.resolve w).a < 2 ^ 32 ∧ (p.resolve w).b < 2 ^ 32 ∧ (p.resolve w).c < 2 ^ 32 ∧ (p.resolve w).d < 2 ^ 32 := by
  obtain ⟨ha, hb, hc, hd⟩ := h
  have hkind : w.kind2 < 4 := Nat.div_lt_of_lt_mul (Nat.mod_lt _ (by decide))
  have harg : w.arg6 < 64 := Nat.mod_lt _ (by decide)
  have hfour : w.high4 < 16 := Nat.div_lt_of_lt_mul (Nat.mod_lt _ (by decide))
  unfold Operands.resolve
  split
  all_goals try dsimp only
  all_goals omega

end Operands

namespace Body

def operandsAt (body : Array Word) : Nat → Operands
  | 0 => {}
  | n + 1 =>
    match body[n]? with
    | some w => ((operandsAt body n).absorb? w).getD {}
    | none => {}

/-- Whether an instruction starts at word `n`, or would, right behind the last word. -/
def startsAt (body : Array Word) : Nat → Bool
  | 0 => true
  | n + 1 =>
    match body[n]? with
    | some w => !w.isOperandPrefix
    | none => false

variable {body : Array Word} {n : Nat}

@[simp] theorem startsAt_zero (body : Array Word) : startsAt body 0 = true := rfl

theorem startsAt_succ {w : Word} (h : body[n]? = some w) : startsAt body (n + 1) = !w.isOperandPrefix := by
  simp [startsAt, h]

theorem operandsAt_succ {w : Word} (h : body[n]? = some w) :
    operandsAt body (n + 1) = ((operandsAt body n).absorb? w).getD {} := by
  simp [operandsAt, h]

theorem operandsAt_of_startsAt (h : startsAt body n = true) : operandsAt body n = {} := by
  cases n with
  | zero => rfl
  | succ n =>
    cases hw : body[n]? with
    | none => simp [operandsAt, hw]
    | some w =>
      rw [startsAt_succ hw, Bool.not_eq_true'] at h
      rw [operandsAt_succ hw, Operands.absorb?_eq_none_iff.2 h]
      rfl

end Body

end BusScript
