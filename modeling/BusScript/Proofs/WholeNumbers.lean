import Mathlib
import BusScript.Number.Basic

namespace BusScript.Number

open Float.Model Float.Model.UnpackedFloat

theorem mantissa_shiftRight (em : ExtendedMantissa) (k : Nat) : (em >>> k).mantissa = em.mantissa / 2 ^ k := by
  induction k with
  | zero =>
    rw [Nat.pow_zero, Nat.div_one]
    rfl
  | succ k ih =>
    change (em >>> k).mantissa / 2 = _
    rw [ih, Nat.pow_succ, Nat.div_div_eq_div_mul]

variable {m : Nat} {e : Int} {x : Number}

theorem roundToInt_of_neg (he : e ≤ 0) : roundToInt .positive m e = ((m / 2 ^ (-e).toNat : Nat) : Int) := by
  have hzero : (e - 0).toNat = 0 := by omega
  have hshift : (0 - (e - ((0 : Nat) : Int))).toNat = (-e).toNat := by omega
  simp only [roundToInt, decreaseExponent, shiftToExponent, Sign.apply, hzero, mantissa_shiftRight,
    hshift, ExtendedMantissa.ofMantissaAndAccuracy, Nat.shiftLeft_zero]

theorem mantissa_lt {f : Float.Model} {s : Sign} {hm : 0 < m} (h : f.unpack = .finite s m e hm) : m < 2 ^ 53 := by
  rw [Float.Model.unpack] at h
  delta UnpackedFloat.unpack at h
  dsimp only at h
  by_cases hexp : @unpackExponent .binary64 f.toBits.toBitVec = -1#_
  · grind
  · rw [if_neg hexp] at h
    by_cases hsub : @unpackExponent .binary64 f.toBits.toBitVec = 0#_
    · rw [if_pos hsub] at h
      by_cases hmant : @unpackMantissa .binary64 f.toBits.toBitVec = 0#_
      · rw [dif_pos hmant] at h
        cases h
      · rw [dif_neg hmant] at h
        cases h
        exact Nat.lt_trans (BitVec.isLt _) (by decide)
    · rw [if_neg hsub] at h
      cases h
      exact BitVec.isLt _

theorem compare_isLE {m1 m2 : Nat} {e1 e2 : Int}
    (h : ((compare e1 e2).then (compare m1 m2)).isLE = true) : e1 < e2 ∨ e1 = e2 ∧ m1 ≤ m2 := by
  rcases Int.lt_trichotomy e1 e2 with hlt | rfl | hgt
  · exact .inl hlt
  · rw [Int.compare_eq_eq.2 rfl, Ordering.eq_then, Nat.isLE_compare] at h
    exact .inr ⟨rfl, h⟩
  · rw [Int.compare_eq_gt.2 hgt] at h
    cases h

theorem toUInt32_le {n : Nat} {hm : 0 < m}
    (hn : (ofNat n).toFloat.toModel.unpack = .finite .positive m e hm) (he : e < 0)
    (hbits : 2 ^ 52 ≤ m) (hdiv : m / 2 ^ (-e).toNat = n) (hle : x ≤ ofNat n) :
    x.toUInt32.toNat ≤ n := by
  have hle : (x.toFloat.toModel.unpack).le (ofNat n).toFloat.toModel.unpack = true :=
    of_decide_eq_true hle
  have hbound : (x.toFloat.toModel.unpack.toInt 0 (UInt32.size - 1)).toNat ≤ n := by
    rw [hn, UnpackedFloat.le] at hle
    cases hx : x.toFloat.toModel.unpack with
    | notANumber | zero => exact Nat.zero_le _
    | infinity s =>
      cases s with
      | negative => exact Nat.zero_le _
      | positive =>
        rw [hx] at hle
        cases hle
    | finite s m1 e1 hm1 =>
      cases s with
      | negative =>
        change (roundToInt .negative m1 e1).toNat ≤ n
        rw [roundToInt]
        simp only [Sign.apply]
        omega
      | positive =>
        rw [hx] at hle
        have hlt := mantissa_lt hx
        rcases compare_isLE hle with hexp | ⟨rfl, hmant⟩
        · have hle : m1 / 2 ^ (-e1).toNat ≤ m / 2 ^ (-e).toNat := by
            obtain ⟨k, hk⟩ : ∃ k, (-e1).toNat = 1 + (-e).toNat + k :=
              ⟨(-e1).toNat - (1 + (-e).toNat), by omega⟩
            rw [hk, Nat.add_assoc, Nat.pow_add, ← Nat.div_div_eq_div_mul, Nat.pow_add, ← Nat.div_div_eq_div_mul]
            refine Nat.le_trans (Nat.div_le_self ..) (Nat.div_le_div_right ?_)
            omega
          change (roundToInt .positive m1 e1).toNat ≤ n
          rw [roundToInt_of_neg (by omega), Int.toNat_natCast]
          omega
        · change (roundToInt .positive m1 e1).toNat ≤ n
          rw [roundToInt_of_neg (by omega), Int.toNat_natCast, ← hdiv]
          exact Nat.div_le_div_right hmant
  refine Nat.le_trans ?_ hbound
  change (UInt32.ofNatClamp _).toNat ≤ _
  rw [UInt32.ofNatClamp]
  split
  · exact Nat.le_of_eq (UInt32.toNat_ofNatLT ..)
  · grind

theorem toUInt32_le_65535 (h : x ≤ 65535) : x.toUInt32.toNat ≤ 65535 := by
  have hn : (ofNat 65535).toFloat.toModel.unpack = .finite .positive (65535 * 2 ^ 37) (-37) (by decide) := rfl
  exact toUInt32_le hn (by decide) (by decide) (by decide) h

theorem toUInt32_le_9999 (h : x ≤ 9999) : x.toUInt32.toNat ≤ 9999 := by
  have hn : (ofNat 9999).toFloat.toModel.unpack = .finite .positive (9999 * 2 ^ 39) (-39) (by decide) := rfl
  exact toUInt32_le hn (by decide) (by decide) (by decide) h

end BusScript.Number
