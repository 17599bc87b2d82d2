import Mathlib
import BusScript.Machine.Arithmetic
import BusScript.Proofs.WholeNumbers

namespace BusScript

namespace Number

open Float.Model Float.Model.UnpackedFloat

theorem toNat_abs (x : Number) : x.abs.bits.toNat = x.bits.toNat % 2 ^ 63 := by
  rw [abs, UInt64.toNat_and, show (~~~signMask).toNat = 2 ^ 63 - 1 from rfl, Nat.and_two_pow_sub_one_eq_mod]

theorem toNat_unpackExponent (x : Number) :
    (@unpackExponent .binary64 x.bits.toBitVec).toNat = x.bits.toNat / 2 ^ 52 % 2 ^ 11 := by
  simp only [unpackExponent, BitVec.toNat_cast, BitVec.extractLsb_toNat, UInt64.toNat_toBitVec, Nat.shiftRight_eq_div_pow]

theorem toNat_unpackMantissa (x : Number) :
    (@unpackMantissa .binary64 x.bits.toBitVec).toNat = x.bits.toNat % 2 ^ 52 := by
  simp only [unpackMantissa, BitVec.toNat_cast, BitVec.extractLsb_toNat, UInt64.toNat_toBitVec, Nat.shiftRight_zero]

theorem isNaNBits_eq (x : Number) : @isNaNBits .binary64 x.bits.toBitVec = x.isNaN := by
  have hlt := x.bits.toNat_lt
  rw [isNaNBits, isNaN, decide_eq_decide, UInt64.lt_iff_toNat_lt, toNat_abs, ← BitVec.toNat_inj, ne_eq, ← BitVec.toNat_inj,
    toNat_unpackExponent, toNat_unpackMantissa]
  rw [show (-1#11).toNat = 2047 from rfl, show (0#52).toNat = 0 from rfl, show infinity.bits.toNat = 2047 * 2 ^ 52 from rfl]
  omega

theorem toBits_toFloat (x : Number) :
    x.toFloat.toBits.toBitVec = if x.isNaN then packedNaN .binary64 else x.bits.toBitVec := by
  rw [← isNaNBits_eq]
  exact @pack_unpack .binary64 x.bits.toBitVec (by decide)

variable {x : Number}

theorem toFloat_of_isNaN (h : x.isNaN = true) : x.toFloat = Float.nan := by
  rw [← Float.toBits_inj, ← UInt64.toBitVec_inj, toBits_toFloat, if_pos h]
  rfl

theorem isNaN_toFloat (x : Number) : x.toFloat.isNaN = x.isNaN := by
  cases h : x.isNaN with
  | true =>
    rw [toFloat_of_isNaN h]
    rfl
  | false =>
    rw [Float.isNaN_eq_decide_eq_nan, decide_eq_false_iff_not, ← Float.toBits_inj, ← UInt64.toBitVec_inj, toBits_toFloat, h]
    intro heq
    have hbits := isNaNBits_eq x
    simp only [Bool.false_eq_true, if_false] at heq
    rw [heq, h] at hbits
    exact absurd hbits (by decide)

theorem ofFloat_toFloat (h : x.isNaN = false) : ofFloat x.toFloat = x := by
  rw [ofFloat, isNaN_toFloat, h]
  have hbits := toBits_toFloat x
  rw [h] at hbits
  exact congrArg Number.mk (UInt64.toBitVec_inj.1 hbits)

theorem toFloat_inj {y : Number} (hx : x.isNaN = false) (h : x.toFloat = y.toFloat) : x = y := by
  have hy : y.isNaN = false := by rw [← isNaN_toFloat, ← h, isNaN_toFloat, hx]
  rw [← ofFloat_toFloat hx, h, ofFloat_toFloat hy]

theorem eq_of_equals {y : Number} (h : x.equals y = true) : x = y ∨ x.isZero = true := by
  obtain ⟨hx, -, heq | ⟨hzero, -⟩ | ⟨hzero, -⟩⟩ := Float.beq_iff_ne_nan_and_eq.1 h
  · refine .inl (toFloat_inj ?_ heq)
    rw [← isNaN_toFloat, Float.isNaN_eq_decide_eq_nan]
    exact decide_eq_false hx
  · have hnum : x = 0 := toFloat_inj (by rw [← isNaN_toFloat, hzero]; rfl) (hzero.trans (by rfl))
    exact .inr (by rw [hnum]; rfl)
  · have hnum : x = -0 := toFloat_inj (by rw [← isNaN_toFloat, hzero]; rfl) (hzero.trans (by rfl))
    exact .inr (by rw [hnum]; rfl)

theorem shiftRight_exact (m j : Nat) : (ExtendedMantissa.mk (m * 2 ^ j) false false) >>> j = ⟨m, false, false⟩ := by
  induction j generalizing m with
  | zero => rw [Nat.pow_zero, Nat.mul_one]; rfl
  | succ j ih =>
    have h := ih (m * 2)
    rw [Nat.mul_assoc, ← Nat.pow_succ'] at h
    change ExtendedMantissa.shiftRightOne (ExtendedMantissa.mk (m * 2 ^ (j + 1)) false false >>> j) = _
    rw [h, ExtendedMantissa.shiftRightOne]
    simp

variable {m : Nat} {e : Int} {negative : Bool}

theorem log2_mul_two_pow (hm : m ≠ 0) (j : Nat) : (m * 2 ^ j).log2 = m.log2 + j := by
  induction j with
  | zero => rw [Nat.pow_zero, Nat.mul_one, Nat.add_zero]
  | succ j ih =>
    rw [Nat.pow_succ, ← Nat.mul_assoc, Nat.mul_comm _ 2, Nat.log2_two_mul (by positivity), ih]
    rfl

theorem roundWithAccuracy_exact (hlow : 2 ^ 52 ≤ m) (hhigh : m < 2 ^ 53) (he : -1074 ≤ e) (s : Sign)
    (j : Nat) : roundWithAccuracy .binary64 s (m * 2 ^ j) (e - j) .exact = .finite s m e (by omega) := by
  have hlog : m.log2 = 52 := (Nat.log2_eq_iff (by omega)).2 ⟨hlow, hhigh⟩
  have hshift : ∀ j : Nat, shiftToTargetExponent .binary64 (m * 2 ^ j) (e - j) .exact = (⟨m, false, false⟩, e) := by
    intro j
    have htarget : Format.binary64.targetExponent (totalExponent (m * 2 ^ j) (e - j)) = e := by
      rw [totalExponent, log2_mul_two_pow (by omega), hlog, Format.targetExponent]
      change max (_ - 53) (-1074) = e
      push_cast
      omega
    rw [shiftToTargetExponent, htarget, shiftToExponent]
    have hamount : (e - (e - (j : Int))).toNat = j := by omega
    rw [hamount, ExtendedMantissa.ofMantissaAndAccuracy, shiftRight_exact]
    congr 1
    omega
  rw [roundWithAccuracy, hshift j]
  dsimp only
  have h0 := hshift 0
  simp only [Nat.pow_zero, Nat.mul_one, Nat.cast_zero, Int.sub_zero] at h0
  rw [show ExtendedMantissa.roundedMantissa ⟨m, false, false⟩ = m from rfl, h0]
  dsimp only
  rw [dif_neg (by omega)]

theorem round_exact {n k : Nat} (hlow : 2 ^ 52 ≤ n * 2 ^ k) (hhigh : n * 2 ^ k < 2 ^ 53) (hk : k ≤ 52) (s : Sign) :
    UnpackedFloat.round .binary64 s n 0 = .finite s (n * 2 ^ k) (-k) (by omega) := by
  have hn : n ≠ 0 := by rintro rfl; omega
  have hlog : (n * 2 ^ k).log2 = 52 := (Nat.log2_eq_iff (by omega)).2 ⟨hlow, hhigh⟩
  rw [log2_mul_two_pow hn] at hlog
  have htarget : Format.binary64.targetExponent (totalExponent n 0) = -k := by
    rw [totalExponent, Format.targetExponent]
    change max (_ - 53) (-1074) = -(k : Int)
    omega
  have hamount : (0 - -(k : Int)).toNat = k := by omega
  have hexact := roundWithAccuracy_exact hlow hhigh (show -1074 ≤ -(k : Int) by omega) s 0
  rw [Nat.pow_zero, Nat.mul_one, Nat.cast_zero, Int.sub_zero] at hexact
  rw [UnpackedFloat.round, htarget, decreaseExponent, hamount]
  dsimp only
  rw [Nat.shiftLeft_eq, Int.zero_sub, hexact]

theorem finite_congr {s : Sign} {m' : Nat} {e' : Int} {hm : 0 < m} {hm' : 0 < m'} (hmant : m = m') (hexp : e = e') :
    finite s m e hm = finite s m' e' hm' := by
  subst hmant hexp
  rfl

theorem unpack_of_binary? (h : x.binary? = some ⟨negative, m, e⟩)
    (hm : 0 < m) : UnpackedFloat.unpack .binary64 x.bits.toBitVec =
      .finite (Sign.ofBitVec (@unpackSign .binary64 x.bits.toBitVec)) m e hm := by
  have hexp := toNat_unpackExponent x
  have hmant := toNat_unpackMantissa x
  simp only [Nat.reducePow] at hexp hmant
  have hbias : (Format.binary64.exponentBias : Int) + (52 : Nat) = 1075 := rfl
  rw [binary?] at h
  delta UnpackedFloat.unpack
  dsimp only at h ⊢
  split at h
  · cases h
  · next hfull =>
    rw [if_neg fun heq => hfull (hexp.symm.trans (congrArg BitVec.toNat heq))]
    split at h
    · next hsub =>
      cases h
      have hzero : @unpackExponent .binary64 x.bits.toBitVec = 0#_ := BitVec.toNat_inj.1 (hexp.trans hsub)
      grind
    · next hsub =>
      cases h
      rw [if_neg fun heq => hsub (hexp.symm.trans (congrArg BitVec.toNat heq))]
      refine finite_congr ?_ ?_
      · rw [BitVec.toNat_append, hmant, show (1#1).toNat <<< 52 = 2 ^ 52 * 1 from rfl]
        rw [← Nat.two_pow_add_eq_or_of_lt (by omega)]
      · rw [hexp, hbias]
        rfl

theorem unpack_toFloat (h : x.isNaN = false) :
    x.toFloat.toModel.unpack = UnpackedFloat.unpack .binary64 x.bits.toBitVec := by
  have hbits := toBits_toFloat x
  rw [h] at hbits
  exact congrArg (UnpackedFloat.unpack .binary64) hbits

theorem ofNat_eq {n k : Nat} (hnan : x.isNaN = false) (hlow : 2 ^ 52 ≤ n * 2 ^ k) (hhigh : n * 2 ^ k < 2 ^ 53)
    (hk : k ≤ 52)
    (hx : UnpackedFloat.unpack .binary64 x.bits.toBitVec = .finite .positive (n * 2 ^ k) (-k) (by omega)) :
    ofNat n = x := by
  have hn : n < 2 ^ 53 := Nat.lt_of_le_of_lt (Nat.le_mul_of_pos_right n (Nat.two_pow_pos k)) hhigh
  have hpos : 0 < n := Nat.pos_of_ne_zero (by rintro rfl; omega)
  have hsmall : n.toUInt64.toNat = n := UInt64.toNat_ofNat_of_lt' (Nat.lt_trans hn (by decide))
  have hcast : n.toUInt64.toFloat = x.toFloat := by
    have hround : UnpackedFloat.ofUInt64 .binary64 n.toUInt64 = UnpackedFloat.unpack .binary64 x.bits.toBitVec := by
      rw [hx, ← round_exact hlow hhigh hk, UnpackedFloat.ofUInt64, hsmall, UnpackedFloat.ofNat, UnpackedFloat.ofInt,
        UnpackedFloat.normalize]
      have hgt : compare (n : Int) 0 = .gt := Int.compare_eq_gt.2 (by omega)
      rw [hgt]
      rfl
    exact congrArg (fun u => Float.ofModel (Float.Model.pack u)) hround
  have hone : (Float.ofBits 4607182418800017408).toModel.unpack = .finite .positive (2 ^ 52) (-52) (by decide) := rfl
  have hmul : x.toFloat * Float.ofBits 4607182418800017408 = x.toFloat := by
    have hprod : UnpackedFloat.mul .binary64 x.toFloat.toModel.unpack (Float.ofBits 4607182418800017408).toModel.unpack =
        UnpackedFloat.unpack .binary64 x.bits.toBitVec := by
      rw [unpack_toFloat hnan, hone, hx]
      exact roundWithAccuracy_exact hlow hhigh (by omega) _ 52
    exact congrArg (fun u => Float.ofModel (Float.Model.pack u)) hprod
  have hfloat : Float.ofNat n = x.toFloat := by
    change Float.ofScientific n false 0 = _
    rw [Float.ofScientific, dif_pos ⟨hn, by decide⟩]
    exact (congrArg (· * Float.ofBits 4607182418800017408) hcast).trans hmul
  rw [ofNat, hfloat, ofFloat_toFloat hnan]

theorem isNaN_of_binary? {b : Binary} (h : x.binary? = some b) : x.isNaN = false := by
  have hlt := x.bits.toNat_lt
  rw [binary?] at h
  split at h
  · cases h
  · next hfull =>
    rw [isNaN, decide_eq_false_iff_not, UInt64.lt_iff_toNat_lt, toNat_abs, show infinity.bits.toNat = 2047 * 2 ^ 52 from rfl]
    omega

theorem eq_zero_of_bits (h : x.bits.toNat = 0 ∨ x.bits.toNat = 2 ^ 63) : x = 0 ∨ x = -0 :=
  h.imp (fun h => congrArg Number.mk (UInt64.toNat_inj.1 h)) fun h => congrArg Number.mk (UInt64.toNat_inj.1 h)

theorem eq_zero_of_isZero (h : x.isZero = true) : x = 0 ∨ x = -0 := by
  have hlt := x.bits.toNat_lt
  have hbits := congrArg UInt64.toNat (eq_of_beq h)
  rw [toNat_abs] at hbits
  refine eq_zero_of_bits ?_
  rw [UInt64.toNat_zero] at hbits
  omega

theorem eq_zero_of_binary? (h : x.binary? = some ⟨negative, 0, e⟩) : x = 0 ∨ x = -0 := by
  have hlt := x.bits.toNat_lt
  rw [binary?] at h
  refine eq_zero_of_bits ?_
  grind

theorem binary?_bounds (h : x.binary? = some ⟨negative, m, e⟩) : m < 2 ^ 53 ∧ (2 ^ 52 ≤ m ∨ e = -1074) := by
  rw [binary?] at h
  split at h
  · cases h
  · split at h
    · cases h
      omega
    · cases h
      omega

/-- Small whole numbers stand in an instruction as they are, but for the negative zero. -/
theorem ofNat_toUInt32 (hwhole : x.isWhole = true) (hge : 0 ≤ x) (hle : x ≤ 65535) (hzero : x ≠ -0) :
    ofNat x.toUInt32.toNat = x := by
  rw [isWhole] at hwhole
  cases hb : x.binary? with
  | none =>
    rw [hb] at hwhole
    cases hwhole
  | some b =>
    obtain ⟨negative, m, e⟩ := b
    rw [hb] at hwhole
    dsimp only at hwhole
    have hnan := isNaN_of_binary? hb
    rcases Nat.eq_zero_or_pos m with rfl | hm
    · rcases eq_zero_of_binary? hb with rfl | rfl
      · rfl
      · exact absurd rfl hzero
    · obtain ⟨s, hs⟩ : ∃ s, UnpackedFloat.unpack .binary64 x.bits.toBitVec = .finite s m e hm :=
        ⟨_, unpack_of_binary? hb hm⟩
      have hx : x.toFloat.toModel.unpack = .finite s m e hm := (unpack_toFloat hnan).trans hs
      have hge : UnpackedFloat.le (.zero .positive) x.toFloat.toModel.unpack = true := of_decide_eq_true hge
      have hle : UnpackedFloat.le x.toFloat.toModel.unpack (.finite .positive (65535 * 2 ^ 37) (-37) (by decide)) = true :=
        of_decide_eq_true hle
      rw [hx] at hge hle
      cases s with
      | negative => cases hge
      | positive =>
        have hexp : e ≤ -37 := by
          rcases compare_isLE hle with hlt | ⟨heq, -⟩ <;> omega
        obtain ⟨hhigh, hnormal⟩ := binary?_bounds hb
        have hdiv : m % 2 ^ e.natAbs = 0 := by
          rcases Bool.or_eq_true_iff.1 hwhole with hpos | hmod
          · grind
          · exact beq_iff_eq.1 hmod
        have hk : e.natAbs ≤ 52 := by
          by_contra hlarge
          have hpow : 2 ^ 53 ≤ 2 ^ e.natAbs := Nat.pow_le_pow_right (by decide) (by omega)
          rw [Nat.mod_eq_of_lt (by omega)] at hdiv
          omega
        have hmul : m / 2 ^ e.natAbs * 2 ^ e.natAbs = m := Nat.div_mul_cancel (Nat.dvd_of_mod_eq_zero hdiv)
        have hlow : 2 ^ 52 ≤ m := hnormal.resolve_right (by omega)
        have hint : x.toUInt32.toNat = m / 2 ^ e.natAbs := by
          have hsmall : m / 2 ^ e.natAbs < 2 ^ 16 := by
            have hpow : 2 ^ 37 ≤ 2 ^ e.natAbs := Nat.pow_le_pow_right (by decide) (by omega)
            rw [Nat.div_lt_iff_lt_mul (Nat.two_pow_pos _)]
            omega
          have htoInt : (x.toFloat.toModel.unpack.toInt 0 (UInt32.size - 1)).toNat = m / 2 ^ e.natAbs := by
            rw [hx]
            change (roundToInt .positive m e).toNat = _
            rw [roundToInt_of_neg (by omega), Int.toNat_natCast, show (-e).toNat = e.natAbs by omega]
          change (UInt32.ofNatClamp _).toNat = _
          rw [htoInt, UInt32.ofNatClamp, dif_pos (Nat.lt_trans hsmall (by decide)), UInt32.toNat_ofNatLT]
        rw [hint]
        refine ofNat_eq (k := e.natAbs) hnan (by rw [hmul]; exact hlow) (by rw [hmul]; exact hhigh) hk ?_
        grind

theorem xor_and (a b c : UInt64) : (a ^^^ b) &&& c = (a &&& c) ^^^ (b &&& c) := by
  refine UInt64.toBitVec_inj.1 (BitVec.eq_of_getLsbD_eq fun i _ => ?_)
  simp only [UInt64.toBitVec_and, UInt64.toBitVec_xor, BitVec.getLsbD_and, BitVec.getLsbD_xor, Bool.and_xor_distrib_right]

theorem or_and (a b c : UInt64) : (a ||| b) &&& c = (a &&& c) ||| (b &&& c) := by
  refine UInt64.toBitVec_inj.1 (BitVec.eq_of_getLsbD_eq fun i _ => ?_)
  simp only [UInt64.toBitVec_and, UInt64.toBitVec_or, BitVec.getLsbD_and, BitVec.getLsbD_or, Bool.and_or_distrib_right]

theorem and_or_self (a b : UInt64) : (a ||| b) &&& b = b := by
  refine UInt64.toBitVec_inj.1 (BitVec.eq_of_getLsbD_eq fun i _ => ?_)
  simp_all

theorem abs_neg (x : Number) : (-x).abs = x.abs := by
  change (⟨(x.bits ^^^ signMask) &&& ~~~signMask⟩ : Number) = ⟨x.bits &&& ~~~signMask⟩
  rw [xor_and, show signMask &&& ~~~signMask = 0 from rfl, UInt64.xor_zero]

theorem abs_abs (x : Number) : x.abs.abs = x.abs := by
  change (⟨(x.bits &&& ~~~signMask) &&& ~~~signMask⟩ : Number) = ⟨x.bits &&& ~~~signMask⟩
  rw [UInt64.and_assoc, UInt64.and_self]

/-- NaN as operations leave it. -/
structure IsQuiet (x : Number) : Prop where
  isNaN : x.isNaN = true
  bit : x.bits &&& quietBit ≠ 0

theorem isQuiet_nan : nan.IsQuiet := ⟨by decide, by decide⟩

theorem isQuiet_quiet (h : x.isNaN = true) : x.quiet.IsQuiet := by
  refine ⟨?_, ?_⟩
  · have hbits : x.quiet.abs.bits = x.abs.bits ||| quietBit := by
      change (x.bits ||| quietBit) &&& ~~~signMask = _
      rw [or_and, show quietBit &&& ~~~signMask = quietBit from rfl]
      rfl
    rw [isNaN, decide_eq_true_iff, UInt64.lt_iff_toNat_lt] at h ⊢
    rw [hbits, UInt64.toNat_or]
    exact Nat.lt_of_lt_of_le h Nat.left_le_or
  · change (x.bits ||| quietBit) &&& quietBit ≠ 0
    rw [and_or_self]
    decide

theorem IsQuiet.neg (h : x.IsQuiet) : (-x).IsQuiet := by
  refine ⟨?_, ?_⟩
  · rw [Number.isNaN, abs_neg]
    exact h.isNaN
  · change (x.bits ^^^ signMask) &&& quietBit ≠ 0
    rw [xor_and, show signMask &&& quietBit = 0 from rfl, UInt64.xor_zero]
    exact h.bit

theorem IsQuiet.abs (h : x.IsQuiet) : x.abs.IsQuiet := by
  refine ⟨?_, ?_⟩
  · rw [Number.isNaN, abs_abs]
    exact h.isNaN
  · change (x.bits &&& ~~~signMask) &&& quietBit ≠ 0
    rw [UInt64.and_assoc, show ~~~signMask &&& quietBit = quietBit from rfl]
    exact h.bit

theorem IsQuiet.isSignalling (h : x.IsQuiet) : x.isSignalling = false := by
  rw [Number.isSignalling, h.isNaN, Bool.true_and, beq_eq_false_iff_ne]
  exact h.bit

theorem IsQuiet.isZero (h : x.IsQuiet) : x.isZero = false := by
  have hnan := h.isNaN
  rw [Number.isNaN, decide_eq_true_iff] at hnan
  rw [Number.isZero, beq_eq_false_iff_ne]
  rintro hzero
  rw [hzero] at hnan
  exact absurd hnan (by decide)

theorem IsQuiet.truthy (h : x.IsQuiet) : x.truthy = false := by
  rw [Number.truthy, h.isNaN, Bool.not_true, Bool.and_false]

theorem binary?_of_isNaN (h : x.isNaN = true) : x.binary? = none := by
  cases hb : x.binary? with
  | none => rfl
  | some b =>
    rw [isNaN_of_binary? hb] at h
    cases h

/-- The same number, or NaN twice. -/
def Alike (x y : Number) : Prop := x = y ∨ x.IsQuiet ∧ y.IsQuiet

namespace Alike

variable {x x' y y' : Number}

theorem refl (x : Number) : Alike x x := .inl rfl

theorem of_isNaN (hx : x.IsQuiet) (hy : y.IsQuiet) : Alike x y := .inr ⟨hx, hy⟩

theorem isNaN_eq (h : Alike x y) : x.isNaN = y.isNaN := by
  rcases h with rfl | ⟨hx, hy⟩
  · rfl
  · rw [hx.isNaN, hy.isNaN]

theorem toFloat_eq (h : Alike x y) : x.toFloat = y.toFloat := by
  rcases h with rfl | ⟨hx, hy⟩
  · rfl
  · rw [toFloat_of_isNaN hx.isNaN, toFloat_of_isNaN hy.isNaN]

theorem truthy_eq (h : Alike x y) : x.truthy = y.truthy := by
  rcases h with rfl | ⟨hx, hy⟩
  · rfl
  · rw [hx.truthy, hy.truthy]

theorem lt_iff (hx : Alike x x') (hy : Alike y y') : x < y ↔ x' < y' := by
  change x.toFloat < y.toFloat ↔ x'.toFloat < y'.toFloat
  rw [hx.toFloat_eq, hy.toFloat_eq]

theorem le_iff (hx : Alike x x') (hy : Alike y y') : x ≤ y ↔ x' ≤ y' := by
  change x.toFloat ≤ y.toFloat ↔ x'.toFloat ≤ y'.toFloat
  rw [hx.toFloat_eq, hy.toFloat_eq]

theorem equals_eq (hx : Alike x x') (hy : Alike y y') : x.equals y = x'.equals y' := by
  rw [equals, equals, hx.toFloat_eq, hy.toFloat_eq]

theorem quiet (h : Alike x y) (hnan : x.isNaN = true) : Alike x.quiet y.quiet :=
  of_isNaN (isQuiet_quiet hnan) (isQuiet_quiet (h.isNaN_eq ▸ hnan))

theorem lift2 (op : Float → Float → Float) (hx : Alike x x') (hy : Alike y y') :
    Alike (lift2 op x y) (Number.lift2 op x' y') := by
  rw [Number.lift2, Number.lift2, ← hx.isNaN_eq, ← hy.isNaN_eq, ← hx.toFloat_eq, ← hy.toFloat_eq]
  split
  · next hnan => exact hx.quiet hnan
  · split
    · next hnan => exact hy.quiet hnan
    · exact refl _

theorem round (h : Alike x y) (dir : Rounding) : Alike (x.round dir) (y.round dir) := by
  rcases h with rfl | ⟨hx, hy⟩
  · exact refl _
  · simp only [Number.round, binary?_of_isNaN hx.isNaN, binary?_of_isNaN hy.isNaN, hx.isNaN, hy.isNaN, if_true]
    exact of_isNaN (isQuiet_quiet hx.isNaN) (isQuiet_quiet hy.isNaN)

theorem roundHalfUp (h : Alike x y) : Alike x.roundHalfUp y.roundHalfUp := by
  have hbelow := h.round .down
  have hrest : Alike (x - x.floor) (y - y.floor) := h.lift2 Float.sub hbelow
  simp only [Number.roundHalfUp, (refl 0.5).le_iff hrest]
  split
  · exact hbelow.lift2 Float.add (refl 1)
  · exact hbelow

theorem log (h : Alike x y) : Alike x.log y.log := by
  rw [Number.log, Number.log, ← h.isNaN_eq, ← h.toFloat_eq]
  split
  · next hnan => exact h.quiet hnan
  · exact refl _

theorem trans {z : Number} (h : Alike x y) (h' : Alike y z) : Alike x z := by
  rcases h with rfl | ⟨hx, hy⟩
  · exact h'
  · rcases h' with rfl | ⟨-, hz⟩
    · exact of_isNaN hx hy
    · exact of_isNaN hx hz

theorem isQuiet_pow (hx : x.IsQuiet) (hy : y.isZero = false) : (x.pow y).IsQuiet := by
  have hone : x ≠ 1 := by
    rintro rfl
    exact absurd hx.isNaN (by decide)
  simp only [Number.pow, hy, Bool.false_eq_true, if_false, if_neg hone, hx.isNaN, if_true]
  split
  · exact (isQuiet_quiet hx.isNaN).neg
  · exact isQuiet_quiet hx.isNaN

theorem pow_left (h : Alike x x') (y : Number) : Alike (x.pow y) (x'.pow y) := by
  rcases h with rfl | ⟨hx, hx'⟩
  · exact refl _
  · cases hy : y.isZero with
    | true =>
      simp only [Number.pow, hy, if_true, hx.isSignalling, hx'.isSignalling]
      exact refl _
    | false => exact of_isNaN (isQuiet_pow hx hy) (isQuiet_pow hx' hy)

theorem pow_right (x : Number) (h : Alike y y') : Alike (x.pow y) (x.pow y') := by
  rcases h with rfl | ⟨hy, hy'⟩
  · exact refl _
  · have hodd : y.isOdd = false ∧ y'.isOdd = false := by
      rw [isOdd, isOdd, binary?_of_isNaN hy.isNaN, binary?_of_isNaN hy'.isNaN]
      exact ⟨rfl, rfl⟩
    simp only [Number.pow, hy.isZero, hy'.isZero, hy.isSignalling, hy'.isSignalling, hy.isNaN, hy'.isNaN, hodd.1, hodd.2,
      Bool.false_eq_true, if_false, if_true]
    split
    · exact refl _
    · split
      · exact refl _
      · exact of_isNaN (isQuiet_quiet hy.isNaN) (isQuiet_quiet hy'.isNaN)

theorem unary (op : UnaryOp) (h : Alike x y) : Alike (op.eval x) (op.eval y) := by
  cases op with
  | id => exact h
  | neg => exact h.imp (congrArg Neg.neg) fun hq => ⟨hq.1.neg, hq.2.neg⟩
  | not =>
    rw [UnaryOp.eval, UnaryOp.eval, h.truthy_eq]
    exact refl _
  | abs => exact h.imp (congrArg Number.abs) fun hq => ⟨hq.1.abs, hq.2.abs⟩
  | isNan =>
    rw [UnaryOp.eval, UnaryOp.eval, h.isNaN_eq]
    exact refl _

theorem binary (op : BinaryOp) (hx : Alike x x') (hy : Alike y y') : Alike (op.eval x y) (op.eval x' y') := by
  cases op with
  | add => exact hx.lift2 Float.add hy
  | sub => exact hx.lift2 Float.sub hy
  | div => exact hx.lift2 Float.div hy
  | mul => exact hx.lift2 Float.mul hy
  | lt =>
    simp only [BinaryOp.eval, hx.lt_iff hy]
    exact refl _
  | le =>
    simp only [BinaryOp.eval, hx.le_iff hy]
    exact refl _
  | eq | ne =>
    rw [BinaryOp.eval, BinaryOp.eval, hx.equals_eq hy]
    exact refl _
  | and =>
    simp only [BinaryOp.eval, hx.truthy_eq]
    split
    · exact hy
    · exact hx
  | or =>
    simp only [BinaryOp.eval, hx.truthy_eq]
    split
    · exact hx
    · exact hy

theorem math2 (op : Math2) (hx : Alike x x') (hy : Alike y y') : Alike (op.eval x y) (op.eval x' y') := by
  cases op with
  | min =>
    simp only [Math2.eval, Number.min, hy.isNaN_eq, hx.lt_iff hy]
    split
    · exact hx
    · exact hy
  | max =>
    simp only [Math2.eval, Number.max, hy.isNaN_eq, hy.lt_iff hx]
    split
    · exact hx
    · exact hy
  | pow => exact (hx.pow_left y).trans (pow_right x' hy)

end Alike

end Number

end BusScript
