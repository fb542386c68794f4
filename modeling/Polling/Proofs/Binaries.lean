import Mathlib
import Polling.Number.Numeral

/-! # Decimals of binary numbers

A finite binary number is `m * 2 ^ e` in `Canonical` form: its exponent is the one that rounding
takes for a number of its size (`canonical_of_unpack`).  A value that has a canonical form is
therefore not rounded at all, with whatever bits it is given (`round_exact`), and a
decimal of exactly that value is read back as the number (`toFloat_of_value`). -/

namespace Polling

open Float.Model Float.Model.UnpackedFloat

theorem Decimal.value_trim (d : Decimal) :
    (d.trim.digits : ℚ) * 10 ^ d.trim.exponent = d.digits * 10 ^ d.exponent := by
  fun_induction Decimal.trim d with
  | case1 d h ih =>
    have hten : (d.digits : ℚ) = (d.digits / 10 : Nat) * 10 := by
      exact_mod_cast (Nat.div_mul_cancel (Nat.dvd_of_mod_eq_zero h.2)).symm
    rw [ih, hten, zpow_add_one₀ (by norm_num)]
    ring
  | case2 d h => rfl

namespace Binary

/-- `m * 2 ^ e` as the bits of a finite binary number have it. -/
structure Canonical (m : Nat) (e : Int) : Prop where
  pos : 0 < m
  size : m < 2 ^ 53
  least : -1074 ≤ e
  greatest : e ≤ 971
  /-- Rounding takes this exponent. -/
  target : Format.binary64.targetExponent (totalExponent m e) = e

theorem targetExponent_eq (t : Int) :
    Format.binary64.targetExponent t = max (t - 53) (-1074) := by
  simp only [Format.targetExponent, Format.mantissaBits, Format.minExponent]
  norm_num

theorem canonical_of_unpack {x : Float} {s : Sign} {m : Nat} {e : Int} {h : 0 < m}
    (hx : x.toModel.unpack = .finite s m e h) : Canonical m e := by
  unfold Float.Model.unpack UnpackedFloat.unpack at hx
  dsimp only at hx
  have hmantissa : (@unpackMantissa .binary64 x.toModel.toBits.toBitVec).toNat < 2 ^ 52 :=
    BitVec.isLt _
  have hexponent : (@unpackExponent .binary64 x.toModel.toBits.toBitVec).toNat < 2 ^ 11 :=
    BitVec.isLt _
  have hbias : Format.exponentBias .binary64 = 1023 := rfl
  split_ifs at hx with hall hinf hleast hzero
  · -- Subnormal: the exponent is the least, and the mantissa is short.
    cases hx
    have hlog := (Nat.log2_lt h.ne').2 hmantissa
    have h0 : (@unpackExponent .binary64 x.toModel.toBits.toBitVec).toNat = 0 := by
      rw [hleast]
      rfl
    refine ⟨h, by omega, by omega, by omega, ?_⟩
    rw [targetExponent_eq, totalExponent]
    omega
  · -- Normal: with the leading bit the mantissa has all its bits.
    cases hx
    have hm : (1#1 ++ @unpackMantissa .binary64 x.toModel.toBits.toBitVec).toNat
        = 2 ^ 52 + (@unpackMantissa .binary64 x.toModel.toBits.toBitVec).toNat := by
      rw [BitVec.toNat_append]
      exact (Nat.shiftLeft_add_eq_or_of_lt hmantissa 1).symm
    have hlog := (Nat.log2_eq_iff (k := 52) h.ne').2 (by omega)
    have h0 : (@unpackExponent .binary64 x.toModel.toBits.toBitVec).toNat ≠ 0 :=
      fun h0 => hleast (BitVec.eq_of_toNat_eq h0)
    have h1 : (@unpackExponent .binary64 x.toModel.toBits.toBitVec).toNat ≠ 2 ^ 11 - 1 :=
      fun h1 => hall (BitVec.eq_of_toNat_eq h1)
    refine ⟨h, by omega, by omega, by omega, ?_⟩
    rw [targetExponent_eq, totalExponent, hlog]
    omega

theorem shiftRight_mul (m k : Nat) :
    (ExtendedMantissa.mk (m * 2 ^ k) false false) >>> k = ⟨m, false, false⟩ := by
  -- A shift repeats from the inside, so the last shift is taken off first.
  induction k generalizing m with
  | zero => simp [HShiftRight.hShiftRight, Nat.repeat]
  | succ k ih =>
    have hmul : m * 2 ^ (k + 1) = (m * 2) * 2 ^ k := by ring
    show ExtendedMantissa.shiftRightOne (ExtendedMantissa.mk (m * 2 ^ (k + 1)) false false >>> k)
      = _
    rw [hmul, ih]
    simp [ExtendedMantissa.shiftRightOne]

theorem totalExponent_mul {m : Nat} (h : 0 < m) (e : Int) (k : Nat) :
    totalExponent (m * 2 ^ k) (e - k) = totalExponent m e := by
  have hlog : (m * 2 ^ k).log2 = m.log2 + k := by
    rw [Nat.log2_eq_iff (Nat.mul_pos h (Nat.two_pow_pos k)).ne', Nat.pow_add, Nat.add_right_comm,
      Nat.pow_add]
    exact ⟨Nat.mul_le_mul_right _ (Nat.log2_self_le h.ne'),
      Nat.mul_lt_mul_of_pos_right Nat.lt_log2_self (Nat.two_pow_pos k)⟩
  rw [totalExponent, totalExponent, hlog]
  push_cast
  ring

namespace Canonical

variable {m : Nat} {e : Int}

theorem shift (c : Canonical m e) (k : Nat) :
    shiftToTargetExponent .binary64 (m * 2 ^ k) (e - k) .exact = (⟨m, false, false⟩, e) := by
  have hk : (e - (e - k : Int)).toNat = k := by omega
  rw [shiftToTargetExponent, totalExponent_mul c.pos, c.target, shiftToExponent, hk]
  simp only [ExtendedMantissa.ofMantissaAndAccuracy, shiftRight_mul, Prod.mk.injEq, true_and]
  omega

/-- A value with a canonical form is not rounded. -/
theorem round_exact (c : Canonical m e) (s : Sign) (k : Nat) :
    roundWithAccuracy .binary64 s (m * 2 ^ k) (e - k) .exact = .finite s m e c.pos := by
  have hagain : shiftToTargetExponent .binary64 m e .exact = (⟨m, false, false⟩, e) := by
    have := c.shift 0
    rwa [pow_zero, mul_one, Nat.cast_zero, sub_zero] at this
  have hrounded : (ExtendedMantissa.mk m false false).roundedMantissa = m := rfl
  rw [roundWithAccuracy, c.shift k]
  simp only [hrounded, hagain, c.pos.ne', dite_false]

theorem value_lt (c : Canonical m e) : (m : ℚ) * 2 ^ e < 2 ^ (1024 : ℤ) := by
  have hm : (m : ℚ) < 2 ^ (53 : ℤ) := by exact_mod_cast c.size
  calc (m : ℚ) * 2 ^ e < 2 ^ (53 : ℤ) * 2 ^ e := by gcongr
    _ = 2 ^ (53 + e) := (zpow_add₀ two_ne_zero _ _).symm
    _ ≤ 2 ^ (1024 : ℤ) := zpow_le_zpow_right₀ one_le_two (by have := c.greatest; omega)

theorem le_value (c : Canonical m e) : (2 : ℚ) ^ (-1074 : ℤ) ≤ m * 2 ^ e := by
  have hm : (1 : ℚ) ≤ m := by exact_mod_cast c.pos
  calc (2 : ℚ) ^ (-1074 : ℤ) ≤ 2 ^ e := zpow_le_zpow_right₀ one_le_two c.least
    _ ≤ m * 2 ^ e := le_mul_of_one_le_left (by positivity) hm

variable {n : Nat} {p : Int}

/-- The powers of ten that are too large or too small to be computed do not occur. -/
theorem exponent_bounds (c : Canonical m e) (hv : (n : ℚ) * 10 ^ p = m * 2 ^ e) :
    n ≠ 0 ∧ p ≤ 2048 ∧ -(2048 + n.log2 : ℤ) ≤ p := by
  have hlow := c.le_value
  have hhigh := c.value_lt
  rw [← hv] at hlow hhigh
  have hn : n ≠ 0 := by
    rintro rfl
    have : (0 : ℚ) < 2 ^ (-1074 : ℤ) := by positivity
    rw [Nat.cast_zero, zero_mul] at hlow
    exact absurd hlow this.not_ge
  have hn1 : (1 : ℚ) ≤ n := by exact_mod_cast Nat.one_le_iff_ne_zero.2 hn
  refine ⟨hn, ?_, ?_⟩
  · -- A power of ten is no less than that power of two, so the number would be too large.
    by_contra hp
    have : (2 : ℚ) ^ (1024 : ℤ) ≤ n * 10 ^ p := by
      calc (2 : ℚ) ^ (1024 : ℤ) ≤ 2 ^ p := zpow_le_zpow_right₀ one_le_two (by omega)
        _ ≤ 10 ^ p := zpow_le_zpow_left₀ (by omega) (by norm_num) (by norm_num)
        _ ≤ n * 10 ^ p := le_mul_of_one_le_left (by positivity) hn1
    exact absurd hhigh this.not_gt
  · by_contra hp
    have hlog : (n : ℚ) < 2 ^ (n.log2 + 1 : ℤ) := by exact_mod_cast Nat.lt_log2_self
    have hten : (10 : ℚ) ^ p ≤ 2 ^ p := by
      obtain ⟨k, rfl⟩ := Int.exists_eq_neg_ofNat (show p ≤ 0 by omega)
      rw [zpow_neg, zpow_neg]
      exact inv_anti₀ (by positivity) (zpow_le_zpow_left₀ (by omega) (by norm_num) (by norm_num))
    have : (n : ℚ) * 10 ^ p < 2 ^ (-1074 : ℤ) := by
      calc (n : ℚ) * 10 ^ p ≤ n * 2 ^ p := by gcongr
        _ < 2 ^ (n.log2 + 1 : ℤ) * 2 ^ p := by gcongr
        _ = 2 ^ (n.log2 + 1 + p : ℤ) := (zpow_add₀ two_ne_zero _ _).symm
        _ ≤ 2 ^ (-1074 : ℤ) := zpow_le_zpow_right₀ one_le_two (by omega)
    exact absurd hlow this.not_ge

/-- A decimal above one is turned into a binary number by a product. -/
theorem of_mul (c : Canonical m e) {k : Nat} (hv : (n : ℚ) * 10 ^ k = m * 2 ^ e) :
    roundWithAccuracy .binary64 .positive ((n <<< 53) * 10 ^ k) (-53) .exact
      = .finite .positive m e c.pos := by
  -- An integer is not less than one, so no bit of it is below the places that the product has.
  have he : -53 ≤ e := by
    by_contra he
    have hm : (m : ℚ) < 2 ^ (53 : ℤ) := by exact_mod_cast c.size
    have : (m : ℚ) * 2 ^ e < 1 := by
      calc (m : ℚ) * 2 ^ e < 2 ^ (53 : ℤ) * 2 ^ e := by gcongr
        _ = 2 ^ (53 + e) := (zpow_add₀ two_ne_zero _ _).symm
        _ ≤ 2 ^ (0 : ℤ) := zpow_le_zpow_right₀ one_le_two (by omega)
        _ = 1 := zpow_zero _
    have h0 : (n * 10 ^ k : Nat) = 0 := by
      have : ((n * 10 ^ k : Nat) : ℚ) < 1 := by push_cast; rwa [hv]
      exact Nat.lt_one_iff.1 (by exact_mod_cast this)
    have hpos : (0 : ℚ) < m * 2 ^ e := by
      have := c.pos
      positivity
    rw [← hv] at hpos
    exact absurd (by exact_mod_cast h0 : (n : ℚ) * 10 ^ k = 0) hpos.ne'
  obtain ⟨j, hj⟩ := Int.eq_ofNat_of_zero_le (show 0 ≤ e + 53 by omega)
  have hnat : (n <<< 53) * 10 ^ k = m * 2 ^ j := by
    have : (2 : ℚ) ^ e * 2 ^ 53 = 2 ^ j := by
      rw [← zpow_natCast, ← zpow_natCast, ← zpow_add₀ two_ne_zero]
      congr 1
    have : ((n * 2 ^ 53 * 10 ^ k : Nat) : ℚ) = (m * 2 ^ j : Nat) := by
      push_cast
      linear_combination 2 ^ 53 * hv + m * this
    rw [Nat.shiftLeft_eq]
    exact_mod_cast this
  have h53 : (-53 : ℤ) = e - j := by omega
  rw [hnat, h53]
  exact c.round_exact .positive j

/-- A decimal with a fraction is turned into a binary number by a quotient. -/
theorem of_div (c : Canonical m e) {k : Nat} (hv : (n : ℚ) = m * 2 ^ e * 10 ^ k) :
    ∃ j : Nat, divCore .binary64 n 0 (10 ^ k) 0 = (m * 2 ^ j, e - j, .exact) := by
  have hpos : (0 : ℚ) < m := by exact_mod_cast c.pos
  have hn : n ≠ 0 := by
    rintro rfl
    exact absurd hv.symm (by positivity)
  -- The quotient gets at least as many bits as the number has.
  have hlog : (n.log2 : Int) - (10 ^ k).log2 ≤ m.log2 + 1 + e := by
    generalize hl : (10 ^ k).log2 = l
    have h1 : (2 : ℚ) ^ (n.log2 : ℤ) ≤ n := by exact_mod_cast Nat.log2_self_le hn
    have h2 : (m : ℚ) < 2 ^ (m.log2 + 1 : ℤ) := by exact_mod_cast Nat.lt_log2_self
    have h3 : (10 : ℚ) ^ k < 2 ^ (l + 1 : ℤ) := by
      exact_mod_cast hl ▸ (Nat.lt_log2_self : 10 ^ k < _)
    have h4 : (2 : ℚ) ^ (n.log2 : ℤ) < 2 ^ (m.log2 + 1 + e + (l + 1) : ℤ) := by
      calc (2 : ℚ) ^ (n.log2 : ℤ) ≤ m * 2 ^ e * 10 ^ k := hv ▸ h1
        _ < 2 ^ (m.log2 + 1 : ℤ) * 2 ^ e * 2 ^ (l + 1 : ℤ) := by gcongr
        _ = 2 ^ (m.log2 + 1 + e + (l + 1) : ℤ) := by
          rw [← zpow_add₀ two_ne_zero, ← zpow_add₀ two_ne_zero]
    have := (zpow_lt_zpow_iff_right₀ one_lt_two).1 h4
    omega
  have htarget := c.target
  rw [targetExponent_eq, totalExponent] at htarget
  rw [divCore, targetExponent_eq, totalExponent, totalExponent]
  set t : Int := min (0 - 0) (max ((n.log2 + 1 + 0 : Int) - ((10 ^ k).log2 + 1 + 0) - 53) (-1074))
  obtain ⟨j, hj⟩ := Int.eq_ofNat_of_zero_le (show 0 ≤ e - t by omega)
  obtain ⟨i, hi⟩ := Int.eq_ofNat_of_zero_le (show 0 ≤ 0 - 0 - t by omega)
  have hquotient : n <<< i = m * 2 ^ j * 10 ^ k := by
    have hpow : (2 : ℚ) ^ e * 2 ^ i = 2 ^ j := by
      rw [← zpow_natCast, ← zpow_natCast, ← zpow_add₀ two_ne_zero]
      congr 1
      omega
    have : ((n * 2 ^ i : Nat) : ℚ) = (m * 2 ^ j * 10 ^ k : Nat) := by
      push_cast
      linear_combination 2 ^ i * hv + m * 10 ^ k * hpow
    rw [Nat.shiftLeft_eq]
    exact_mod_cast this
  refine ⟨j, ?_⟩
  rw [hi, Int.toNat_natCast, hquotient]
  simp only [Nat.mul_div_cancel _ (Nat.pow_pos (n := k) (show 0 < 10 by decide)),
    Nat.mul_mod_left, accuracyOfFraction, if_true, Prod.mk.injEq, true_and, and_true]
  omega

/-- A decimal of the value of a binary number is turned into that number. -/
theorem ofScientific (c : Canonical m e) (hv : (n : ℚ) * 10 ^ p = m * 2 ^ e) :
    UnpackedFloat.ofScientific .binary64 n p = .finite .positive m e c.pos := by
  obtain ⟨hn, hp, hlow⟩ := c.exponent_bounds hv
  have hbits : (2 : Int) ^ Format.exponentBits .binary64 = 2048 := rfl
  rw [UnpackedFloat.ofScientific, dif_neg hn, hbits, if_neg (by omega), if_neg (by omega)]
  split
  next h0 =>
    obtain ⟨k, rfl⟩ := Int.eq_ofNat_of_zero_le h0
    exact c.of_mul (by exact_mod_cast hv)
  next h0 =>
    obtain ⟨k, rfl⟩ := Int.exists_eq_neg_ofNat (show p ≤ 0 by omega)
    have hk : (-(-(k : Int))).toNat = k := by omega
    obtain ⟨j, hj⟩ := c.of_div (k := k) (n := n) (by
      rw [← hv, zpow_neg, zpow_natCast]
      field_simp)
    simp only [hk, UnpackedFloat.div, hj]
    exact c.round_exact .positive j

end Canonical

/-- The bits of a finite binary number but for its sign do not depend on the sign. -/
theorem pack_finite (m : Nat) (e : Int) (h : 0 < m) :
    ∃ w v, ∀ s,
      UnpackedFloat.pack .binary64 (.finite s m e h) = packComponents .binary64 s w v := by
  unfold UnpackedFloat.pack
  dsimp only
  split
  · exact ⟨_, _, fun _ => rfl⟩
  · split
    · exact ⟨_, _, fun _ => rfl⟩
    · exact ⟨_, _, fun _ => rfl⟩

/-- With one sign, bits say the number that they say with the other sign, but for the sign. -/
theorem unpack_packComponents {s : Sign} {m : Nat} {e : Int} {h : 0 < m} {w v}
    (hs : UnpackedFloat.unpack .binary64 (packComponents .binary64 s w v) = .finite s m e h)
    (s' : Sign) :
    UnpackedFloat.unpack .binary64 (packComponents .binary64 s' w v) = .finite s' m e h := by
  unfold UnpackedFloat.unpack at *
  simp only [unpackMantissa_packComponents, unpackExponent_packComponents,
    unpackSign_packComponents, Sign.ofBitVec_toBitVec] at *
  split_ifs at * <;> simp_all

variable {x : Float} {s : Sign} {m : Nat} {e : Int} {h : 0 < m}

/-- A binary number is made of what its bits say. -/
theorem pack_unpack (x : Float) : Float.ofModel (Float.Model.pack x.toModel.unpack) = x := by
  rcases x with ⟨⟨bits, valid⟩⟩
  simp only [Float.Model.pack, Float.Model.unpack, pack_unpack_of_valid valid,
    UInt64.ofBitVec_toBitVec]

theorem unpack_pack (hx : x.toModel.unpack = .finite s m e h) (s' : Sign) :
    (Float.Model.pack (.finite s' m e h)).unpack = .finite s' m e h := by
  obtain ⟨w, v, hpack⟩ := pack_finite m e h
  have hbits : x.toModel.toBits.toBitVec = packComponents .binary64 s w v := by
    rw [← hpack, ← hx]
    exact (pack_unpack_of_valid x.toModel.valid).symm
  have hs : UnpackedFloat.unpack .binary64 (packComponents .binary64 s w v) = .finite s m e h :=
    hbits ▸ hx
  simp only [Float.Model.unpack, Float.Model.pack, hpack]
  exact unpack_packComponents hs s'

/-- A decimal of exactly the value of a binary number is read as that number. -/
theorem toFloat_of_value (hx : x.toModel.unpack = .finite s m e h) {d : Decimal}
    (hd : (d.digits : ℚ) * 10 ^ d.exponent = m * 2 ^ e) :
    (Numeral.finite (s == .negative) d).toFloat = x := by
  have hof := (canonical_of_unpack hx).ofScientific (d.value_trim.trans hd)
  rw [Numeral.toFloat, Decimal.toFloat, Float.Model.ofScientific, hof]
  have hsame : Float.ofModel (Float.Model.pack (.finite s m e h)) = x := by rw [← hx, pack_unpack]
  cases s with
  | positive => exact hsame
  | negative =>
    have hneg : -Float.ofModel (Float.Model.pack (.finite .positive m e h))
        = Float.ofModel (Float.Model.pack
          (Float.Model.pack (.finite .positive m e h)).unpack.neg) := rfl
    have hflip : UnpackedFloat.neg (.finite .positive m e h) = .finite .negative m e h := rfl
    have hsign : (Sign.negative == Sign.negative) = true := rfl
    rw [hsign, Numeral.signed, if_pos rfl, hneg, unpack_pack hx, hflip, hsame]

/-- No digits at all are read as the zero of that sign. -/
theorem toFloat_zero (s : Sign) (p : Int) :
    (Numeral.finite (s == .negative) ⟨0, p⟩).toFloat
      = Float.ofModel (Float.Model.pack (.zero s)) := by
  have htrim : Decimal.trim ⟨0, p⟩ = ⟨0, p⟩ := by rw [Decimal.trim]; simp
  have hpositive : Decimal.toFloat ⟨0, p⟩ = Float.ofModel (Float.Model.pack (.zero .positive)) := by
    rw [Decimal.toFloat, htrim]
    rfl
  rw [Numeral.toFloat, hpositive]
  cases s with
  | positive => rfl
  | negative =>
    have hneg : -Float.ofModel (Float.Model.pack (.zero .positive))
        = Float.ofModel (Float.Model.pack (Float.Model.pack (.zero .positive)).unpack.neg) := rfl
    have hzero : (Float.Model.pack (.zero .positive)).unpack = .zero .positive := unpack_packedZero
    have hsign : (Sign.negative == Sign.negative) = true := rfl
    rw [hsign, Numeral.signed, if_pos rfl, hneg, hzero]
    rfl

theorem value_expansion (m : Nat) (e : Int) :
    ((Numeral.expansion m e).digits : ℚ) * 10 ^ (Numeral.expansion m e).exponent = m * 2 ^ e := by
  rw [Numeral.expansion]
  rcases Int.le_total 0 e with he | he
  · obtain ⟨k, rfl⟩ := Int.eq_ofNat_of_zero_le he
    have hk : (-(k : Int)).toNat = 0 := by omega
    simp [hk]
  · obtain ⟨k, rfl⟩ := Int.exists_eq_neg_ofNat he
    have hk : (-(k : Int)).toNat = 0 := by omega
    have hten : (10 : ℚ) ^ k = 2 ^ k * 5 ^ k := by rw [← mul_pow]; norm_num
    simp only [hk, neg_neg, Int.toNat_natCast, Nat.pow_eq, pow_zero, mul_one, Nat.cast_mul,
      Nat.cast_pow, zpow_neg, zpow_natCast, hten, Nat.cast_ofNat]
    field_simp

end Binary

namespace Numeral

open Binary

theorem trim_trim (d : Decimal) : d.trim.trim = d.trim := by
  fun_induction Decimal.trim d with
  | case1 d h ih => exact ih
  | case2 d h => rw [Decimal.trim, if_neg h]

/-- The shortest decimal of a number, and should none be found its expansion, is read as the
number. -/
theorem toFloat_shortest (tie : Tie) {x : Float} {s : Float.Model.UnpackedFloat.Sign} {m : Nat}
    {e : Int} {h : 0 < m} (hx : x.toModel.unpack = .finite s m e h) :
    (finite (s == .negative) (shortest tie x (s == .negative) m e)).toFloat = x := by
  unfold shortest
  rw [toFloat, Decimal.toFloat, trim_trim, ← Decimal.toFloat, ← toFloat]
  cases hs : search tie x (s == .negative) (m * Nat.pow 2 e.toNat) (Nat.pow 2 (-e).toNat) with
  | none => exact toFloat_of_value hx (value_expansion m e)
  | some d => exact toFloat_of_search hs

/-- The numeral of a finite binary number is read as that number. -/
theorem ofFloat_finite (tie : Tie) {x : Float} (hx : x.isFinite = true) :
    ∃ negative d, ofFloat tie x = .finite negative d ∧ (d.digits = 0 → d.exponent = 0) ∧
      (finite negative d).toFloat = x := by
  have hunpack : x.toModel.unpack.isFinite = true := hx
  unfold ofFloat
  cases hu : x.toModel.unpack with
  | notANumber => rw [hu] at hunpack; cases hunpack
  | infinity s => rw [hu] at hunpack; cases hunpack
  | zero s =>
    refine ⟨_, _, rfl, fun _ => rfl, ?_⟩
    rw [toFloat_zero, ← hu, pack_unpack]
  | finite s m e h =>
    have hread := toFloat_shortest tie hu
    refine ⟨_, _, rfl, fun h0 => ?_, hread⟩
    -- No digits would be read as zero.
    rcases hd : shortest tie x (s == .negative) m e with ⟨n, p⟩
    obtain rfl : n = 0 := by rwa [hd] at h0
    rw [hd, toFloat_zero] at hread
    have hzero : (Float.Model.pack (.zero s)).unpack = .zero s :=
      Float.Model.UnpackedFloat.unpack_packedZero
    rw [← hread, hzero] at hu
    cases hu

end Numeral

end Polling
