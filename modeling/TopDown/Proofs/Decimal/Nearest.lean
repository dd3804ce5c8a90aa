import TopDown.Proofs.Decimal.Rounding
import TopDown.Proofs.Json.Numerals

/-!
# Decimals are rounded to the nearest number

What `nearest` makes of a mantissa and a power of ten is the number that the decimal is rounded to
(`rounds_nearest`). Decimals that are far out of range are not computed at all. Of the others, those
with few digits and a small power of ten take a short way: both factors are floating-point numbers
without any loss, so only their product or quotient is rounded.
-/

namespace TopDown.Decimal

open Float.Model (UnpackedFloat Format totalExponent)
open Float.Model.UnpackedFloat

/-! ## The long way -/

/-- A decimal is a product, or a quotient, with a power of ten. -/
theorem rounds_model {m : ℕ} {e : ℤ} (hm : 0 < m) (hlow : -(2048 + m.log2) ≤ e)
    (hhigh : e ≤ 2048) : Rounds (m * 10 ^ e) (.ofModel (.ofScientific m e)) := by
  have hlow' : ¬e < -((2 ^ Format.binary64.exponentBits : ℤ) + m.log2) := not_lt.2 hlow
  have hhigh' : ¬e > 2 ^ Format.binary64.exponentBits := not_lt.2 hhigh
  rw [Float.Model.ofScientific, ofScientific, dif_neg (Nat.ne_of_gt hm), if_neg hhigh',
    if_neg hlow']
  by_cases he : 0 ≤ e
  · rw [if_pos he]
    obtain ⟨k, rfl⟩ := Int.eq_ofNat_of_zero_le he
    have hq : (m * 10 ^ (k : ℤ) : ℚ) =
        (m <<< 53 : ℕ) * 2 ^ (-53 : ℤ) * ((10 ^ k : ℕ) * 2 ^ (0 : ℤ)) := by
      have hcancel : (2 : ℚ) ^ 53 * 2 ^ (-53 : ℤ) = 1 := by norm_num
      rw [Nat.shiftLeft_eq, zpow_natCast, zpow_zero, mul_one, Nat.cast_mul, Nat.cast_pow,
        Nat.cast_ofNat, mul_assoc (m : ℚ), hcancel, mul_one, Nat.cast_pow, Nat.cast_ofNat]
    have hlarge : 2 ^ 52 ≤ (m <<< 53) * 10 ^ k := by
      rw [Nat.shiftLeft_eq]
      calc 2 ^ 52 ≤ 1 * 2 ^ 53 * 1 := by decide
        _ ≤ m * 2 ^ 53 * 10 ^ k :=
          Nat.mul_le_mul (Nat.mul_le_mul_right _ hm) (Nat.pow_pos (by decide))
    rw [hq]
    exact rounds_mul _ _ _ _ hlarge
  · rw [if_neg he]
    obtain ⟨k, rfl⟩ : ∃ k : ℕ, e = -k := ⟨(-e).toNat, by omega⟩
    have hq : (m * 10 ^ (-k : ℤ) : ℚ) =
        m * 2 ^ (0 : ℤ) / ((10 ^ (-(-k : ℤ)).toNat : ℕ) * 2 ^ (0 : ℤ)) := by
      rw [neg_neg, Int.toNat_natCast, zpow_zero, mul_one, mul_one, zpow_neg, zpow_natCast,
        Nat.cast_pow, Nat.cast_ofNat, div_eq_mul_inv]
    rw [hq]
    exact rounds_div _ _ _ _

/-! ## The short way -/

theorem exists_of_rational? {x : Float} {q : ℚ} (h : rational? x = some q) (hq : 0 < q) :
    ∃ m e, ∃ hm : 0 < m, x.toModel.unpack = .finite .positive m e hm ∧ (m : ℚ) * 2 ^ e = q := by
  rw [rational?] at h
  cases hx : x.toModel.unpack with
  | finite s m e hm =>
    rw [hx] at h
    have heq := Option.some.inj h
    cases s with
    | positive => exact ⟨m, e, hm, rfl, heq⟩
    | negative =>
      have hneg : ((Sign.negative.apply m : ℤ) : ℚ) * 2 ^ e ≤ 0 := by
        rw [Sign.apply, Int.cast_neg, Int.cast_natCast, neg_mul]
        exact neg_nonpos.2 (mul_nonneg (Nat.cast_nonneg m) (zpow_pos two_pos e).le)
      exact absurd (heq ▸ hneg) (not_le.2 hq)
  | zero s =>
    rw [hx] at h
    exact absurd (Option.some.inj h) hq.ne
  | infinity s =>
    rw [hx] at h
    cases h
  | notANumber =>
    rw [hx] at h
    cases h

/-- The powers of ten that are listed are exact. -/
theorem unpack_power (i : Fin 23) : ∃ m e, ∃ h : 0 < m,
    Float.exactlyRepresentablePowersOfTen[i].toModel.unpack = .finite .positive m e h ∧
      (m : ℚ) * 2 ^ e = 10 ^ i.val := by
  have hexact : ∀ i : Fin 23,
      rational? Float.exactlyRepresentablePowersOfTen[i] = some (10 ^ i.val) := by
    decide +kernel
  exact exists_of_rational? (hexact i) (pow_pos (by norm_num) _)

/-- A mantissa of at most 53 bits is exact, and is stored with 53 bits. -/
theorem unpack_toFloat {m : ℕ} (hm : 0 < m) (hlt : m < 2 ^ 53) : ∃ m' e, ∃ h : 0 < m',
    m.toUInt64.toFloat.toModel.unpack = .finite .positive m' e h ∧ 2 ^ 52 ≤ m' ∧
      (m' : ℚ) * 2 ^ e = m := by
  have hlog : m.log2 ≤ 52 := Nat.lt_succ_iff.1 ((Nat.log2_lt (Nat.ne_of_gt hm)).2 hlt)
  obtain ⟨k, hk⟩ := Nat.le.dest hlog
  have hlow : 2 ^ 52 ≤ m * 2 ^ k := by
    rw [← hk, Nat.pow_add]
    exact Nat.mul_le_mul_right _ (Nat.log2_self_le (Nat.ne_of_gt hm))
  have hhigh : m * 2 ^ k < 2 ^ 53 := by
    have hpow : (2 : ℕ) ^ 53 = 2 ^ (m.log2 + 1) * 2 ^ k := by
      rw [← Nat.pow_add]
      congr 1
      omega
    rw [hpow]
    exact Nat.mul_lt_mul_of_pos_right Nat.lt_log2_self (Nat.two_pow_pos k)
  have hpos : 0 < m * 2 ^ k := Nat.mul_pos hm (Nat.two_pow_pos k)
  have htarget : Format.binary64.targetExponent (totalExponent m 0) = -k := by
    rw [targetExponent_eq]
    omega
  have hamount : (0 - (-k : ℤ)).toNat = k := by omega
  have hvalue : m.toUInt64.toNat = m := Nat.mod_eq_of_lt (by omega)
  have hround : ofUInt64 Format.binary64 m.toUInt64 = .finite .positive (m * 2 ^ k) (-k) hpos := by
    have hcompare : compare (m : ℤ) 0 = .gt := compare_gt_iff_gt.2 (Int.natCast_pos.2 hm)
    rw [ofUInt64, hvalue, ofNat, ofInt, UnpackedFloat.normalize, hcompare]
    simp only [Int.toNat_natCast, UnpackedFloat.round, htarget, decreaseExponent, hamount,
      Nat.shiftLeft_eq]
    rw [zero_sub]
    exact roundWithAccuracy_exact hpos hhigh (by omega)
  refine ⟨m * 2 ^ k, -k, hpos, ?_, hlow, ?_⟩
  · rw [UInt64.toFloat, Float.Model.ofUInt64, hround]
    exact unpack_pack (.normal hpos hlow hhigh (by omega) (by omega))
  · rw [Nat.cast_mul, Nat.cast_pow, Nat.cast_ofNat, mul_assoc, ← zpow_natCast,
      ← zpow_add₀ two_ne_zero, add_neg_cancel, zpow_zero, mul_one]

theorem rounds_ofScientific_up {m k : ℕ} (hm : 0 < m) (hk : k ≤ 2048) :
    Rounds (m * 10 ^ (k : ℤ)) (Float.ofScientific m false k) := by
  rw [Float.ofScientific]
  by_cases hfast : m < 2 ^ 53 ∧ k ≤ 22
  · obtain ⟨m₁, e₁, h₁, hunpack₁, hlarge, hvalue₁⟩ := unpack_toFloat hm hfast.1
    obtain ⟨m₂, e₂, h₂, hunpack₂, hvalue₂⟩ := unpack_power ⟨k, Nat.lt_succ_of_le hfast.2⟩
    have hrounds := rounds_mul e₁ e₂ h₁ h₂ (hlarge.trans (Nat.le_mul_of_pos_right _ h₂))
    rw [hvalue₁, hvalue₂, ← hunpack₁, ← hunpack₂] at hrounds
    rw [dif_pos hfast, zpow_natCast]
    exact hrounds
  · rw [dif_neg hfast]
    exact rounds_model hm (by omega) (by omega)

theorem rounds_ofScientific_down {m k : ℕ} (hm : 0 < m) (hk : k ≤ 2048 + m.log2) :
    Rounds (m * 10 ^ (-k : ℤ)) (Float.ofScientific m true k) := by
  rw [Float.ofScientific]
  by_cases hfast : m < 2 ^ 53 ∧ k ≤ 22
  · obtain ⟨m₁, e₁, h₁, hunpack₁, -, hvalue₁⟩ := unpack_toFloat hm hfast.1
    obtain ⟨m₂, e₂, h₂, hunpack₂, hvalue₂⟩ := unpack_power ⟨k, Nat.lt_succ_of_le hfast.2⟩
    have hrounds := rounds_div e₁ e₂ h₁ h₂
    rw [hvalue₁, hvalue₂, ← hunpack₁, ← hunpack₂] at hrounds
    rw [dif_pos hfast, zpow_neg, zpow_natCast, ← div_eq_mul_inv]
    exact hrounds
  · have heq : Int.negOfNat k = -k := Int.negOfNat_eq
    rw [dif_neg hfast]
    simp only [if_true, heq]
    exact rounds_model hm (by omega) (by omega)

/-! ## Decimals out of range -/

/-- Rounding leads to a number. -/
theorem exists_nearestEven {r : ℚ} (hr : 0 ≤ r) : ∃ n : ℕ, NearestEven r n := by
  have hlocates := locates_fraction r.num.toNat r.den_pos
  have hnum : ((r.num.toNat : ℕ) : ℚ) = r.num := by
    exact_mod_cast Int.toNat_of_nonneg (Rat.num_nonneg.2 hr)
  rw [hnum, Rat.num_div_den] at hlocates
  exact ⟨_, hlocates.nearestEven⟩

/-- Less than half the smallest number is rounded to zero. -/
theorem rounds_zero {q : ℚ} (hq : 0 ≤ q) (hlt : q < 2 ^ (-1075 : ℤ)) : Rounds q 0.0 := by
  have hexact : rational? 0.0 = some 0 := by decide +kernel
  refine .within (n := 0) (nearestEven_of_lt ?_) ?_ ?_
  · rw [Int.cast_zero, sub_zero]
    rcases hq.eq_or_lt with rfl | hpos
    · rw [zero_div, abs_zero]
      norm_num
    · have hunit : (0 : ℚ) < 2 ^ (-1074 : ℤ) := zpow_pos two_pos _
      have hplace : lastPlace q = -1074 := by
        have hlog := (log_lt_iff hpos).2 hlt
        rw [lastPlace_of_pos hpos]
        omega
      rw [hplace, abs_of_pos (div_pos hpos hunit), div_lt_iff₀ hunit]
      refine hlt.trans_le (le_of_eq ?_)
      rw [one_div, ← zpow_neg_one, ← zpow_add₀ two_ne_zero]
      rfl
  · rw [Int.cast_zero, abs_zero, zero_mul]
    exact pow_pos two_pos _
  · rw [Int.cast_zero, zero_mul, hexact]

/-- What has more than 1024 bits before the point is out of range. -/
theorem rounds_infinity {q : ℚ} (hle : 2 ^ 1024 ≤ q) : Rounds q infinity := by
  have hpos : 0 < q := (pow_pos two_pos 1024).trans_le hle
  have hlog : 1024 ≤ Int.log 2 q := (le_log_iff hpos).2 (by exact_mod_cast hle)
  have hplace : lastPlace q = Int.log 2 q - 52 := by
    rw [lastPlace_of_pos hpos]
    omega
  have hunit : (0 : ℚ) < 2 ^ lastPlace q := zpow_pos two_pos _
  obtain ⟨n, hn⟩ := exists_nearestEven (div_nonneg hpos.le hunit.le)
  have hlow : 2 ^ 52 ≤ n := hn.ge (by exact_mod_cast le_scaled hpos (by omega))
  have hlow' : (2 : ℚ) ^ (52 : ℤ) ≤ n := by exact_mod_cast hlow
  refine .above hn ?_
  rw [Int.cast_natCast]
  calc (2 : ℚ) ^ 1024 = (2 : ℚ) ^ (1024 : ℤ) := (zpow_natCast 2 1024).symm
    _ ≤ (2 : ℚ) ^ (52 + lastPlace q) := zpow_le_zpow_right₀ one_le_two (by omega)
    _ = (2 : ℚ) ^ (52 : ℤ) * 2 ^ lastPlace q := zpow_add₀ two_ne_zero _ _
    _ ≤ n * 2 ^ lastPlace q := mul_le_mul_of_nonneg_right hlow' hunit.le

/-! ## All decimals -/

theorem lt_pow_digitCount (m : ℕ) : m < 10 ^ digitCount m :=
  (Nat.length_toDigits_le_iff (by decide) Nat.length_toDigits_pos).1 le_rfl

theorem digitCount_le (m : ℕ) : digitCount m ≤ m.log2 + 1 := by
  rw [digitCount, Nat.length_toDigits_le_iff (by decide) (Nat.succ_pos _)]
  exact Nat.lt_log2_self.trans_le (Nat.pow_le_pow_left (by decide) _)

/-- Every decimal is rounded to the nearest number. -/
theorem rounds_nearest (m : ℕ) (e : ℤ) : Rounds (m * 10 ^ e) (nearest m e) := by
  have hten : (0 : ℚ) < 10 ^ e := zpow_pos (by norm_num) e
  have hcount : 0 < digitCount m := Nat.length_toDigits_pos
  have hcount' := digitCount_le m
  have hmantissa : (m : ℚ) < 10 ^ (digitCount m : ℤ) := by exact_mod_cast lt_pow_digitCount m
  rw [nearest]
  by_cases hm : m = 0
  · subst hm
    rw [Nat.cast_zero, zero_mul]
    exact rounds_zero le_rfl (zpow_pos two_pos _)
  have hpos : 0 < m := Nat.pos_of_ne_zero hm
  simp only [hm, decide_false, Bool.false_or, decide_eq_true_eq]
  by_cases hlow : digitCount m + e < -330
  · have hsmall : (10 : ℚ) ^ (-331 : ℤ) ≤ 2 ^ (-1075 : ℤ) := by decide +kernel
    rw [if_pos hlow]
    refine rounds_zero (mul_nonneg (Nat.cast_nonneg m) hten.le) ?_
    calc (m * 10 ^ e : ℚ) < 10 ^ (digitCount m : ℤ) * 10 ^ e :=
          mul_lt_mul_of_pos_right hmantissa hten
      _ = 10 ^ (digitCount m + e) := (zpow_add₀ (by norm_num) _ _).symm
      _ ≤ 10 ^ (-331 : ℤ) := zpow_le_zpow_right₀ (by norm_num) (by omega)
      _ ≤ 2 ^ (-1075 : ℤ) := hsmall
  rw [if_neg hlow]
  by_cases hhigh : 310 < digitCount m + e
  · have hlarge : (2 : ℚ) ^ 1024 ≤ 10 ^ (310 : ℤ) := by decide +kernel
    have hmantissa' : (10 : ℚ) ^ (digitCount m - 1 : ℤ) ≤ m := by
      have hle := Json.pow_digitCount_le hpos
      have hcast : (digitCount m - 1 : ℤ) = (digitCount m - 1 : ℕ) := by omega
      rw [hcast]
      exact_mod_cast hle
    rw [if_pos hhigh]
    refine rounds_infinity ?_
    calc (2 : ℚ) ^ 1024 ≤ 10 ^ (310 : ℤ) := hlarge
      _ ≤ 10 ^ (digitCount m - 1 + e : ℤ) := zpow_le_zpow_right₀ (by norm_num) (by omega)
      _ = 10 ^ (digitCount m - 1 : ℤ) * 10 ^ e := zpow_add₀ (by norm_num) _ _
      _ ≤ m * 10 ^ e := mul_le_mul_of_nonneg_right hmantissa' hten.le
  rw [if_neg hhigh]
  by_cases he : e < 0
  · obtain ⟨k, rfl⟩ : ∃ k : ℕ, e = -k := ⟨(-e).toNat, by omega⟩
    rw [if_pos he, neg_neg, Int.toNat_natCast]
    exact rounds_ofScientific_down hpos (by omega)
  · obtain ⟨k, rfl⟩ : ∃ k : ℕ, e = k := ⟨e.toNat, by omega⟩
    rw [if_neg he, Int.toNat_natCast]
    exact rounds_ofScientific_up hpos (by omega)

end TopDown.Decimal
