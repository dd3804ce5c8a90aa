import TopDown.Proofs.Decimal.Packing

/-!
# Rounding to floating-point numbers

`Rounds q x` says that `x` is the floating-point number that a rational number is rounded to: of the
numbers with the last place of `q` the nearest one, the one with an even mantissa if two are equally
near, and infinity if that is out of range.

A mantissa that is being rounded comes with two more bits, and with these it tells where the exact
number lies (`Locates`): the mantissa and the first bit together are the exact number in half units,
rounded down, and the second bit tells whether that lost anything. So a shift to the right divides
by two (`Locates.shiftRightOne`), however often it is done. The result is the right one if the
digits reach down to its last place at least (`rounds_roundWithAccuracy`), and both products and
quotients are computed with that many digits.
-/

namespace TopDown.Decimal

open Float.Model (UnpackedFloat Format totalExponent)
open Float.Model.UnpackedFloat

/-! ## What rounding is -/

/-- `n` is the whole number nearest to `q`, and an even one if two are equally near. -/
def NearestEven (q : ℚ) (n : ℤ) : Prop :=
  |q - n| ≤ 1 / 2 ∧ (|q - n| = 1 / 2 → Even n)

/-- The power of two at the last of the 53 bits of `q`. There are fewer bits near zero, since no
place is beyond 1074. -/
def lastPlace (q : ℚ) : ℤ := max (Int.log 2 |q| - 52) (-1074)

/-- The floating-point number that `q` is rounded to. -/
inductive Rounds (q : ℚ) : Float → Prop where
  | within {n : ℤ} {x : Float} (hn : NearestEven (q / 2 ^ lastPlace q) n)
      (hlt : |(n : ℚ)| * 2 ^ lastPlace q < 2 ^ 1024)
      (hx : rational? x = some ((n : ℚ) * 2 ^ lastPlace q)) : Rounds q x
  | above {n : ℤ} (hn : NearestEven (q / 2 ^ lastPlace q) n)
      (hle : 2 ^ 1024 ≤ n * (2 : ℚ) ^ lastPlace q) : Rounds q infinity
  | below {n : ℤ} (hn : NearestEven (q / 2 ^ lastPlace q) n)
      (hle : n * (2 : ℚ) ^ lastPlace q ≤ -2 ^ 1024) : Rounds q (-infinity)

theorem nearestEven_of_lt {q : ℚ} {n : ℤ} (h : |q - n| < 1 / 2) : NearestEven q n :=
  ⟨h.le, fun heq => absurd heq h.ne⟩

theorem NearestEven.neg {q : ℚ} {n : ℤ} (h : NearestEven q n) : NearestEven (-q) (-n) := by
  have habs : |-q - ((-n : ℤ) : ℚ)| = |q - n| := by
    rw [Int.cast_neg, neg_sub_neg, abs_sub_comm]
  rw [NearestEven, habs]
  exact ⟨h.1, fun heq => (h.2 heq).neg⟩

theorem NearestEven.le {q : ℚ} {n k : ℕ} (h : NearestEven q n) (hq : q ≤ k) : n ≤ k := by
  have hle := (abs_le.1 h.1).1
  have hlt : (n : ℚ) < (k + 1 : ℕ) := by
    rw [Nat.cast_add, Nat.cast_one]
    rw [Int.cast_natCast] at hle
    linarith
  exact Nat.lt_succ_iff.1 (Nat.cast_lt.1 hlt)

theorem NearestEven.ge {q : ℚ} {n k : ℕ} (h : NearestEven q n) (hq : (k : ℚ) ≤ q) : k ≤ n := by
  have hle := (abs_le.1 h.1).2
  have hlt : (k : ℚ) < (n + 1 : ℕ) := by
    rw [Nat.cast_add, Nat.cast_one]
    rw [Int.cast_natCast] at hle
    linarith
  exact Nat.lt_succ_iff.1 (Nat.cast_lt.1 hlt)

theorem lastPlace_neg (q : ℚ) : lastPlace (-q) = lastPlace q := by
  rw [lastPlace, lastPlace, abs_neg]

/-- Negative numbers are rounded like positive ones. -/
theorem Rounds.neg {q : ℚ} {x : Float} (h : Rounds q x) : Rounds (-q) (-x) := by
  have hplace := lastPlace_neg q
  cases h with
  | @within n _ hn hlt hx =>
    refine .within (n := -n) ?_ ?_ ?_
    · rw [hplace, neg_div]
      exact hn.neg
    · rwa [hplace, Int.cast_neg, abs_neg]
    · rw [hplace, rational?_neg, hx, Option.map_some, Int.cast_neg, neg_mul]
  | @above n hn hle =>
    refine .below (n := -n) ?_ ?_
    · rw [hplace, neg_div]
      exact hn.neg
    · rw [hplace, Int.cast_neg, neg_mul]
      exact neg_le_neg hle
  | @below n hn hle =>
    have hneg : - -infinity = infinity := by decide +kernel
    rw [hneg]
    refine .above (n := -n) ?_ ?_
    · rw [hplace, neg_div]
      exact hn.neg
    · rw [hplace, Int.cast_neg, neg_mul]
      exact le_neg_of_le_neg hle

/-! ## The last place -/

theorem le_log_iff {q : ℚ} (hq : 0 < q) {k : ℤ} : k ≤ Int.log 2 q ↔ (2 : ℚ) ^ k ≤ q := by
  exact_mod_cast (Int.zpow_le_iff_le_log one_lt_two hq).symm

theorem log_lt_iff {q : ℚ} (hq : 0 < q) {k : ℤ} : Int.log 2 q < k ↔ q < (2 : ℚ) ^ k := by
  exact_mod_cast (Int.lt_zpow_iff_log_lt one_lt_two hq).symm

theorem lastPlace_of_pos {q : ℚ} (hq : 0 < q) :
    lastPlace q = max (Int.log 2 q - 52) (-1074) := by
  rw [lastPlace, abs_of_pos hq]

theorem scaled_lt {q : ℚ} (hq : 0 < q) : q / 2 ^ lastPlace q < 2 ^ 53 := by
  have hplace : Int.log 2 q < 53 + lastPlace q := by
    rw [lastPlace_of_pos hq]
    omega
  rw [div_lt_iff₀ (zpow_pos two_pos _), ← zpow_natCast, ← zpow_add₀ two_ne_zero]
  exact (log_lt_iff hq).1 hplace

theorem le_scaled {q : ℚ} (hq : 0 < q) (hplace : lastPlace q ≠ -1074) :
    2 ^ 52 ≤ q / 2 ^ lastPlace q := by
  have hplace : 52 + lastPlace q ≤ Int.log 2 q := by
    rw [lastPlace_of_pos hq] at hplace ⊢
    omega
  rw [le_div_iff₀ (zpow_pos two_pos _), ← zpow_natCast, ← zpow_add₀ two_ne_zero]
  exact (le_log_iff hq).1 hplace

theorem targetExponent_eq (m : ℕ) (e : ℤ) :
    Format.binary64.targetExponent (totalExponent m e) = max (m.log2 + e - 52) (-1074) := by
  change max ((m.log2 : ℤ) + 1 + e - 53) (-1074) = _
  congr 1
  omega

/-! ## Mantissas with two more bits -/

/-- The mantissa together with its first further bit. -/
def bits (em : ExtendedMantissa) : ℕ := 2 * em.mantissa + em.roundBit.toNat

/-- The exact number `r` has the given bits, and there are none after them unless the sticky bit is
set. -/
structure Locates (em : ExtendedMantissa) (r : ℚ) : Prop where
  le : (bits em : ℚ) ≤ 2 * r
  lt : 2 * r < bits em + 1
  sticky : em.stickyBit = false ↔ 2 * r = bits em

theorem cast_bits (em : ExtendedMantissa) :
    (bits em : ℚ) = 2 * em.mantissa + em.roundBit.toNat := by
  rw [bits, Nat.cast_add, Nat.cast_mul, Nat.cast_ofNat]

theorem Locates.mantissa {em : ExtendedMantissa} {r : ℚ} (h : Locates em r) :
    (em.mantissa : ℚ) ≤ r ∧ r < em.mantissa + 1 := by
  obtain ⟨hle, hlt, -⟩ := h
  have hbit : (em.roundBit.toNat : ℚ) ≤ 1 := Nat.cast_le_one.2 (Bool.toNat_le _)
  have hbit' : (0 : ℚ) ≤ em.roundBit.toNat := Nat.cast_nonneg _
  rw [cast_bits] at hle hlt
  constructor <;> linarith

theorem bits_shiftRightOne (em : ExtendedMantissa) : bits em.shiftRightOne = em.mantissa := by
  change 2 * (em.mantissa / 2) + (em.mantissa % 2 != 0).toNat = em.mantissa
  obtain h | h := Nat.mod_two_eq_zero_or_one em.mantissa
  · rw [h, bne_self_eq_false, Bool.toNat_false]
    omega
  · have hbit : (1 != 0).toNat = 1 := rfl
    rw [h, hbit]
    omega

/-- What is shifted is halved. -/
theorem Locates.shiftRightOne {em : ExtendedMantissa} {r : ℚ} (h : Locates em r) :
    Locates em.shiftRightOne (r / 2) := by
  have hdouble : 2 * (r / 2) = r := mul_div_cancel₀ r two_ne_zero
  obtain ⟨hle, hlt⟩ := h.mantissa
  refine ⟨?_, ?_, ?_⟩
  · rwa [bits_shiftRightOne, hdouble]
  · rwa [bits_shiftRightOne, hdouble]
  · rw [bits_shiftRightOne, hdouble, ExtendedMantissa.shiftRightOne, Bool.or_eq_false_iff, h.sticky,
      cast_bits]
    cases hround : em.roundBit with
    | false =>
      rw [Bool.toNat_false, Nat.cast_zero, add_zero, and_iff_right rfl, mul_right_inj' two_ne_zero]
    | true =>
      -- half a unit more is no whole number
      have hhalf := h.le
      rw [cast_bits, hround, Bool.toNat_true, Nat.cast_one] at hhalf
      refine iff_of_false (fun h => Bool.false_ne_true h.1.symm) fun heq => ?_
      linarith

theorem Locates.shiftRight {em : ExtendedMantissa} {r : ℚ} (h : Locates em r) (k : ℕ) :
    Locates (em >>> k) (r / 2 ^ k) := by
  induction k with
  | zero =>
    rw [pow_zero, div_one]
    exact h
  | succ k ih =>
    rw [pow_succ, ← div_div]
    exact ih.shiftRightOne

/-- The two bits decide which way to round. -/
theorem Locates.nearestEven {em : ExtendedMantissa} {r : ℚ} (h : Locates em r) :
    NearestEven r em.roundedMantissa := by
  obtain ⟨m, b, s⟩ := em
  obtain ⟨hle, hlt, hs⟩ := h
  rw [cast_bits] at hle hlt hs
  cases b with
  | false =>
    have habs : |r - (m : ℤ)| < 1 / 2 := by
      rw [Bool.toNat_false, Nat.cast_zero] at hle hlt
      rw [Int.cast_natCast, abs_lt]
      constructor <;> linarith
    cases s with
    | false => exact nearestEven_of_lt habs
    | true => exact nearestEven_of_lt habs
  | true =>
    rw [Bool.toNat_true, Nat.cast_one] at hle hlt hs
    cases s with
    | false =>
      have heq := hs.1 rfl
      have hround : ExtendedMantissa.roundedMantissa ⟨m, true, false⟩ = m + m % 2 := rfl
      rw [hround]
      refine ⟨?_, fun _ => (Int.even_coe_nat _).2 (Nat.even_iff.2 (by omega))⟩
      obtain h | h := Nat.mod_two_eq_zero_or_one m
      · rw [h, add_zero, Int.cast_natCast, abs_le]
        constructor <;> linarith
      · rw [h, Int.cast_natCast, Nat.cast_add, Nat.cast_one, abs_le]
        constructor <;> linarith
    | true =>
      have hlow : 2 * (m : ℚ) + 1 < 2 * r :=
        lt_of_le_of_ne hle fun heq => Bool.false_ne_true (hs.2 heq.symm).symm
      refine nearestEven_of_lt (n := ((m + 1 : ℕ) : ℤ)) ?_
      rw [Int.cast_natCast, Nat.cast_add, Nat.cast_one, abs_lt]
      constructor <;> linarith

theorem mantissa_ofMantissaAndAccuracy (m : ℕ) (a : Accuracy) :
    (ExtendedMantissa.ofMantissaAndAccuracy m a).mantissa = m := by
  cases a with
  | exact => rfl
  | inexact o => cases o <;> rfl

theorem locates_exact (m : ℕ) : Locates (.ofMantissaAndAccuracy m .exact) m := by
  have hbits : (bits (.ofMantissaAndAccuracy m .exact) : ℚ) = 2 * m := by
    rw [cast_bits, ExtendedMantissa.ofMantissaAndAccuracy, Bool.toNat_false, Nat.cast_zero,
      add_zero]
  refine ⟨hbits.le, ?_, iff_of_true rfl hbits.symm⟩
  rw [hbits]
  exact lt_add_one _

/-- The two bits of a quotient are found by comparing the remainder with half the divisor. -/
theorem locates_fraction (a : ℕ) {b : ℕ} (hb : 0 < b) :
    Locates (.ofMantissaAndAccuracy (a / b) (accuracyOfFraction (a % b) b)) (a / b) := by
  have hb' : (0 : ℚ) < b := Nat.cast_pos.2 hb
  have hquotient : (a : ℚ) / b = (a / b : ℕ) + (a % b : ℕ) / b := by
    rw [eq_comm, ← mul_right_inj' hb'.ne', mul_add, mul_div_cancel₀ _ hb'.ne',
      mul_div_cancel₀ _ hb'.ne', ← Nat.cast_mul, ← Nat.cast_add, Nat.div_add_mod]
  have hrest : ((a % b : ℕ) : ℚ) / b < 1 :=
    (div_lt_one hb').2 (Nat.cast_lt.2 (Nat.mod_lt a hb))
  rw [hquotient]
  generalize a / b = k
  generalize a % b = rest at hrest ⊢
  have hdouble : (2 * rest : ℕ) / (b : ℚ) = 2 * (rest / b) := by
    rw [Nat.cast_mul, Nat.cast_ofNat, mul_div_assoc]
  rw [accuracyOfFraction]
  by_cases hzero : rest = 0
  · subst hzero
    rw [if_pos rfl, Nat.cast_zero, zero_div, add_zero]
    exact locates_exact k
  · have hpos : 0 < (rest : ℚ) / b := div_pos (Nat.cast_pos.2 (Nat.pos_of_ne_zero hzero)) hb'
    rw [if_neg hzero]
    rcases Nat.lt_trichotomy (2 * rest) b with h | h | h
    · have hhalf : 2 * ((rest : ℚ) / b) < 1 := by
        rw [← hdouble]
        exact (div_lt_one hb').2 (Nat.cast_lt.2 h)
      rw [Nat.compare_eq_lt.2 h]
      refine ⟨?_, ?_, iff_of_false Bool.false_ne_true.symm fun heq => ?_⟩
      all_goals
        simp only [cast_bits, ExtendedMantissa.ofMantissaAndAccuracy, Bool.toNat_false,
          Nat.cast_zero] at *
        linarith
    · have hhalf : 2 * ((rest : ℚ) / b) = 1 := by
        rw [← hdouble, h, div_self hb'.ne']
      rw [Nat.compare_eq_eq.2 h]
      refine ⟨?_, ?_, iff_of_true rfl ?_⟩
      all_goals
        rw [cast_bits, ExtendedMantissa.ofMantissaAndAccuracy, Bool.toNat_true, Nat.cast_one]
        linarith
    · have hhalf : 1 < 2 * ((rest : ℚ) / b) := by
        rw [← hdouble]
        exact (one_lt_div hb').2 (Nat.cast_lt.2 h)
      rw [Nat.compare_eq_gt.2 h]
      refine ⟨?_, ?_, iff_of_false Bool.false_ne_true.symm fun heq => ?_⟩
      all_goals
        simp only [cast_bits, ExtendedMantissa.ofMantissaAndAccuracy, Bool.toNat_true,
          Nat.cast_one] at *
        linarith

/-! ## Rounding -/

/-- Rounding aims at the last place of the exact number. -/
theorem targetExponent_of_locates {q : ℚ} (hq : 0 < q) {m : ℕ} {e : ℤ} {a : Accuracy}
    (h : Locates (.ofMantissaAndAccuracy m a) (q / 2 ^ e)) (he : e ≤ lastPlace q) :
    Format.binary64.targetExponent (totalExponent m e) = lastPlace q := by
  have hpos : (0 : ℚ) < 2 ^ e := zpow_pos two_pos e
  obtain ⟨hle, hlt⟩ := h.mantissa
  rw [mantissa_ofMantissaAndAccuracy] at hle hlt
  rw [lastPlace_of_pos hq] at he ⊢
  rw [targetExponent_eq]
  by_cases hm : m = 0
  · -- no digit is known, so there are only places that are not there
    subst hm
    have hlog : Int.log 2 q < e := by
      rw [Nat.cast_zero, zero_add, div_lt_one hpos] at hlt
      exact (log_lt_iff hq).2 hlt
    rw [Nat.log2_zero]
    omega
  · have hlow : ((2 : ℚ) ^ m.log2) ≤ m := by exact_mod_cast Nat.log2_self_le hm
    have hhigh : (m : ℚ) + 1 ≤ 2 ^ (m.log2 + 1) := by exact_mod_cast Nat.lt_log2_self (n := m)
    have hlog : Int.log 2 q = m.log2 + e := by
      refine le_antisymm (Int.lt_add_one_iff.1 ((log_lt_iff hq).2 ?_)) ((le_log_iff hq).2 ?_)
      · rw [add_right_comm, zpow_add₀ two_ne_zero, ← div_lt_iff₀ hpos]
        exact hlt.trans_le (by exact_mod_cast hhigh)
      · rw [zpow_add₀ two_ne_zero, ← le_div_iff₀ hpos, zpow_natCast]
        exact hlow.trans hle
    rw [hlog]

/-- The first shift, down to the last place. -/
theorem shift_of_locates {q : ℚ} (hq : 0 < q) {m : ℕ} {e : ℤ} {a : Accuracy}
    (h : Locates (.ofMantissaAndAccuracy m a) (q / 2 ^ e)) (he : e ≤ lastPlace q) :
    ∃ em, shiftToTargetExponent Format.binary64 m e a = (em, lastPlace q) ∧
      Locates em (q / 2 ^ lastPlace q) := by
  have htarget := targetExponent_of_locates hq h he
  obtain ⟨k, hk⟩ := Int.le.dest he
  refine ⟨ExtendedMantissa.ofMantissaAndAccuracy m a >>> k, ?_, ?_⟩
  · have hamount : (lastPlace q - e).toNat = k := by omega
    simp only [shiftToTargetExponent, htarget, shiftToExponent, hamount, hk]
  · rw [← hk, zpow_add₀ two_ne_zero, zpow_natCast, ← div_div]
    exact h.shiftRight k

/-- A mantissa that fits is not shifted once more. -/
theorem shift_small {n : ℕ} {e : ℤ} (hn : n < 2 ^ 53) (he : -1074 ≤ e) :
    shiftToTargetExponent Format.binary64 n e .exact = (⟨n, false, false⟩, e) := by
  have hlog : n.log2 ≤ 52 := by
    by_cases hzero : n = 0
    · subst hzero
      decide
    · exact Nat.lt_succ_iff.1 ((Nat.log2_lt hzero).2 hn)
  have hamount : (Format.binary64.targetExponent (totalExponent n e) - e).toNat = 0 := by
    rw [targetExponent_eq]
    omega
  simp only [shiftToTargetExponent, shiftToExponent, hamount, Nat.cast_zero, add_zero]
  rfl

/-- Rounding up may take a bit more than there is room for. -/
theorem shift_full {e : ℤ} (he : -1074 ≤ e) :
    shiftToTargetExponent Format.binary64 (2 ^ 53) e .exact = (⟨2 ^ 52, false, false⟩, e + 1) := by
  have hamount : (Format.binary64.targetExponent (totalExponent (2 ^ 53) e) - e).toNat = 1 := by
    rw [targetExponent_eq, Nat.log2_two_pow]
    omega
  simp only [shiftToTargetExponent, shiftToExponent, hamount, Nat.cast_one]
  rfl

theorem roundWithAccuracy_exact {m : ℕ} {e : ℤ} {s : Sign} (h : 0 < m) (hm : m < 2 ^ 53)
    (he : -1074 ≤ e) : roundWithAccuracy Format.binary64 s m e .exact = .finite s m e h := by
  have hround : ExtendedMantissa.roundedMantissa ⟨m, false, false⟩ = m := rfl
  rw [roundWithAccuracy]
  simp only [shift_small hm he, hround]
  exact dif_neg (Nat.ne_of_gt h)

/-- A number out of range is packed as infinity. -/
theorem pack_of_large {m : ℕ} {e : ℤ} (h : 0 < m) (he : 971 < e) :
    Float.ofModel (.pack (.finite .positive m e h)) = infinity := by
  have hpack : UnpackedFloat.pack Format.binary64 (.finite .positive m e h) =
      packedInfinity Format.binary64 .positive := by
    have hbias : 2 ^ 11 ≤ (e + (1023 : ℤ) + 52).toNat + 1 := by omega
    exact if_pos hbias
  have hinfinity : infinity = Float.ofModel (.pack (.infinity .positive)) := by decide +kernel
  rw [hinfinity, Float.Model.pack, Float.Model.pack]
  simp only [hpack]
  rfl

/-- A nearest mantissa is all it takes, in any form that has the same value. -/
theorem rounds_pack {q : ℚ} {n m : ℕ} {e : ℤ} (hn : NearestEven (q / 2 ^ lastPlace q) n)
    (h : 0 < m) (hvalue : (n : ℚ) * 2 ^ lastPlace q = m * 2 ^ e) (hhigh : m < 2 ^ 53)
    (he : -1074 ≤ e) (hlow : 2 ^ 52 ≤ m ∨ e = -1074) :
    Rounds q (.ofModel (.pack (.finite .positive m e h))) := by
  have hpos : (0 : ℚ) < 2 ^ e := zpow_pos two_pos e
  by_cases hplace : e ≤ 971
  · have hpackable : Packable (.finite .positive m e h) := by
      by_cases hm : 2 ^ 52 ≤ m
      · exact .normal h hm hhigh he hplace
      · obtain rfl := hlow.resolve_left hm
        exact .subnormal h (Nat.lt_of_not_le hm)
    refine .within hn ?_ ?_
    · rw [Int.cast_natCast, Nat.abs_cast, hvalue]
      have hmantissa : (m : ℚ) < 2 ^ 53 := by exact_mod_cast hhigh
      calc (m : ℚ) * 2 ^ e < 2 ^ 53 * 2 ^ e := mul_lt_mul_of_pos_right hmantissa hpos
        _ ≤ 2 ^ 53 * 2 ^ (971 : ℤ) :=
          mul_le_mul_of_nonneg_left (zpow_le_zpow_right₀ one_le_two hplace)
            (pow_nonneg zero_le_two _)
        _ = 2 ^ 1024 := by rw [← zpow_natCast, ← zpow_add₀ two_ne_zero]; rfl
    · rw [rational?_pack hpackable, Int.cast_natCast, hvalue]
      rfl
  · have hmantissa : (2 : ℚ) ^ 52 ≤ m := by exact_mod_cast hlow.resolve_right (by omega)
    rw [pack_of_large h (lt_of_not_ge hplace)]
    refine .above hn ?_
    rw [Int.cast_natCast, hvalue]
    calc (2 : ℚ) ^ 1024 = (2 : ℚ) ^ 52 * (2 : ℚ) ^ (972 : ℤ) := by
          rw [← zpow_natCast, ← zpow_natCast, ← zpow_add₀ two_ne_zero]
          rfl
      _ ≤ m * (2 : ℚ) ^ (972 : ℤ) := mul_le_mul_of_nonneg_right hmantissa (zpow_pos two_pos _).le
      _ ≤ m * 2 ^ e :=
        mul_le_mul_of_nonneg_left (zpow_le_zpow_right₀ one_le_two (by omega)) (Nat.cast_nonneg _)

/-- Numbers are rounded as they should be. -/
theorem rounds_roundWithAccuracy {q : ℚ} (hq : 0 < q) {m : ℕ} {e : ℤ} {a : Accuracy}
    (h : Locates (.ofMantissaAndAccuracy m a) (q / 2 ^ e)) (he : e ≤ lastPlace q) :
    Rounds q (.ofModel (.pack (roundWithAccuracy Format.binary64 .positive m e a))) := by
  obtain ⟨em, hshift, hlocates⟩ := shift_of_locates hq h he
  have hn := hlocates.nearestEven
  have hplace : -1074 ≤ lastPlace q := le_max_right _ _
  have hhigh : em.roundedMantissa ≤ 2 ^ 53 := hn.le (by exact_mod_cast (scaled_lt hq).le)
  have hlow : 2 ^ 52 ≤ em.roundedMantissa ∨ lastPlace q = -1074 := by
    exact or_iff_not_imp_right.2 fun hne => hn.ge (by exact_mod_cast le_scaled hq hne)
  rw [roundWithAccuracy]
  rcases Nat.lt_or_eq_of_le hhigh with hlt | hfull
  · simp only [hshift, shift_small hlt hplace]
    by_cases hzero : em.roundedMantissa = 0
    · rw [dif_pos hzero]
      refine .within hn ?_ ?_
      · rw [hzero, Nat.cast_zero, Int.cast_zero, abs_zero, zero_mul]
        exact pow_pos two_pos _
      · rw [hzero, rational?_pack (.zero _), Nat.cast_zero, Int.cast_zero, zero_mul]
        rfl
    · rw [dif_neg hzero]
      exact rounds_pack hn _ rfl hlt hplace hlow
  · simp only [hshift, hfull, shift_full hplace]
    rw [dif_neg (by decide)]
    refine rounds_pack hn _ ?_ (by decide) (by omega) (.inl le_rfl)
    rw [hfull, zpow_add₀ two_ne_zero]
    push_cast
    ring

/-! ## Products and quotients -/

/-- A product of mantissas is exact, and it has enough digits. -/
theorem rounds_mul {m₁ m₂ : ℕ} (e₁ e₂ : ℤ) (h₁ : 0 < m₁) (h₂ : 0 < m₂) (hm : 2 ^ 52 ≤ m₁ * m₂) :
    Rounds (m₁ * 2 ^ e₁ * (m₂ * 2 ^ e₂)) (.ofModel (.pack
      (mul Format.binary64 (.finite .positive m₁ e₁ h₁) (.finite .positive m₂ e₂ h₂)))) := by
  have hq : (m₁ * 2 ^ e₁ * (m₂ * 2 ^ e₂) : ℚ) = (m₁ * m₂ : ℕ) * 2 ^ (e₁ + e₂) := by
    rw [zpow_add₀ two_ne_zero, Nat.cast_mul]
    ring
  have hpos : (0 : ℚ) < 2 ^ (e₁ + e₂) := zpow_pos two_pos _
  have hmantissa : (2 : ℚ) ^ (52 : ℤ) ≤ (m₁ * m₂ : ℕ) := by exact_mod_cast hm
  have hq' : (0 : ℚ) < (m₁ * m₂ : ℕ) * 2 ^ (e₁ + e₂) :=
    mul_pos (Nat.cast_pos.2 (Nat.mul_pos h₁ h₂)) hpos
  rw [hq]
  refine rounds_roundWithAccuracy hq' ?_ ?_
  · rw [mul_div_cancel_right₀ _ hpos.ne']
    exact locates_exact _
  · have hlog : 52 + (e₁ + e₂) ≤ Int.log 2 ((m₁ * m₂ : ℕ) * 2 ^ (e₁ + e₂) : ℚ) := by
      rw [le_log_iff hq', zpow_add₀ two_ne_zero]
      exact mul_le_mul_of_nonneg_right hmantissa hpos.le
    rw [lastPlace_of_pos hq']
    omega

/-- The dividend is shifted far enough for the quotient to have enough digits. -/
theorem rounds_div {m₁ m₂ : ℕ} (e₁ e₂ : ℤ) (h₁ : 0 < m₁) (h₂ : 0 < m₂) :
    Rounds (m₁ * 2 ^ e₁ / (m₂ * 2 ^ e₂)) (.ofModel (.pack
      (div Format.binary64 (.finite .positive m₁ e₁ h₁) (.finite .positive m₂ e₂ h₂)))) := by
  have hcast₁ : (0 : ℚ) < m₁ := Nat.cast_pos.2 h₁
  have hcast₂ : (0 : ℚ) < m₂ := Nat.cast_pos.2 h₂
  have hq : (m₁ * 2 ^ e₁ / (m₂ * 2 ^ e₂) : ℚ) = m₁ / m₂ * 2 ^ (e₁ - e₂) := by
    rw [zpow_sub₀ two_ne_zero, mul_div_mul_comm]
  have hq' : (0 : ℚ) < m₁ / m₂ * 2 ^ (e₁ - e₂) :=
    mul_pos (div_pos hcast₁ hcast₂) (zpow_pos two_pos _)
  have hlog : (m₁.log2 : ℤ) - m₂.log2 - 1 + (e₁ - e₂) ≤
      Int.log 2 (m₁ / m₂ * 2 ^ (e₁ - e₂) : ℚ) := by
    have hlow : (2 : ℚ) ^ (m₁.log2 : ℤ) ≤ m₁ := by
      exact_mod_cast Nat.log2_self_le (Nat.ne_of_gt h₁)
    have hhigh : (m₂ : ℚ) ≤ 2 ^ (m₂.log2 + 1 : ℤ) := by
      exact_mod_cast (Nat.lt_log2_self (n := m₂)).le
    rw [le_log_iff hq', zpow_add₀ two_ne_zero, sub_sub, zpow_sub₀ two_ne_zero]
    exact mul_le_mul_of_nonneg_right (div_le_div₀ hcast₁.le hlow hcast₂ hhigh)
      (zpow_pos two_pos _).le
  rw [hq]
  generalize hplace : min (e₁ - e₂)
    (Format.binary64.targetExponent (totalExponent m₁ e₁ - totalExponent m₂ e₂)) = e
  have hdiv : div Format.binary64 (.finite .positive m₁ e₁ h₁) (.finite .positive m₂ e₂ h₂) =
      roundWithAccuracy Format.binary64 .positive ((m₁ <<< (e₁ - e₂ - e).toNat) / m₂) e
        (accuracyOfFraction ((m₁ <<< (e₁ - e₂ - e).toNat) % m₂) m₂) := by
    subst hplace
    rfl
  rw [hdiv]
  refine rounds_roundWithAccuracy hq' ?_ ?_
  · obtain ⟨k, hk⟩ : ∃ k : ℕ, e + k = e₁ - e₂ := Int.le.dest (by omega)
    have hamount : (e₁ - e₂ - e).toNat = k := by omega
    have hr : (m₁ / m₂ * 2 ^ (e₁ - e₂) / 2 ^ e : ℚ) = (m₁ <<< k : ℕ) / m₂ := by
      rw [← hk, zpow_add₀ two_ne_zero, zpow_natCast, Nat.shiftLeft_eq, Nat.cast_mul, Nat.cast_pow,
        Nat.cast_ofNat]
      field_simp
    rw [hamount, hr]
    exact locates_fraction _ h₂
  · have htarget : Format.binary64.targetExponent (totalExponent m₁ e₁ - totalExponent m₂ e₂) =
        max (m₁.log2 - m₂.log2 + (e₁ - e₂) - 53) (-1074) := by
      change max ((m₁.log2 : ℤ) + 1 + e₁ - (m₂.log2 + 1 + e₂) - 53) (-1074) = _
      congr 1
      omega
    rw [lastPlace_of_pos hq']
    omega

end TopDown.Decimal
