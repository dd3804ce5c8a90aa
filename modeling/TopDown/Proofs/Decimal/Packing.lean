import TopDown.Decimal.Text
import Mathlib

/-!
# The numbers that floating-point numbers stand for

Floating-point numbers are packed into 64 bits, and all arithmetic is done on their unpacked form.
Only part of the unpacked numbers have a packed form of their own (`Packable`): those come back from
it unchanged (`unpack_pack`), and no others come out of it (`packable_unpack`). So what an operation
does to the number that is stood for (`rational?`) is known from what it does to the unpacked form.
-/

namespace TopDown.Decimal

open Float.Model (UnpackedFloat Format)
open Float.Model.UnpackedFloat

/-! ## Values -/

/-- The rational number that an unpacked number stands for, if it is finite. -/
def value? : UnpackedFloat → Option ℚ
  | .finite sign mantissa exponent _ => some (sign.apply mantissa * 2 ^ exponent)
  | .zero _ => some 0
  | .infinity _ | .notANumber => none

/-- The rational number that a floating-point number stands for, if it is finite. -/
def rational? (x : Float) : Option ℚ := value? x.toModel.unpack

theorem value?_neg (u : UnpackedFloat) : value? u.neg = (value? u).map (-·) := by
  cases u with
  | finite s m e h =>
    have hsign : (-s).apply m = -s.apply m := by
      cases s with
      | negative => exact (Int.neg_neg _).symm
      | positive => rfl
    rw [UnpackedFloat.neg, value?, value?, hsign, Int.cast_neg, neg_mul, Option.map_some]
  | zero s => exact congrArg some neg_zero.symm
  | infinity | notANumber => rfl

/-! ## Packing -/

/-- The unpacked numbers that have a packed form. A mantissa of fewer than 53 bits has the last
place that there is. -/
inductive Packable : UnpackedFloat → Prop where
  | notANumber : Packable .notANumber
  | infinity (s : Sign) : Packable (.infinity s)
  | zero (s : Sign) : Packable (.zero s)
  | subnormal {s : Sign} {m : Nat} (h : 0 < m) (hm : m < 2 ^ 52) :
      Packable (.finite s m (-1074) h)
  | normal {s : Sign} {m : Nat} {e : Int} (h : 0 < m) (hlow : 2 ^ 52 ≤ m) (hhigh : m < 2 ^ 53)
      (he : -1074 ≤ e) (he' : e ≤ 971) : Packable (.finite s m e h)

theorem Packable.neg {u : UnpackedFloat} (h : Packable u) : Packable u.neg := by
  cases h with
  | notANumber => exact .notANumber
  | infinity s => exact .infinity (-s)
  | zero s => exact .zero (-s)
  | subnormal h hm => exact .subnormal h hm
  | normal h hlow hhigh he he' => exact .normal h hlow hhigh he he'

/-- The leading bit of a mantissa is left out of the packed form. -/
theorem toNat_one_append (m : BitVec 52) : (1#1 ++ m).toNat = 2 ^ 52 + m.toNat := by
  rw [BitVec.toNat_append, ← Nat.shiftLeft_add_eq_or_of_lt m.isLt]
  rfl

theorem unpack_subnormal {s : Sign} {m : Nat} (h : 0 < m) (hm : m < 2 ^ 52) :
    UnpackedFloat.unpack Format.binary64
      (packComponents Format.binary64 s 0#11 (BitVec.ofNat 52 m)) = .finite s m (-1074) h := by
  have hvalue : (BitVec.ofNat 52 m).toNat = m := Nat.mod_eq_of_lt hm
  have hne : BitVec.ofNat 52 m ≠ 0#52 := fun heq => by
    rw [heq] at hvalue
    exact Nat.ne_of_lt h hvalue
  rw [UnpackedFloat.unpack]
  simp only [unpackExponent_packComponents, unpackMantissa_packComponents,
    unpackSign_packComponents, Sign.ofBitVec_toBitVec]
  rw [if_neg (by decide), if_pos trivial, dif_neg hne]
  simp only [hvalue]
  rfl

theorem unpack_normal {s : Sign} {m e : Nat} (h : 0 < m) (hlow : 2 ^ 52 ≤ m) (hhigh : m < 2 ^ 53)
    (he : 0 < e) (he' : e < 2047) :
    UnpackedFloat.unpack Format.binary64
      (packComponents Format.binary64 s (BitVec.ofNat 11 e) (BitVec.ofNat 52 m)) =
      .finite s m (e - 1075) h := by
  have hplace : (BitVec.ofNat 11 e).toNat = e := Nat.mod_eq_of_lt (by omega)
  have hvalue : (1#1 ++ BitVec.ofNat 52 m).toNat = m := by
    rw [toNat_one_append, BitVec.toNat_ofNat]
    omega
  have hfirst : BitVec.ofNat 11 e ≠ 0#11 := fun heq => by
    rw [heq] at hplace
    exact Nat.ne_of_lt he hplace
  have hlast : BitVec.ofNat 11 e ≠ -1#11 := fun heq => by
    rw [heq] at hplace
    exact Nat.ne_of_lt he' hplace.symm
  rw [UnpackedFloat.unpack]
  simp only [unpackExponent_packComponents, unpackMantissa_packComponents,
    unpackSign_packComponents, Sign.ofBitVec_toBitVec]
  rw [if_neg hlast, if_neg hfirst]
  simp only [hvalue, hplace]
  rfl

/-- Packing loses nothing of a number that has a packed form. -/
theorem unpack_pack {u : UnpackedFloat} (h : Packable u) : (Float.Model.pack u).unpack = u := by
  cases h with
  | notANumber => rfl
  | infinity s => cases s <;> rfl
  | zero s => cases s <;> rfl
  | @subnormal s m h hm =>
    have hlog : m.log2 < 52 := (Nat.log2_lt (Nat.ne_of_gt h)).2 hm
    have hpack : UnpackedFloat.pack Format.binary64 (.finite s m (-1074) h) =
        packComponents Format.binary64 s 0#11 (BitVec.ofNat 52 m) := by
      rw [UnpackedFloat.pack]
      simp only []
      rw [if_neg (by decide), if_neg (by simp only [Format.mantissaBits]; omega)]
    rw [Float.Model.unpack, Float.Model.pack]
    simp only [hpack]
    exact unpack_subnormal h hm
  | @normal s m e h hlow hhigh he he' =>
    have hlog : m.log2 = 52 := (Nat.log2_eq_iff (Nat.ne_of_gt h)).2 ⟨hlow, hhigh⟩
    obtain ⟨n, rfl⟩ : ∃ n : Nat, e = n - 1075 := ⟨(e + 1075).toNat, by omega⟩
    have hbias : ((n - 1075 : Int) + (Format.binary64.exponentBias : Nat) +
        Format.binary64.mantissaBitsWithoutImplicit).toNat = n := by
      change ((n : Int) - 1075 + 1023 + 52).toNat = n
      omega
    have hpack : UnpackedFloat.pack Format.binary64 (.finite s m (n - 1075) h) =
        packComponents Format.binary64 s (BitVec.ofNat 11 n) (BitVec.ofNat 52 m) := by
      rw [UnpackedFloat.pack]
      simp only [hbias, hlog]
      rw [if_neg (by omega), if_pos (by decide)]
    rw [Float.Model.unpack, Float.Model.pack]
    simp only [hpack]
    exact unpack_normal h hlow hhigh (by omega) (by omega)

/-- What is unpacked has a packed form. -/
theorem packable_unpack (b : BitVec Format.binary64.numBits) :
    Packable (UnpackedFloat.unpack Format.binary64 b) := by
  have hbias : (Format.binary64.exponentBias : Int) = 1023 := rfl
  rw [UnpackedFloat.unpack]
  simp only [hbias]
  by_cases hlast : unpackExponent b = -1#11
  · rw [if_pos hlast]
    by_cases hzero : unpackMantissa b = 0#52
    · rw [if_pos hzero]
      exact .infinity _
    · rw [if_neg hzero]
      exact .notANumber
  · rw [if_neg hlast]
    by_cases hfirst : unpackExponent b = 0#11
    · rw [if_pos hfirst]
      by_cases hzero : unpackMantissa b = 0#52
      · rw [dif_pos hzero]
        exact .zero _
      · rw [dif_neg hzero]
        simp only [hfirst]
        exact .subnormal _ (unpackMantissa b).isLt
    · rw [if_neg hfirst]
      have hlow : (unpackExponent b).toNat ≠ 0 := fun h => hfirst (BitVec.eq_of_toNat_eq h)
      have hhigh : (unpackExponent b).toNat ≠ 2047 := fun h => hlast (BitVec.eq_of_toNat_eq h)
      have hlt : (unpackExponent b).toNat < 2 ^ 11 := (unpackExponent b).isLt
      have hmantissa : (unpackMantissa b).toNat < 2 ^ 52 := (unpackMantissa b).isLt
      have hvalue := toNat_one_append (unpackMantissa b)
      refine .normal _ (le_of_le_of_eq (Nat.le_add_right _ _) hvalue.symm) ?_ ?_ ?_
      · exact hvalue.trans_lt (by omega)
      · omega
      · omega

/-! ## Values of packed numbers -/

theorem rational?_pack {u : UnpackedFloat} (h : Packable u) :
    rational? (.ofModel (.pack u)) = value? u := by
  rw [rational?, unpack_pack h]

theorem rational?_neg (x : Float) : rational? (-x) = (rational? x).map (-·) :=
  (rational?_pack (packable_unpack _).neg).trans (value?_neg _)

end TopDown.Decimal
