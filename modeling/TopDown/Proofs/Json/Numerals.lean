import TopDown.Proofs.Json.Text
import Mathlib.Algebra.GroupWithZero.Nat

/-!
# Numbers are written as JSON numbers

The text of a finite number is a number of the grammar (`Json.numberText_render`). Its digits are
those of a natural number, so no zero leads them. If there is a point among them, there are digits
on both sides of it: the power of ten that places the point counts the digits before it, and
`Json.le_below` says that there are no fewer digits than the decimal claims to have.
-/

namespace TopDown.Json

open Decimal

/-! ## Digits -/

theorem isDigit_of_mem_toDigits {n : Nat} {c : Char} (hc : c ∈ Nat.toDigits 10 n) :
    c.isDigit = true := Nat.isDigit_of_mem_toDigits (by decide) (by decide) hc

/-- No zero leads the digits of a positive number. -/
theorem toDigits_eq_cons {n : Nat} (hn : 0 < n) : ∃ c w, Nat.toDigits 10 n = c :: w ∧ c ≠ '0' := by
  induction n using Nat.strongRecOn with
  | ind n ih =>
    by_cases hlt : n < 10
    · have hdigit : ∀ n < 10, 0 < n → Nat.digitChar n ≠ '0' := by decide
      exact ⟨_, [], Nat.toDigits_of_lt_base hlt, hdigit n hlt hn⟩
    · have hle : 10 ≤ n := Nat.le_of_not_lt hlt
      obtain ⟨c, w, heq, hc⟩ := ih (n / 10) (by omega) (by omega)
      refine ⟨c, w ++ [Nat.digitChar (n % 10)], ?_, hc⟩
      rw [Nat.toDigits_of_base_le (by decide) hle, heq, List.cons_append]

/-- There are as many digits as the size of the number asks for. -/
theorem le_length_toDigits {n count : Nat} (h : 10 ^ (count - 1) ≤ n) :
    count ≤ (Nat.toDigits 10 n).length := by
  have hpos : 0 < (Nat.toDigits 10 n).length := Nat.length_toDigits_pos
  by_cases hcount : count ≤ 1
  · omega
  · have hlength : ¬(Nat.toDigits 10 n).length ≤ count - 1 := by
      rw [Nat.length_toDigits_le_iff (by decide) (by omega)]
      omega
    omega

theorem pow_digitCount_le {n : Nat} (hn : 0 < n) : 10 ^ (digitCount n - 1) ≤ n := by
  by_cases hcount : digitCount n ≤ 1
  · rw [Nat.sub_eq_zero_of_le hcount]
    exact hn
  · refine Nat.le_of_not_lt fun hlt => ?_
    have hlength : digitCount n ≤ digitCount n - 1 :=
      (Nat.length_toDigits_le_iff (by decide) (by omega)).2 hlt
    omega

/-! ## The shortest decimal -/

/-- The digits of a decimal above one are there, and no zero leads them. -/
def Full (d : Decimal.Digits) : Prop :=
  0 < d.exponent → 0 < d.digits ∧ d.count ≤ (Nat.toDigits 10 d.digits).length

theorem full_of_le {n count : Nat} (above : Int) (h : 10 ^ (count - 1) ≤ n) :
    Full ⟨n, count, above⟩ := by
  intro _
  have hpos : 0 < 10 ^ (count - 1) := Nat.pow_pos (by decide)
  exact ⟨Nat.lt_of_lt_of_le hpos h, le_length_toDigits h⟩

theorem magnitude_cases (i : Interval) :
    (i.denominator ≤ i.value ∧ magnitude i = digitCount (i.value / i.denominator)) ∨
      magnitude i ≤ 0 := by
  rw [magnitude]
  by_cases h : i.denominator ≤ i.value
  · rw [if_pos h]
    exact .inl ⟨h, rfl⟩
  · right
    rw [if_neg h, stepsUp, if_neg h]
    omega

/-- The number in units of the last of `count` places, rounded down, has `count` digits. -/
theorem le_below {value denominator count above : Nat} (hden : 0 < denominator)
    (hle : denominator ≤ value) (habove : above = digitCount (value / denominator))
    (hcount : 0 < count) :
    10 ^ (count - 1) ≤ value * 10 ^ (-((above : Int) - count)).toNat /
      (denominator * 10 ^ ((above : Int) - count).toNat) := by
  have hquotient : 0 < value / denominator := Nat.div_pos hle hden
  have hdigits := pow_digitCount_le hquotient
  have hpositive : 0 < digitCount (value / denominator) := Nat.length_toDigits_pos
  rw [← habove] at hdigits hpositive
  have hvalue : 10 ^ (above - 1) * denominator ≤ value := (Nat.le_div_iff_mul_le hden).1 hdigits
  have hunit : 0 < denominator * 10 ^ ((above : Int) - count).toNat :=
    Nat.mul_pos hden (Nat.pow_pos (by decide))
  rw [Nat.le_div_iff_mul_le hunit]
  -- both sides of the power of ten come to the same place
  have hplace : 10 ^ (count - 1) * 10 ^ ((above : Int) - count).toNat =
      10 ^ (above - 1) * 10 ^ (-((above : Int) - count)).toNat := by
    rw [← Nat.pow_add, ← Nat.pow_add]
    congr 1
    omega
  calc 10 ^ (count - 1) * (denominator * 10 ^ ((above : Int) - count).toNat)
      = 10 ^ (count - 1) * 10 ^ ((above : Int) - count).toNat * denominator := by
        rw [Nat.mul_comm denominator, Nat.mul_assoc]
    _ = 10 ^ (above - 1) * denominator * 10 ^ (-((above : Int) - count)).toNat := by
        rw [hplace, Nat.mul_right_comm]
    _ ≤ value * 10 ^ (-((above : Int) - count)).toNat := Nat.mul_le_mul_right _ hvalue

/-- The best decimal is the number in units of the last place, rounded down or up; if that takes a
place more, it is a power of ten. -/
theorem bestWith_eq_some {i : Interval} {above : Int} {count : Nat} {d : Decimal.Digits}
    (h : bestWith i above count = some d) :
    ∃ n, i.value * 10 ^ (-(above - count)).toNat /
        (i.denominator * 10 ^ (above - count).toNat) ≤ n ∧
      (d = ⟨1, 1, above + 1⟩ ∨ d = ⟨n, count, above⟩) := by
  have hpick (n : Nat) : (if n = Nat.pow 10 count then (⟨1, 1, above + 1⟩ : Decimal.Digits)
      else ⟨n, count, above⟩) = ⟨1, 1, above + 1⟩ ∨
      (if n = Nat.pow 10 count then (⟨1, 1, above + 1⟩ : Decimal.Digits)
        else ⟨n, count, above⟩) = ⟨n, count, above⟩ := by
    by_cases hn : n = Nat.pow 10 count
    · exact .inl (if_pos hn)
    · exact .inr (if_neg hn)
  simp only [bestWith] at h
  split at h
  · obtain rfl := Option.some.inj h
    refine ⟨_, ?_, hpick _⟩
    split
    · exact Nat.le_succ _
    · exact Nat.le_refl _
  · obtain rfl := Option.some.inj h
    exact ⟨_, Nat.le_refl _, hpick _⟩
  · obtain rfl := Option.some.inj h
    exact ⟨_, Nat.le_succ _, hpick _⟩
  · cases h

theorem full_bestWith {i : Interval} {count : Nat} {d : Decimal.Digits} (hden : 0 < i.denominator)
    (hcount : 0 < count) (h : bestWith i (magnitude i) count = some d) : Full d := by
  obtain ⟨n, hn, rfl | rfl⟩ := bestWith_eq_some h
  · exact full_of_le _ (Nat.le_refl 1)
  · rcases magnitude_cases i with ⟨hle, habove⟩ | hsmall
    · have hbelow := le_below hden hle rfl hcount
      rw [← habove] at hbelow
      exact full_of_le _ (Nat.le_trans hbelow hn)
    · exact fun hpos => absurd hpos (Int.not_lt.2 hsmall)

theorem full_shortestOf {i : Interval} (hden : 0 < i.denominator) : Full (shortestOf i) := by
  rw [shortestOf]
  cases h : (List.range 17).findSome? fun n => bestWith i (magnitude i) (n + 1) with
  | none => exact fun hpos => absurd hpos (by decide)
  | some d =>
    obtain ⟨n, -, hd⟩ := List.exists_of_findSome?_eq_some h
    exact full_bestWith hden (Nat.succ_pos n) hd

theorem denominator_pos (m : Nat) (q : Int) (narrow : Bool) :
    0 < (interval m q narrow).denominator := Nat.pow_pos (by decide)

theorem full_shortest (exponentBits fraction : Nat) : Full (shortest exponentBits fraction) := by
  rw [shortest]
  split
  · exact full_shortestOf (denominator_pos _ _ _)
  · exact full_shortestOf (denominator_pos _ _ _)

/-! ## The text of a number -/

theorem Full.positional {d : Decimal.Digits} (h : Full d) : ∃ whole fraction,
    d.positional.toList = whole ++ fraction ∧ WholeText whole ∧ FractionText fraction := by
  have hdigits : ∀ c ∈ Nat.toDigits 10 d.digits, c.isDigit = true := fun c =>
    isDigit_of_mem_toDigits
  rw [Decimal.Digits.positional]
  by_cases hsmall : d.exponent ≤ 0
  · -- all digits come after the point
    rw [if_pos hsmall, String.toList_ofList]
    refine ⟨['0'], _, rfl, .zero, .present ⟨?_, ?_⟩⟩
    · exact List.append_ne_nil_of_right_ne_nil _ Nat.toDigits_ne_nil
    · intro c hc
      rcases List.mem_append.1 hc with hc | hc
      · rw [List.eq_of_mem_replicate hc]
        rfl
      · exact hdigits c hc
  · obtain ⟨hpos, hcount⟩ := h (Int.not_le.1 hsmall)
    obtain ⟨c, w, hcons, hne⟩ := toDigits_eq_cons hpos
    rw [if_neg hsmall]
    dsimp only
    by_cases hall : d.count ≤ d.exponent.toNat
    · -- no digit comes after the point
      rw [if_pos hall, String.toList_ofList, hcons]
      refine ⟨_, [], (List.append_nil _).symm, ?_, .absent⟩
      refine .other (hdigits c (hcons ▸ List.mem_cons_self)) hne fun x hx => ?_
      rcases List.mem_append.1 hx with hx | hx
      · exact hdigits x (hcons ▸ List.mem_cons_of_mem c hx)
      · rw [List.eq_of_mem_replicate hx]
        rfl
    · rw [if_neg hall, String.toList_ofList]
      refine ⟨_, _, rfl, ?_, .present ⟨?_, fun x hx => hdigits x (List.mem_of_mem_drop hx)⟩⟩
      · obtain ⟨k, hk⟩ : ∃ k, d.exponent.toNat = k + 1 := ⟨d.exponent.toNat - 1, by omega⟩
        rw [hcons, hk, List.take_succ_cons]
        refine .other (hdigits c (hcons ▸ List.mem_cons_self)) hne fun x hx => ?_
        exact hdigits x (hcons ▸ List.mem_cons_of_mem c (List.mem_of_mem_take hx))
      · intro hnil
        have hlength := congrArg List.length hnil
        rw [List.length_drop, List.length_nil] at hlength
        omega

/-- The exponent of a finite number is not the one reserved for the others. -/
theorem exponentBits_ne {x : Float} (h : x.isFinite = true) :
    x.toBits.toNat / Nat.pow 2 52 % Nat.pow 2 11 ≠ 2047 := by
  intro hbits
  have hexponent : @Float.Model.UnpackedFloat.unpackExponent Float.Model.Format.binary64
      x.toModel.toBits.toBitVec = -1#_ := by
    refine BitVec.eq_of_toNat_eq ?_
    simp only [Float.Model.UnpackedFloat.unpackExponent, BitVec.toNat_cast, BitVec.extractLsb_toNat,
      Nat.shiftRight_eq_div_pow]
    exact hbits
  have hfinite : (Float.Model.UnpackedFloat.unpack Float.Model.Format.binary64
      x.toModel.toBits.toBitVec).isFinite = true := h
  delta Float.Model.UnpackedFloat.unpack at hfinite
  dsimp only at hfinite
  rw [if_pos hexponent] at hfinite
  split at hfinite
  · cases hfinite
  · cases hfinite

/-- A finite number is written as a number of the grammar. -/
theorem numberText_render {x : Float} (h : x.isFinite = true) :
    NumberText (Decimal.render x).toList := by
  have hsign (p : Prop) [Decidable p] : (if p then "-" else "").toList = [] ∨
      (if p then "-" else "").toList = ['-'] := by
    by_cases hp : p
    · exact .inr (congrArg String.toList (if_pos hp))
    · exact .inl (congrArg String.toList (if_neg hp))
  simp only [Decimal.render]
  rw [if_neg (exponentBits_ne h)]
  split
  · rw [String.toList_append]
    exact .intro (hsign _) .zero .absent .absent
  · obtain ⟨whole, fraction, htext, hw, hf⟩ := (full_shortest _ _).positional
    rw [String.toList_append, htext, ← List.append_nil fraction]
    exact .intro (hsign _) hw hf .absent

end TopDown.Json
