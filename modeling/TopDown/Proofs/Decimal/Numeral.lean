import TopDown.Proofs.Decimal.Nearest

/-!
# Numerals and their values

The rational number that the text of a number stands for: what the digits before and after the point
come to, times a power of ten. A text is read as the floating-point number that this is rounded to
(`NumberValue.parse?`), and nothing is read from a text with any other than ASCII characters
(`ascii_of_parse?`).
-/

namespace TopDown.Json

open Decimal (Rounds)

/-! ## What a numeral stands for -/

/-- The natural number that decimal digits stand for. -/
def natural (w : List Char) : ℕ := Nat.ofDigits 10 (w.reverse.map fun c => c.toNat - '0'.toNat)

/-- What a fraction stands for. -/
inductive FractionValue : List Char → ℚ → Prop where
  | absent : FractionValue [] 0
  | present {w : List Char} (hw : Digits w) : FractionValue ('.' :: w) (natural w / 10 ^ w.length)

/-- The power of ten that an exponent stands for. -/
inductive ExponentValue : List Char → ℤ → Prop where
  | absent : ExponentValue [] 0
  | positive {e : Char} {sign w : List Char} (he : e = 'e' ∨ e = 'E')
      (hs : sign = [] ∨ sign = ['+']) (hw : Digits w) :
      ExponentValue (e :: (sign ++ w)) (natural w)
  | negative {e : Char} {w : List Char} (he : e = 'e' ∨ e = 'E') (hw : Digits w) :
      ExponentValue (e :: '-' :: w) (-natural w)

/-- What the text of a number stands for. -/
inductive NumberValue : List Char → ℚ → Prop where
  | positive {whole fraction exponent : List Char} {q : ℚ} {n : ℤ} (hw : WholeText whole)
      (hf : FractionValue fraction q) (he : ExponentValue exponent n) :
      NumberValue (whole ++ (fraction ++ exponent)) ((natural whole + q) * 10 ^ n)
  | negative {whole fraction exponent : List Char} {q : ℚ} {n : ℤ} (hw : WholeText whole)
      (hf : FractionValue fraction q) (he : ExponentValue exponent n) :
      NumberValue ('-' :: (whole ++ (fraction ++ exponent))) (-((natural whole + q) * 10 ^ n))

section

variable {w : List Char} {q : ℚ} {n : ℤ}

theorem FractionValue.text (h : FractionValue w q) : FractionText w := by
  cases h with
  | absent => exact .absent
  | present hw => exact .present hw

theorem ExponentValue.text (h : ExponentValue w n) : ExponentText w := by
  cases h with
  | absent => exact .absent
  | positive he hs hw => exact .present he (hs.imp_right .inl) hw
  | @negative e w he hw => exact @ExponentText.present e ['-'] w he (.inr (.inr rfl)) hw

theorem FractionText.exists_value (h : FractionText w) : ∃ q, FractionValue w q := by
  cases h with
  | absent => exact ⟨_, .absent⟩
  | present hw => exact ⟨_, .present hw⟩

theorem ExponentText.exists_value (h : ExponentText w) : ∃ n, ExponentValue w n := by
  cases h with
  | absent => exact ⟨_, .absent⟩
  | present he hs hw =>
    rcases hs with rfl | rfl | rfl
    · exact ⟨_, .positive he (.inl rfl) hw⟩
    · exact ⟨_, .positive he (.inr rfl) hw⟩
    · exact ⟨_, .negative he hw⟩

/-- The text of every number stands for something. -/
theorem NumberText.exists_value (h : NumberText w) : ∃ q, NumberValue w q := by
  obtain ⟨hm, hw, hf, he⟩ := h
  obtain ⟨q, hq⟩ := hf.exists_value
  obtain ⟨n, hn⟩ := he.exists_value
  have hpositive := NumberValue.positive hw hq hn
  have hnegative := NumberValue.negative hw hq hn
  rcases hm with rfl | rfl
  · exact ⟨_, hpositive⟩
  · exact ⟨_, hnegative⟩

/-! ## What is read -/

theorem natural_nil : natural [] = 0 := rfl

theorem natural_cons (c : Char) (w : List Char) :
    natural (c :: w) = (c.toNat - '0'.toNat) * 10 ^ w.length + natural w := by
  rw [natural, natural, List.reverse_cons, List.map_append, Nat.ofDigits_append, List.length_map,
    List.length_reverse, List.map_singleton, Nat.ofDigits_singleton, Nat.mul_comm, Nat.add_comm]

theorem natural_append (a b : List Char) :
    natural (a ++ b) = natural a * 10 ^ b.length + natural b := by
  induction a with
  | nil => rw [List.nil_append, natural_nil, Nat.zero_mul, Nat.zero_add]
  | cons c a ih =>
    rw [List.cons_append, natural_cons, natural_cons, ih, List.length_append, pow_add]
    ring

-- taking the code of zero away step by step is out of the question
attribute [local irreducible] Nat.sub in
theorem digitsValue_cons (acc : ℕ) (c : Char) (w : List Char) :
    Decimal.digitsValue acc (c :: w) =
      Decimal.digitsValue (10 * acc + (c.toNat - '0'.toNat)) w := rfl

/-- Digits are read one by one, from the left. -/
theorem digitsValue_eq (acc : ℕ) (w : List Char) :
    Decimal.digitsValue acc w = acc * 10 ^ w.length + natural w := by
  induction w generalizing acc with
  | nil =>
    rw [natural_nil, List.length_nil, pow_zero, Nat.mul_one]
    rfl
  | cons c w ih =>
    rw [digitsValue_cons, ih, natural_cons, List.length_cons, pow_succ]
    ring

theorem digitsValue_zero (w : List Char) : Decimal.digitsValue 0 w = natural w := by
  rw [digitsValue_eq, Nat.zero_mul, Nat.zero_add]

theorem ExponentValue.read : ExponentValue w n →
    (match w with
      | [] => some 0
      | c :: tail =>
        if c = 'e' || c = 'E' then Decimal.readExponent? tail else none) = some n := by
  intro h
  cases h with
  | absent => rfl
  | positive he hs hw =>
    obtain ⟨hread, hplus, -⟩ := hw.readExponent?
    dsimp only
    rw [if_pos (by simpa using he), ← digitsValue_zero]
    rcases hs with rfl | rfl
    · exact hread
    · exact hplus
  | negative he hw =>
    dsimp only
    rw [if_pos (by simpa using he), ← digitsValue_zero]
    exact hw.readExponent?.2.2

/-- The digits of a fraction come after its point. -/
theorem FractionValue.eq (h : FractionValue w q) : q = natural w.tail / 10 ^ w.tail.length := by
  cases h with
  | absent => rw [List.tail_nil, natural_nil, Nat.cast_zero, zero_div]
  | present => rfl

/-- The point is taken out of the digits, and the exponent makes up for it. -/
theorem readUnsigned?_of_value {whole fraction exponent : List Char} (hw : WholeText whole)
    (hf : FractionValue fraction q) (he : ExponentValue exponent n) :
    ∃ x, Decimal.readUnsigned? (whole ++ (fraction ++ exponent)) = some x ∧
      Rounds ((natural whole + q) * 10 ^ n) x := by
  refine ⟨_, readUnsigned?_eq he.read hw hf.text he.text, ?_⟩
  have hten : (10 : ℚ) ^ fraction.tail.length ≠ 0 := pow_ne_zero _ (by norm_num)
  have hvalue : (natural whole + q) * 10 ^ n =
      (Decimal.digitsValue 0 (whole ++ fraction.tail) : ℚ) * 10 ^ (n - fraction.tail.length) := by
    rw [hf.eq, digitsValue_zero, natural_append, zpow_sub₀ (by norm_num), zpow_natCast]
    push_cast
    field_simp
  rw [hvalue]
  exact Decimal.rounds_nearest _ _

/-- A number is read as what it stands for, rounded. -/
theorem NumberValue.parse? (h : NumberValue w q) :
    ∃ x, Decimal.parse? (String.ofList w) = some x ∧ Rounds q x := by
  cases h with
  | positive hw hf he =>
    rw [hw.parse?_append]
    exact readUnsigned?_of_value hw hf he
  | negative hw hf he =>
    obtain ⟨x, hx, hrounds⟩ := readUnsigned?_of_value hw hf he
    refine ⟨-x, ?_, hrounds.neg⟩
    rw [Decimal.parse?, String.toList_ofList]
    exact congrArg (Option.map (-·)) hx

end

/-! ## What is not read -/

/-- The character is an ASCII character. -/
def Ascii (c : Char) : Prop := c.toNat < 0x80

instance (c : Char) : Decidable (Ascii c) := Nat.decLt _ _

theorem ascii_of_isDigit {c : Char} (h : c.isDigit = true) : Ascii c := by
  have hall : "0123456789".toList.all (fun c => Ascii c) = true := by decide
  exact of_decide_eq_true (List.all_eq_true.1 hall c (mem_of_isDigit h))

theorem ascii_of_toLower {c : Char} (h : Ascii c.toLower) : Ascii c := by
  rw [Char.toLower] at h
  split at h
  · rename_i hupper
    have hle : c.toNat ≤ 'Z'.toNat := hupper.2
    exact Nat.lt_of_le_of_lt hle (by decide)
  · exact h

theorem ascii_of_readExponent? {w : List Char} (h : (Decimal.readExponent? w).isSome = true) :
    ∀ c ∈ w, Ascii c := by
  have hdigits : ∀ digits : List Char, (digits.isEmpty || !digits.all Char.isDigit) = false →
      ∀ c ∈ digits, Ascii c := by
    intro digits h c hc
    rw [Bool.or_eq_false_iff, Bool.not_eq_false'] at h
    exact ascii_of_isDigit (List.all_eq_true.1 h.2 c hc)
  cases w with
  | nil => exact List.forall_mem_nil _
  | cons c rest =>
    by_cases hminus : c = '-'
    · subst hminus
      refine List.forall_mem_cons.2 ⟨by decide, hdigits rest ?_⟩
      simpa [Decimal.readExponent?] using h
    by_cases hplus : c = '+'
    · subst hplus
      refine List.forall_mem_cons.2 ⟨by decide, hdigits rest ?_⟩
      simpa [Decimal.readExponent?] using h
    · refine hdigits (c :: rest) ?_
      simpa [Decimal.readExponent?, hminus, hplus] using h

/-- What is read of a number is digits, a point, an exponent or one of three words. -/
theorem ascii_of_readUnsigned? {w : List Char} (h : (Decimal.readUnsigned? w).isSome = true) :
    ∀ c ∈ w, Ascii c := by
  have hword : ∀ word : String, word.toList.all (fun c => Ascii c) = true →
      String.ofList (w.map Char.toLower) = word → ∀ c ∈ w, Ascii c := by
    rintro word hascii rfl c hc
    rw [String.toList_ofList, List.all_eq_true] at hascii
    exact ascii_of_toLower (of_decide_eq_true (hascii _ (List.mem_map_of_mem hc)))
  have htake : ∀ w : List Char, ∀ c ∈ w.takeWhile Char.isDigit, Ascii c :=
    fun w c hc => ascii_of_isDigit (List.all_eq_true.1 List.all_takeWhile c hc)
  have hexponent : ∀ rest : List Char, (match rest with
      | [] => some 0
      | c :: tail =>
        if c = 'e' || c = 'E' then Decimal.readExponent? tail else none).isSome = true →
      ∀ c ∈ rest, Ascii c := by
    intro rest h
    cases rest with
    | nil => exact List.forall_mem_nil _
    | cons c tail =>
      dsimp only at h
      split at h
      · rename_i hletter
        rw [Bool.or_eq_true, decide_eq_true_eq, decide_eq_true_eq] at hletter
        refine List.forall_mem_cons.2 ⟨?_, ascii_of_readExponent? h⟩
        rcases hletter with rfl | rfl <;> decide
      · cases h
  by_cases hinf : String.ofList (w.map Char.toLower) = "inf"
  · exact hword "inf" (by decide) hinf
  by_cases hinfinity : String.ofList (w.map Char.toLower) = "infinity"
  · exact hword "infinity" (by decide) hinfinity
  by_cases hnan : String.ofList (w.map Char.toLower) = "nan"
  · exact hword "nan" (by decide) hnan
  simp only [Decimal.readUnsigned?, hinf, hinfinity, hnan, decide_false, Bool.or_false,
    Bool.false_eq_true, if_false] at h
  rw [← List.takeWhile_append_dropWhile (p := Char.isDigit) (l := w)]
  refine List.forall_mem_append.2 ⟨htake w, ?_⟩
  generalize w.dropWhile Char.isDigit = rest at h
  split at h
  · rename_i tail
    split at h
    · cases h
    · rw [Option.isSome_map] at h
      rw [← List.takeWhile_append_dropWhile (p := Char.isDigit) (l := tail)]
      have hrest := List.forall_mem_append.2 ⟨htake tail, hexponent _ h⟩
      exact List.forall_mem_cons.2 ⟨by decide, hrest⟩
  · split at h
    · cases h
    · rw [Option.isSome_map] at h
      exact hexponent _ h

/-- No number is read from a text with any other than ASCII characters. -/
theorem ascii_of_parse? {text : String} (h : (Decimal.parse? text).isSome = true) :
    ∀ c ∈ text.toList, Ascii c := by
  rw [Decimal.parse?] at h
  split at h
  · rename_i rest heq
    rw [Option.isSome_map] at h
    rw [heq]
    exact List.forall_mem_cons.2 ⟨by decide, ascii_of_readUnsigned? h⟩
  · rename_i rest heq
    rw [heq]
    exact List.forall_mem_cons.2 ⟨by decide, ascii_of_readUnsigned? h⟩
  · exact ascii_of_readUnsigned? h

end TopDown.Json
