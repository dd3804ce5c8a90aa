import TopDown.Proofs.Calc.Evaluation
import TopDown.Proofs.Decimal.Numeral
import TopDown.Proofs.Json.Acceptance
import TopDown.Proofs.Spacing
import TopDown.Proofs.Spans

/-!
# What number literals stand for

The digits in the patterns for numbers are those of all scripts, but a number is read from a text
of ASCII characters only. So a token with ASCII digits is read as the numeral that it is, rounded,
and a token with any other digit comes to zero: `decodes_of_mem_tokenize`.
-/

namespace TopDown

/-! ## The text of a token -/

/-- The text of a token is one that the pattern of its class stands for. -/
theorem Vocabulary.spells_of_mem_tokenize {v : Vocabulary} {r : Regex} {skip : Bool}
    {text : String} {t : Token} (hc : v.anchored? t.kind = some (r, skip))
    (h : t ∈ (v.tokenize text).1) : r.Spells t.text.toList := by
  obtain ⟨c, hclass, hp, -⟩ := class?_of_anchored? hc
  obtain ⟨before, w, after, -, hpiece⟩ :=
    (v.lexes_lex text).exists_piece (mem_lex_of_mem_tokenize h)
  cases hpiece with
  | token hfirst =>
    obtain rfl := Option.some.inj (hfirst.declared.symm.trans hclass)
    have hmatch := hfirst.matched
    rw [← String.ofList_toList (s := w), ← String.ofList_toList (s := after)] at hmatch
    exact TokenClass.Anchored.spells hp hmatch

/-- A text that may be left out. -/
theorem Regex.spells_optional {r : Regex} {greedy : Bool} {w : List Char}
    (h : (Regex.repeat r 0 (some 1) greedy).Spells w) : w = [] ∨ r.Spells w := by
  cases h with
  | @turns _ _ _ _ ws hall _ hmost =>
    cases ws with
    | nil => exact .inl rfl
    | cons w ws =>
      have hlength := hmost 1 rfl
      obtain rfl : ws = [] := List.eq_nil_of_length_eq_zero (by simpa using hlength)
      rw [List.flatten_cons, List.flatten_nil, List.append_nil]
      exact .inr (hall w List.mem_cons_self)

/-! ## Digits -/

/-- The character is a digit, but no ASCII digit. -/
def Foreign (c : Char) : Prop := CharSet.digit.contains c = true ∧ c.isDigit = false

/-- Digits are in the set that the patterns name, so only ASCII digits are left. -/
theorem isDigit_of_not_foreign {c : Char} (hdigit : CharSet.digit.contains c = true)
    (h : ¬Foreign c) : c.isDigit = true := by
  by_contra hc
  exact h ⟨hdigit, Bool.eq_false_of_not_eq_true hc⟩

/-- The digits of other scripts are no ASCII characters. -/
theorem Foreign.not_ascii {c : Char} (h : Foreign c) : ¬Json.Ascii c := by
  intro hascii
  have hranges : ∀ p ∈ CharSet.digit.ranges, p = (0x30, 0x39) ∨ 0x80 ≤ p.1 := by decide
  obtain ⟨p, hmem, hp⟩ := List.any_eq_true.1 h.1
  rw [Bool.and_eq_true, decide_eq_true_eq, decide_eq_true_eq] at hp
  rcases hranges p hmem with rfl | hlow
  · have hdigit : c.isDigit = true := by
      rw [Char.isDigit, Bool.and_eq_true, decide_eq_true_eq, decide_eq_true_eq]
      exact hp
    rw [h.2] at hdigit
    cases hdigit
  · rw [Json.Ascii] at hascii
    omega

namespace Json

variable {w : List Char}

theorem digits_of_spells {least : ℕ} {greedy : Bool}
    (h : (Regex.repeat (.chars .digit) least none greedy).Spells w) (hw : ∀ c ∈ w, ¬Foreign c) :
    (∀ c ∈ w, c.isDigit = true) ∧ least ≤ w.length := by
  obtain ⟨hdigits, hleast, -⟩ := Regex.spells_repeat_chars_iff.1 h
  exact ⟨fun c hc => isDigit_of_not_foreign (hdigits c hc) (hw c hc), hleast⟩

theorem wholeText_of_spells (h : wholeRegex.Spells w) (hw : ∀ c ∈ w, ¬Foreign c) :
    WholeText w := by
  cases h with
  | left h =>
    cases h with
    | chars hx =>
      obtain rfl := eq_of_contains_single hx
      exact .zero
  | right h =>
    cases h with
    | seq hfirst hmore =>
      cases hfirst with
      | @chars _ x hx =>
        have hall : CharSet.every ⟨[(0x31, 0x39)]⟩ (fun c => c.isDigit && c != '0') = true := by
          decide
        have hx' := CharSet.of_every hall hx
        rw [Bool.and_eq_true, bne_iff_ne] at hx'
        obtain ⟨-, hrest⟩ := List.forall_mem_cons.1 hw
        exact .other hx'.1 hx'.2 (digits_of_spells hmore hrest).1

theorem fractionText_of_spells (h : (Regex.repeat fractionRegex 0 (some 1) true).Spells w)
    (hw : ∀ c ∈ w, ¬Foreign c) : FractionText w := by
  rcases Regex.spells_optional h with rfl | hpresent
  · exact .absent
  cases hpresent with
  | seq hpoint hdigits =>
    cases hpoint with
    | chars hx =>
      obtain rfl := eq_of_contains_single hx
      obtain ⟨-, hrest⟩ := List.forall_mem_cons.1 hw
      obtain ⟨hdigits, hleast⟩ := digits_of_spells hdigits hrest
      exact .present ⟨List.length_pos_iff.1 hleast, hdigits⟩

theorem exponentText_of_spells (h : (Regex.repeat exponentRegex 0 (some 1) true).Spells w)
    (hw : ∀ c ∈ w, ¬Foreign c) : ExponentText w := by
  rcases Regex.spells_optional h with rfl | hpresent
  · exact .absent
  cases hpresent with
  | seq hletter hnumber =>
    cases hletter with
    | @chars _ e hx =>
      cases hnumber with
      | @seq _ _ sign digits hsign hdigits =>
        have hletters : CharSet.every ⟨[(0x65, 0x65), (0x45, 0x45)]⟩
            (fun c => c = 'e' || c = 'E') = true := by
          decide
        have he := CharSet.of_every hletters hx
        rw [Bool.or_eq_true, decide_eq_true_eq, decide_eq_true_eq] at he
        have hs : sign = [] ∨ sign = ['+'] ∨ sign = ['-'] := by
          refine (Regex.spells_optional hsign).imp_right fun hsign => ?_
          cases hsign with
          | chars hx =>
            have hsigns : CharSet.every ⟨[(0x2B, 0x2B), (0x2D, 0x2D)]⟩
                (fun c => c = '+' || c = '-') = true := by
              decide
            have hx' := CharSet.of_every hsigns hx
            rw [Bool.or_eq_true, decide_eq_true_eq, decide_eq_true_eq] at hx'
            exact hx'.imp (congrArg ([·])) (congrArg ([·]))
        simp only [List.forall_mem_append] at hw
        obtain ⟨hdigits, hleast⟩ := digits_of_spells hdigits hw.2.2
        exact @ExponentText.present e sign digits he hs ⟨List.length_pos_iff.1 hleast, hdigits⟩

theorem numberText_of_spells (h : numberRegex.Spells w) (hw : ∀ c ∈ w, ¬Foreign c) :
    NumberText w := by
  cases h with
  | @seq _ _ minus _ hminus h =>
    cases h with
    | @seq _ _ whole _ hwhole h =>
      cases h with
      | @seq _ _ fraction exponent hfraction hexponent =>
        have hm : minus = [] ∨ minus = ['-'] := by
          refine (Regex.spells_optional hminus).imp_right fun hminus => ?_
          cases hminus with
          | chars hx => rw [eq_of_contains_single hx]
        simp only [List.forall_mem_append] at hw
        obtain ⟨-, hwhole', hfraction', hexponent'⟩ := hw
        exact .intro hm (wholeText_of_spells hwhole hwhole')
          (fractionText_of_spells hfraction hfraction')
          (exponentText_of_spells hexponent hexponent')

/-- A whole part is a number by itself. -/
theorem WholeText.number (h : WholeText w) : NumberText w := by
  have hnumber := NumberText.intro (.inl rfl) h .absent .absent
  rwa [List.append_nil, List.append_nil] at hnumber

end Json

/-! ## What a number literal comes to -/

/-- What the text of a number literal comes to. -/
inductive Decodes (text : String) : Float → Prop where
  /-- The text is a numeral, and it is read as what it stands for, rounded. -/
  | numeral {q : ℚ} {x : Float} (hq : Json.NumberValue text.toList q)
      (hx : Decimal.parse? text = some x) (hrounds : Decimal.Rounds q x) : Decodes text x
  /-- The text has a digit of another script. No number is read, and zero stands in for it. -/
  | foreign {c : Char} (hmem : c ∈ text.toList) (hc : Foreign c)
      (hnone : Decimal.parse? text = none) : Decodes text 0.0

/-- A text is read as the numeral that it is if it has ASCII digits only. -/
theorem decodes_of_numberText {text : String}
    (h : (∀ c ∈ text.toList, ¬Foreign c) → Json.NumberText text.toList) :
    Decodes text ((Decimal.parse? text).getD 0.0) := by
  by_cases hforeign : ∀ c ∈ text.toList, ¬Foreign c
  · obtain ⟨q, hq⟩ := (h hforeign).exists_value
    obtain ⟨x, hx, hrounds⟩ := hq.parse?
    rw [String.ofList_toList] at hx
    rw [hx]
    exact .numeral hq hx hrounds
  · push Not at hforeign
    obtain ⟨c, hmem, hc⟩ := hforeign
    have hnone : Decimal.parse? text = none := by
      by_contra hsome
      have hascii := Json.ascii_of_parse? (Option.isSome_iff_ne_none.2 hsome)
      exact hc.not_ascii (hascii c hmem)
    rw [hnone]
    exact .foreign hmem hc hnone

/-- Every number literal that the lexer finds in a text, of JSON or of the calculator, is a numeral
and comes to what it stands for, rounded, unless it has digits of other scripts. Then it comes to
zero. -/
theorem decodes_of_mem_tokenize (text : String) :
    (∀ t ∈ (Json.sample.language.vocabulary.tokenize text).1, t.kind = Json.numberLiteral →
      ∀ rest, ∃ x, Json.sample.meaning.rule "value" (.token t :: rest) = .number x ∧
        Decodes t.text x) ∧
    (∀ t ∈ (Calc.sample.language.vocabulary.tokenize text).1, t.kind = Calc.numberLiteral →
      ∀ rest, Decodes t.text (Calc.sample.meaning.rule "atomicExpression" (.token t :: rest))) := by
  rw [Json.language_vocabulary, Calc.language_vocabulary]
  refine ⟨fun t ht hkind rest => ?_, fun t ht hkind rest => ?_⟩
  · have hanchored : Json.vocabulary.anchored? t.kind = some (Json.numberRegex, false) := by
      rw [hkind]
      exact Json.lists_expressions.anchored? rfl
    have hspells := Vocabulary.spells_of_mem_tokenize hanchored ht
    refine ⟨_, ?_, decodes_of_numberText (Json.numberText_of_spells hspells)⟩
    change Json.tokenValue t = _
    rw [Json.tokenValue, hkind]
    rfl
  · have hanchored : Calc.vocabulary.anchored? t.kind = some (Json.wholeRegex, false) := by
      rw [hkind]
      exact Calc.lists_expressions.anchored? rfl
    have hspells := Vocabulary.spells_of_mem_tokenize hanchored ht
    exact decodes_of_numberText fun hw => (Json.wholeText_of_spells hspells hw).number

/-- A fraction with an exponent in an array, and the right operand of a product. -/
theorem decodes_of_mem_tokenize_numerals :
    let fraction : Token := ⟨Json.numberLiteral, "-1.5e3", 1, 7, false⟩
    let factor : Token := ⟨Calc.numberLiteral, "20", 4, 6, false⟩
    (fraction ∈ (Json.sample.language.vocabulary.tokenize "[-1.5e3, 7]").1 ∧
      factor ∈ (Calc.sample.language.vocabulary.tokenize "3 * 20").1) ∧
    (∃ x, Json.sample.meaning.rule "value" [.token fraction] = .number x ∧
      Decodes "-1.5e3" x) ∧
    Decodes "20" (Calc.sample.meaning.rule "atomicExpression" [.token factor]) := by
  intro fraction factor
  have hfraction : fraction ∈ (Json.sample.language.vocabulary.tokenize "[-1.5e3, 7]").1 := by
    decide +kernel
  have hfactor : factor ∈ (Calc.sample.language.vocabulary.tokenize "3 * 20").1 := by
    decide +kernel
  exact ⟨⟨hfraction, hfactor⟩, (decodes_of_mem_tokenize "[-1.5e3, 7]").1 _ hfraction rfl [],
    (decodes_of_mem_tokenize "3 * 20").2 _ hfactor rfl []⟩

/-- A one and an Arabic three are one number to the lexer. The text is parsed without an error, and
the number comes to zero. -/
theorem decodes_to_zero :
    let number : Token := ⟨Json.numberLiteral, "1\u0663", 0, 3, false⟩
    let operand : Token := ⟨Calc.numberLiteral, "1\u0663", 0, 3, false⟩
    (Json.sample.language.vocabulary.tokenize "1\u0663" = ([number], []) ∧
      (Json.sample.runRule "value" "1\u0663").output.isOk = true ∧
      Json.sample.meaning.rule "value" [.token number] = .number 0.0) ∧
    (Calc.sample.language.vocabulary.tokenize "1\u0663" = ([operand], []) ∧
      (Calc.sample.run "1\u0663").output.isOk = true ∧
      Calc.sample.meaning.rule "atomicExpression" [.token operand] = 0.0) ∧
    Decimal.parse? "1\u0663" = none := by
  intro number operand
  have hnone : Decimal.parse? "1\u0663" = none := by
    by_contra hsome
    have hascii := Json.ascii_of_parse? (Option.isSome_iff_ne_none.2 hsome)
    exact absurd (hascii '\u0663' (by decide)) (by decide)
  refine ⟨⟨by decide +kernel, by decide +kernel, ?_⟩, ⟨by decide +kernel, by decide +kernel, ?_⟩,
    hnone⟩
  · change Json.Value.number ((Decimal.parse? "1\u0663").getD 0.0) = _
    rw [hnone]
    rfl
  · change (Decimal.parse? operand.text).getD 0.0 = 0.0
    rw [hnone]
    rfl

end TopDown
