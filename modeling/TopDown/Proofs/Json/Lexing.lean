import TopDown.Json.Language
import TopDown.Proofs.Json.Text
import TopDown.Proofs.Scanning

/-!
# The lexer on the parts of a JSON text

Each literal and each mark of the grammar is cut off as one token, and white space leaves none. Only
a number depends on what comes after it: it must not go on (`Json.Apart`).
-/

namespace TopDown.Json

/-! ## The classes of the vocabulary -/

/-- The characters that stand for themselves in a string. -/
def plainChars : CharSet := ⟨[(0, 0x21), (0x23, 0x5B), (0x5D, 0xD7FF), (0xE000, 0x10FFFF)]⟩

/-- The letters of the short escapes. -/
def escapeLetters : CharSet := .unionAll ("bfnrtv\"\\/".toList.map .single)

/-- The hexadecimal digits. -/
def hexDigits : CharSet := ⟨[(0x30, 0x39), (0x61, 0x66), (0x41, 0x46)]⟩

/-- An escape after its backslash. -/
def escapeRegex : Regex :=
  .alt (.chars escapeLetters)
    (.seq (.chars (.single 'u')) (.repeat (.chars hexDigits) 4 (some 4) true))

/-- One of the characters between the quotes of a string, or an escape. -/
def stringPiece : Regex := .alt (.chars plainChars) (.seq (.chars (.single '\\')) escapeRegex)

/-- A string. -/
def stringRegex : Regex :=
  .seq (.chars (.single '"')) (.seq (.repeat stringPiece 0 none true) (.chars (.single '"')))

/-- An optional minus. -/
def minusRegex : Regex := .repeat (.chars (.single '-')) 0 (some 1) true

/-- The whole part of a number. -/
def wholeRegex : Regex :=
  .alt (.chars (.single '0')) (.seq (.chars ⟨[(0x31, 0x39)]⟩) (.repeat (.chars .digit) 0 none true))

/-- The fraction of a number. -/
def fractionRegex : Regex := .seq (.chars (.single '.')) (.repeat (.chars .digit) 1 none true)

/-- The exponent of a number. -/
def exponentRegex : Regex :=
  .seq (.chars ⟨[(0x65, 0x65), (0x45, 0x45)]⟩)
    (.seq (.repeat (.chars ⟨[(0x2B, 0x2B), (0x2D, 0x2D)]⟩) 0 (some 1) true)
      (.repeat (.chars .digit) 1 none true))

/-- A number. -/
def numberRegex : Regex :=
  .seq minusRegex (.seq wholeRegex
    (.seq (.repeat fractionRegex 0 (some 1) true) (.repeat exponentRegex 0 (some 1) true)))

/-- The characters of the word one after the other. -/
def word : List Char → Regex
  | [] => .empty
  | [c] => .chars (.single c)
  | c :: rest => .seq (.chars (.single c)) (word rest)

/-- What the classes match and whether they are dropped, in the order of the vocabulary. -/
def expressions : List (Option (Regex × Bool)) := [
  some (word "true".toList, false),
  some (word "false".toList, false),
  some (word "null".toList, false),
  some (word ['\x7b'], false),
  some (word ['\x7d'], false),
  some (word ['['], false),
  some (word [']'], false),
  some (word [','], false),
  some (word [':'], false),
  some (stringRegex, false),
  some (numberRegex, false),
  some (.repeat (.chars .blank) 1 none true, true)]

/-- The characters that each class but white space can begin with. -/
def leading : List (TokenId × List Char) := [
  (trueToken, ['t']), (falseToken, ['f']), (nullToken, ['n']), (leftCurly, ['\x7b']),
  (rightCurly, ['\x7d']), (leftSquare, ['[']), (rightSquare, [']']), (comma, [',']), (colon, [':']),
  (stringLiteral, ['"']), (numberLiteral, "-0123456789".toList)]

theorem lists_expressions : vocabulary.Lists expressions := by
  decide +kernel

example : expressions[stringLiteral]? = some (some (stringRegex, false)) := by decide +kernel

theorem reserves_of_leading {id : TokenId} {cs : List Char} {c : Char} (h : (id, cs) ∈ leading)
    (hc : c ∈ cs) : vocabulary.reserves id (some c) = true :=
  lists_expressions.reserves_of_mem (by decide) h hc

theorem reserves_blank : CharSet.blank.every (fun x => vocabulary.reserves 11 (some x)) = true := by
  simp only [lists_expressions.reserves]
  decide

/-! ## White space, marks and words -/

section Cuts

variable {after : List Char → Prop} {w rest : List Char}

theorem Blank.cuts (h : Blank w) : vocabulary.Cuts after w [] := by
  refine Vocabulary.cuts_dropped (lists_expressions.anchored? rfl) reserves_blank fun c hc => ?_
  have hblank : [' ', '\t', '\n', '\r'].all CharSet.blank.contains = true := by decide
  exact List.all_eq_true.1 hblank c (h c hc)

theorem contains_single (c : Char) : (CharSet.single c).contains c = true := by
  simp [CharSet.contains, CharSet.single]

theorem takes_word (w rest : List Char) : (word w).Takes w rest := by
  induction w with
  | nil => exact fun _ _ _ hk => hk
  | cons c w ih =>
    cases w with
    | nil => exact Regex.takes_chars (contains_single c)
    | cons c' w => exact (Regex.takes_chars (contains_single c)).seq ih

/-- A class that is a word. -/
theorem cuts_word {id : TokenId} {c : Char} {w : List Char}
    (hid : expressions[id]? = some (some (word (c :: w), false))) (hlead : (id, [c]) ∈ leading) :
    vocabulary.Cuts after (c :: w) [.spelled id (c :: w)] :=
  Vocabulary.cuts_token (lists_expressions.anchored? hid) (List.cons_ne_nil c w)
    (reserves_of_leading hlead List.mem_cons_self) fun rest _ => takes_word _ rest

/-! ## Strings -/

theorem eq_of_contains_single {c x : Char} (h : (CharSet.single c).contains x = true) : x = c := by
  simp only [CharSet.contains, CharSet.single, List.any_cons, List.any_nil, Bool.or_false,
    Bool.and_eq_true, decide_eq_true_eq] at h
  exact Char.toNat_inj.1 (Nat.le_antisymm h.2 h.1)

/-- What a string is. -/
theorem spells_stringRegex_iff : stringRegex.Spells w ↔ ∃ ps : List (List Char),
    (∀ p ∈ ps, stringPiece.Spells p) ∧ w = '"' :: (ps.flatten ++ ['"']) := by
  constructor
  · intro h
    cases h with
    | seq hopen h =>
      cases h with
      | seq hpieces hclose =>
        cases hopen with
        | chars hx =>
          cases hclose with
          | chars hy =>
            cases hpieces with
            | turns hall =>
              rw [eq_of_contains_single hx, eq_of_contains_single hy]
              exact ⟨_, hall, rfl⟩
  · rintro ⟨ps, hall, rfl⟩
    have hquote : (Regex.chars (.single '"')).Spells ['"'] := .chars (contains_single '"')
    have hpieces : (Regex.repeat stringPiece 0 none true).Spells ps.flatten :=
      .turns hall (Nat.zero_le _) fun n hn => (nomatch hn)
    exact .seq hquote (.seq hpieces hquote)

/-- What an escape is after its backslash. -/
theorem spells_escapeRegex_iff : escapeRegex.Spells w ↔
    (∃ x, w = [x] ∧ escapeLetters.contains x = true) ∨
    ∃ digits, w = 'u' :: digits ∧ (∀ c ∈ digits, hexDigits.contains c = true) ∧
      digits.length = 4 := by
  constructor
  · intro h
    cases h with
    | left h =>
      cases h with
      | chars hx => exact .inl ⟨_, rfl, hx⟩
    | right h =>
      cases h with
      | seq hu hdigits =>
        cases hu with
        | chars hu =>
          obtain rfl := eq_of_contains_single hu
          obtain ⟨hmem, hleast, hmost⟩ := Regex.spells_repeat_chars_iff.1 hdigits
          exact .inr ⟨_, rfl, hmem, Nat.le_antisymm (hmost 4 rfl) hleast⟩
  · rintro (⟨x, rfl, hx⟩ | ⟨digits, rfl, hmem, hlength⟩)
    · exact .left (.chars hx)
    · have hdigits : (Regex.repeat (.chars hexDigits) 4 (some 4) true).Spells digits := by
        refine Regex.spells_repeat_chars_iff.2 ⟨hmem, Nat.le_of_eq hlength.symm, ?_⟩
        rintro n ⟨⟩
        exact Nat.le_of_eq hlength
      exact .right (.seq (.chars (contains_single 'u')) hdigits)

/-- What stands between the quotes of a string. -/
theorem spells_stringPiece_iff : stringPiece.Spells w ↔
    (∃ x, w = [x] ∧ plainChars.contains x = true) ∨
    ∃ escape, w = '\\' :: escape ∧ escapeRegex.Spells escape := by
  constructor
  · intro h
    cases h with
    | left h =>
      cases h with
      | chars hx => exact .inl ⟨_, rfl, hx⟩
    | right h =>
      cases h with
      | seq hslash hescape =>
        cases hslash with
        | chars hx =>
          obtain rfl := eq_of_contains_single hx
          exact .inr ⟨_, rfl, hescape⟩
  · rintro (⟨x, rfl, hx⟩ | ⟨escape, rfl, hescape⟩)
    · exact .left (.chars hx)
    · exact .right (.seq (.chars (contains_single '\\')) hescape)

/-- An escape is taken as a whole. -/
theorem takes_of_spells_escape (h : escapeRegex.Spells w) (rest : List Char) :
    escapeRegex.Takes w rest := by
  obtain ⟨x, rfl, hx⟩ | ⟨digits, rfl, hmem, hlength⟩ := spells_escapeRegex_iff.1 h
  · exact .left (Regex.takes_chars hx)
  · have hcount : (Regex.repeat (.chars hexDigits) digits.length (some digits.length) true).Takes
        digits rest := Regex.takes_count hmem
    rw [hlength] at hcount
    have hletters : (Regex.chars escapeLetters).shuns (some 'u') = true := by decide
    exact .right (Regex.refuses_of_shuns hletters)
      ((Regex.takes_chars (contains_single 'u')).seq hcount)

theorem takes_of_spells_piece (h : stringPiece.Spells w) (rest : List Char) :
    w ≠ [] ∧ stringPiece.Takes w rest := by
  obtain ⟨x, rfl, hx⟩ | ⟨escape, rfl, hescape⟩ := spells_stringPiece_iff.1 h
  · exact ⟨List.cons_ne_nil _ _, .left (Regex.takes_chars hx)⟩
  · have hplain : (Regex.chars plainChars).shuns (some '\\') = true := by decide
    have htakes := (Regex.takes_chars (contains_single '\\')).seq
      (takes_of_spells_escape hescape rest)
    exact ⟨List.cons_ne_nil _ _, .right (Regex.refuses_of_shuns hplain) htakes⟩

theorem turns_of_spells_pieces {ps : List (List Char)} (h : ∀ p ∈ ps, stringPiece.Spells p)
    (hrest : stringPiece.Refuses rest) : Regex.Turns stringPiece rest ps.flatten := by
  induction ps with
  | nil => exact .stop hrest
  | cons p ps ih =>
    obtain ⟨hp, h⟩ := List.forall_mem_cons.1 h
    obtain ⟨hne, htakes⟩ := takes_of_spells_piece hp (ps.flatten ++ rest)
    exact .turn hne htakes (ih h)

/-- A string is taken as a whole, whatever comes after it. -/
theorem takes_of_spells_string (h : stringRegex.Spells w) (rest : List Char) :
    stringRegex.Takes w rest := by
  obtain ⟨ps, hall, rfl⟩ := spells_stringRegex_iff.1 h
  have hopen : (Regex.chars (.single '"')).Takes ['"'] (ps.flatten ++ ['"'] ++ rest) :=
    Regex.takes_chars (contains_single '"')
  have hclose : (Regex.chars (.single '"')).Takes ['"'] rest :=
    Regex.takes_chars (contains_single '"')
  have hshuns : stringPiece.shuns (some '"') = true := by decide
  have hstop : stringPiece.Refuses (['"'] ++ rest) := Regex.refuses_of_shuns hshuns
  exact hopen.seq ((turns_of_spells_pieces hall hstop).star.seq hclose)

theorem HexDigit.contains {c : Char} {n : Nat} (h : HexDigit c n) :
    hexDigits.contains c = true := by
  obtain ⟨hn, h⟩ := h
  have hlower : ∀ n < 16, hexDigits.contains (Nat.digitChar n) = true := by decide
  have hupper : ∀ n < 16, hexDigits.contains (Nat.digitChar n).toUpper = true := by decide
  rcases h with rfl | rfl
  · exact hlower n hn
  · exact hupper n hn

theorem UnitText.contains {n : Nat} (h : UnitText w n) :
    ∀ c ∈ w, hexDigits.contains c = true := by
  obtain ⟨a, b, c, d, i, j, k, l, rfl, ha, hb, hc, hd, -⟩ := h
  intro x hx
  simp only [List.mem_cons, List.not_mem_nil, or_false] at hx
  rcases hx with rfl | rfl | rfl | rfl
  · exact ha.contains
  · exact hb.contains
  · exact hc.contains
  · exact hd.contains

theorem spells_escape (h : escapeRegex.Spells w) : stringPiece.Spells ('\\' :: w) :=
  spells_stringPiece_iff.2 (.inr ⟨w, rfl, h⟩)

theorem UnitText.spells {n : Nat} (h : UnitText w n) : stringPiece.Spells ('\\' :: 'u' :: w) :=
  spells_escape (spells_escapeRegex_iff.2 (.inr ⟨w, rfl, h.contains, h.length⟩))

theorem contains_plainChars {c : Char} (hquote : c ≠ '"') (hslash : c ≠ '\\') :
    plainChars.contains c = true := by
  have hquote' : c.toNat ≠ 0x22 := fun h => hquote (Char.toNat_inj.1 h)
  have hslash' : c.toNat ≠ 0x5C := fun h => hslash (Char.toNat_inj.1 h)
  have hvalid : c.toNat < 0xD800 ∨ 0xDFFF < c.toNat ∧ c.toNat < 0x110000 := c.valid
  simp only [plainChars, CharSet.contains, List.any_cons, List.any_nil, Bool.or_false,
    Bool.or_eq_true, Bool.and_eq_true, decide_eq_true_eq]
  omega

/-- A character is one piece of the string, or two if it is written as a surrogate pair. -/
theorem CharText.pieces {c : Char} (h : CharText w c) : ∃ ps : List (List Char),
    (∀ p ∈ ps, stringPiece.Spells p) ∧ w = ps.flatten := by
  have hone {p : List Char} (hp : stringPiece.Spells p) : ∃ ps : List (List Char),
      (∀ p ∈ ps, stringPiece.Spells p) ∧ p = ps.flatten :=
    ⟨[p], List.forall_mem_singleton.2 hp, (List.append_nil p).symm⟩
  cases h with
  | plain _ hquote hslash => exact hone (.left (.chars (contains_plainChars hquote hslash)))
  | @short x c h =>
    have hletters : ∀ e ∈ shortEscapes, escapeLetters.contains e.1 = true := by decide
    exact hone (spells_escape (.left (.chars (hletters _ h))))
  | unit h => exact hone h.spells
  | @pair w₁ w₂ high low h hhigh h' hlow =>
    refine ⟨['\\' :: 'u' :: w₁, '\\' :: 'u' :: w₂], ?_, ?_⟩
    · exact List.forall_mem_cons.2 ⟨h.spells, List.forall_mem_singleton.2 h'.spells⟩
    · simp only [List.flatten_cons, List.flatten_nil, List.append_nil, List.cons_append]

theorem CharsText.pieces {cs : List Char} (h : CharsText w cs) : ∃ ps : List (List Char),
    (∀ p ∈ ps, stringPiece.Spells p) ∧ w = ps.flatten := by
  induction h with
  | nil => exact ⟨[], List.forall_mem_nil _, rfl⟩
  | cons h _ ih =>
    obtain ⟨ps, hps, rfl⟩ := h.pieces
    obtain ⟨qs, hqs, rfl⟩ := ih
    exact ⟨ps ++ qs, List.forall_mem_append.2 ⟨hps, hqs⟩, List.flatten_append.symm⟩

theorem StringText.cuts {s : String} (h : StringText w s) :
    vocabulary.Cuts after w [.spelled stringLiteral w] := by
  obtain ⟨body, hbody, rfl⟩ := h
  have hlead : (stringLiteral, ['"']) ∈ leading := by decide
  have hbefore : vocabulary.reserves stringLiteral (some '"') = true :=
    reserves_of_leading hlead List.mem_cons_self
  obtain ⟨ps, hps, rfl⟩ := hbody.pieces
  have hspells := spells_stringRegex_iff.2 ⟨ps, hps, rfl⟩
  exact Vocabulary.cuts_token (lists_expressions.anchored? rfl) (List.cons_ne_nil _ _) hbefore
    fun rest _ => takes_of_spells_string hspells rest

/-! ## Numbers -/

/-- What can come after a value. -/
def closing : List Char := [' ', '\t', '\n', '\r', ',', ']', '\x7d']

/-- No number goes on with the text. -/
def Apart (rest : List Char) : Prop := ∀ c, rest.head? = some c → c ∈ closing

theorem apart_nil : Apart [] := fun _ h => nomatch h

/-- What refuses each of the characters refuses the text. -/
theorem shuns_head? {r : Regex} {cs rest : List Char} (hend : r.shuns none = true)
    (hcs : cs.all (fun c => r.shuns (some c)) = true) (hrest : ∀ c, rest.head? = some c → c ∈ cs) :
    r.shuns rest.head? = true := by
  cases hhead : rest.head? with
  | none => exact hend
  | some c => exact List.all_eq_true.1 hcs c (hrest c hhead)

theorem contains_digit {c : Char} (h : c.isDigit = true) : CharSet.digit.contains c = true := by
  have hdigits : "0123456789".toList.all CharSet.digit.contains = true := by decide
  exact List.all_eq_true.1 hdigits c (mem_of_isDigit h)

theorem Digits.head {rest : List Char} (h : Digits w) :
    ∀ c, (w ++ rest).head? = some c → c ∈ "0123456789".toList := by
  obtain ⟨c, w, rfl⟩ := List.exists_cons_of_ne_nil h.1
  rintro _ ⟨⟩
  exact mem_of_isDigit (h.2 c List.mem_cons_self)

/-- Digits are taken as a whole before anything else. -/
theorem Digits.turns {rest : List Char} (h : Digits w)
    (hrest : (Regex.chars .digit).shuns rest.head? = true) :
    (Regex.repeat (.chars .digit) 1 none true).Takes w rest :=
  (Regex.turns_chars (fun c hc => contains_digit (h.2 c hc)) hrest).plus h.1

theorem ExponentText.takes {rest : List Char} (h : ExponentText w) (hrest : Apart rest) :
    (Regex.repeat exponentRegex 0 (some 1) true).Takes w rest := by
  cases h with
  | absent => exact (Regex.refuses_of_shuns (shuns_head? rfl (by decide) hrest)).absent
  | @present e sign digits he hs hw =>
    have hdigit : (Regex.chars .digit).shuns rest.head? = true :=
      shuns_head? rfl (by decide) hrest
    have hsign : (Regex.repeat (.chars ⟨[(0x2B, 0x2B), (0x2D, 0x2D)]⟩) 0 (some 1) true).Takes sign
        (digits ++ rest) := by
      rcases hs with rfl | rfl | rfl
      · exact (Regex.refuses_of_shuns (shuns_head? rfl (by decide) hw.head)).absent
      · exact .present (Regex.takes_chars (by decide))
      · exact .present (Regex.takes_chars (by decide))
    have hletter : (Regex.chars ⟨[(0x65, 0x65), (0x45, 0x45)]⟩).Takes [e]
        (sign ++ digits ++ rest) := by
      refine Regex.takes_chars ?_
      rcases he with rfl | rfl <;> decide
    exact .present (hletter.seq (hsign.seq (hw.turns hdigit)))

/-- What can come after the fraction of a number. -/
theorem ExponentText.before {rest : List Char} (h : ExponentText w) (hrest : Apart rest) :
    ∀ c, (w ++ rest).head? = some c → c ∈ 'e' :: 'E' :: closing := by
  intro c hc
  cases h with
  | absent => exact List.mem_cons_of_mem _ (List.mem_cons_of_mem _ (hrest c hc))
  | present he =>
    cases hc
    rcases he with rfl | rfl
    · exact List.mem_cons_self
    · exact List.mem_cons_of_mem _ List.mem_cons_self

theorem FractionText.takes {rest : List Char} (h : FractionText w)
    (hrest : ∀ c, rest.head? = some c → c ∈ 'e' :: 'E' :: closing) :
    (Regex.repeat fractionRegex 0 (some 1) true).Takes w rest := by
  cases h with
  | absent => exact (Regex.refuses_of_shuns (shuns_head? rfl (by decide) hrest)).absent
  | @present digits hw =>
    have hpoint : (Regex.chars (.single '.')).Takes ['.'] (digits ++ rest) :=
      Regex.takes_chars (by decide)
    exact .present (hpoint.seq (hw.turns (shuns_head? rfl (by decide) hrest)))

/-- What can come after the whole part of a number. -/
theorem FractionText.before {rest : List Char} (h : FractionText w)
    (hrest : ∀ c, rest.head? = some c → c ∈ 'e' :: 'E' :: closing) :
    ∀ c, (w ++ rest).head? = some c → c ∈ '.' :: 'e' :: 'E' :: closing := by
  intro c hc
  cases h with
  | absent => exact List.mem_cons_of_mem _ (hrest c hc)
  | present =>
    cases hc
    exact List.mem_cons_self

theorem WholeText.takes {rest : List Char} (h : WholeText w)
    (hrest : (Regex.chars .digit).shuns rest.head? = true) : wholeRegex.Takes w rest := by
  cases h with
  | zero => exact .left (Regex.takes_chars (by decide))
  | @other c w hc hne hw =>
    have hmem : c ∈ "123456789".toList := (List.mem_cons.1 (mem_of_isDigit hc)).resolve_left hne
    have hzero : (Regex.chars (.single '0')).shuns (some c) = true := by
      have hdigits : "123456789".toList.all
          (fun c => (Regex.chars (.single '0')).shuns (some c)) = true := by decide
      exact List.all_eq_true.1 hdigits c hmem
    have hfirst : (Regex.chars ⟨[(0x31, 0x39)]⟩).Takes [c] (w ++ rest) := by
      have hdigits : "123456789".toList.all (CharSet.contains ⟨[(0x31, 0x39)]⟩) = true := by decide
      exact Regex.takes_chars (List.all_eq_true.1 hdigits c hmem)
    have hrun : ∀ x ∈ w, CharSet.digit.contains x = true := fun x hx => contains_digit (hw x hx)
    have hmore := (Regex.turns_chars hrun hrest).star
    exact .right (Regex.refuses_of_shuns hzero) (hfirst.seq hmore)

theorem NumberText.cuts (h : NumberText w) :
    vocabulary.Cuts Apart w [.spelled numberLiteral w] := by
  obtain ⟨hm, hw, hf, he⟩ := h
  rename_i minus whole fraction exponent
  have hne : minus ++ (whole ++ (fraction ++ exponent)) ≠ [] := by
    intro h
    exact hw.digits.1 (List.append_eq_nil_iff.1 (List.append_eq_nil_iff.1 h).2).1
  refine Vocabulary.cuts_token (lists_expressions.anchored? rfl) hne ?_ fun rest hrest => ?_
  · have hreserves : ∀ c ∈ '-' :: "0123456789".toList,
        vocabulary.reserves numberLiteral (some c) = true :=
      fun c hc => reserves_of_leading (by decide) hc
    obtain ⟨c, whole, rfl⟩ := List.exists_cons_of_ne_nil hw.digits.1
    rcases hm with rfl | rfl
    · exact hreserves c (List.mem_cons_of_mem _ (mem_of_isDigit (hw.digits.2 c List.mem_cons_self)))
    · exact hreserves '-' List.mem_cons_self
  · -- from the end on: each part stops at what the next one can begin with
    have hexponent := he.takes hrest
    have hfraction := hf.takes (he.before hrest)
    have hdigit : (Regex.chars .digit).shuns (fraction ++ (exponent ++ rest)).head? = true :=
      shuns_head? rfl (by decide) (hf.before (he.before hrest))
    have hwhole := hw.takes hdigit
    have hminus : minusRegex.Takes minus (whole ++ (fraction ++ (exponent ++ rest))) := by
      rcases hm with rfl | rfl
      · exact (Regex.refuses_of_shuns (shuns_head? rfl (by decide) hw.digits.head)).absent
      · exact .present (Regex.takes_chars (by decide))
    rw [← List.append_assoc fraction] at hwhole hminus
    rw [← List.append_assoc whole] at hminus
    exact hminus.seq (hwhole.seq (hfraction.seq hexponent))

end Cuts

end TopDown.Json
