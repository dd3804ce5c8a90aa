import TopDown.Json.Value

/-!
# JSON texts

The grammar of the JSON standard, with what its texts denote. Texts are lists of characters here,
since a text of the grammar is made of the texts of its parts. `Json.Document text v d` says that
the whole text is a JSON value with white space around it, that it denotes `v`, and that its rules
are nested `d` deep.

The standard gives its texts no meaning, so two choices are made. Strings are made of characters,
hence the escapes of the two halves of a surrogate pair have to stand together. Of members with the
same name the last one counts, in the place of the first (`Json.lastWins`).
-/

namespace TopDown.Json

/-! ## White space and marks -/

/-- White space, which may be none. -/
def Blank (w : List Char) : Prop := ∀ c ∈ w, c ∈ [' ', '\t', '\n', '\r']

instance (w : List Char) : Decidable (Blank w) := List.decidableBAll _ w

/-- The character with white space around it. -/
def Mark (c : Char) (w : List Char) : Prop := ∃ a b, Blank a ∧ Blank b ∧ w = a ++ c :: b

/-- The texts with a separator between every two of them. -/
inductive Joined (separator : List Char → Prop) : List (List Char) → List Char → Prop where
  | none : Joined separator [] []
  | one (w : List Char) : Joined separator [w] w
  | more {w s w' : List Char} {ws : List (List Char)} {text : List Char} (hs : separator s)
      (h : Joined separator (w' :: ws) text) : Joined separator (w :: w' :: ws) (w ++ s ++ text)

/-! ## Numbers -/

/-- One digit or more. -/
def Digits (w : List Char) : Prop := w ≠ [] ∧ ∀ c ∈ w, c.isDigit = true

instance (w : List Char) : Decidable (Digits w) :=
  have : Decidable (∀ c ∈ w, c.isDigit = true) := List.decidableBAll _ w
  instDecidableAnd

/-- The whole part of a number: no digit comes after a leading zero. -/
inductive WholeText : List Char → Prop where
  | zero : WholeText ['0']
  | other {c : Char} {w : List Char} (hc : c.isDigit = true) (hne : c ≠ '0')
      (hw : ∀ x ∈ w, x.isDigit = true) : WholeText (c :: w)

/-- The fraction of a number, or none. -/
inductive FractionText : List Char → Prop where
  | absent : FractionText []
  | present {w : List Char} (hw : Digits w) : FractionText ('.' :: w)

/-- The exponent of a number, or none. -/
inductive ExponentText : List Char → Prop where
  | absent : ExponentText []
  | present {e : Char} {sign w : List Char} (he : e = 'e' ∨ e = 'E')
      (hs : sign = [] ∨ sign = ['+'] ∨ sign = ['-']) (hw : Digits w) :
      ExponentText (e :: (sign ++ w))

/-- The text of a number. -/
inductive NumberText : List Char → Prop where
  | intro {minus whole fraction exponent : List Char} (hm : minus = [] ∨ minus = ['-'])
      (hw : WholeText whole) (hf : FractionText fraction) (he : ExponentText exponent) :
      NumberText (minus ++ (whole ++ (fraction ++ exponent)))

/-! ## The value of a number -/

theorem mem_of_isDigit {c : Char} (h : c.isDigit = true) : c ∈ "0123456789".toList := by
  have hbounds : 48 ≤ c.toNat ∧ c.toNat ≤ 57 := by
    simpa [Char.isDigit, UInt32.le_iff_toNat_le] using h
  have hmem : ∀ n ∈ List.range' 48 10, Char.ofNat n ∈ "0123456789".toList := by decide
  have hc := hmem c.toNat (List.mem_range'_1.2 (by omega))
  rwa [Char.ofNat_toNat] at hc

theorem takeWhile_append_of_all {p : Char → Bool} {w rest : List Char}
    (hw : ∀ c ∈ w, p c = true) (hrest : ∀ c, rest.head? = some c → p c = false) :
    (w ++ rest).takeWhile p = w ∧ (w ++ rest).dropWhile p = rest := by
  have hnone : rest.takeWhile p = [] ∧ rest.dropWhile p = rest := by
    cases rest with
    | nil => exact ⟨rfl, rfl⟩
    | cons c rest => simp [hrest c rfl]
  constructor
  · rw [List.takeWhile_append_of_pos hw, hnone.1, List.append_nil]
  · rw [List.dropWhile_append_of_pos hw, hnone.2]

theorem WholeText.digits {w : List Char} (h : WholeText w) : Digits w := by
  cases h with
  | zero => exact ⟨List.cons_ne_nil _ _, List.forall_mem_singleton.2 rfl⟩
  | other hc _ hw => exact ⟨List.cons_ne_nil _ _, List.forall_mem_cons.2 ⟨hc, hw⟩⟩

/-- What is read from digits with each of the signs. -/
theorem Digits.readExponent? {w : List Char} (h : Digits w) :
    Decimal.readExponent? w = some (Decimal.digitsValue 0 w : Int) ∧
      Decimal.readExponent? ('+' :: w) = some (Decimal.digitsValue 0 w : Int) ∧
      Decimal.readExponent? ('-' :: w) = some (-(Decimal.digitsValue 0 w : Int)) := by
  obtain ⟨hne, hdigits⟩ := h
  have hall : w.all Char.isDigit = true := List.all_eq_true.2 hdigits
  obtain ⟨c, w, rfl⟩ := List.exists_cons_of_ne_nil hne
  have hc := hdigits c List.mem_cons_self
  have hplus : c ≠ '+' := by rintro rfl; exact absurd hc (by decide)
  have hminus : c ≠ '-' := by rintro rfl; exact absurd hc (by decide)
  refine ⟨?_, ?_, ?_⟩
  · simp [Decimal.readExponent?, hplus, hminus, hall]
  · simp [Decimal.readExponent?, hall]
  · simp [Decimal.readExponent?, hall]

/-- The letter of an exponent is no digit and no point. -/
theorem ExponentText.head {w : List Char} {c : Char} (h : ExponentText w)
    (hc : w.head? = some c) : c = 'e' ∨ c = 'E' := by
  cases h with
  | absent => cases hc
  | present he => exact Option.some.inj hc ▸ he

theorem ExponentText.read {w : List Char} (h : ExponentText w) :
    (match w with
      | [] => some 0
      | c :: tail =>
        if c = 'e' || c = 'E' then Decimal.readExponent? tail else none).isSome = true := by
  cases h with
  | absent => rfl
  | present he hs hw =>
    obtain ⟨hread, hplus, hminus⟩ := hw.readExponent?
    dsimp only
    rw [if_pos (by simpa using he)]
    rcases hs with rfl | rfl | rfl
    · exact Option.isSome_of_eq_some hread
    · exact Option.isSome_of_eq_some hplus
    · exact Option.isSome_of_eq_some hminus

/-- Digits do not spell a word for a number. -/
theorem Digits.lower_ne {w : List Char} (h : Digits w) (rest : List Char) (word : String)
    (hword : word.toList.head?.any Char.isDigit = false) :
    String.ofList ((w ++ rest).map Char.toLower) ≠ word := by
  rintro rfl
  obtain ⟨c, w, rfl⟩ := List.exists_cons_of_ne_nil h.1
  have hlower : "0123456789".toList.all (·.toLower.isDigit) = true := by decide
  have hc : c.toLower.isDigit = true :=
    List.all_eq_true.1 hlower c (mem_of_isDigit (h.2 c List.mem_cons_self))
  rw [String.toList_ofList, List.cons_append, List.map_cons, List.head?_cons, Option.any_some,
    hc] at hword
  cases hword

/-- What is read from the parts of a number without a sign. -/
theorem readUnsigned?_eq {whole fraction exponent : List Char} {e : Int}
    (hread : (match exponent with
      | [] => some 0
      | c :: tail => if c = 'e' || c = 'E' then Decimal.readExponent? tail else none) = some e)
    (hw : WholeText whole) (hf : FractionText fraction) (he : ExponentText exponent) :
    Decimal.readUnsigned? (whole ++ (fraction ++ exponent)) =
      some (Decimal.nearest (Decimal.digitsValue 0 (whole ++ fraction.tail))
        (e - fraction.tail.length)) := by
  have hdigits := hw.digits
  -- a number does not begin like a word
  have hword := hdigits.lower_ne (fraction ++ exponent)
  have hinf := decide_eq_false (hword "inf" (by decide))
  have hinfinity := decide_eq_false (hword "infinity" (by decide))
  have hnan := hword "nan" (by decide)
  have hwhole : ∀ c, (fraction ++ exponent).head? = some c → c.isDigit = false := by
    intro c hc
    cases hf with
    | present => exact Option.some.inj hc ▸ rfl
    | absent => rcases he.head hc with rfl | rfl <;> rfl
  obtain ⟨htake, hdrop⟩ := takeWhile_append_of_all hdigits.2 hwhole
  have hempty : whole.isEmpty = false := List.isEmpty_eq_false_iff.2 hdigits.1
  simp only [Decimal.readUnsigned?, hinf, hinfinity, hnan, htake, hdrop, hempty, Bool.or_false,
    Bool.false_and, Bool.false_eq_true, if_false]
  cases hf with
  | present hw' =>
    have hexponent : ∀ c, exponent.head? = some c → c.isDigit = false := by
      intro c hc
      rcases he.head hc with rfl | rfl <;> rfl
    obtain ⟨htake', hdrop'⟩ := takeWhile_append_of_all hw'.2 hexponent
    simp only [List.cons_append, htake', hdrop']
    exact Option.map_eq_some_iff.2 ⟨e, hread, rfl⟩
  | absent =>
    rw [List.nil_append]
    split
    · -- no exponent begins with a point
      rcases he.head rfl with h | h <;> cases h
    · exact Option.map_eq_some_iff.2 ⟨e, hread, rfl⟩

/-- A number without a sign is read as such. -/
theorem WholeText.parse?_append {whole : List Char} (h : WholeText whole) (rest : List Char) :
    Decimal.parse? (String.ofList (whole ++ rest)) = Decimal.readUnsigned? (whole ++ rest) := by
  obtain ⟨c, whole, rfl⟩ := List.exists_cons_of_ne_nil h.digits.1
  have hc := h.digits.2 c List.mem_cons_self
  rw [Decimal.parse?, String.toList_ofList]
  split
  · rename_i heq
    cases heq
    cases hc
  · rename_i heq
    cases heq
    cases hc
  · rfl

/-- The text of every number is read. -/
theorem NumberText.parse?_isSome {w : List Char} (h : NumberText w) :
    (Decimal.parse? (String.ofList w)).isSome = true := by
  obtain ⟨hm, hw, hf, he⟩ := h
  obtain ⟨e, hread⟩ := Option.isSome_iff_exists.1 he.read
  have hsome := Option.isSome_of_eq_some (readUnsigned?_eq hread hw hf he)
  rcases hm with rfl | rfl
  · rw [List.nil_append, hw.parse?_append]
    exact hsome
  · rw [Decimal.parse?, String.toList_ofList]
    exact Option.isSome_map.trans hsome

/-- The number that a text denotes. -/
def NumberText.value {w : List Char} (h : NumberText w) : Float :=
  (Decimal.parse? (String.ofList w)).get h.parse?_isSome

theorem NumberText.parse? {w : List Char} (h : NumberText w) :
    Decimal.parse? (String.ofList w) = some h.value := (Option.some_get _).symm

/-! ## Strings -/

/-- A hexadecimal digit, in either case, and its value. -/
def HexDigit (c : Char) (n : Nat) : Prop :=
  n < 16 ∧ (c = Nat.digitChar n ∨ c = (Nat.digitChar n).toUpper)

instance (c : Char) (n : Nat) : Decidable (HexDigit c n) :=
  inferInstanceAs (Decidable (n < 16 ∧ (c = Nat.digitChar n ∨ c = (Nat.digitChar n).toUpper)))

/-- Four hexadecimal digits and the code unit they stand for. -/
def UnitText (w : List Char) (n : Nat) : Prop :=
  ∃ a b c d i j k l, w = [a, b, c, d] ∧ HexDigit a i ∧ HexDigit b j ∧ HexDigit c k ∧ HexDigit d l ∧
    n = 16 * (16 * (16 * i + j) + k) + l

theorem UnitText.length {w : List Char} {n : Nat} (h : UnitText w n) : w.length = 4 := by
  obtain ⟨a, b, c, d, i, j, k, l, rfl, -⟩ := h
  rfl

/-- The letters that stand for a character after a backslash. -/
def shortEscapes : List (Char × Char) := [
  ('"', '"'), ('\\', '\\'), ('/', '/'), ('b', '\x08'), ('f', '\x0C'), ('n', '\n'), ('r', '\r'),
  ('t', '\t')]

/-- One character of a string, as it stands or escaped. -/
inductive CharText : List Char → Char → Prop where
  | plain {c : Char} (hc : 0x20 ≤ c.toNat) (hquote : c ≠ '"') (hslash : c ≠ '\\') : CharText [c] c
  | short {x c : Char} (h : (x, c) ∈ shortEscapes) : CharText ['\\', x] c
  /-- A code unit that is no half of a surrogate pair. -/
  | unit {w : List Char} {n : Nat} (h : UnitText w n) (hn : n < 0xD800 ∨ 0xDFFF < n) :
      CharText ('\\' :: 'u' :: w) (Char.ofNat n)
  | pair {w w' : List Char} {high low : Nat} (h : UnitText w high)
      (hhigh : 0xD800 ≤ high ∧ high ≤ 0xDBFF) (h' : UnitText w' low)
      (hlow : 0xDC00 ≤ low ∧ low ≤ 0xDFFF) :
      CharText ('\\' :: 'u' :: (w ++ '\\' :: 'u' :: w'))
        (Char.ofNat (0x10000 + (high - 0xD800) * 0x400 + (low - 0xDC00)))

/-- The characters of a string. -/
inductive CharsText : List Char → List Char → Prop where
  | nil : CharsText [] []
  | cons {w w' : List Char} {c : Char} {cs : List Char} (h : CharText w c)
      (rest : CharsText w' cs) : CharsText (w ++ w') (c :: cs)

/-- The text of a string. -/
def StringText (w : List Char) (s : String) : Prop :=
  ∃ body, CharsText body s.toList ∧ w = '"' :: (body ++ ['"'])

/-! ## Values -/

/-- The members with one of each name, in the order of the first occurrences and with the values of
the last. -/
def lastWins (members : List (String × Value)) : List (String × Value) :=
  (members.map Prod.fst).eraseDups.map fun key =>
    (key, (members.reverse.lookup key).getD .null)

/-- A value in an array: its text, what it denotes and how deep its rules are nested. -/
structure Item where
  /-- The text of the value. -/
  text : List Char
  /-- What it denotes. -/
  value : Value
  /-- How deep its rules are nested. -/
  depth : Nat

/-- A member of an object. -/
structure Member where
  /-- The text of the name. -/
  nameText : List Char
  /-- The name. -/
  name : String
  /-- The colon with white space around it. -/
  colon : List Char
  /-- The value. -/
  item : Item

/-- The text of the member. -/
def Member.text (m : Member) : List Char := m.nameText ++ (m.colon ++ m.item.text)

/-- The deepest of the depths, none of which may be there. -/
def deepest (depths : List Nat) : Nat := depths.foldr max 0

/-- The text of a value, what it denotes and how deep its rules are nested. -/
inductive ValueText : List Char → Value → Nat → Prop where
  | null : ValueText "null".toList .null 1
  | true : ValueText "true".toList (.bool true) 1
  | false : ValueText "false".toList (.bool false) 1
  | number {w : List Char} (h : NumberText w) : ValueText w (.number h.value) 1
  | string {w : List Char} {s : String} (h : StringText w s) : ValueText w (.string s) 1
  | array {first last w : List Char} {items : List Item} (hf : Mark '[' first) (hl : Mark ']' last)
      (hi : ∀ i ∈ items, ValueText i.text i.value i.depth)
      (hj : Joined (Mark ',') (items.map (·.text)) w) :
      ValueText (first ++ w ++ last) (.array (items.map (·.value)))
        (2 + deepest (items.map (·.depth)))
  /-- A member is a rule of its own. -/
  | object {first last w : List Char} {members : List Member} (hf : Mark '\x7b' first)
      (hl : Mark '\x7d' last) (hn : ∀ m ∈ members, StringText m.nameText m.name)
      (hc : ∀ m ∈ members, Mark ':' m.colon)
      (hi : ∀ m ∈ members, ValueText m.item.text m.item.value m.item.depth)
      (hj : Joined (Mark ',') (members.map (·.text)) w) :
      ValueText (first ++ w ++ last)
        (.object (lastWins (members.map fun m => (m.name, m.item.value))))
        (2 + deepest (members.map (·.item.depth + 1)))

/-- A whole text. -/
def Document (text : String) (v : Value) (d : Nat) : Prop :=
  ∃ a w b, Blank a ∧ ValueText w v d ∧ Blank b ∧ text.toList = a ++ (w ++ b)

end TopDown.Json
