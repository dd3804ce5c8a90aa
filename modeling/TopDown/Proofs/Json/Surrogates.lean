import TopDown.Proofs.Json.Decoding
import TopDown.Proofs.Json.Lexing
import TopDown.Proofs.Spacing
import Mathlib.Data.List.Chain

/-!
# Surrogates in string literals

A literal that the vocabulary accepts is made of pieces: characters that stand for themselves, short
escapes and escapes of code units (`Json.accepts_stringLiteral_iff`). What the pieces mean is the
UTF-16 decoding of the units, with the replacement character for every half without its other half.
That is what decoding gives as long as no first half stands before the escape of a unit that is no
second half. There the other escape is swallowed: `Json.unescape_eq_meaning_iff`.
-/

namespace TopDown

/-- The match of the class at the beginning of the text is all of it. -/
def Vocabulary.Accepts (v : Vocabulary) (id : TokenId) (w : List Char) : Prop :=
  ((v.class? id).bind fun c => (lexeme? w c id).map (·.length)) = some w.length

theorem Vocabulary.spells_of_accepts {v : Vocabulary} {id : TokenId} {r : Regex} {skip : Bool}
    {w : List Char} (hc : v.anchored? id = some (r, skip)) (h : v.Accepts id w) : r.Spells w := by
  obtain ⟨c, hclass, hp, -⟩ := class?_of_anchored? hc
  rw [Accepts, hclass, Option.bind_some, Option.map_eq_some_iff] at h
  obtain ⟨m, hm, hlength⟩ := h
  have htext : (String.ofList w ++ String.ofList []).toList = w := by
    rw [← String.ofList_append, List.append_nil, String.toList_ofList]
  have hmatch : c.Matches (.ofList w) (.ofList []) := by
    refine (lexeme?_append id).2 ⟨m, ?_, ?_⟩
    · rwa [htext]
    · rwa [String.length_ofList]
  exact TokenClass.Anchored.spells hp hmatch

theorem Vocabulary.accepts_of_takes {v : Vocabulary} {id : TokenId} {r : Regex} {skip : Bool}
    {w : List Char} (hc : v.anchored? id = some (r, skip)) (hne : w ≠ []) (h : r.Takes w []) :
    v.Accepts id w := by
  obtain ⟨c, hclass, hp, -⟩ := class?_of_anchored? hc
  have hstop : (Regex.seq (.assertion .textStart) r).matchHere? (.ofList (w ++ [])) =
      some ⟨w.reverse ++ [], []⟩ := h [] some _ rfl
  rw [List.append_nil, List.append_nil] at hstop
  have hlength : (⟨w.reverse, []⟩ : Cursor Char).position = w.length := List.length_reverse
  have hpos : 0 < (⟨w.reverse, []⟩ : Cursor Char).position :=
    hlength ▸ List.length_pos_iff.2 hne
  rw [Accepts, hclass, Option.bind_some, lexeme?, hp, Option.bind_some, hstop]
  dsimp only
  rw [dif_pos hpos]
  exact congrArg some hlength

namespace Json

/-! ## Code units -/

/-- The unit is the first half of a surrogate pair. -/
def IsHigh (n : Nat) : Prop := 0xD800 ≤ n ∧ n ≤ 0xDBFF

/-- The unit is the second half of a surrogate pair. -/
def IsLow (n : Nat) : Prop := 0xDC00 ≤ n ∧ n ≤ 0xDFFF

instance (n : Nat) : Decidable (IsHigh n) := instDecidableAnd

instance (n : Nat) : Decidable (IsLow n) := instDecidableAnd

/-- The character of a surrogate pair. -/
def pairChar (high low : Nat) : Char :=
  Char.ofNat (0x10000 + (high - 0xD800) * 0x400 + (low - 0xDC00))

/-- The character of a unit by itself. -/
def unitChar (n : Nat) : Char := if IsHigh n ∨ IsLow n then replacement else Char.ofNat n

/-- The UTF-16 decoding of the units, with the replacement character for every half without its
other half. -/
def utf16 : List Nat → List Char
  | [] => []
  | [n] => [unitChar n]
  | n :: m :: rest =>
    if IsHigh n ∧ IsLow m then pairChar n m :: utf16 rest else unitChar n :: utf16 (m :: rest)

/-! ## Pieces -/

/-- What one piece of a literal stands for. -/
inductive Piece where
  /-- A character. -/
  | char (c : Char)
  /-- A code unit. -/
  | unit (n : Nat)

/-- The letters of the short escapes with what they stand for. There is one more than the standard
has. -/
def literalEscapes : List (Char × Char) := ('v', '\x0B') :: shortEscapes

/-- The text of a piece. -/
inductive PieceText : List Char → Piece → Prop where
  | plain {c : Char} (hquote : c ≠ '"') (hslash : c ≠ '\\') : PieceText [c] (.char c)
  | short {x c : Char} (h : (x, c) ∈ literalEscapes) : PieceText ['\\', x] (.char c)
  | unit {w : List Char} {n : Nat} (h : UnitText w n) : PieceText ('\\' :: 'u' :: w) (.unit n)

/-- The text of pieces one after the other. -/
inductive PiecesText : List Char → List Piece → Prop where
  | nil : PiecesText [] []
  | cons {w w' : List Char} {p : Piece} {ps : List Piece} (h : PieceText w p)
      (rest : PiecesText w' ps) : PiecesText (w ++ w') (p :: ps)

/-- What the pieces mean: units that stand together are decoded together, and everything else stands
for itself. -/
def meaning : List Piece → List Char
  | [] => []
  | .char c :: rest => c :: meaning rest
  | .unit n :: .unit m :: rest =>
    if IsHigh n ∧ IsLow m then pairChar n m :: meaning rest
    else unitChar n :: meaning (.unit m :: rest)
  | .unit n :: rest => unitChar n :: meaning rest

/-- What decoding makes of the pieces: a first half takes the unit after it along, whether that is
the second half or not. -/
def reading : List Piece → List Char
  | [] => []
  | .char c :: rest => c :: reading rest
  | .unit n :: .unit m :: rest =>
    if IsHigh n then (if IsLow m then pairChar n m else replacement) :: reading rest
    else unitChar n :: reading (.unit m :: rest)
  | .unit n :: rest => unitChar n :: reading rest

theorem meaning_units (units : List Nat) : meaning (units.map .unit) = utf16 units := by
  fun_induction utf16 units with
  | case1 => rfl
  | case2 n => rfl
  | case3 n m rest h ih => rw [List.map_cons, List.map_cons, meaning, if_pos h, ih]
  | case4 n m rest h ih =>
    rw [List.map_cons, List.map_cons, meaning, if_neg h, ← List.map_cons, ih]

/-! ## Every accepted literal is made of pieces -/

theorem exists_hexDigit {c : Char} (h : hexDigits.contains c = true) : ∃ n, HexDigit c n := by
  have hall : hexDigits.every (fun c => (List.range 16).any fun n => HexDigit c n) = true := by
    decide
  obtain ⟨n, -, hn⟩ := List.any_eq_true.1 (CharSet.of_every hall h)
  exact ⟨n, of_decide_eq_true hn⟩

theorem exists_unitText {w : List Char} (hmem : ∀ c ∈ w, hexDigits.contains c = true)
    (hlength : w.length = 4) : ∃ n, UnitText w n := by
  match w, hlength with
  | [a, b, c, d], _ =>
    obtain ⟨i, hi⟩ := exists_hexDigit (hmem a (by simp))
    obtain ⟨j, hj⟩ := exists_hexDigit (hmem b (by simp))
    obtain ⟨k, hk⟩ := exists_hexDigit (hmem c (by simp))
    obtain ⟨l, hl⟩ := exists_hexDigit (hmem d (by simp))
    exact ⟨_, a, b, c, d, i, j, k, l, rfl, hi, hj, hk, hl, rfl⟩

theorem exists_pieceText {w : List Char} (h : stringPiece.Spells w) : ∃ p, PieceText w p := by
  obtain ⟨c, rfl, hc⟩ | ⟨escape, rfl, hescape⟩ := spells_stringPiece_iff.1 h
  · have hquote : c ≠ '"' := by
      rintro rfl
      exact absurd hc (by decide)
    have hslash : c ≠ '\\' := by
      rintro rfl
      exact absurd hc (by decide)
    exact ⟨_, .plain hquote hslash⟩
  · obtain ⟨x, rfl, hx⟩ | ⟨digits, rfl, hmem, hlength⟩ := spells_escapeRegex_iff.1 hescape
    · have hall : escapeLetters.every (fun x => literalEscapes.any (·.1 == x)) = true := by
        decide
      obtain ⟨⟨y, c⟩, hmem, hy⟩ := List.any_eq_true.1 (CharSet.of_every hall hx)
      obtain rfl := eq_of_beq hy
      exact ⟨_, .short hmem⟩
    · obtain ⟨n, hn⟩ := exists_unitText hmem hlength
      exact ⟨_, .unit hn⟩

theorem exists_piecesText {ws : List (List Char)} (h : ∀ w ∈ ws, stringPiece.Spells w) :
    ∃ ps, PiecesText ws.flatten ps := by
  induction ws with
  | nil => exact ⟨[], .nil⟩
  | cons w ws ih =>
    obtain ⟨hw, h⟩ := List.forall_mem_cons.1 h
    obtain ⟨p, hp⟩ := exists_pieceText hw
    obtain ⟨ps, hps⟩ := ih h
    exact ⟨p :: ps, .cons hp hps⟩

theorem PieceText.spells {w : List Char} {p : Piece} (h : PieceText w p) :
    stringPiece.Spells w := by
  cases h with
  | plain hquote hslash => exact .left (.chars (contains_plainChars hquote hslash))
  | @short x c h =>
    have hletters : ∀ e ∈ literalEscapes, escapeLetters.contains e.1 = true := by decide
    exact spells_escape (.left (.chars (hletters _ h)))
  | unit h => exact h.spells

theorem PiecesText.exists_spells {w : List Char} {ps : List Piece} (h : PiecesText w ps) :
    ∃ ws : List (List Char), (∀ w ∈ ws, stringPiece.Spells w) ∧ w = ws.flatten := by
  induction h with
  | nil => exact ⟨[], List.forall_mem_nil _, rfl⟩
  | cons h _ ih =>
    obtain ⟨ws, hws, rfl⟩ := ih
    exact ⟨_ :: ws, List.forall_mem_cons.2 ⟨h.spells, hws⟩, rfl⟩

/-- What a string is, piece by piece. -/
theorem accepts_stringLiteral_iff {w : List Char} : vocabulary.Accepts stringLiteral w ↔
    ∃ body ps, w = '"' :: (body ++ ['"']) ∧ PiecesText body ps := by
  constructor
  · intro h
    have hspells := Vocabulary.spells_of_accepts (lists_expressions.anchored? rfl) h
    obtain ⟨ws, hall, rfl⟩ := spells_stringRegex_iff.1 hspells
    obtain ⟨ps, hps⟩ := exists_piecesText hall
    exact ⟨ws.flatten, ps, rfl, hps⟩
  · rintro ⟨body, ps, rfl, hps⟩
    obtain ⟨ws, hall, rfl⟩ := hps.exists_spells
    have hspells := spells_stringRegex_iff.2 ⟨ws, hall, rfl⟩
    exact Vocabulary.accepts_of_takes (lists_expressions.anchored? rfl) (List.cons_ne_nil _ _)
      (takes_of_spells_string hspells [])

/-! ## What decoding gives -/

theorem scalar_eq_unitChar {n : Nat} (h : n < 0x10000) : scalar n = unitChar n := by
  rw [unitChar]
  by_cases hn : IsHigh n ∨ IsLow n
  · have hinvalid : ¬n.isValidChar := by
      rw [IsHigh, IsLow] at hn
      rintro (hlt | ⟨hgt, -⟩) <;> omega
    rw [if_pos hn, scalar, dif_neg hinvalid]
  · have hvalid : n.isValidChar := by
      rw [IsHigh, IsLow] at hn
      rw [Nat.isValidChar]
      omega
    rw [if_neg hn, scalar_eq hvalid]

/-- No unit escape is at the beginning of the text of other pieces. -/
theorem PiecesText.ne_unit {w : List Char} {ps : List Piece} (h : PiecesText w ps)
    (hps : ∀ n rest, ps ≠ .unit n :: rest) (w' : List Char) : w ≠ '\\' :: 'u' :: w' := by
  cases h with
  | nil => exact (List.cons_ne_nil _ _).symm
  | cons h rest =>
    cases h with
    | plain _ hslash => exact fun heq => hslash (List.cons.inj heq).1
    | short h =>
      have hletter : ∀ e ∈ literalEscapes, e.1 ≠ 'u' := by decide
      exact fun heq => hletter _ h (List.cons.inj (List.cons.inj heq).2).1
    | unit => exact absurd rfl (hps _ _)

theorem decode_unit {w : List Char} {n : Nat} (h : UnitText w n) (hn : ¬IsHigh n)
    (rest : List Char) : decode ('\\' :: 'u' :: (w ++ rest)) = unitChar n :: decode rest := by
  have hread : readScalar (w ++ rest) = (unitChar n, rest) := by
    rw [IsHigh] at hn
    rw [readScalar, h.readUnit]
    dsimp only
    rw [if_neg hn, scalar_eq_unitChar h.lt]
  rw [decode, hread]

theorem decode_high {w : List Char} {n : Nat} (h : UnitText w n) (hn : IsHigh n)
    {rest : List Char} (hrest : ∀ w', rest ≠ '\\' :: 'u' :: w') :
    decode ('\\' :: 'u' :: (w ++ rest)) = unitChar n :: decode rest := by
  have hread : readScalar (w ++ rest) = (replacement, rest) := by
    rw [IsHigh] at hn
    rw [readScalar, h.readUnit]
    dsimp only
    rw [if_pos hn]
    split
    · exact absurd rfl (hrest _)
    · rfl
  rw [decode, hread, unitChar, if_pos (.inl hn)]

/-- A first half takes the escape of a unit after it along. -/
theorem decode_high_unit {w w' : List Char} {n m : Nat} (h : UnitText w n) (hn : IsHigh n)
    (h' : UnitText w' m) (rest : List Char) :
    decode ('\\' :: 'u' :: (w ++ '\\' :: 'u' :: (w' ++ rest))) =
      (if IsLow m then pairChar n m else replacement) :: decode rest := by
  by_cases hm : IsLow m
  · rw [decode, readScalar_pair h hn h' hm, if_pos hm, pairChar]
  · have hread : readScalar (w ++ '\\' :: 'u' :: (w' ++ rest)) = (replacement, rest) := by
      rw [IsHigh] at hn
      rw [IsLow] at hm
      rw [readScalar, h.readUnit]
      dsimp only
      rw [if_pos hn]
      simp only [h'.readUnit]
      rw [if_neg hm]
    rw [decode, hread, if_neg hm]

/-- Decoding does not pair the units as UTF-16 does. -/
theorem PiecesText.decode {w : List Char} {ps : List Piece} (h : PiecesText w ps) :
    decode w = reading ps := by
  fun_induction reading ps generalizing w with
  | case1 =>
    cases h
    rw [Json.decode]
  | case2 c rest ih =>
    cases h with
    | cons hp hrest =>
      cases hp with
      | plain _ hslash =>
        rw [List.singleton_append, decode_plain hslash, ih hrest]
      | @short x c h =>
        have hletter : ∀ e ∈ literalEscapes, e.1 ≠ 'u' ∧ escaped e.1 = e.2 := by decide
        obtain ⟨hx, hc⟩ := hletter _ h
        rw [List.cons_append, List.singleton_append, decode_short hx, ih hrest]
        exact congrArg (· :: _) hc
  | case3 n m rest hn ih =>
    cases h with
    | cons hp hrest =>
      cases hp with
      | unit hw =>
        cases hrest with
        | cons hp' hrest =>
          cases hp' with
          | unit hw' => exact (decode_high_unit hw hn hw' _).trans (congrArg (_ :: ·) (ih hrest))
  | case4 n m rest hn ih =>
    cases h with
    | cons hp hrest =>
      cases hp with
      | unit hw => exact (decode_unit hw hn _).trans (congrArg (_ :: ·) (ih hrest))
  | case5 n rest hne ih =>
    cases h with
    | cons hp hrest =>
      cases hp with
      | unit hw =>
        refine Eq.trans ?_ (congrArg (unitChar n :: ·) (ih hrest))
        by_cases hn : IsHigh n
        · exact decode_high hw hn (hrest.ne_unit hne)
        · exact decode_unit hw hn _

/-! ## Where decoding and meaning differ -/

/-- The second piece may come after the first: it is no unit that is swallowed as if it were the
second half of a pair. -/
def Fits : Piece → Piece → Prop
  | .unit n, .unit m => IsHigh n → IsLow m
  | .char _, _ | _, .char _ => True

instance : DecidableRel Fits
  | .unit n, .unit m => inferInstanceAs (Decidable (IsHigh n → IsLow m))
  | .char _, _ | .unit _, .char _ => instDecidableTrue

theorem IsLow.not_isHigh {n : Nat} (h : IsLow n) : ¬IsHigh n := by
  rw [IsLow] at h
  rw [IsHigh]
  omega

/-- A unit stands for itself unless it makes up a pair with the next piece. -/
theorem meaning_unit (n : Nat) (ps : List Piece) :
    meaning (.unit n :: ps) = unitChar n :: meaning ps ∨ ∃ m rest, ps = .unit m :: rest ∧
      IsHigh n ∧ IsLow m ∧ meaning (.unit n :: ps) = pairChar n m :: meaning rest := by
  match ps with
  | [] | .char _ :: _ =>
    left
    simp only [meaning]
  | .unit m :: rest =>
    by_cases h : IsHigh n ∧ IsLow m
    · exact .inr ⟨m, rest, rfl, h.1, h.2, by rw [meaning, if_pos h]⟩
    · exact .inl (by rw [meaning, if_neg h])

theorem meaning_unit_of_not_high {n : Nat} (h : ¬IsHigh n) (ps : List Piece) :
    meaning (.unit n :: ps) = unitChar n :: meaning ps := by
  rcases meaning_unit n ps with heq | ⟨m, rest, -, hn, -⟩
  · exact heq
  · exact absurd hn h

theorem reading_unit_of_not_high {n : Nat} (h : ¬IsHigh n) (ps : List Piece) :
    reading (.unit n :: ps) = unitChar n :: reading ps := by
  match ps with
  | [] | .char _ :: _ => simp only [reading]
  | .unit m :: rest => rw [reading, if_neg h]

theorem length_meaning_le (n : Nat) (ps : List Piece) :
    (meaning ps).length ≤ (meaning (.unit n :: ps)).length := by
  rcases meaning_unit n ps with heq | ⟨m, rest, rfl, -, hm, heq⟩
  · rw [heq]
    exact Nat.le_succ _
  · rw [heq, meaning_unit_of_not_high hm.not_isHigh, List.length_cons, List.length_cons]

theorem length_reading_le (ps : List Piece) : (reading ps).length ≤ (meaning ps).length := by
  fun_induction reading ps with
  | case1 => exact Nat.le_refl _
  | case2 c rest ih =>
    rw [meaning]
    exact Nat.succ_le_succ ih
  | case3 n m rest hn ih =>
    rcases meaning_unit n (.unit m :: rest) with heq | ⟨m', rest', hrest, -, -, heq⟩
    · rw [heq]
      exact Nat.succ_le_succ (Nat.le_trans ih (length_meaning_le m rest))
    · cases hrest
      rw [heq]
      exact Nat.succ_le_succ ih
  | case4 n m rest hn ih =>
    rw [meaning_unit_of_not_high hn]
    exact Nat.succ_le_succ ih
  | case5 n rest hne ih =>
    rcases meaning_unit n rest with heq | ⟨m, rest', rfl, -⟩
    · rw [heq]
      exact Nat.succ_le_succ ih
    · exact absurd rfl (hne m rest')

theorem toNat_ofNat {n : Nat} (h : n.isValidChar) : (Char.ofNat n).toNat = n := by
  rw [Char.ofNat, dif_pos h]
  rfl

theorem pairChar_ne_replacement {n m : Nat} (hn : IsHigh n) (hm : IsLow m) :
    pairChar n m ≠ replacement := by
  rw [IsHigh] at hn
  rw [IsLow] at hm
  have hvalid : (0x10000 + (n - 0xD800) * 0x400 + (m - 0xDC00)).isValidChar :=
    .inr ⟨by omega, by omega⟩
  intro h
  have htoNat := congrArg Char.toNat h
  have hreplacement : replacement.toNat = 0xFFFD := by decide
  rw [pairChar, toNat_ofNat hvalid, hreplacement] at htoNat
  omega

/-- A unit is missed where it is swallowed: there is less without it, or a half of a pair. -/
theorem reading_ne_meaning_cons (n : Nat) (ps : List Piece) :
    reading ps ≠ meaning (.unit n :: ps) := by
  intro h
  rcases meaning_unit n ps with heq | ⟨m, rest, rfl, hn, hm, heq⟩
  · have hlength := congrArg List.length h
    have hle := length_reading_le ps
    rw [heq, List.length_cons] at hlength
    omega
  · rw [heq, reading_unit_of_not_high hm.not_isHigh, unitChar, if_pos (.inr hm)] at h
    exact pairChar_ne_replacement hn hm (List.cons.inj h).1.symm

/-- Decoding gives the meaning exactly if every two pieces that stand together fit. -/
theorem reading_eq_meaning_iff (ps : List Piece) : reading ps = meaning ps ↔ ps.IsChain Fits := by
  fun_induction reading ps with
  | case1 => exact iff_of_true rfl .nil
  | case2 c rest ih =>
    rw [meaning, List.cons_eq_cons, List.isChain_cons, ih]
    refine and_congr (iff_of_true rfl fun q _ => trivial) Iff.rfl
  | case3 n m rest hn ih =>
    rw [List.isChain_cons_cons]
    by_cases hm : IsLow m
    · have hfits : Fits (.unit n) (.unit m) := fun _ => hm
      have hrest : ∀ q ∈ rest.head?, Fits (.unit m) q := fun q _ =>
        match q with
        | .unit _ => fun h => absurd h hm.not_isHigh
        | .char _ => trivial
      rw [meaning, if_pos hm, if_pos ⟨hn, hm⟩, List.cons_eq_cons, ih, List.isChain_cons]
      exact ⟨fun h => ⟨hfits, hrest, h.2⟩, fun h => ⟨rfl, h.2.2⟩⟩
    · have hpair : ¬(IsHigh n ∧ IsLow m) := fun h => hm h.2
      rw [meaning, if_neg hpair, List.cons_eq_cons]
      refine iff_of_false (fun h => ?_) fun h => hm (h.1 hn)
      exact reading_ne_meaning_cons m rest h.2
  | case4 n m rest hn ih =>
    rw [meaning_unit_of_not_high hn, List.cons_eq_cons, List.isChain_cons_cons, ih]
    exact and_congr (iff_of_true rfl fun h => absurd h hn) Iff.rfl
  | case5 n rest hne ih =>
    have hrest : ∀ q ∈ rest.head?, Fits (.unit n) q := by
      intro q hq
      cases q with
      | char c => trivial
      | unit m =>
        cases rest with
        | nil => cases hq
        | cons p rest =>
          cases hq
          exact absurd rfl (hne m rest)
    rcases meaning_unit n rest with heq | ⟨m, rest', rfl, -⟩
    · rw [heq, List.cons_eq_cons, ih, List.isChain_cons]
      exact ⟨fun h => ⟨hrest, h.2⟩, fun h => ⟨rfl, h.2⟩⟩
    · exact absurd rfl (hne m rest')

example : reading [.unit 0xD83D, .unit 0xD83D, .unit 0xDE00] = [replacement, replacement] ∧
    meaning [.unit 0xD83D, .unit 0xD83D, .unit 0xDE00] = [replacement, '😀'] := by
  decide +kernel

/-! ## Literals -/

/-- The literal with the text between its quotes. -/
def quoted (body : List Char) : String := String.ofList ('"' :: (body ++ ['"']))

theorem accepts_iff_quoted {text : String} : vocabulary.Accepts stringLiteral text.toList ↔
    ∃ body ps, text = quoted body ∧ PiecesText body ps := by
  simp only [accepts_stringLiteral_iff, quoted, ← String.toList_inj, String.toList_ofList]

theorem unescape_quoted {body : List Char} {ps : List Piece} (h : PiecesText body ps) :
    unescape (quoted body) = String.ofList (reading ps) := by
  rw [unescape, quoted, String.toList_ofList, inner_quoted, h.decode]

/-- The text of units, each written as an escape. -/
def unitEscapes (ws : List (List Char)) : List Char := ws.flatMap fun w => '\\' :: 'u' :: w

theorem piecesText_unitEscapes {ws : List (List Char)} {units : List Nat}
    (h : List.Forall₂ UnitText ws units) : PiecesText (unitEscapes ws) (units.map .unit) := by
  induction h with
  | nil => exact .nil
  | cons h _ ih => exact .cons (.unit h) ih

theorem unitText_high : UnitText "d83d".toList 0xD83D :=
  ⟨_, _, _, _, 13, 8, 3, 13, rfl, by decide, by decide, by decide, by decide, rfl⟩

theorem unitText_low : UnitText "de00".toList 0xDE00 :=
  ⟨_, _, _, _, 13, 14, 0, 0, rfl, by decide, by decide, by decide, by decide, rfl⟩

/-- A literal that the vocabulary accepts is made of pieces, and decoding gives what they mean
exactly if no first half of a surrogate pair stands before the escape of a unit that is no second
half. So units that are written as escapes are decoded as UTF-16 exactly if none of them is a first
half with such a unit after it. -/
theorem unescape_eq_meaning_iff (text : String) :
    (vocabulary.Accepts stringLiteral text.toList ↔
      ∃ body ps, text = quoted body ∧ PiecesText body ps) ∧
    (∀ body ps, text = quoted body → PiecesText body ps →
      unescape text = String.ofList (reading ps) ∧
      (unescape text = String.ofList (meaning ps) ↔ ps.IsChain Fits)) ∧
    ∀ ws units, text = quoted (unitEscapes ws) → List.Forall₂ UnitText ws units →
      (unescape text = String.ofList (utf16 units) ↔
        units.IsChain fun n m => IsHigh n → IsLow m) := by
  have hpieces : ∀ body ps, text = quoted body → PiecesText body ps →
      (unescape text = String.ofList (meaning ps) ↔ ps.IsChain Fits) := by
    rintro body ps rfl h
    rw [unescape_quoted h, String.ofList_inj, reading_eq_meaning_iff]
  refine ⟨accepts_iff_quoted, fun body ps htext h => ⟨?_, hpieces body ps htext h⟩,
    fun ws units htext h => ?_⟩
  · rw [htext, unescape_quoted h]
  · rw [← meaning_units, hpieces _ _ htext (piecesText_unitEscapes h), List.isChain_map]
    rfl

/-- A pair by itself, and one before a first half, an exclamation mark and a letter that the
standard has no escape for. -/
theorem unescape_eq_meaning_iff_mark :
    vocabulary.Accepts stringLiteral (quoted "\\ud83d\\ude00\\ud83d!\\v".toList).toList ∧
    unescape (quoted "\\ud83d\\ude00\\ud83d!\\v".toList) = "😀\uFFFD!\x0B" ∧
    unescape (quoted (unitEscapes ["d83d".toList, "de00".toList])) = "😀" := by
  have hhigh := unitText_high
  have hlow := unitText_low
  have hps : PiecesText "\\ud83d\\ude00\\ud83d!\\v".toList
      [.unit 0xD83D, .unit 0xDE00, .unit 0xD83D, .char '!', .char '\x0B'] :=
    .cons (.unit hhigh) (.cons (.unit hlow) (.cons (.unit hhigh)
      (.cons (.plain (by decide) (by decide)) (.cons (.short (by decide)) .nil))))
  obtain ⟨haccepts, hpieces, -⟩ :=
    unescape_eq_meaning_iff (quoted "\\ud83d\\ude00\\ud83d!\\v".toList)
  obtain ⟨-, -, hunits⟩ :=
    unescape_eq_meaning_iff (quoted (unitEscapes ["d83d".toList, "de00".toList]))
  have hmixed := (hpieces _ _ rfl hps).2.2 (by decide)
  have hpair := (hunits _ _ rfl (.cons hhigh (.cons hlow .nil))).2 (by decide)
  exact ⟨haccepts.2 ⟨_, _, rfl, hps⟩, hmixed.trans (by decide), hpair.trans (by decide)⟩

/-- The escape of a letter after a first half is lost, and so is the first half of a pair. -/
theorem unescape_swallows :
    vocabulary.Accepts stringLiteral (quoted "\\ud800\\u0041".toList).toList ∧
    unescape (quoted "\\ud800\\u0041".toList) = "\uFFFD" ∧
    String.ofList (utf16 [0xD800, 0x41]) = "\uFFFDA" ∧
    vocabulary.Accepts stringLiteral (quoted "\\ud83d\\ud83d\\ude00".toList).toList ∧
    unescape (quoted "\\ud83d\\ud83d\\ude00".toList) = "\uFFFD\uFFFD" ∧
    String.ofList (utf16 [0xD83D, 0xD83D, 0xDE00]) = "\uFFFD😀" := by
  have hfirst : UnitText "d800".toList 0xD800 :=
    ⟨_, _, _, _, 13, 8, 0, 0, rfl, by decide, by decide, by decide, by decide, rfl⟩
  have hletter : UnitText "0041".toList 0x41 :=
    ⟨_, _, _, _, 0, 0, 4, 1, rfl, by decide, by decide, by decide, by decide, rfl⟩
  have hhigh := unitText_high
  have hlow := unitText_low
  have hps := piecesText_unitEscapes (.cons hfirst (.cons hletter .nil))
  have hps' := piecesText_unitEscapes (.cons hhigh (.cons hhigh (.cons hlow .nil)))
  exact ⟨accepts_iff_quoted.2 ⟨_, _, rfl, hps⟩, (unescape_quoted hps).trans (by decide), by decide,
    accepts_iff_quoted.2 ⟨_, _, rfl, hps'⟩, (unescape_quoted hps').trans (by decide), by decide⟩

end Json

end TopDown
