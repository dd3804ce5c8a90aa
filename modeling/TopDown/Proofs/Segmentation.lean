import TopDown.Lexer
import TopDown.Proofs.Matching

/-!
# Lexing is an exact segmentation

`Vocabulary.Piece` says what the lexer may cut off at some place of a text: a token or a match that
is dropped, if its class is the first that matches there, or a whole run where no class matches.
`Vocabulary.Lexes` cuts a text into such pieces from left to right. There is one way to do that, and
it is what the lexer does: `Vocabulary.lex_exact`.

A text is always given by what comes before a place and what comes after it, so a place is never
inside a character. Its offset is the number of bytes before it.
-/

namespace TopDown

namespace TokenClass

/-- The pattern finds the text `t`, which is not empty, at the beginning of `t ++ after`. -/
def Matches (c : TokenClass) (t after : String) : Prop :=
  t ≠ "" ∧ ∃ r, c.pattern = some r ∧ r.find? (t ++ after).toList = some (0, t.length)

/-- The text begins with a match of the class. -/
def Begins (c : TokenClass) (text : String) : Prop :=
  ∃ t after, text = t ++ after ∧ c.Matches t after

end TokenClass

namespace Vocabulary

/-- The text does not begin with a match of any class. -/
def Barren (v : Vocabulary) (text : String) : Prop := ∀ c ∈ v.classes, ¬c.Begins text

/-- Of the classes in their order, `c` is the first that has a match at the beginning of the text,
and its match is `t`. -/
structure FirstMatch (v : Vocabulary) (c : TokenClass) (id : TokenId) (t after : String) :
    Prop where
  declared : v.class? id = some c
  matched : c.Matches t after
  first : ∀ j < id, ∀ c', v.class? j = some c' → ¬c'.Begins (t ++ after)

/-- The lexer cuts off the text `t` between `before` and `after` and makes the item of it, if
any. -/
inductive Piece (v : Vocabulary) (before t after : String) : Option LexItem → Prop where
  | token {c : TokenClass} {id : TokenId} (h : v.FirstMatch c id t after) (hs : c.skip = false) :
      Piece v before t after
        (some (.token ⟨id, t, before.utf8ByteSize, (before ++ t).utf8ByteSize, false⟩))
  | skipped {c : TokenClass} {id : TokenId} (h : v.FirstMatch c id t after) (hs : c.skip = true) :
      Piece v before t after none
  /-- No class matches at any character of `t`, and the run cannot be made longer. -/
  | error (hne : t ≠ "") (hrun : ∀ a b, t = a ++ b → b ≠ "" → v.Barren (b ++ after))
      (hmax : after = "" ∨ ¬v.Barren after) :
      Piece v before t after (some (.error ⟨t, before.utf8ByteSize, (before ++ t).utf8ByteSize⟩))

/-- After `before`, the text is cut into pieces up to its end, and they make the items. -/
inductive Lexes (v : Vocabulary) : (before after : String) → List LexItem → Prop where
  | done {before : String} : Lexes v before "" []
  | piece {before t after : String} {item : Option LexItem} {items : List LexItem}
      (h : v.Piece before t after item) (rest : Lexes v (before ++ t) after items) :
      Lexes v before (t ++ after) (item.toList ++ items)

end Vocabulary

namespace LexItem

/-- The offset of the first byte. -/
def start : LexItem → Nat
  | .token t => t.start
  | .error e => e.start

/-- The offset after the last byte. -/
def stop : LexItem → Nat
  | .token t => t.stop
  | .error e => e.stop

/-- The item of the same text further on. -/
def shift (offset : Nat) : LexItem → LexItem
  | .token t => .token ⟨t.kind, t.text, offset + t.start, offset + t.stop, t.inserted⟩
  | .error e => .error ⟨e.text, offset + e.start, offset + e.stop⟩

theorem ofSegments_shift (offset start : Nat) (segs : List Segment) :
    ofSegments (offset + start) segs = (ofSegments start segs).map (shift offset) := by
  induction segs generalizing start with
  | nil => rfl
  | cons s segs ih =>
    cases s with
    | matched kind skip text => cases skip <;> simp [ofSegments, shift, Nat.add_assoc, ih]
    | unmatched text => simp [ofSegments, shift, Nat.add_assoc, ih]

end LexItem

theorem byteLength_eq (text : List Char) : byteLength text = (String.ofList text).utf8ByteSize := by
  induction text with
  | nil => rfl
  | cons c rest ih => simp [byteLength, ih]

namespace Vocabulary

variable {v : Vocabulary} {c : TokenClass} {id : TokenId} {text : List Char} {m : Lexeme}

/-! ## The first class that matches -/

theorem lexeme?_eq_some (h : lexeme? text c id = some m) :
    m.kind = id ∧ m.skip = c.skip ∧ m.length ≤ text.length ∧
      ∃ r, c.pattern = some r ∧ r.find? text = some (0, m.length) := by
  rw [lexeme?] at h
  cases hp : c.pattern with
  | none =>
    rw [hp] at h
    cases h
  | some r =>
    rw [hp, Option.bind_some] at h
    cases hm : r.matchHere? (.ofList text) with
    | none =>
      rw [hm] at h
      cases h
    | some stop =>
      rw [hm] at h
      dsimp only at h
      by_cases hpos : 0 < stop.position
      · rw [dif_pos hpos] at h
        cases h
        exact ⟨rfl, rfl, Regex.position_le_of_matchHere? hm, r, rfl,
          Regex.find?_eq_some_zero.2 ⟨stop, hm, rfl⟩⟩
      · rw [dif_neg hpos] at h
        cases h

theorem lexeme?_of_find? {r : Regex} {n : Nat} (hp : c.pattern = some r) (hn : 0 < n)
    (hfind : r.find? text = some (0, n)) : lexeme? text c id = some ⟨id, c.skip, n, hn⟩ := by
  obtain ⟨stop, hstop, rfl⟩ := Regex.find?_eq_some_zero.1 hfind
  rw [lexeme?, hp, Option.bind_some, hstop]
  exact dif_pos hn

/-- A match is known by its length. -/
theorem lexeme?_append (id : TokenId) {t after : String} : c.Matches t after ↔
    ∃ m, lexeme? (t ++ after).toList c id = some m ∧ m.length = t.length := by
  constructor
  · rintro ⟨hne, r, hp, hfind⟩
    have hpos : 0 < t.length := Nat.pos_of_ne_zero fun h => hne (String.length_eq_zero_iff.1 h)
    exact ⟨_, lexeme?_of_find? hp hpos hfind, rfl⟩
  · rintro ⟨m, hm, hlength⟩
    obtain ⟨-, -, -, r, hp, hfind⟩ := lexeme?_eq_some hm
    refine ⟨?_, r, hp, hlength ▸ hfind⟩
    rintro rfl
    have hpos := m.length_pos
    rw [hlength] at hpos
    exact absurd hpos (by decide)

theorem begins_iff (id : TokenId) : c.Begins (String.ofList text) ↔ (lexeme? text c id).isSome := by
  constructor
  · rintro ⟨t, after, htext, hm⟩
    obtain ⟨m, hm, -⟩ := (lexeme?_append id).1 hm
    rw [← htext, String.toList_ofList] at hm
    rw [hm]
    rfl
  · intro h
    obtain ⟨m, hm⟩ := Option.isSome_iff_exists.1 h
    obtain ⟨-, -, hle, -⟩ := lexeme?_eq_some hm
    have htext : String.ofList text =
        String.ofList (text.take m.length) ++ String.ofList (text.drop m.length) := by
      rw [← String.ofList_append, List.take_append_drop]
    refine ⟨_, _, htext, (lexeme?_append id).2 ⟨m, ?_, ?_⟩⟩
    · rw [← htext, String.toList_ofList]
      exact hm
    · rw [String.length_ofList, List.length_take]
      omega

/-- The first element for which the function gives something, together with its place. -/
theorem findSome?_zipIdx_eq_some {α β : Type} {f : α × Nat → Option β} {xs : List α} {k : Nat}
    {b : β} : (xs.zipIdx k).findSome? f = some b ↔
      ∃ i x, xs[i]? = some x ∧ f (x, k + i) = some b ∧
        ∀ j < i, ∀ y, xs[j]? = some y → f (y, k + j) = none := by
  induction xs generalizing k with
  | nil => simp
  | cons x xs ih =>
    rw [List.zipIdx_cons, List.findSome?_cons]
    cases hx : f (x, k) with
    | some b' =>
      -- the first element gives something, so the place is the first
      constructor
      · intro h
        exact ⟨0, x, rfl, hx.trans h, fun j hj => absurd hj (Nat.not_lt_zero j)⟩
      · rintro ⟨i, y, hy, hfy, hfirst⟩
        cases i with
        | zero =>
          cases hy
          exact hx.symm.trans hfy
        | succ i =>
          have hnone := hfirst 0 (Nat.succ_pos i) x rfl
          rw [Nat.add_zero, hx] at hnone
          cases hnone
    | none =>
      have hk (i : Nat) : k + 1 + i = k + (i + 1) := by omega
      simp only [ih, hk]
      constructor
      · rintro ⟨i, y, hy, hfy, hfirst⟩
        refine ⟨i + 1, y, hy, hfy, ?_⟩
        intro j hj z hz
        cases j with
        | zero =>
          cases hz
          exact hx
        | succ j => exact hfirst j (by omega) z hz
      · rintro ⟨i, y, hy, hfy, hfirst⟩
        cases i with
        | zero =>
          cases hy
          rw [Nat.add_zero, hx] at hfy
          cases hfy
        | succ i => exact ⟨i, y, hy, hfy, fun j hj z hz => hfirst (j + 1) (by omega) z hz⟩

theorem not_begins_iff : ¬c.Begins (String.ofList text) ↔ lexeme? text c id = none := by
  rw [begins_iff id, Option.not_isSome_iff_eq_none]

theorem firstLexeme?_eq_none : v.firstLexeme? text = none ↔ v.Barren (String.ofList text) := by
  rw [firstLexeme?, List.findSome?_eq_none_iff, Barren]
  constructor
  · intro h c hc
    obtain ⟨id, hid⟩ := List.mem_iff_getElem?.1 hc
    exact not_begins_iff.2 (h (c, id) (List.mk_mem_zipIdx_iff_getElem?.2 hid))
  · rintro h ⟨c, id⟩ hmem
    have hid := List.mk_mem_zipIdx_iff_getElem?.1 hmem
    exact not_begins_iff.1 (h c (List.mem_iff_getElem?.2 ⟨id, hid⟩))

theorem firstMatch_iff {t after : String} : v.FirstMatch c id t after ↔ v.class? id = some c ∧
    ∃ m, v.firstLexeme? (t ++ after).toList = some m ∧ m.kind = id ∧ m.skip = c.skip ∧
      m.length = t.length := by
  have hwhole : t ++ after = String.ofList (t ++ after).toList := String.ofList_toList.symm
  constructor
  · intro h
    obtain ⟨m, hm, hlength⟩ := (lexeme?_append id).1 h.matched
    obtain ⟨hkind, hskip, -⟩ := lexeme?_eq_some hm
    refine ⟨h.declared, m, ?_, hkind, hskip, hlength⟩
    refine findSome?_zipIdx_eq_some.2 ⟨id, c, h.declared, ?_, ?_⟩
    · rw [Nat.zero_add]
      exact hm
    · intro j hj c' hc'
      have hnone := h.first j hj c' hc'
      rw [hwhole] at hnone
      exact not_begins_iff.1 hnone
  · rintro ⟨hc, m, hm, rfl, -, hlength⟩
    obtain ⟨id, c', hc', hm, hfirst⟩ := findSome?_zipIdx_eq_some.1 hm
    rw [Nat.zero_add] at hm
    obtain ⟨rfl, -⟩ := lexeme?_eq_some hm
    have hsame : c' = c := Option.some.inj (hc'.symm.trans hc)
    subst hsame
    refine ⟨hc, (lexeme?_append _).2 ⟨m, hm, hlength⟩, ?_⟩
    intro j hj c' hc'
    rw [hwhole]
    exact not_begins_iff.2 (hfirst j hj c' hc')

/-! ## Runs where no class matches -/

/-- The run ends where the text ends or some class matches. -/
theorem drop_unmatchedLength (v : Vocabulary) (text : List Char) :
    text.drop (v.unmatchedLength text) = [] ∨
      ¬v.Barren (String.ofList (text.drop (v.unmatchedLength text))) := by
  induction text with
  | nil => exact .inl rfl
  | cons c rest ih =>
    rw [unmatchedLength]
    by_cases h : (v.firstLexeme? (c :: rest)).isSome = true
    · rw [if_pos h, List.drop_zero, ← firstLexeme?_eq_none]
      exact .inr (Option.isSome_iff_ne_none.1 h)
    · rw [if_neg h, List.drop_succ_cons]
      exact ih

/-- No class matches at any character of the run. -/
theorem barren_of_take_unmatchedLength (v : Vocabulary) {text a b : List Char}
    (h : text.take (v.unmatchedLength text) = a ++ b) (hb : b ≠ []) :
    v.Barren (String.ofList (b ++ text.drop (v.unmatchedLength text))) := by
  induction text generalizing a with
  | nil =>
    rw [List.take_nil] at h
    exact absurd (List.append_eq_nil_iff.1 h.symm).2 hb
  | cons c rest ih =>
    rw [unmatchedLength] at h ⊢
    by_cases hc : (v.firstLexeme? (c :: rest)).isSome = true
    · rw [if_pos hc, List.take_zero] at h
      exact absurd (List.append_eq_nil_iff.1 h.symm).2 hb
    · rw [if_neg hc, List.take_succ_cons] at h
      rw [if_neg hc, List.drop_succ_cons]
      cases a with
      | nil =>
        rw [List.nil_append] at h
        rw [← h, List.cons_append, List.take_append_drop, ← firstLexeme?_eq_none]
        exact Option.not_isSome_iff_eq_none.1 hc
      | cons d a =>
        rw [List.cons_append] at h
        exact ih (List.cons.inj h).2

/-- The length of a run is given by where no class matches. -/
theorem unmatchedLength_append {run after : List Char}
    (hrun : ∀ a b, run = a ++ b → b ≠ [] → v.Barren (String.ofList (b ++ after)))
    (hmax : after = [] ∨ ¬v.Barren (String.ofList after)) :
    v.unmatchedLength (run ++ after) = run.length := by
  induction run with
  | nil =>
    rw [List.nil_append]
    cases after with
    | nil => rfl
    | cons c rest =>
      rcases hmax with hmax | hmax
      · cases hmax
      · rw [← firstLexeme?_eq_none] at hmax
        rw [unmatchedLength, if_pos (Option.isSome_iff_ne_none.2 hmax)]
        rfl
  | cons c run ih =>
    have hnone := hrun [] (c :: run) rfl (List.cons_ne_nil c run)
    rw [← firstLexeme?_eq_none] at hnone
    rw [List.cons_append] at hnone ⊢
    rw [unmatchedLength, hnone, List.length_cons, if_neg (by simp)]
    rw [ih fun a b hab => hrun (c :: a) b (by rw [hab, List.cons_append])]

theorem length_le_of_firstLexeme? (h : v.firstLexeme? text = some m) : m.length ≤ text.length := by
  obtain ⟨_, _, _, hm, -⟩ := findSome?_zipIdx_eq_some.1 h
  exact (lexeme?_eq_some hm).2.2.1

theorem segments_matched (h : v.firstLexeme? text = some m) : v.segments text =
    .matched m.kind m.skip (text.take m.length) :: v.segments (text.drop m.length) := by
  cases text with
  | nil =>
    have hle := length_le_of_firstLexeme? h
    exact absurd m.length_pos (Nat.not_lt.2 hle)
  | cons c rest => rw [segments, h]

theorem FirstMatch.segments_eq {t after : String} (h : v.FirstMatch c id t after) :
    v.segments (t ++ after).toList = .matched id c.skip t.toList :: v.segments after.toList := by
  obtain ⟨-, m, hm, rfl, hskip, hlength⟩ := firstMatch_iff.1 h
  rw [segments_matched hm, hskip, hlength, ← String.length_toList, String.toList_append,
    List.take_left, List.drop_left]

theorem segments_unmatched {run after : List Char} (hne : run ≠ [])
    (hrun : ∀ a b, run = a ++ b → b ≠ [] → v.Barren (String.ofList (b ++ after)))
    (hmax : after = [] ∨ ¬v.Barren (String.ofList after)) :
    v.segments (run ++ after) = .unmatched run :: v.segments after := by
  cases run with
  | nil => exact absurd rfl hne
  | cons c run =>
    have hnone : v.firstLexeme? (c :: (run ++ after)) = none :=
      firstLexeme?_eq_none.2 (hrun [] (c :: run) rfl (List.cons_ne_nil c run))
    have hlength : v.unmatchedLength (run ++ after) = run.length :=
      unmatchedLength_append (fun a b hab => hrun (c :: a) b (by rw [hab, List.cons_append])) hmax
    rw [List.cons_append, segments, hnone, hlength, List.take_left, List.drop_left]

/-! ## The first segment -/

theorem segments_eq_matched {kind : TokenId} {skip : Bool} {w : List Char} {segs : List Segment}
    (h : v.segments text = .matched kind skip w :: segs) :
    ∃ c rest, text = w ++ rest ∧ v.segments rest = segs ∧
      v.FirstMatch c kind (String.ofList w) (String.ofList rest) ∧ c.skip = skip := by
  cases text with
  | nil =>
    rw [segments] at h
    cases h
  | cons x text =>
    cases hm : v.firstLexeme? (x :: text) with
    | none =>
      rw [segments, hm] at h
      cases h
    | some m =>
      rw [segments_matched hm] at h
      cases h
      obtain ⟨id, c, hc, hlexeme, -⟩ := findSome?_zipIdx_eq_some.1 hm
      rw [Nat.zero_add] at hlexeme
      obtain ⟨hkind, hskip, hle, -⟩ := lexeme?_eq_some hlexeme
      refine ⟨c, (x :: text).drop m.length, (List.take_append_drop ..).symm, rfl,
        firstMatch_iff.2 ⟨hkind ▸ hc, m, ?_, rfl, hskip, ?_⟩, hskip.symm⟩
      · rw [← String.ofList_append, List.take_append_drop, String.toList_ofList, hm]
      · rw [String.length_ofList, List.length_take, Nat.min_eq_left hle]

theorem segments_eq_unmatched {run : List Char} {segs : List Segment}
    (h : v.segments text = .unmatched run :: segs) :
    ∃ rest, text = run ++ rest ∧ v.segments rest = segs ∧ run ≠ [] ∧
      (∀ a b, run = a ++ b → b ≠ [] → v.Barren (String.ofList (b ++ rest))) ∧
      (rest = [] ∨ ¬v.Barren (String.ofList rest)) := by
  cases text with
  | nil =>
    rw [segments] at h
    cases h
  | cons x text =>
    cases hm : v.firstLexeme? (x :: text) with
    | some m =>
      rw [segments, hm] at h
      cases h
    | none =>
      rw [segments, hm] at h
      cases h
      refine ⟨text.drop (v.unmatchedLength text), ?_, rfl, List.cons_ne_nil _ _, ?_,
        v.drop_unmatchedLength text⟩
      · rw [List.cons_append, List.take_append_drop]
      · intro a b hab hb
        rcases List.cons_eq_append_iff.1 hab with ⟨-, hwhole⟩ | ⟨a', -, htail⟩
        · rw [hwhole, List.cons_append, List.take_append_drop]
          exact firstLexeme?_eq_none.1 hm
        · exact v.barren_of_take_unmatchedLength htail hb

theorem segments_eq_cons {seg : Segment} {segs : List Segment}
    (h : v.segments text = seg :: segs) :
    ∃ rest, text = seg.text ++ rest ∧ v.segments rest = segs := by
  cases seg with
  | matched =>
    obtain ⟨_, rest, htext, hrest, -⟩ := segments_eq_matched h
    exact ⟨rest, htext, hrest⟩
  | unmatched =>
    obtain ⟨rest, htext, hrest, -⟩ := segments_eq_unmatched h
    exact ⟨rest, htext, hrest⟩

/-! ## Pieces -/

section Pieces

variable {before t after : String} {item : Option LexItem} {items : List LexItem}

theorem Piece.ne_empty (h : v.Piece before t after item) : t ≠ "" := by
  cases h with
  | token h | skipped h => exact h.matched.1
  | error hne => exact hne

theorem utf8ByteSize_pos (h : t ≠ "") : 0 < t.utf8ByteSize :=
  Nat.pos_of_ne_zero fun h0 => h (String.utf8ByteSize_eq_zero_iff.1 h0)

/-- The item spans the bytes of the text that is cut off. -/
theorem Piece.span {x : LexItem} (h : v.Piece before t after (some x)) :
    x.start = before.utf8ByteSize ∧ x.stop = (before ++ t).utf8ByteSize := by
  cases h with
  | token | error => exact ⟨rfl, rfl⟩

/-- What the lexer does with a text after `before`. -/
def lexFrom (v : Vocabulary) (before after : String) : List LexItem :=
  LexItem.ofSegments before.utf8ByteSize (v.segments after.toList)

theorem lexFrom_eq (v : Vocabulary) (before after : String) :
    v.lexFrom before after = (v.lex after).map (·.shift before.utf8ByteSize) :=
  LexItem.ofSegments_shift before.utf8ByteSize 0 _

/-- Whatever piece can be cut off, the lexer cuts it off. -/
theorem Piece.lexFrom_eq (h : v.Piece before t after item) :
    v.lexFrom before (t ++ after) = item.toList ++ v.lexFrom (before ++ t) after := by
  have hstop : before.utf8ByteSize + byteLength t.toList = (before ++ t).utf8ByteSize := by
    rw [byteLength_eq, String.ofList_toList, String.utf8ByteSize_append]
  cases h with
  | token h hs =>
    rw [lexFrom, h.segments_eq, LexItem.ofSegments, hs, hstop, String.ofList_toList]
    rfl
  | skipped h hs =>
    rw [lexFrom, h.segments_eq, LexItem.ofSegments, hs, hstop]
    rfl
  | error hne hrun hmax =>
    have hsegments : v.segments (t.toList ++ after.toList) =
        .unmatched t.toList :: v.segments after.toList := by
      refine segments_unmatched (fun h0 => hne (String.toList_eq_nil_iff.1 h0)) ?_ ?_
      · intro a b hab hb
        rw [String.ofList_append, String.ofList_toList]
        refine hrun (String.ofList a) (String.ofList b) ?_ ?_
        · rw [← String.ofList_append, ← hab, String.ofList_toList]
        · exact fun h0 => hb (String.ofList_eq_empty_iff.1 h0)
      · rw [String.ofList_toList, String.toList_eq_nil_iff]
        exact hmax
    rw [lexFrom, String.toList_append, hsegments, LexItem.ofSegments, hstop, String.ofList_toList]
    rfl

/-- Unless the text ends, the lexer cuts off a piece. -/
theorem exists_piece (v : Vocabulary) (before : String) {text : String} (hne : text ≠ "") :
    ∃ t after item, text = t ++ after ∧ v.Piece before t after item := by
  have hwhole {w rest : List Char} (htext : text.toList = w ++ rest) :
      text = String.ofList w ++ String.ofList rest := by
    rw [← String.ofList_append, ← htext, String.ofList_toList]
  cases hsegs : v.segments text.toList with
  | nil =>
    have htext := v.flatMap_text_segments text.toList
    rw [hsegs] at htext
    exact absurd (String.toList_eq_nil_iff.1 htext.symm) hne
  | cons seg segs =>
    cases seg with
    | matched kind skip w =>
      obtain ⟨c, rest, htext, -, hfirst, rfl⟩ := segments_eq_matched hsegs
      cases hs : c.skip with
      | false => exact ⟨_, _, _, hwhole htext, .token hfirst hs⟩
      | true => exact ⟨_, _, _, hwhole htext, .skipped hfirst hs⟩
    | unmatched w =>
      obtain ⟨rest, htext, -, hne', hrun, hmax⟩ := segments_eq_unmatched hsegs
      refine ⟨_, _, _, hwhole htext, .error ?_ ?_ ?_⟩
      · exact fun h0 => hne' (String.ofList_eq_empty_iff.1 h0)
      · intro a b hab hb
        have hlist : w = a.toList ++ b.toList := by
          rw [← String.toList_append, ← hab, String.toList_ofList]
        have hb' : b.toList ≠ [] := fun h0 => hb (String.toList_eq_nil_iff.1 h0)
        rw [← String.ofList_toList (s := b), ← String.ofList_append]
        exact hrun _ _ hlist hb'
      · exact hmax.imp_left String.ofList_eq_empty_iff.2

/-- The pieces of a text are those that the lexer cuts off. -/
theorem lexes_iff (v : Vocabulary) (before after : String) (items : List LexItem) :
    v.Lexes before after items ↔ items = v.lexFrom before after := by
  constructor
  · intro h
    induction h with
    | done => rw [lexFrom, String.toList_empty, segments, LexItem.ofSegments]
    | piece h _ ih => rw [h.lexFrom_eq, ih]
  · rintro rfl
    induction hn : after.length using Nat.strongRecOn generalizing before after with
    | ind n ih =>
      by_cases hne : after = ""
      · subst hne
        rw [lexFrom, String.toList_empty, segments, LexItem.ofSegments]
        exact .done
      · obtain ⟨t, rest, item, rfl, hpiece⟩ := v.exists_piece before hne
        have hpos : 0 < t.length :=
          Nat.pos_of_ne_zero fun h0 => hpiece.ne_empty (String.length_eq_zero_iff.1 h0)
        rw [String.length_append] at hn
        rw [hpiece.lexFrom_eq]
        exact .piece hpiece (ih _ (by omega) (before ++ t) rest rfl)

/-! ## Items -/

theorem Piece.start_lt_stop {x : LexItem} (h : v.Piece before t after (some x)) :
    x.start < x.stop := by
  have hpos := utf8ByteSize_pos h.ne_empty
  rw [h.span.1, h.span.2, String.utf8ByteSize_append]
  omega

/-- Each item is made of a piece of the text. -/
theorem Lexes.exists_piece (h : v.Lexes before after items) {x : LexItem} (hx : x ∈ items) :
    ∃ gap t after', after = gap ++ t ++ after' ∧ v.Piece (before ++ gap) t after' (some x) := by
  induction h with
  | done => cases hx
  | @piece before t after item items h _ ih =>
    rcases List.mem_append.1 hx with hx | hx
    · rw [Option.mem_toList] at hx
      subst hx
      exact ⟨"", t, after, by rw [String.empty_append], by rwa [String.append_empty]⟩
    · obtain ⟨gap, t', after', rfl, hpiece⟩ := ih hx
      rw [String.append_assoc] at hpiece
      exact ⟨t ++ gap, t', after', by simp only [String.append_assoc], hpiece⟩

/-- Items do not begin before the place where they are looked for, and they are not empty. -/
theorem Lexes.bounds (h : v.Lexes before after items) {x : LexItem} (hx : x ∈ items) :
    before.utf8ByteSize ≤ x.start ∧ x.start < x.stop := by
  obtain ⟨gap, t, after', rfl, hpiece⟩ := h.exists_piece hx
  refine ⟨?_, hpiece.start_lt_stop⟩
  rw [hpiece.span.1, String.utf8ByteSize_append]
  exact Nat.le_add_right _ _

/-- An error is reported where no class matches. -/
theorem Lexes.barren_of_error (h : v.Lexes before after items) {e : LexError}
    (he : .error e ∈ items) (hstart : e.start = before.utf8ByteSize) :
    after ≠ "" ∧ v.Barren after := by
  cases h with
  | done => cases he
  | @piece _ t after item items h rest =>
    rcases List.mem_append.1 he with he | he
    · rw [Option.mem_toList] at he
      subst he
      cases h with
      | error hne hrun _ =>
        refine ⟨?_, hrun "" t String.empty_append.symm hne⟩
        intro h0
        exact hne (String.append_eq_empty_iff.1 h0).1
    · have hpos := utf8ByteSize_pos h.ne_empty
      have hle : (before ++ t).utf8ByteSize ≤ e.start := (rest.bounds he).1
      rw [String.utf8ByteSize_append] at hle
      omega

/-- No error begins where another ends, since its run would have been longer. -/
theorem Lexes.errors_apart (h : v.Lexes before after items) {e e' : LexError}
    (he : .error e ∈ items) (he' : .error e' ∈ items) : e.stop ≠ e'.start := by
  induction h with
  | done => cases he
  | @piece before t after item items h rest ih =>
    rcases List.mem_append.1 he with hitem | hlater
    · rw [Option.mem_toList] at hitem
      subst hitem
      have hlt : e.start < e.stop := h.start_lt_stop
      rcases List.mem_append.1 he' with hitem' | hlater'
      · cases List.mem_singleton.1 hitem'
        omega
      · intro hsame
        have hstop : e.stop = (before ++ t).utf8ByteSize := h.span.2
        -- then the first run could have gone on into the second
        obtain ⟨hne, hbarren⟩ := rest.barren_of_error hlater' (hsame.symm.trans hstop)
        cases h with
        | error _ _ hmax => exact hmax.elim hne fun hmax => hmax hbarren
    · rcases List.mem_append.1 he' with hitem' | hlater'
      · rw [Option.mem_toList] at hitem'
        subst hitem'
        have hstart : e'.start = before.utf8ByteSize := h.span.1
        have hle : (before ++ t).utf8ByteSize ≤ e.start := (rest.bounds hlater).1
        have hlt : e.start < e.stop := (rest.bounds hlater).2
        rw [String.utf8ByteSize_append] at hle
        omega
      · exact ih hlater hlater'

theorem Lexes.filter_eq (h : v.Lexes before after items) :
    items.filter (before.utf8ByteSize ≤ ·.start) = items :=
  List.filter_eq_self.2 fun _ hx => decide_eq_true (h.bounds hx).1

/-- From a place after its beginning on, the item of a piece is left out. -/
theorem Piece.filter_eq_nil (h : v.Piece before t after item) {p : Nat}
    (hp : before.utf8ByteSize < p) : item.toList.filter (p ≤ ·.start) = [] := by
  refine List.filter_eq_nil_iff.2 fun x hx => ?_
  rw [Option.mem_toList] at hx
  subst hx
  rw [h.span.1, decide_eq_true_eq]
  omega

/-- From the beginning or the end of an item on, the text is cut as if nothing came before. -/
theorem Lexes.resume (h : v.Lexes before after items) {x : LexItem} (hx : x ∈ items) {p : Nat}
    (hp : p = x.start ∨ p = x.stop) : ∃ passed rest, after = passed ++ rest ∧
      p = (before ++ passed).utf8ByteSize ∧
      v.Lexes (before ++ passed) rest (items.filter (p ≤ ·.start)) := by
  induction h with
  | done => cases hx
  | @piece before t after item items h rest ih =>
    have hpos := utf8ByteSize_pos h.ne_empty
    have hlt : before.utf8ByteSize < (before ++ t).utf8ByteSize := by
      rw [String.utf8ByteSize_append]
      omega
    rcases List.mem_append.1 hx with hx | hx
    · rw [Option.mem_toList] at hx
      subst hx
      rw [h.span.1, h.span.2] at hp
      rcases hp with rfl | rfl
      · refine ⟨"", t ++ after, String.empty_append.symm, by rw [String.append_empty], ?_⟩
        have hall := Lexes.piece h rest
        rw [hall.filter_eq, String.append_empty]
        exact hall
      · refine ⟨t, after, rfl, rfl, ?_⟩
        rw [List.filter_append, h.filter_eq_nil hlt, List.nil_append, rest.filter_eq]
        exact rest
    · obtain ⟨passed, rest', rfl, rfl, hrest⟩ := ih hx
      rw [String.append_assoc] at hrest ⊢
      refine ⟨t ++ passed, rest', String.append_assoc.symm, rfl, ?_⟩
      have hlt' : before.utf8ByteSize < (before ++ (t ++ passed)).utf8ByteSize := by
        rw [← String.append_assoc, String.utf8ByteSize_append]
        omega
      rw [List.filter_append, h.filter_eq_nil hlt', List.nil_append]
      exact hrest

end Pieces

/-- Lexing is an exact segmentation. The items of a text are those of the one way to cut it into
pieces. Errors are never next to each other. From any boundary of an item on, the items are those of
the text from there on, further on by its offset. -/
theorem lex_exact (v : Vocabulary) (text : String) :
    (∀ items, v.Lexes "" text items ↔ items = v.lex text) ∧
    (∀ e e', .error e ∈ v.lex text → .error e' ∈ v.lex text → e.stop ≠ e'.start) ∧
    ∀ x ∈ v.lex text, ∀ p, p = x.start ∨ p = x.stop →
      ∃ before after, text = before ++ after ∧ p = before.utf8ByteSize ∧
        (v.lex text).filter (p ≤ ·.start) = (v.lex after).map (·.shift p) := by
  have hlexes : v.Lexes "" text (v.lex text) := (v.lexes_iff "" text _).2 rfl
  refine ⟨v.lexes_iff "" text, fun e e' => hlexes.errors_apart, ?_⟩
  intro x hx p hp
  obtain ⟨passed, rest, htext, hsize, hrest⟩ := hlexes.resume hx hp
  rw [String.empty_append] at hsize hrest
  have hshift := (v.lexes_iff _ _ _).1 hrest
  rw [v.lexFrom_eq, ← hsize] at hshift
  exact ⟨passed, rest, htext, hsize, hshift⟩

end Vocabulary

end TopDown
