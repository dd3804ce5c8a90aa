import TopDown.Proofs.Locality
import TopDown.Regex.Bracket

/-!
# Brackets that close inside the text

A bracketed set is read up to its closing bracket, so what comes after the text makes no difference
to it: `Regex.readBracket_local`. The same is shown before of what stands in a bracket: named sets,
signs of operations, single items and ranges.
-/

namespace TopDown

namespace Regex

variable {f : Flags} {text rest : List Char} {c : Char}

/-! ## Bracketed sets -/

theorem takeWhile_append_of_cons {p : Char → Bool} (h : text.dropWhile p = c :: rest) :
    (text ++ [')']).takeWhile p = text.takeWhile p := by
  induction text with
  | nil => cases h
  | cons x text ih =>
    rw [List.cons_append]
    by_cases hx : p x = true
    · rw [List.dropWhile_cons_of_pos hx] at h
      rw [List.takeWhile_cons_of_pos hx, List.takeWhile_cons_of_pos hx, ih h]
    · rw [List.takeWhile_cons_of_neg hx, List.takeWhile_cons_of_neg hx]

theorem readNamedSet_caret (rest : List Char) : readNamedSet f ('^' :: rest) =
    match rest.dropWhile (· != ':') with
    | ':' :: ']' :: after =>
      (namedSet? (String.ofList (rest.takeWhile (· != ':')))).map fun set =>
        ((f.folded set).compl, after)
    | _ => none := rfl

theorem readNamedSet_of_ne (h : text.head? ≠ some '^') : readNamedSet f text =
    match text.dropWhile (· != ':') with
    | ':' :: ']' :: after =>
      (namedSet? (String.ofList (text.takeWhile (· != ':')))).map fun set => (f.folded set, after)
    | _ => none := by
  unfold readNamedSet
  split
  rename_i heq
  split at heq
  · exact absurd rfl h
  · cases heq
    rfl

/-- The name of a set ends inside the text. -/
theorem readName_colon (g : CharSet → CharSet) :
    (match (text ++ [')']).dropWhile (· != ':') with
    | ':' :: ']' :: after =>
      (namedSet? (String.ofList ((text ++ [')']).takeWhile (· != ':')))).map fun set =>
        (g set, after)
    | _ => none) =
    (match text.dropWhile (· != ':') with
    | ':' :: ']' :: after =>
      (namedSet? (String.ofList (text.takeWhile (· != ':')))).map fun set => (g set, after)
    | _ => none).map fun x : CharSet × List Char => (x.1, x.2 ++ [')']) := by
  cases hd : text.dropWhile (· != ':') with
  | nil =>
    rw [List.dropWhile_append, hd]
    rfl
  | cons x after =>
    rw [dropWhile_append_of_cons hd, takeWhile_append_of_cons hd]
    cases after with
    | nil =>
      split
      · rename_i heq
        cases heq
      · split
        · rename_i heq
          cases heq
        · rfl
    | cons y after =>
      by_cases hxy : x = ':' ∧ y = ']'
      · obtain ⟨rfl, rfl⟩ := hxy
        simp only [List.cons_append, Option.map_map]
        rfl
      · split
        · rename_i heq
          cases heq
          exact absurd ⟨rfl, rfl⟩ hxy
        · split
          · rename_i heq
            cases heq
            exact absurd ⟨rfl, rfl⟩ hxy
          · rfl

theorem readNamedSet_append (text : List Char) :
    readNamedSet f (text ++ [')']) = (readNamedSet f text).map fun x => (x.1, x.2 ++ [')']) := by
  by_cases hcaret : text.head? = some '^'
  · obtain ⟨rest, rfl⟩ := List.head?_eq_some_iff.1 hcaret
    rw [List.cons_append, readNamedSet_caret, readNamedSet_caret]
    exact readName_colon fun set => (f.folded set).compl
  · have hcaret' : (text ++ [')']).head? ≠ some '^' := by
      cases text with
      | nil => decide
      | cons c text => exact hcaret
    rw [readNamedSet_of_ne hcaret, readNamedSet_of_ne hcaret']
    exact readName_colon f.folded

/-- Two characters other than the parenthesis begin the text itself. -/
theorem exists_cons_of_append {d : Char} (h : text ++ [')'] = c :: d :: rest) (hd : d ≠ ')') :
    ∃ after, text = c :: d :: after := by
  match text with
  | [] => cases h
  | [_] =>
    cases h
    exact absurd rfl hd
  | x :: y :: after =>
    cases h
    exact ⟨after, rfl⟩

theorem readSetOp_append (text : List Char) :
    readSetOp (text ++ [')']) = (readSetOp text).map fun x => (x.1, x.2 ++ [')']) := by
  unfold readSetOp
  split
  case h_1 _ heq | h_2 _ heq | h_3 _ heq =>
    obtain ⟨after, rfl⟩ := exists_cons_of_append heq (by decide)
    cases heq
    rfl
  · rename_i hinter hdiff hsymm
    split
    · exact (hinter _ rfl).elim
    · exact (hdiff _ rfl).elim
    · exact (hsymm _ rfl).elim
    · rfl

theorem readHyphens_append {seen hyphens : Bool}
    (h : readHyphens f seen text = some (hyphens, rest)) :
    ∃ c after, rest = c :: after ∧
      readHyphens f seen (text ++ [')']) = some (hyphens, rest ++ [')']) := by
  induction text generalizing seen with
  | nil => cases h
  | cons x text ih =>
    rw [readHyphens] at h
    rw [List.cons_append, readHyphens]
    by_cases hhyphen : (x == '-') = true
    · rw [if_pos hhyphen] at h ⊢
      exact ih h
    rw [if_neg hhyphen] at h ⊢
    by_cases hblank : (seen && f.verbose && isBlank x) = true
    · rw [if_pos hblank] at h ⊢
      exact ih h
    · rw [if_neg hblank] at h ⊢
      cases h
      exact ⟨x, text, rfl, rfl⟩

/-- The beginning of a bracket whose sign of complement has been read. -/
theorem openBracket_unsigned_local (f : Flags) (negated : Bool) :
    Local fun text => (readHyphens f false text).bind fun (hyphens, text) =>
      if hyphens then some (OpenBracket.mk negated none (.single '-'), text)
      else
        match text with
        | ']' :: rest =>
          match skipBlank f rest with
          | [] => none
          | rest => some (⟨negated, none, .single ']'⟩, rest)
        | _ => some (⟨negated, none, .empty⟩, text) := by
  intro text a rest h
  obtain ⟨⟨hyphens, left⟩, hhyphens, h⟩ := Option.bind_eq_some_iff.1 h
  obtain ⟨c, after, rfl, hhyphens'⟩ := readHyphens_append hhyphens
  refine Option.bind_eq_some_iff.2 ⟨_, hhyphens', ?_⟩
  dsimp only at h ⊢
  by_cases hseen : hyphens = true
  · rw [if_pos hseen] at h ⊢
    cases h
    rfl
  rw [if_neg hseen] at h ⊢
  rw [List.cons_append]
  by_cases hclose : c = ']'
  · subst hclose
    simp only at h ⊢
    cases hs : skipBlank f after with
    | nil =>
      rw [hs] at h
      cases h
    | cons d after' =>
      rw [hs] at h
      rw [skipBlank_append hs]
      cases h
      rfl
  · split at h
    · rename_i heq
      exact absurd (List.cons.inj heq).1 hclose
    · split
      · rename_i heq
        exact absurd (List.cons.inj heq).1 hclose
      · cases h
        rfl

theorem openBracket_local (f : Flags) : Local (openBracket f) := by
  intro text a rest h
  unfold openBracket at h ⊢
  cases hs : skipBlank f text with
  | nil =>
    rw [hs] at h
    cases h
  | cons c after =>
    rw [hs] at h
    rw [skipBlank_append hs]
    by_cases hcaret : c = '^'
    · subst hcaret
      simp only at h ⊢
      cases hs' : skipBlank f after with
      | nil =>
        rw [hs'] at h
        cases h
      | cons d after' =>
        rw [hs'] at h
        rw [skipBlank_append hs']
        exact openBracket_unsigned_local f true (d :: after') a rest h
    · have hunsigned := openBracket_unsigned_local f false (c :: after) a rest
      split at h
      rename_i hneg
      split at hneg
      · rename_i heq
        exact absurd (List.cons.inj heq).1 hcaret
      · cases hneg
        split
        rename_i hneg
        split at hneg
        · rename_i heq
          exact absurd (List.cons.inj heq).1 hcaret
        · cases hneg
          exact hunsigned h

theorem readItem_of_ne (h : c ≠ '\\') : readItem f (c :: rest) = some (.literal c, rest) := by
  unfold readItem
  split
  · rename_i heq
    cases heq
  · rename_i heq
    exact absurd (List.cons.inj heq).1 h
  · rename_i heq
    cases heq
    rfl

theorem readItem_local (f : Flags) : Local (readItem f) := by
  intro text a rest h
  cases text with
  | nil => cases h
  | cons c text =>
    rw [List.cons_append]
    by_cases hslash : c = '\\'
    · subst hslash
      exact readEscape_local f text a rest h
    · rw [readItem_of_ne hslash] at h ⊢
      cases h
      rfl

/-- The characters of an item that stands alone in a bracket. -/
def Primitive.charSet? : Primitive → Option CharSet
  | .literal c => some (.single c)
  | .set s => some s
  | .assertion _ => none

/-- The characters of a range between two items. -/
def Primitive.range? : Primitive → Primitive → Option CharSet
  | .literal lo, .literal hi => if lo ≤ hi then some (.range lo hi) else none
  | _, _ => none

section Range

variable {first : Primitive} {left after after' : List Char} {d : Char}

/-- A hyphen between two items makes them the ends of a range. -/
theorem readRange_eq_end (hfirst : readItem f text = some (first, left))
    (hs : skipBlank f left = '-' :: after) (hs' : skipBlank f after = d :: after')
    (hclose : d ≠ ']') (hhyphen : d ≠ '-') :
    readRange f text = (readItem f (d :: after')).bind fun last =>
      (first.range? last.1).bind fun set => some (set, last.2) := by
  unfold readRange
  rw [hfirst]
  simp only [Option.bind_eq_bind, Option.bind_some, hs, hs', List.tail_cons]
  split
  · rename_i heq
    exact absurd (List.cons.inj heq).1 hclose
  · rename_i heq
    exact absurd (List.cons.inj heq).1 hhyphen
  · rw [if_pos rfl]
    congr 1
    funext ⟨last, after⟩
    cases first with
    | literal lo =>
      cases last with
      | literal hi =>
        rw [Primitive.range?]
        dsimp only
        split <;> rfl
      | set | assertion => rfl
    | set | assertion => rfl

/-- An item stands alone if no hyphen comes after it, and also if the hyphen is none of a range. -/
theorem readRange_eq_single (hfirst : readItem f text = some (first, left))
    (hs : skipBlank f left = c :: after)
    (h : c = '-' → ∃ d after', skipBlank f after = d :: after' ∧ (d = ']' ∨ d = '-')) :
    readRange f text = first.charSet?.bind fun set => some (set, c :: after) := by
  unfold readRange
  rw [hfirst]
  simp only [Option.bind_eq_bind, Option.bind_some, hs, List.tail_cons]
  split
  · rename_i heq
    cases heq
    obtain ⟨d, after', hs', hd⟩ := h rfl
    rw [hs']
    rcases hd with rfl | rfl
    · cases first <;> rfl
    · cases first <;> rfl
  · cases first <;> rfl

end Range

theorem readRange_local (f : Flags) : Local (readRange f) := by
  intro text a rest h
  cases hfirst : readItem f text with
  | none =>
    unfold readRange at h
    rw [hfirst] at h
    cases h
  | some item =>
    obtain ⟨first, left⟩ := item
    have hfirst' := readItem_local f _ _ _ hfirst
    cases hs : skipBlank f left with
    | nil =>
      unfold readRange at h
      simp only [Option.bind_eq_bind, Option.bind_some, hfirst, hs] at h
      cases h
    | cons c after =>
      have hsingle
          (hnone : c = '-' → ∃ d after', skipBlank f after = d :: after' ∧ (d = ']' ∨ d = '-')) :
          readRange f (text ++ [')']) = some (a, rest ++ [')']) := by
        rw [readRange_eq_single hfirst hs hnone] at h
        obtain ⟨set, hset, heq⟩ := Option.bind_eq_some_iff.1 h
        cases heq
        refine (readRange_eq_single hfirst' (skipBlank_append hs) fun hc => ?_).trans ?_
        · obtain ⟨d, after', hs', hd⟩ := hnone hc
          exact ⟨d, _, skipBlank_append hs', hd⟩
        · rw [hset]
          rfl
      by_cases hc : c = '-'
      · subst hc
        cases hs' : skipBlank f after with
        | nil =>
          unfold readRange at h
          simp only [Option.bind_eq_bind, Option.bind_some, hfirst, hs, hs', List.tail_cons] at h
          cases h
        | cons d after' =>
          by_cases hd : d = ']' ∨ d = '-'
          · exact hsingle fun _ => ⟨d, after', hs', hd⟩
          · obtain ⟨hclose, hhyphen⟩ := not_or.1 hd
            rw [readRange_eq_end hfirst hs hs' hclose hhyphen] at h
            rw [readRange_eq_end hfirst' (skipBlank_append hs) (skipBlank_append hs') hclose
              hhyphen]
            exact (readItem_local f).bind (local_finish first.range?) (d :: after') a rest h
      · exact hsingle fun heq => absurd heq hc

section Turn

variable {n : Nat} {inner : OpenBracket} {outer : List OpenBracket} {after : List Char}

/-- A nested bracket. -/
theorem readBracketFrom_open (hs : skipBlank f text = '[' :: after)
    (hcolon : after.head? ≠ some ':') :
    readBracketFrom f (n + 1) inner outer text =
      (openBracket f after).bind fun x => readBracketFrom f n x.1 (inner :: outer) x.2 := by
  rw [readBracketFrom]
  simp only [hs]
  split
  · rename_i hnamed
    split at hnamed
    · exact absurd rfl hcolon
    · cases hnamed
  · cases openBracket f after <;> rfl

/-- A named set, or a nested bracket that begins with a colon. -/
theorem readBracketFrom_colon (hs : skipBlank f text = '[' :: ':' :: after) :
    readBracketFrom f (n + 1) inner outer text =
      match readNamedSet f after with
      | some (set, rest) => readBracketFrom f n (inner.add set) outer rest
      | none =>
        (openBracket f (':' :: after)).bind fun x =>
          readBracketFrom f n x.1 (inner :: outer) x.2 := by
  rw [readBracketFrom]
  simp only [hs]
  cases readNamedSet f after with
  | some => rfl
  | none => cases openBracket f (':' :: after) <;> rfl

/-- A sign of an operation, or characters. -/
theorem readBracketFrom_other (hs : skipBlank f text = c :: after) (hclose : c ≠ ']')
    (hopen : c ≠ '[') :
    readBracketFrom f (n + 1) inner outer text =
      match readSetOp (c :: after) with
      | some (op, rest) => readBracketFrom f n (inner.operate f op) outer rest
      | none =>
        (readRange f (c :: after)).bind fun x => readBracketFrom f n (inner.add x.1) outer x.2 := by
  rw [readBracketFrom]
  simp only [hs]
  split
  · rename_i heq
    cases heq
  · rename_i heq
    exact absurd (List.cons.inj heq).1 hclose
  · rename_i heq
    exact absurd (List.cons.inj heq).1 hopen
  · cases readSetOp (c :: after) with
    | some => rfl
    | none => cases readRange f (c :: after) <;> rfl

end Turn

theorem readBracketFrom_append {n m : Nat} {inner : OpenBracket} {outer : List OpenBracket}
    {set : CharSet} (h : readBracketFrom f n inner outer text = some (set, rest)) (hroom : n ≤ m) :
    readBracketFrom f m inner outer (text ++ [')']) = some (set, rest ++ [')']) := by
  induction n generalizing m inner outer text with
  | zero => cases h
  | succ n ih =>
    obtain ⟨m, rfl⟩ : ∃ k, m = k + 1 := ⟨m - 1, by omega⟩
    have hroom := Nat.le_of_succ_le_succ hroom
    cases hs : skipBlank f text with
    | nil =>
      rw [readBracketFrom, hs] at h
      cases h
    | cons c after =>
      have hs' := skipBlank_append hs
      by_cases hclose : c = ']'
      · subst hclose
        rw [readBracketFrom, hs] at h
        rw [readBracketFrom, hs']
        cases outer with
        | nil =>
          cases h
          rfl
        | cons b outer => exact ih h hroom
      by_cases hopen : c = '['
      · subst hopen
        have hnested (left : List Char)
            (h : ((openBracket f left).bind fun x => readBracketFrom f n x.1 (inner :: outer) x.2) =
              some (set, rest)) :
            ((openBracket f (left ++ [')'])).bind fun x =>
              readBracketFrom f m x.1 (inner :: outer) x.2) = some (set, rest ++ [')']) := by
          obtain ⟨⟨b, left'⟩, hb, h⟩ := Option.bind_eq_some_iff.1 h
          exact Option.bind_eq_some_iff.2 ⟨_, openBracket_local f _ _ _ hb, ih h hroom⟩
        by_cases hcolon : after.head? = some ':'
        · obtain ⟨after, rfl⟩ := List.head?_eq_some_iff.1 hcolon
          rw [List.cons_append] at hs'
          rw [readBracketFrom_colon hs] at h
          rw [readBracketFrom_colon hs', readNamedSet_append]
          cases hnamed : readNamedSet f after with
          | some x =>
            rw [hnamed] at h
            exact ih h hroom
          | none =>
            rw [hnamed] at h
            exact hnested _ h
        · have hcolon' : (after ++ [')']).head? ≠ some ':' := by
            cases after with
            | nil => decide
            | cons d after => exact hcolon
          rw [readBracketFrom_open hs hcolon] at h
          rw [readBracketFrom_open hs' hcolon']
          exact hnested after h
      · rw [readBracketFrom_other hs hclose hopen] at h
        rw [readBracketFrom_other hs' hclose hopen, ← List.cons_append, readSetOp_append]
        cases hop : readSetOp (c :: after) with
        | some x =>
          rw [hop] at h
          exact ih h hroom
        | none =>
          rw [hop] at h
          obtain ⟨⟨set', left⟩, hset, h⟩ := Option.bind_eq_some_iff.1 h
          exact Option.bind_eq_some_iff.2 ⟨_, readRange_local f _ _ _ hset, ih h hroom⟩

theorem readBracket_local (f : Flags) : Local (readBracket f) := by
  intro text a rest h
  unfold readBracket at h ⊢
  obtain ⟨⟨b, left⟩, hb, h⟩ := Option.bind_eq_some_iff.1 h
  refine Option.bind_eq_some_iff.2 ⟨_, openBracket_local f _ _ _ hb, ?_⟩
  refine readBracketFrom_append h ?_
  rw [List.length_append]
  exact Nat.succ_le_succ (Nat.le_add_right _ _)

end Regex

end TopDown
