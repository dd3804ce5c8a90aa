import TopDown.Regex.Reader

/-!
# Readers that stop inside the text

A reader that succeeds stops because of a character of the text, so a closing parenthesis after the
text makes no difference to what it reads: `Regex.Local`. The lemmas here go through the readers of
escapes and numbers. Only the end of the text is noticed, and there white space or a comment may
come before the parenthesis: `Regex.skipBlank_exhausted`.
-/

namespace TopDown

namespace Regex

/-- What is read of a text is also read of the text with a closing parenthesis after it. -/
def Local {α : Type} (read : List Char → Option (α × List Char)) : Prop :=
  ∀ text a rest, read text = some (a, rest) → read (text ++ [')']) = some (a, rest ++ [')'])

variable {α β : Type} {f : Flags} {text rest : List Char} {c : Char}

theorem Local.bind {read : List Char → Option (α × List Char)}
    {next : α → List Char → Option (β × List Char)} (h : Local read) (h' : ∀ a, Local (next a)) :
    Local fun text => (read text).bind fun x => next x.1 x.2 := by
  intro text b rest hread
  obtain ⟨⟨a, after⟩, ha, hb⟩ := Option.bind_eq_some_iff.1 hread
  exact Option.bind_eq_some_iff.2 ⟨_, h text a after ha, h' a after b rest hb⟩

theorem Local.map {read : List Char → Option (α × List Char)} (h : Local read) (g : α → β) :
    Local fun text => (read text).map fun x => (g x.1, x.2) := by
  intro text b rest hread
  obtain ⟨⟨a, after⟩, ha, heq⟩ := Option.map_eq_some_iff.1 hread
  cases heq
  exact Option.map_eq_some_iff.2 ⟨_, h text a after ha, rfl⟩

theorem local_finish (g : α → Option β) (a : α) :
    Local fun text => (g a).bind fun b => some (b, text) := by
  intro text b rest h
  obtain ⟨b', hb, heq⟩ := Option.bind_eq_some_iff.1 h
  cases heq
  exact Option.bind_eq_some_iff.2 ⟨_, hb, rfl⟩

/-! ## White space -/

/-- White space and comments end before a character of the text, or the whole text is skipped and
the parenthesis comes inside or outside of a comment. -/
theorem skipBlank_go_append (comment : Bool) (text : List Char) :
    (∃ c rest, skipBlank.go comment text = c :: rest ∧
      skipBlank.go comment (text ++ [')']) = c :: (rest ++ [')'])) ∨
    skipBlank.go comment text = [] ∧
      ∃ comment', skipBlank.go comment (text ++ [')']) = skipBlank.go comment' [')'] := by
  fun_induction skipBlank.go comment text with
  | case1 comment => exact .inr ⟨rfl, comment, rfl⟩
  | case2 c rest ih =>
    rw [List.cons_append, skipBlank.go]
    exact ih
  | case3 c rest hblank ih =>
    rw [List.cons_append, skipBlank.go, if_pos hblank]
    exact ih
  | case4 c rest hblank hsign ih =>
    rw [List.cons_append, skipBlank.go, if_neg hblank, if_pos hsign]
    exact ih
  | case5 c rest hblank hsign =>
    rw [List.cons_append, skipBlank.go, if_neg hblank, if_neg hsign]
    exact .inl ⟨c, rest, rfl, rfl⟩

theorem skipBlank_cases (f : Flags) (text : List Char) :
    (∃ c rest, skipBlank f text = c :: rest ∧
      skipBlank f (text ++ [')']) = c :: (rest ++ [')'])) ∨
    skipBlank f text = [] ∧
      (skipBlank f (text ++ [')']) = [] ∨ skipBlank f (text ++ [')']) = [')']) := by
  simp only [skipBlank]
  by_cases hverbose : f.verbose = true
  · simp only [if_pos hverbose]
    obtain h | ⟨hnil, comment, h⟩ := skipBlank_go_append false text
    · exact .inl h
    · refine .inr ⟨hnil, ?_⟩
      rw [h]
      cases comment
      · exact .inr rfl
      · exact .inl rfl
  · simp only [if_neg hverbose]
    cases text with
    | nil => exact .inr ⟨rfl, .inr rfl⟩
    | cons c rest => exact .inl ⟨c, rest, rfl, rfl⟩

/-- White space before a character is skipped in the same way. -/
theorem skipBlank_append (h : skipBlank f text = c :: rest) :
    skipBlank f (text ++ [')']) = c :: (rest ++ [')']) := by
  obtain ⟨c', rest', h', happend⟩ | ⟨hnil, -⟩ := skipBlank_cases f text
  · rw [h'] at h
    cases h
    exact happend
  · rw [h] at hnil
    cases hnil

/-- After a text that is skipped altogether the parenthesis comes next, or it belongs to a
comment. -/
theorem skipBlank_exhausted (h : skipBlank f text = []) :
    skipBlank f (text ++ [')']) = [] ∨ skipBlank f (text ++ [')']) = [')'] := by
  obtain ⟨c, rest, h', -⟩ | ⟨-, hend⟩ := skipBlank_cases f text
  · rw [h] at h'
    cases h'
  · exact hend

theorem skipBlank_nil : skipBlank f [] = [] := by
  rw [skipBlank]
  cases f.verbose <;> rfl

/-! ## Escapes -/

theorem readHex_local (f : Flags) (n acc : Nat) : Local (readHex f n acc) := by
  intro text a rest h
  induction n generalizing acc text with
  | zero =>
    cases h
    rfl
  | succ n ih =>
    rw [readHex] at h ⊢
    cases hs : skipBlank f text with
    | nil =>
      rw [hs] at h
      cases h
    | cons c after =>
      rw [hs] at h
      rw [skipBlank_append hs]
      obtain ⟨d, hd, h⟩ := Option.bind_eq_some_iff.1 h
      exact Option.bind_eq_some_iff.2 ⟨d, hd, ih _ _ h⟩

theorem readBracedHex_local (f : Flags) (acc : Option Nat) : Local (readBracedHex f acc) := by
  intro text a rest h
  induction text generalizing acc with
  | nil => cases h
  | cons c text ih =>
    rw [readBracedHex] at h
    rw [List.cons_append, readBracedHex]
    by_cases hblank : (f.verbose && isBlank c) = true
    · rw [if_pos hblank] at h ⊢
      exact ih _ h
    rw [if_neg hblank] at h ⊢
    by_cases hbrace : (c == '}') = true
    · rw [if_pos hbrace] at h ⊢
      obtain ⟨n, rfl, hn⟩ := Option.map_eq_some_iff.1 h
      cases hn
      rfl
    rw [if_neg hbrace] at h ⊢
    obtain ⟨d, hd, h⟩ := Option.bind_eq_some_iff.1 h
    exact Option.bind_eq_some_iff.2 ⟨d, hd, ih _ h⟩

theorem readScalar_local (f : Flags) {n : Nat} (hn : 0 < n) : Local (readScalar f n) := by
  intro text a rest h
  rw [readScalar] at h ⊢
  cases hs : skipBlank f text with
  | nil =>
    rw [hs] at h
    obtain ⟨n, rfl⟩ := Nat.exists_eq_succ_of_ne_zero (Nat.ne_of_gt hn)
    dsimp only at h
    rw [readHex, skipBlank_nil] at h
    cases h
  | cons c after =>
    rw [hs] at h
    rw [skipBlank_append hs]
    by_cases hbrace : c = '{'
    · subst hbrace
      exact (readBracedHex_local f none).bind (local_finish scalar?) after a rest h
    · have hdigits := (readHex_local f n 0).bind (local_finish scalar?) (c :: after) a rest
      split at h
      · rename_i heq
        exact absurd (List.cons.inj heq).1 hbrace
      · split
        · rename_i heq
          exact absurd (List.cons.inj heq).1 hbrace
        · exact hdigits h

theorem readBoundaryName_local (f : Flags) (name : List Char) :
    Local (readBoundaryName f name) := by
  intro text a rest h
  induction text generalizing name with
  | nil => cases h
  | cons c text ih =>
    rw [readBoundaryName] at h
    rw [List.cons_append, readBoundaryName]
    by_cases hname : isBoundaryNameChar c = true
    · rw [if_pos hname] at h ⊢
      exact ih _ h
    rw [if_neg hname] at h ⊢
    by_cases hblank : (f.verbose && isBlank c) = true
    · rw [if_pos hblank] at h ⊢
      exact ih _ h
    rw [if_neg hblank] at h ⊢
    by_cases hbrace : (c == '}') = true
    · rw [if_pos hbrace] at h ⊢
      obtain ⟨b, hb, heq⟩ := Option.map_eq_some_iff.1 h
      cases heq
      exact Option.map_eq_some_iff.2 ⟨_, hb, rfl⟩
    · rw [if_neg hbrace] at h
      cases h

theorem readBoundary_brace (f : Flags) (rest : List Char) : readBoundary f ('{' :: rest) =
    match skipBlank f rest with
    | [] => none
    | c :: rest' =>
      if isBoundaryNameChar c then readBoundaryName f [] (c :: rest')
      else some (.wordBoundary, '{' :: rest) := rfl

theorem readBoundary_of_ne (f : Flags) (h : text.head? ≠ some '{') :
    readBoundary f text = some (.wordBoundary, text) := by
  unfold readBoundary
  split
  · exact absurd rfl h
  · rfl

theorem readBoundary_local (f : Flags) : Local (readBoundary f) := by
  intro text a rest h
  cases text with
  | nil =>
    cases h
    rfl
  | cons c text =>
    rw [List.cons_append]
    by_cases hbrace : c = '{'
    · subst hbrace
      rw [readBoundary_brace] at h ⊢
      cases hs : skipBlank f text with
      | nil =>
        rw [hs] at h
        cases h
      | cons c after =>
        rw [hs] at h
        rw [skipBlank_append hs]
        dsimp only at h ⊢
        by_cases hname : isBoundaryNameChar c = true
        · rw [if_pos hname] at h ⊢
          exact readBoundaryName_local f [] (c :: after) a rest h
        · rw [if_neg hname] at h ⊢
          cases h
          rfl
    · have hhead (after : List Char) : (c :: after).head? ≠ some '{' :=
        fun heq => hbrace (Option.some.inj heq)
      rw [readBoundary_of_ne f (hhead _)] at h ⊢
      cases h
      rfl

theorem readEscape_local (f : Flags) : Local (readEscape f) := by
  intro text a rest h
  cases text with
  | nil => cases h
  | cons c text =>
    rw [List.cons_append]
    unfold readEscape at h ⊢
    dsimp only at h ⊢
    by_cases hescapable : isEscapable c = true
    · rw [if_pos hescapable] at h ⊢
      cases h
      rfl
    rw [if_neg hescapable] at h ⊢
    have hscalar {n : Nat} (hn : 0 < n) := (readScalar_local f hn).map Primitive.literal
    have hboundary := (readBoundary_local f).map Primitive.assertion
    split at h
    case h_7 => exact hscalar (by decide) text a rest h
    case h_8 => exact hscalar (by decide) text a rest h
    case h_9 => exact hscalar (by decide) text a rest h
    case h_18 => exact hboundary text a rest h
    case h_22 => cases h
    all_goals
      cases h
      rfl

/-! ## Numbers -/

theorem dropWhile_append_of_cons {p : Char → Bool} (h : text.dropWhile p = c :: rest) :
    (text ++ [')']).dropWhile p = c :: (rest ++ [')']) := by
  rw [List.dropWhile_append, h, List.isEmpty_cons]
  rfl

theorem readDigits_append {acc n : Option Nat} (h : readDigits f acc text = (n, c :: rest)) :
    readDigits f acc (text ++ [')']) = (n, c :: (rest ++ [')'])) := by
  induction text generalizing acc with
  | nil => cases h
  | cons x text ih =>
    rw [readDigits] at h
    rw [List.cons_append, readDigits]
    by_cases hdigit : x.isDigit = true
    · rw [if_pos hdigit] at h ⊢
      exact ih h
    rw [if_neg hdigit] at h ⊢
    by_cases hblank : (f.verbose && acc.isSome && isBlank x) = true
    · rw [if_pos hblank] at h ⊢
      exact ih h
    · rw [if_neg hblank] at h ⊢
      cases h
      rfl

theorem readBound_nil : readBound f [] = none := rfl

theorem readBound_append {n : Nat} (h : readBound f text = some (n, c :: rest)) :
    readBound f (text ++ [')']) = some (n, c :: (rest ++ [')'])) := by
  unfold readBound at h ⊢
  cases htext : text.dropWhile isBlank with
  | nil =>
    rw [htext] at h
    cases h
  | cons x after =>
    rw [htext] at h
    rw [dropWhile_append_of_cons htext, ← List.cons_append]
    cases hdigits : readDigits f none (x :: after) with
    | mk n? left =>
    rw [hdigits] at h
    cases n? with
    | none => cases h
    | some m =>
      dsimp only at h
      by_cases hm : m < 0x100000000
      · rw [if_pos hm, Option.some.injEq, Prod.mk.injEq] at h
        obtain ⟨rfl, hleft⟩ := h
        cases left with
        | nil => cases hleft
        | cons y left =>
          rw [readDigits_append hdigits]
          dsimp only
          rw [if_pos hm, ← List.cons_append, dropWhile_append_of_cons hleft]
      · rw [if_neg hm] at h
        cases h

theorem readBounds_local (f : Flags) : Local (readBounds f) := by
  intro text a rest h
  unfold readBounds at h ⊢
  obtain ⟨⟨least, after⟩, hleast, h⟩ := Option.bind_eq_some_iff.1 h
  cases hs : skipBlank f text with
  | nil =>
    rw [hs, readBound_nil] at hleast
    cases hleast
  | cons x left =>
    rw [hs] at hleast
    rw [skipBlank_append hs, ← List.cons_append]
    dsimp only at h
    split at h
    · cases h
      rw [readBound_append hleast]
      rfl
    · rename_i after
      rw [readBound_append hleast]
      split at h
      · rename_i after hbrace
        cases h
        simp only [Option.bind_eq_bind, Option.bind_some, skipBlank_append hbrace]
        rfl
      · rename_i hbrace
        obtain ⟨⟨most, after'⟩, hmost, h⟩ := Option.bind_eq_some_iff.1 h
        cases hs' : skipBlank f after with
        | nil =>
          rw [hs', readBound_nil] at hmost
          cases hmost
        | cons y left' =>
          rw [hs'] at hmost hbrace
          have hy : y ≠ '}' := fun heq => hbrace left' (heq ▸ rfl)
          simp only [Option.bind_eq_bind, Option.bind_some, skipBlank_append hs']
          split at h
          · rename_i heq
            cases heq
            split
            · rename_i heq
              exact absurd (List.cons.inj heq).1 hy
            · rw [← List.cons_append, readBound_append hmost]
              by_cases hle : least ≤ most
              · rw [if_pos hle] at h
                cases h
                simp only [Option.bind_some, if_pos hle]
                rfl
              · rw [if_neg hle] at h
                cases h
          · cases h
    · cases h

end Regex

end TopDown
