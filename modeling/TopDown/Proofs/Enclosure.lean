import TopDown.Proofs.Brackets
import TopDown.Regex.Parser

/-!
# Reading between parentheses

A pattern is examined as it stands, and it is used between parentheses. Both readings give the same
expression if the pattern is well formed as it stands: `Regex.eq_sequence_of_parse?`. The two texts
are read in step up to the end of the pattern (`Regex.readFrom_enclosed`). There the parenthesis
closes the group that holds the pattern, unless a comment swallows it and the group stays open.

A pattern that is not well formed as it stands may close the group itself, and then it is not tied
to its place.
-/

namespace TopDown

namespace Regex

variable {f : Flags} {text rest : List Char} {c : Char}

/-! ## Groups, repetitions and atoms -/

theorem readFlags_local (seen : List Char) (f : Flags) : Local (readFlags seen f) := by
  intro text a rest h
  induction text generalizing seen f with
  | nil => cases h
  | cons c text ih =>
    rw [readFlags] at h
    rw [List.cons_append, readFlags]
    by_cases hend : (c == ':' || c == ')') = true
    · rw [if_pos hend] at h ⊢
      by_cases hsign : (seen.head? == some '-') = true
      · rw [if_pos hsign] at h
        cases h
      · rw [if_neg hsign] at h ⊢
        cases h
        rfl
    rw [if_neg hend] at h ⊢
    by_cases hseen : seen.contains c = true
    · rw [if_pos hseen] at h
      cases h
    rw [if_neg hseen] at h ⊢
    by_cases hsign : (c == '-') = true
    · rw [if_pos hsign] at h ⊢
      exact ih _ _ h
    rw [if_neg hsign] at h ⊢
    obtain ⟨f', hf, h⟩ := Option.bind_eq_some_iff.1 h
    exact Option.bind_eq_some_iff.2 ⟨f', hf, ih _ _ h⟩

theorem drop_length_takeWhile (p : Char → Bool) (text : List Char) :
    text.drop (text.takeWhile p).length = text.dropWhile p := by
  induction text with
  | nil => rfl
  | cons x text ih =>
    by_cases hx : p x = true
    · rw [List.takeWhile_cons_of_pos hx, List.dropWhile_cons_of_pos hx, List.length_cons,
        List.drop_succ_cons, ih]
    · rw [List.takeWhile_cons_of_neg hx, List.dropWhile_cons_of_neg hx]
      rfl

theorem readName_local : Local readName := by
  intro text a rest h
  simp only [readName, drop_length_takeWhile] at h ⊢
  cases hd : text.dropWhile (· != '>') with
  | nil =>
    rw [hd] at h
    cases h
  | cons c after =>
    rw [hd] at h
    rw [dropWhile_append_of_cons hd, takeWhile_append_of_cons hd]
    split at h
    · rename_i heq
      cases heq
      cases hname : text.takeWhile (· != '>') with
      | nil =>
        rw [hname] at h
        cases h
      | cons x name =>
        rw [hname] at h
        simp only at h ⊢
        by_cases hvalid : (isNameChar true x && name.all (isNameChar false)) = true
        · rw [if_pos hvalid] at h ⊢
          cases h
          rfl
        · rw [if_neg hvalid] at h
          cases h
    · cases h

/-- What flags at the beginning of a group begin. -/
def Opening.ofFlags? : Flags × Bool × Bool → Option Opening
  | (f, _, true) => some (.group f)
  | (f, true, false) => some (.change f)
  | (_, false, false) => none

section Opening

variable {after : List Char}

theorem readOpening_plain (hs : skipBlank f text = c :: after) (hc : c ≠ '?') :
    readOpening f text = some (.capture none, c :: after) := by
  simp [readOpening, hs, hc]

theorem readOpening_angle (hs : skipBlank f text = '?' :: '<' :: c :: after) (hequals : c ≠ '=')
    (hbang : c ≠ '!') :
    readOpening f text = (readName (c :: after)).map fun x => (.capture (some x.1), x.2) := by
  simp [readOpening, hs, hequals, hbang]

theorem readOpening_name (hs : skipBlank f text = '?' :: 'P' :: '<' :: after) :
    readOpening f text = (readName after).map fun x => (.capture (some x.1), x.2) := by
  simp [readOpening, hs]

theorem readOpening_flags (hs : skipBlank f text = '?' :: c :: after) (hequals : c ≠ '=')
    (hbang : c ≠ '!') (hangle : c ≠ '<') (hname : c ≠ 'P') :
    readOpening f text = (readFlags [] f (c :: after)).bind fun x =>
      (Opening.ofFlags? x.1).bind fun o => some (o, x.2) := by
  simp only [readOpening, hs, List.cons.injEq, hequals, hbang, hangle, hname, false_and, imp_self,
    implies_true]
  cases readFlags [] f (c :: after) with
  | none => rfl
  | some x =>
    obtain ⟨⟨f', entry, colon⟩, left⟩ := x
    cases entry <;> cases colon <;> rfl

end Opening

/-- Something has to come after an opening parenthesis. -/
theorem readOpening_append {o : Opening} (hs : skipBlank f text = c :: after)
    (h : readOpening f text = some (o, rest)) :
    readOpening f (text ++ [')']) = some (o, rest ++ [')']) := by
  have hs' := skipBlank_append hs
  by_cases hquestion : c = '?'
  · subst hquestion
    cases after with
    | nil => simp [readOpening, hs, readFlags] at h
    | cons d after =>
      by_cases hequals : d = '='
      · simp [readOpening, hs, hequals] at h
      by_cases hbang : d = '!'
      · simp [readOpening, hs, hbang] at h
      by_cases hangle : d = '<'
      · subst hangle
        cases after with
        | nil => simp [readOpening, hs, readName] at h
        | cons e after =>
          by_cases hequals : e = '='
          · simp [readOpening, hs, hequals] at h
          by_cases hbang : e = '!'
          · simp [readOpening, hs, hbang] at h
          rw [readOpening_angle hs hequals hbang] at h
          rw [readOpening_angle hs' hequals hbang]
          exact readName_local.map (fun name => Opening.capture (some name)) _ _ _ h
      by_cases hname : d = 'P'
      · subst hname
        cases after with
        | nil => simp [readOpening, hs, readFlags, Flags.set?] at h
        | cons e after =>
          by_cases hangle : e = '<'
          · subst hangle
            rw [readOpening_name hs] at h
            rw [readOpening_name hs']
            exact readName_local.map (fun name => Opening.capture (some name)) _ _ _ h
          · simp [readOpening, hs, hangle, readFlags, Flags.set?] at h
      · rw [readOpening_flags hs hequals hbang hangle hname] at h
        rw [readOpening_flags hs' hequals hbang hangle hname]
        exact (readFlags_local [] f).bind (local_finish Opening.ofFlags?) _ _ _ h
  · rw [readOpening_plain hs hquestion] at h
    rw [readOpening_plain hs' hquestion]
    cases h
    rfl

theorem readLazy_append (text : List Char) :
    readLazy (text ++ [')']) = ((readLazy text).1, (readLazy text).2 ++ [')']) := by
  match text with
  | [] => rfl
  | c :: rest =>
    by_cases hc : c = '?'
    · subst hc
      rfl
    · simp [readLazy, hc]

theorem readRepetition_append {bounds : Nat × Option Nat} {marked : Bool}
    (h : readRepetition f text = some (bounds, marked, rest)) :
    readRepetition f (text ++ [')']) = some (bounds, marked, rest ++ [')']) := by
  cases text with
  | nil => cases h
  | cons c text =>
    by_cases hbrace : c = '{'
    · subst hbrace
      simp only [readRepetition, List.cons_append] at h ⊢
      obtain ⟨⟨bounds', left⟩, hbounds, heq⟩ := Option.map_eq_some_iff.1 h
      refine Option.map_eq_some_iff.2 ⟨_, readBounds_local f _ _ _ hbounds, ?_⟩
      dsimp only at heq ⊢
      cases hs : skipBlank f left with
      | nil =>
        rw [hs] at heq
        cases heq
        rcases skipBlank_exhausted hs with hs' | hs' <;> rw [hs'] <;> rfl
      | cons d after =>
        rw [hs] at heq
        rw [skipBlank_append hs, ← List.cons_append, readLazy_append]
        cases hlazy : readLazy (d :: after) with
        | mk marked' left' =>
          rw [hlazy] at heq
          cases marked' with
          | false | true =>
            cases heq
            rfl
    by_cases hsign : c = '?' ∨ c = '*' ∨ c = '+'
    · rw [List.cons_append]
      rcases hsign with rfl | rfl | rfl
      all_goals
        simp only [readRepetition, Option.some.injEq, Prod.ext_iff] at h ⊢
        rw [readLazy_append]
        exact ⟨h.1, h.2.1, congrArg (· ++ [')']) h.2.2⟩
    · simp only [not_or] at hsign
      simp [readRepetition, hbrace, hsign] at h

theorem readAtom_local (f : Flags) : Local (readAtom f) := by
  intro text a rest h
  cases text with
  | nil => cases h
  | cons c text =>
    rw [List.cons_append]
    by_cases hset : c = '['
    · subst hset
      exact (readBracket_local f).map Regex.chars text a rest h
    by_cases hescape : c = '\\'
    · subst hescape
      exact (readEscape_local f).map (ofPrimitive f) text a rest h
    by_cases hsign : c = '.' ∨ c = '^' ∨ c = '$'
    · rcases hsign with rfl | rfl | rfl
      all_goals
        cases h
        rfl
    · obtain ⟨hdot, hcaret, hdollar⟩ : c ≠ '.' ∧ c ≠ '^' ∧ c ≠ '$' := by simpa using hsign
      have hplain (after : List Char) :
          readAtom f (c :: after) = some (ofPrimitive f (.literal c), after) := by
        rw [readAtom] <;> assumption
      rw [hplain] at h ⊢
      cases h
      rfl

/-! ## Expressions -/

section Turn

variable {n : Nat} {inner : Contents} {outer : List OpenGroup} {names : List String}
  {after : List Char}

theorem readFrom_open (hs : skipBlank f text = '(' :: after) :
    readFrom (n + 1) f inner outer names text = (readOpening f after).bind fun x =>
      match x.1 with
      | .change f' =>
        readFrom n f' { inner with parts := none :: inner.parts } outer names x.2
      | .group f' => readFrom n f' {} (⟨inner, f, false⟩ :: outer) names x.2
      | .capture none => readFrom n f {} (⟨inner, f, true⟩ :: outer) names x.2
      | .capture (some name) =>
        if names.contains name then none
        else readFrom n f {} (⟨inner, f, true⟩ :: outer) (name :: names) x.2 := by
  rw [readFrom, hs]
  simp only
  cases readOpening f after with
  | none => rfl
  | some x =>
    obtain ⟨o, left⟩ := x
    cases o with
    | change | group => rfl
    | capture name => cases name <;> rfl

/-- A group that is open at the end of the text is not well formed. -/
theorem readFrom_open_nil {g : OpenGroup} : readFrom n f inner (g :: outer) names [] = none := by
  cases n with
  | zero => rfl
  | succ n =>
    rw [readFrom, skipBlank_nil]
    rfl

theorem readFrom_close (hs : skipBlank f text = ')' :: after) (g : OpenGroup) :
    readFrom (n + 1) f inner (g :: outer) names text =
      readFrom n g.flags
        (g.outer.push (if g.capturing then .group inner.toRegex else inner.toRegex)) outer names
        after := by
  rw [readFrom, hs]
  rfl

theorem readFrom_bar (hs : skipBlank f text = '|' :: after) :
    readFrom (n + 1) f inner outer names text =
      readFrom n f inner.nextBranch outer names after := by
  rw [readFrom, hs]
  rfl

theorem readFrom_other (hs : skipBlank f text = c :: after) (hopen : c ≠ '(') (hclose : c ≠ ')')
    (hbar : c ≠ '|') :
    readFrom (n + 1) f inner outer names text =
      if c == '?' || c == '*' || c == '+' || c == '{' then
        (readRepetition f (c :: after)).bind fun x =>
          (inner.repeatLast x.1.1 x.1.2 (x.2.1 == f.swapGreed)).bind fun inner =>
            readFrom n f inner outer names x.2.2
      else
        (readAtom f (c :: after)).bind fun x => readFrom n f (inner.push x.1) outer names x.2 := by
  rw [readFrom, hs]
  split
  · rename_i heq
    cases heq
  · rename_i heq
    exact absurd (List.cons.inj heq).1 hopen
  · rename_i heq
    exact absurd (List.cons.inj heq).1 hclose
  · rename_i heq
    exact absurd (List.cons.inj heq).1 hbar
  · rename_i heq
    cases heq
    congr 1
    · cases readRepetition f (c :: after) with
      | none => rfl
      | some x =>
        obtain ⟨⟨least, most⟩, marked, left⟩ := x
        dsimp only [Option.bind_some]
        cases inner.repeatLast least most (marked == f.swapGreed) <;> rfl
    · cases readAtom f (c :: after) <;> rfl

end Turn

/-- A text that is an expression leads to the same expression between parentheses, if it can be read
there at all. -/
theorem readFrom_enclosed {n m : Nat} {inner : Contents} {outer : List OpenGroup} {g : OpenGroup}
    {names : List String} {r w : Regex} (h : readFrom n f inner outer names text = some r)
    (hroom : n < m)
    (hw : readFrom m f inner (outer ++ [g]) names (text ++ [')']) = some w) :
    w = (g.outer.push (if g.capturing then .group r else r)).toRegex := by
  induction n generalizing m f inner outer names text with
  | zero => cases h
  | succ n ih =>
    obtain ⟨m, rfl⟩ : ∃ k, m = k + 1 := ⟨m - 1, by omega⟩
    have hroom := Nat.lt_of_succ_lt_succ hroom
    cases hs : skipBlank f text with
    | nil =>
      rw [readFrom, hs] at h
      cases outer with
      | cons => cases h
      | nil =>
        cases h
        obtain ⟨m, rfl⟩ : ∃ k, m = k + 1 := ⟨m - 1, by omega⟩
        rcases skipBlank_exhausted hs with hs' | hs'
        · rw [readFrom, hs'] at hw
          cases hw
        · rw [List.nil_append, readFrom_close hs', readFrom, skipBlank_nil] at hw
          cases hw
          rfl
    | cons c after =>
      have hs' := skipBlank_append hs
      by_cases hopen : c = '('
      · subst hopen
        rw [readFrom_open hs] at h
        rw [readFrom_open hs'] at hw
        obtain ⟨⟨o, left⟩, ho, h⟩ := Option.bind_eq_some_iff.1 h
        cases hafter : skipBlank f after with
        | nil =>
          -- the group is still open at the end
          have hnone : readOpening f after = some (.capture none, []) := by
            unfold readOpening
            rw [hafter]
          rw [hnone] at ho
          cases ho
          rw [readFrom_open_nil] at h
          cases h
        | cons d after' =>
          rw [readOpening_append hafter ho, Option.bind_some] at hw
          cases o with
          | change | group => exact ih h hroom hw
          | capture name =>
            cases name with
            | none => exact ih h hroom hw
            | some name =>
              dsimp only at h hw
              by_cases hname : names.contains name = true
              · rw [if_pos hname] at h
                cases h
              · rw [if_neg hname] at h hw
                exact ih h hroom hw
      by_cases hclose : c = ')'
      · subst hclose
        cases outer with
        | nil =>
          rw [readFrom, hs] at h
          cases h
        | cons g' outer =>
          rw [readFrom_close hs] at h
          rw [List.cons_append, readFrom_close hs'] at hw
          exact ih h hroom hw
      by_cases hbar : c = '|'
      · subst hbar
        rw [readFrom_bar hs] at h
        rw [readFrom_bar hs'] at hw
        exact ih h hroom hw
      rw [readFrom_other hs hopen hclose hbar] at h
      rw [readFrom_other hs' hopen hclose hbar, ← List.cons_append] at hw
      by_cases hsign : (c == '?' || c == '*' || c == '+' || c == '{') = true
      · rw [if_pos hsign] at h hw
        obtain ⟨⟨bounds, marked, left⟩, hrep, h⟩ := Option.bind_eq_some_iff.1 h
        rw [readRepetition_append hrep, Option.bind_some] at hw
        obtain ⟨inner', hinner, h⟩ := Option.bind_eq_some_iff.1 h
        rw [hinner] at hw
        exact ih h hroom hw
      · rw [if_neg hsign] at h hw
        obtain ⟨⟨r', left⟩, hatom, h⟩ := Option.bind_eq_some_iff.1 h
        rw [readAtom_local f _ _ _ hatom, Option.bind_some] at hw
        exact ih h hroom hw

/-- A pattern that is well formed as it stands is tied to its place by what is put around it. -/
theorem eq_sequence_of_parse? {pattern : String} {r w : Regex} (h : parse? pattern = some r)
    (hw : parse? ("^(?:" ++ pattern ++ ")") = some w) :
    w = sequence [.assertion .textStart, r] := by
  have hchars : ("^(?:" ++ pattern ++ ")").toList =
      '^' :: '(' :: '?' :: ':' :: (pattern.toList ++ [')']) := by
    rw [String.toList_append, String.toList_append]
    rfl
  have hgroup (n : Nat) (text : List Char) :
      readFrom (n + 2) {} {} [] [] ('^' :: '(' :: '?' :: ':' :: text) =
        readFrom n {} {} [⟨{ parts := [some (.assertion .textStart)] }, {}, false⟩] [] text := rfl
  have hlength : (pattern.toList ++ [')']).length = pattern.toList.length + 1 := by
    rw [List.length_append, List.length_singleton]
  rw [parse?] at h hw
  rw [hchars, List.length_cons, List.length_cons, List.length_cons, List.length_cons, hlength] at hw
  rw [hgroup] at hw
  exact readFrom_enclosed h (by omega) hw

end Regex

end TopDown
