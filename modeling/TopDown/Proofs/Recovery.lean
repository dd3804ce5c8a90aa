import TopDown.Proofs.Run

/-!
# What the primitives of the engine can do

For every primitive that moves the cursor or fails: the outcomes it can have and what is known in
each of them. `ParseState.Leads` says of two states that the second can come after the first: the
cursor never goes back, and the history only grows.
-/

namespace TopDown

namespace Cursor

variable {α : Type}

/-- The second cursor is at the same place as the first or after it. -/
def Before (c c' : Cursor α) : Prop :=
  ∃ passed, c.rest = passed ++ c'.rest ∧ c'.past = passed.reverse ++ c.past

theorem Before.refl (c : Cursor α) : c.Before c := ⟨[], rfl, rfl⟩

theorem Before.trans {c₁ c₂ c₃ : Cursor α} (h : c₁.Before c₂) (h' : c₂.Before c₃) :
    c₁.Before c₃ := by
  obtain ⟨p, hrest, hpast⟩ := h
  obtain ⟨q, hrest', hpast'⟩ := h'
  refine ⟨p ++ q, ?_, ?_⟩
  · rw [hrest, hrest', List.append_assoc]
  · rw [hpast', hpast, List.reverse_append, List.append_assoc]

theorem Before.cons (past rest : List α) (x : α) :
    Before ⟨past, x :: rest⟩ ⟨x :: past, rest⟩ := ⟨[x], rfl, rfl⟩

theorem Before.rest_length_le {c c' : Cursor α} (h : c.Before c') :
    c'.rest.length ≤ c.rest.length := by
  obtain ⟨p, hrest, _⟩ := h
  rw [hrest, List.length_append]
  omega

theorem Before.position_le {c c' : Cursor α} (h : c.Before c') : c.position ≤ c'.position := by
  obtain ⟨p, _, hpast⟩ := h
  rw [position, position, hpast, List.length_append]
  omega

/-- Moving on does not change the list. -/
theorem Before.toList_eq {c c' : Cursor α} (h : c.Before c') : c'.toList = c.toList := by
  obtain ⟨p, hrest, hpast⟩ := h
  rw [toList, toList, hrest, hpast, List.reverse_append, List.reverse_reverse, List.append_assoc]

theorem before_seek_go (stop : α → Bool) (past rest : List α) :
    Before ⟨past, rest⟩ (seek.go stop past rest) := by
  fun_induction seek.go stop past rest with
  | case1 past => exact .refl _
  | case2 past x rest h => exact .refl _
  | case3 past x rest h ih => exact (Before.cons past rest x).trans ih

theorem before_seek (stop : α → Bool) (c : Cursor α) : c.Before (c.seek stop) :=
  before_seek_go stop c.past c.rest

end Cursor

/-- The second state can come after the first in a parse. -/
structure ParseState.Leads (s s' : ParseState) : Prop where
  /-- No token is put back. -/
  cursor : s.cursor.Before s'.cursor
  /-- Nothing that has happened is forgotten. -/
  history : s.history <:+ s'.history

namespace ParseState

theorem Leads.refl (s : ParseState) : s.Leads s := ⟨.refl _, List.suffix_refl _⟩

theorem Leads.trans {s₁ s₂ s₃ : ParseState} (h : s₁.Leads s₂) (h' : s₂.Leads s₃) : s₁.Leads s₃ :=
  ⟨h.cursor.trans h'.cursor, h.history.trans h'.history⟩

theorem leads_note (s : ParseState) (e : Event) : s.Leads (s.note e) :=
  ⟨.refl _, List.suffix_cons _ _⟩

theorem leads_of_before {s : ParseState} {c : Cursor Token} (h : s.cursor.Before c) (e : Event) :
    s.Leads ⟨c, e :: s.history⟩ :=
  ⟨h, List.suffix_cons _ _⟩

@[simp] theorem cursor_note (s : ParseState) (e : Event) : (s.note e).cursor = s.cursor := rfl

theorem errors_eq (s : ParseState) : s.errors = (s.history.filterMap Event.recovered?).reverse := by
  rw [errors, events, List.filterMap_reverse]

/-- An event that gets past no error leaves the errors as they were. -/
theorem errors_note {s : ParseState} {e : Event} (h : e.recovered? = none) :
    (s.note e).errors = s.errors := by
  rw [errors_eq, errors_eq]
  show ((e :: s.history).filterMap Event.recovered?).reverse = _
  rw [List.filterMap_cons_none h]

/-- An event that gets past an error adds it at the end. -/
theorem errors_cons {c : Cursor Token} {history : List Event} {e : Event} {error : SyntaxError}
    (h : e.recovered? = some error) :
    errors ⟨c, e :: history⟩ = errors ⟨c, history⟩ ++ [error] := by
  rw [errors_eq, errors_eq]
  show ((e :: history).filterMap Event.recovered?).reverse = _
  rw [List.filterMap_cons_some h, List.reverse_cons]

theorem errors_cursor (c : Cursor Token) (s : ParseState) : errors ⟨c, s.history⟩ = s.errors := rfl

theorem Leads.errors {s s' : ParseState} (h : s.Leads s') : s.errors <+: s'.errors := by
  obtain ⟨t, ht⟩ := h.history
  rw [errors_eq, errors_eq, ← ht, List.filterMap_append, List.reverse_append]
  exact List.prefix_append _ _

/-- Where there are no errors there were none before. -/
theorem Leads.errors_eq_nil {s s' : ParseState} (h : s.Leads s') (hs : s'.errors = []) :
    s.errors = [] :=
  List.prefix_nil.1 (hs ▸ h.errors)

/-- The first error stays the first. -/
theorem Leads.head?_errors {s s' : ParseState} {e : SyntaxError} (h : s.Leads s')
    (hs : s.errors.head? = some e) : s'.errors.head? = some e := by
  obtain ⟨t, ht⟩ := h.errors
  rw [← ht, List.head?_append, hs]
  rfl

theorem Leads.rest_length_le {s s' : ParseState} (h : s.Leads s') :
    s'.cursor.rest.length ≤ s.cursor.rest.length :=
  h.cursor.rest_length_le

theorem nextKind_eq (s : ParseState) (v : Vocabulary) :
    s.nextKind v = s.cursor.rest.head?.elim v.eof (·.kind) := rfl

end ParseState

namespace Language

variable {l : Language} {stack : Stack} {s : ParseState}

/-! ## Calling for a token -/

/-- What can come of calling for a token of the class. -/
inductive Consumption (l : Language) (stack : Stack) (expected : TokenId) (idx : Nat)
    (s : ParseState) : Result Token → Prop where
  /-- The token is there. -/
  | matched {past rest : List Token} {t : Token} (hc : s.cursor = ⟨past, t :: rest⟩)
      (h : l.vocabulary.isA t.kind expected = true) :
      Consumption l stack expected idx s
        (.ok t ⟨⟨t :: past, rest⟩, .consumed s.position :: s.history⟩)
  /-- The next token is dropped, and the one after it is what was called for. -/
  | deleted {past rest : List Token} {extra t : Token} (hr : l.config.recovery = true)
      (hc : s.cursor = ⟨past, extra :: t :: rest⟩)
      (hm : l.vocabulary.isA extra.kind expected = false)
      (h : l.vocabulary.isA t.kind expected = true) :
      Consumption l stack expected idx s
        (.ok t ⟨⟨t :: extra :: past, rest⟩,
          .deleted { l.mismatch stack expected s with recovery := .deleted } s.position ::
            s.history⟩)
  /-- A token is made up. -/
  | inserted (hr : l.config.recovery = true)
      (hm : ∀ t, s.cursor.next? = some t → l.vocabulary.isA t.kind expected = false)
      (h : l.second? expected s.cursor = none) (hi : l.canInsert stack expected idx s = true) :
      Consumption l stack expected idx s
        (.ok (.standIn expected s.nextSpan.1)
          (s.note (.inserted { l.mismatch stack expected s with recovery := .inserted } expected idx
            s.position)))
  /-- The call fails. -/
  | raised (hm : ∀ t, s.cursor.next? = some t → l.vocabulary.isA t.kind expected = false)
      (h : l.config.recovery = true →
        l.second? expected s.cursor = none ∧ l.canInsert stack expected idx s = false) :
      Consumption l stack expected idx s (raise stack (l.mismatch stack expected s) s)

theorem second?_eq_some {expected : TokenId} {c c' : Cursor Token} {t : Token}
    (h : l.second? expected c = some (t, c')) :
    ∃ past extra rest, c = ⟨past, extra :: t :: rest⟩ ∧ c' = ⟨t :: extra :: past, rest⟩ ∧
      l.vocabulary.isA t.kind expected = true := by
  obtain ⟨past, _ | ⟨extra, _ | ⟨t', rest⟩⟩⟩ := c
  · simp [second?] at h
  · simp [second?] at h
  · simp only [second?] at h
    split at h
    · rename_i ha
      obtain ⟨rfl, rfl⟩ := Prod.mk.inj (Option.some.inj h)
      exact ⟨past, extra, rest, rfl, rfl, ha⟩
    · cases h

/-- Getting past a token that is not there. -/
theorem consumption_recoverInRule {expected : TokenId} {idx : Nat}
    (hm : ∀ t, s.cursor.next? = some t → l.vocabulary.isA t.kind expected = false) :
    Consumption l stack expected idx s (l.recoverInRule stack expected idx s) := by
  simp only [recoverInRule]
  split
  · rename_i hr
    cases h : l.second? expected s.cursor with
    | some target =>
      obtain ⟨t, c⟩ := target
      obtain ⟨past, extra, rest, hc, rfl, ha⟩ := second?_eq_some h
      exact .deleted hr hc (hm extra (by rw [hc]; rfl)) ha
    | none =>
      simp only
      split
      · rename_i hi
        exact .inserted hr hm h hi
      · rename_i hi
        exact .raised hm fun _ => ⟨h, by simpa using hi⟩
  · rename_i hr
    exact .raised hm fun hr' => absurd hr' hr

theorem consumption (l : Language) (stack : Stack) (expected : TokenId) (idx : Nat)
    (s : ParseState) :
    Consumption l stack expected idx s (l.consume stack expected idx s) := by
  obtain ⟨⟨past, _ | ⟨t, rest⟩⟩, history⟩ := s
  · exact consumption_recoverInRule (by rintro t ⟨⟩)
  · simp only [consume]
    split
    · rename_i ha
      exact .matched rfl ha
    · rename_i ha
      refine consumption_recoverInRule ?_
      rintro t' ⟨⟩
      simpa using ha

/-- A token that is there is passed. -/
theorem consume_eq_ok {expected : TokenId} {idx : Nat} {past rest : List Token} {t : Token}
    (hc : s.cursor = ⟨past, t :: rest⟩) (h : l.vocabulary.isA t.kind expected = true) :
    l.consume stack expected idx s =
      .ok t ⟨⟨t :: past, rest⟩, .consumed s.position :: s.history⟩ := by
  simp only [consume, hc, if_pos h]

/-! ## Giving up a rule -/

theorem resync_cases (l : Language) (stack : Stack) (e : SyntaxError) (s : ParseState) :
    l.resync stack e s = .error (.syntaxError e) s ∨
    ∃ target kind, target = l.resyncPoint stack s.cursor ∧ kind = l.kindAt target ∧
      l.config.recovery = true ∧ (l.frameFollow stack.top).admits l.vocabulary kind = true ∧
      l.resync stack e s = .ok .hole ⟨target, .resumed
        { e with recovery := .resynced (target.position - s.position) } stack kind
          target.position :: s.history⟩ := by
  simp only [resync]
  split
  · exact .inl rfl
  · rename_i hr
    split
    · rename_i ha
      exact .inr ⟨_, _, rfl, rfl, by simpa using hr, ha, rfl⟩
    · exact .inl rfl

/-! ## Skipping after a repetition -/

theorem before_scan {stop giveUp : TokenId → Bool} {eof : TokenId} {past rest : List Token}
    {c : Cursor Token} (h : scan stop giveUp eof past rest = some c) :
    Cursor.Before ⟨past, rest⟩ c := by
  induction rest generalizing past with
  | nil =>
    simp only [scan] at h
    split at h
    · cases h
      exact .refl _
    · cases h
  | cons t rest ih =>
    simp only [scan] at h
    split at h
    · cases h
      exact .refl _
    · split at h
      · cases h
      · exact (Cursor.Before.cons past rest t).trans (ih h)

theorem before_repetitionPoint {branches : List Lookahead} {expected : TokenId} {c : Cursor Token}
    (h : l.repetitionPoint? stack branches expected s = some c) : s.cursor.Before c := by
  simp only [repetitionPoint?] at h
  split at h
  · cases h
  · rename_i past t rest hc
    rw [hc]
    split at h
    · cases h
    · exact (Cursor.Before.cons past rest t).trans (before_scan h)

theorem recoverInRepetition_eq_some {key : DecisionKey} {branches : List Lookahead}
    {s' : ParseState} {resumes : Bool}
    (h : l.recoverInRepetition stack key branches s = some (s', resumes)) :
    ∃ expected idx target, l.repetitionEnd? stack key = some (expected, idx) ∧
      l.config.recovery = true ∧ l.canEndRepetition stack expected idx s = false ∧
      l.repetitionPoint? stack branches expected s = some target ∧
      s' = ⟨target, .skipped { l.mismatch stack expected s with
        recovery := .resynced (target.position - s.position) } key target.position ::
          s.history⟩ ∧
      resumes = l.admitsAny branches (l.kindAt target) := by
  simp only [recoverInRepetition] at h
  split at h
  · cases h
  · rename_i expected idx hend
    split at h
    · cases h
    · rename_i hcan
      split at h
      · cases h
      · rename_i target hpoint
        obtain ⟨rfl, rfl⟩ := Prod.mk.inj (Option.some.inj h)
        simp only [Bool.or_eq_true, Bool.not_eq_true', not_or, Bool.not_eq_false,
          Bool.not_eq_true] at hcan
        exact ⟨expected, idx, target, hend, hcan.1, hcan.2, hpoint, rfl, rfl⟩

/-- Skipping after a repetition leaves an error behind. -/
theorem errors_recoverInRepetition_ne_nil {key : DecisionKey} {branches : List Lookahead}
    {s' : ParseState} {resumes : Bool}
    (h : l.recoverInRepetition stack key branches s = some (s', resumes)) : s'.errors ≠ [] := by
  obtain ⟨expected, idx, target, _, _, _, _, rfl, _⟩ := recoverInRepetition_eq_some h
  rw [ParseState.errors_cons rfl]
  simp

end Language

end TopDown
