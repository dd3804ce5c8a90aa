import TopDown.Proofs.Recovery
import TopDown.Proofs.Samples

/-!
# Decisions depend on the classes of tokens only

Two token lists with the same classes in the same order are parsed in the same steps. A `Veil` hides
what may differ: the offsets always, and the texts and the marks of made-up tokens if it says so.
What the engine does on a state is seen through a veil as what it does on the veiled state
(`Language.consume_veil` and its companions), so runs from states that look the same go on looking
the same (`Language.Runs.exists_veiled`).
-/

namespace TopDown

/-- What is hidden of tokens besides their offsets. Their classes never are. -/
structure Veil where
  /-- Texts are hidden, and so is the token found in an error. -/
  texts : Bool
  /-- It is hidden whether a token was made up. -/
  marks : Bool

namespace Veil

variable (v : Veil)

/-- The token as far as it can be seen. -/
def token (t : Token) : Token :=
  ⟨t.kind, if v.texts then "" else t.text, 0, 0, if v.marks then false else t.inserted⟩

/-- The token found in an error as far as it can be seen. -/
def found (text : String) : String := if v.texts then "" else text

/-- What is wrong with the input, as far as it can be seen. -/
def errorKind : SyntaxErrorKind → SyntaxErrorKind
  | .mismatchedToken expected found => .mismatchedToken expected (v.found found)
  | .noViableAlternative label expected found => .noViableAlternative label expected (v.found found)
  | .notAllInputParsed found => .notAllInputParsed (v.found found)

/-- The syntax error without its span. -/
def syntaxError (e : SyntaxError) : SyntaxError := ⟨v.errorKind e.kind, e.rule, 0, 0, e.recovery⟩

/-- The fatal error as far as it can be seen. -/
def fatalError : FatalError → FatalError
  | .unrecoverable e => .unrecoverable (v.syntaxError e)
  | e => e

/-- The error as far as it can be seen. -/
def error : ParseError → ParseError
  | .syntaxError e => .syntaxError (v.syntaxError e)
  | .fatal e => .fatal (v.fatalError e)

mutual

/-- The tree with what can be seen of its tokens and errors. -/
def tree : Tree → Tree
  | .token t => .token (v.token t)
  | .node rule parts => .node rule (trees parts)
  | .hole => .hole
  | .taken parts => .taken (trees parts)
  | .leftOut => .leftOut
  | .rounds parts => .rounds (rounds parts)
  | .chosen index parts => .chosen index (trees parts)
  | .peeked t => .peeked (t.map v.token)
  | .errorCount n => .errorCount n
  | .attempted parts => .attempted (trees parts)
  | .abandoned e => .abandoned (v.error e)

/-- The trees of a sequence. -/
def trees : List Tree → List Tree
  | [] => []
  | t :: rest => tree t :: trees rest

/-- The trees of the rounds of a repetition. -/
def rounds : List (List Tree) → List (List Tree)
  | [] => []
  | parts :: rest => trees parts :: rounds rest

end

/-- The event as far as it can be seen. -/
def event : Event → Event
  | .raised e stack position => .raised (v.syntaxError e) stack position
  | .deleted e position => .deleted (v.syntaxError e) position
  | .inserted e kind idx position => .inserted (v.syntaxError e) kind idx position
  | .resumed e stack kind position => .resumed (v.syntaxError e) stack kind position
  | .skipped e key position => .skipped (v.syntaxError e) key position
  | e => e

/-- The place between two tokens, with what can be seen of the tokens. -/
def cursor (c : Cursor Token) : Cursor Token := ⟨c.past.map v.token, c.rest.map v.token⟩

/-- The state as far as it can be seen. -/
def state (s : ParseState) : ParseState := ⟨v.cursor s.cursor, s.history.map v.event⟩

/-- The result with `f` for what can be seen of its value. -/
def result {α : Type} (f : α → α) : Result α → Result α
  | .ok a s => .ok (f a) (v.state s)
  | .error e s => .error (v.error e) (v.state s)

/-- The outcome of a parse as far as it can be seen. -/
def output (o : ParseOutput Tree) : ParseOutput Tree :=
  ⟨o.value.map v.tree, o.errors.map v.syntaxError, o.fatal.map v.fatalError⟩

/-- The outcome and the events as far as they can be seen. -/
def run (r : Language.Run) : Language.Run := ⟨v.output r.output, r.events.map v.event⟩

/-- Only the offsets are hidden. -/
def offsets : Veil := ⟨false, false⟩

/-- The offsets and the texts are hidden. -/
def offsetsAndTexts : Veil := ⟨true, false⟩

/-- All but the classes is hidden. -/
def allButKinds : Veil := ⟨true, true⟩

variable {v : Veil} {s s' : ParseState}

/-! ## Looking twice -/

@[simp] theorem token_token (t : Token) : v.token (v.token t) = v.token t := by
  cases v with
  | mk texts marks => cases texts <;> cases marks <;> rfl

@[simp] theorem found_found (text : String) : v.found (v.found text) = v.found text := by
  cases v with
  | mk texts marks => cases texts <;> rfl

@[simp] theorem syntaxError_syntaxError (e : SyntaxError) :
    v.syntaxError (v.syntaxError e) = v.syntaxError e := by
  obtain ⟨kind, rule, start, stop, recovery⟩ := e
  cases kind <;> simp only [syntaxError, errorKind, found_found]

@[simp] theorem event_event (e : Event) : v.event (v.event e) = v.event e := by
  cases e <;> simp only [event, syntaxError_syntaxError]

@[simp] theorem cursor_cursor (c : Cursor Token) : v.cursor (v.cursor c) = v.cursor c := by
  simp only [cursor, List.map_map, Function.comp_def, token_token]

@[simp] theorem state_state (s : ParseState) : v.state (v.state s) = v.state s := by
  simp only [state, cursor_cursor, List.map_map, Function.comp_def, event_event]

/-! ## What can be seen of a state -/

@[simp] theorem kind_token (t : Token) : (v.token t).kind = t.kind := rfl

/-- Tokens look the same if they agree in their classes and in what is not hidden. -/
theorem map_token_congr {ts us : List Token} (hkinds : ts.map (·.kind) = us.map (·.kind))
    (htexts : v.texts = false → ts.map (·.text) = us.map (·.text))
    (hmarks : v.marks = false → ts.map (·.inserted) = us.map (·.inserted)) :
    ts.map v.token = us.map v.token := by
  induction ts generalizing us with
  | nil =>
    obtain rfl := List.map_eq_nil_iff.1 hkinds.symm
    rfl
  | cons t ts ih =>
    cases us with
    | nil => cases hkinds
    | cons u us =>
      simp only [List.map_cons, List.cons.injEq] at hkinds htexts hmarks ⊢
      refine ⟨?_, ih hkinds.2 (fun h => (htexts h).2) fun h => (hmarks h).2⟩
      cases v with
      | mk texts marks => cases texts <;> cases marks <;> simp_all [token]

@[simp] theorem position_state : (v.state s).position = s.position := List.length_map ..

@[simp] theorem length_rest_state : (v.state s).cursor.rest.length = s.cursor.rest.length :=
  List.length_map ..

theorem next?_cursor (c : Cursor Token) : (v.cursor c).next? = c.next?.map v.token := List.head?_map

theorem peek?_cursor (c : Cursor Token) (k : Nat) :
    (v.cursor c).peek? k = (c.peek? k).map v.token := by
  cases k with
  | zero => exact List.head?_map
  | succ k => exact List.getElem?_map

@[simp] theorem nextKind_state (vocabulary : Vocabulary) :
    (v.state s).nextKind vocabulary = s.nextKind vocabulary := by
  simp only [ParseState.nextKind, state, next?_cursor]
  cases s.cursor.next? <;> rfl

theorem found_text {t u : Token} (h : v.token u = v.token t) :
    v.found s!"'{u.text}'" = v.found s!"'{t.text}'" := by
  obtain ⟨-, htext, -⟩ := Token.mk.inj h
  cases v with
  | mk texts marks =>
    cases texts with
    | true => rfl
    | false =>
      have htext' : u.text = t.text := htext
      rw [htext']

theorem found_describeNext : v.found (v.state s).describeNext = v.found s.describeNext := by
  simp only [ParseState.describeNext, state, next?_cursor]
  cases s.cursor.next? with
  | none => rfl
  | some t => exact found_text (token_token t)

theorem recovered?_event (e : Event) : (v.event e).recovered? = e.recovered?.map v.syntaxError := by
  cases e <;> rfl

theorem errors_state : (v.state s).errors = s.errors.map v.syntaxError := by
  have hrecovered : Event.recovered? ∘ v.event = fun e => e.recovered?.map v.syntaxError :=
    funext recovered?_event
  rw [ParseState.errors_eq, ParseState.errors_eq, List.map_reverse, List.map_filterMap]
  show (List.filterMap _ (s.history.map v.event)).reverse = _
  rw [List.filterMap_map, hrecovered]

/-- A state after one more event looks the same however the state before was looked at. -/
theorem state_moved {e e' : Event} (h : v.event e' = v.event e) (c : Cursor Token) :
    v.state ⟨v.cursor c, e' :: (v.state s).history⟩ = v.state ⟨c, e :: s.history⟩ := by
  simp only [state, cursor_cursor, List.map_cons, h, List.map_map, Function.comp_def, event_event]

theorem state_note {e e' : Event} (h : v.event e' = v.event e) :
    v.state ((v.state s).note e') = v.state (s.note e) :=
  state_moved h s.cursor

theorem syntaxError_at (stack : Stack) {kind kind' : SyntaxErrorKind}
    (h : v.errorKind kind' = v.errorKind kind) :
    v.syntaxError ((v.state s).syntaxError stack kind') =
      v.syntaxError (s.syntaxError stack kind) := by
  simp only [syntaxError, ParseState.syntaxError, h]

/-! ## States that look the same -/

theorem nextKind_congr (h : v.state s' = v.state s) (vocabulary : Vocabulary) :
    s'.nextKind vocabulary = s.nextKind vocabulary := by
  rw [← nextKind_state (v := v), h, nextKind_state]

theorem position_congr (h : v.state s' = v.state s) : s'.position = s.position := by
  rw [← position_state (v := v), h, position_state]

theorem rest_length_congr (h : v.state s' = v.state s) :
    s'.cursor.rest.length = s.cursor.rest.length := by
  rw [← length_rest_state (v := v), h, length_rest_state]

theorem next?_congr (h : v.state s' = v.state s) :
    s'.cursor.next?.map v.token = s.cursor.next?.map v.token := by
  have hcursor : v.cursor s'.cursor = v.cursor s.cursor := congrArg ParseState.cursor h
  rw [← next?_cursor, hcursor, next?_cursor]

theorem peek?_congr (h : v.state s' = v.state s) (k : Nat) :
    (s'.cursor.peek? k).map v.token = (s.cursor.peek? k).map v.token := by
  have hcursor : v.cursor s'.cursor = v.cursor s.cursor := congrArg ParseState.cursor h
  rw [← peek?_cursor, hcursor, peek?_cursor]

theorem errors_congr (h : v.state s' = v.state s) :
    s'.errors.map v.syntaxError = s.errors.map v.syntaxError := by
  rw [← errors_state, h, errors_state]

theorem note_congr (h : v.state s' = v.state s) {e e' : Event} (he : v.event e' = v.event e) :
    v.state (s'.note e') = v.state (s.note e) := by
  rw [← state_note (s := s') rfl, h, state_note he]

/-! ## Moving on under a veil -/

theorem seek_cursor (stop : TokenId → Bool) (c : Cursor Token) :
    (v.cursor c).seek (fun t => stop t.kind) = v.cursor (c.seek fun t => stop t.kind) := by
  have hgo : ∀ past rest : List Token, Cursor.seek.go (fun t => stop t.kind) (past.map v.token)
      (rest.map v.token) = v.cursor (Cursor.seek.go (fun t => stop t.kind) past rest) := by
    intro past rest
    induction rest generalizing past with
    | nil => rfl
    | cons t rest ih =>
      by_cases hstop : stop t.kind = true
      · simp only [List.map_cons, Cursor.seek.go, kind_token, hstop, if_true, cursor]
      · simp only [List.map_cons, Cursor.seek.go, kind_token, hstop, Bool.false_eq_true, if_false]
        exact ih (t :: past)
  exact hgo c.past c.rest

theorem scan_map (stop giveUp : TokenId → Bool) (eof : TokenId) (past rest : List Token) :
    Language.scan stop giveUp eof (past.map v.token) (rest.map v.token) =
      (Language.scan stop giveUp eof past rest).map v.cursor := by
  induction rest generalizing past with
  | nil =>
    simp only [List.map_nil, Language.scan]
    split <;> rfl
  | cons t rest ih =>
    by_cases hstop : stop t.kind = true
    · simp only [List.map_cons, Language.scan, kind_token, hstop, if_true, Option.map_some, cursor]
    · by_cases hgive : giveUp t.kind = true
      · simp only [List.map_cons, Language.scan, kind_token, hstop, hgive, Bool.false_eq_true,
          if_true, if_false, Option.map_none]
      · simp only [List.map_cons, Language.scan, kind_token, hstop, hgive, Bool.false_eq_true,
          if_false]
        exact ih (t :: past)

/-! ## Results -/

theorem state_result {α : Type} {f : α → α} (r : Result α) :
    (v.result f r).state = v.state r.state := by
  cases r <;> rfl

theorem result_map {α β : Type} {f : α → α} {g : β → β} {k m : α → β}
    (hk : ∀ a, g (k a) = m (f a)) (r : Result α) :
    v.result g (r.map k) = (v.result f r).map m := by
  cases r with
  | ok a s => simp only [result, Result.map_ok, hk]
  | error e s => rfl

theorem trees_append (parts more : List Tree) :
    v.trees (parts ++ more) = v.trees parts ++ v.trees more := by
  induction parts with
  | nil => rfl
  | cons t rest ih => simp only [List.cons_append, trees, ih]

theorem trees_addRound (parts more : List Tree) :
    v.trees (addRound parts more) = addRound (v.trees parts) (v.trees more) := by
  match more with
  | [] => rfl
  | [t] => cases t <;> rfl
  | t :: t' :: rest => cases t <;> rfl

end Veil

namespace Language

variable {l : Language} {v : Veil} {room : Nat} {stack : Stack} {steps : List Step}
  {s s' : ParseState} {r : Result (List Tree)}

/-! ## The primitives of the engine on a veiled state -/

theorem mismatch_veil (expected : TokenId) :
    v.syntaxError (l.mismatch stack expected (v.state s)) =
      v.syntaxError (l.mismatch stack expected s) := by
  refine Veil.syntaxError_at stack ?_
  simp only [Veil.errorKind, Veil.found_describeNext]

theorem noViableAlternative_veil (label : Option String) (branches : List Lookahead) :
    v.syntaxError (l.noViableAlternative stack label branches (v.state s)) =
      v.syntaxError (l.noViableAlternative stack label branches s) := by
  refine Veil.syntaxError_at stack ?_
  simp only [Veil.errorKind, Veil.found_describeNext]

/-- What was done about an error does not change how it is seen. -/
theorem recovery_veil {e e' : SyntaxError} (h : v.syntaxError e' = v.syntaxError e)
    (recovery : Recovery) :
    v.syntaxError { e' with recovery } = v.syntaxError { e with recovery } := by
  obtain ⟨hkind, hrule, -, -, -⟩ := SyntaxError.mk.inj h
  simp only [Veil.syntaxError, hkind, hrule]

theorem raise_veil {α : Type} (f : α → α) {e e' : SyntaxError}
    (h : v.syntaxError e' = v.syntaxError e) :
    v.result f (raise stack e' (v.state s)) = v.result f (raise stack e s) := by
  have hevent : v.event (.raised e' stack (v.state s).position) =
      v.event (.raised e stack s.position) := by
    simp only [Veil.event, h, Veil.position_state]
  simp only [raise, Veil.result, Veil.error, h, Veil.state_note hevent]

theorem second?_veil (expected : TokenId) (c : Cursor Token) :
    l.second? expected (v.cursor c) =
      (l.second? expected c).map fun p => (v.token p.1, v.cursor p.2) := by
  obtain ⟨past, _ | ⟨extra, _ | ⟨t, rest⟩⟩⟩ := c
  · rfl
  · rfl
  · by_cases ha : l.vocabulary.isA t.kind expected = true
    · simp only [Veil.cursor, List.map_cons, second?, Veil.kind_token, ha, if_true, Option.map_some]
    · simp only [Veil.cursor, List.map_cons, second?, Veil.kind_token, ha, Bool.false_eq_true,
        if_false, Option.map_none]

theorem canInsert_veil (expected : TokenId) (idx : Nat) :
    l.canInsert stack expected idx (v.state s) = l.canInsert stack expected idx s := by
  simp only [canInsert, Veil.nextKind_state]

theorem recoverInRule_veil (expected : TokenId) (idx : Nat) :
    v.result v.token (l.recoverInRule stack expected idx (v.state s)) =
      v.result v.token (l.recoverInRule stack expected idx s) := by
  have herror : v.syntaxError (l.mismatch stack expected (v.state s)) =
      v.syntaxError (l.mismatch stack expected s) := mismatch_veil expected
  have hsecond : l.second? expected (v.state s).cursor = _ := second?_veil expected s.cursor
  simp only [recoverInRule, hsecond, canInsert_veil, Veil.position_state]
  by_cases hon : l.config.recovery = true
  · simp only [hon, if_true]
    cases l.second? expected s.cursor with
    | some p =>
      have hevent : v.event (.deleted { l.mismatch stack expected (v.state s) with
            recovery := .deleted } s.position) =
          v.event (.deleted { l.mismatch stack expected s with
            recovery := .deleted } s.position) := by
        simp only [Veil.event, recovery_veil herror]
      simp only [Option.map_some, Veil.result, Veil.token_token, Veil.state_moved hevent]
    | none =>
      by_cases hinsert : l.canInsert stack expected idx s = true
      · have hevent : v.event (.inserted { l.mismatch stack expected (v.state s) with
              recovery := .inserted } expected idx s.position) =
            v.event (.inserted { l.mismatch stack expected s with
              recovery := .inserted } expected idx s.position) := by
          simp only [Veil.event, recovery_veil herror]
        simp only [Option.map_none, hinsert, if_true, Veil.result, Veil.state_note hevent]
        rfl
      · simp only [Option.map_none, hinsert, Bool.false_eq_true, if_false]
        exact raise_veil v.token herror
  · simp only [hon, Bool.false_eq_true, if_false]
    exact raise_veil v.token herror

theorem consume_veil (expected : TokenId) (idx : Nat) :
    v.result v.token (l.consume stack expected idx (v.state s)) =
      v.result v.token (l.consume stack expected idx s) := by
  have hrecover : v.result v.token (l.recoverInRule stack expected idx (v.state s)) =
      v.result v.token (l.recoverInRule stack expected idx s) := recoverInRule_veil expected idx
  obtain ⟨⟨past, _ | ⟨t, rest⟩⟩, history⟩ := s
  · exact hrecover
  · by_cases ha : l.vocabulary.isA t.kind expected = true
    · have hmoved := Veil.state_moved (v := v) (s := ⟨⟨past, t :: rest⟩, history⟩)
        (e := .consumed past.length) rfl ⟨t :: past, rest⟩
      have hlook : l.consume stack expected idx (v.state ⟨⟨past, t :: rest⟩, history⟩) =
          .ok (v.token t) ⟨v.cursor ⟨t :: past, rest⟩, .consumed past.length ::
            (v.state ⟨⟨past, t :: rest⟩, history⟩).history⟩ := by
        simp only [consume, Veil.state, Veil.cursor, List.map_cons, Veil.kind_token, ha, if_true,
          ParseState.position, Cursor.position, List.length_map]
      rw [hlook, Veil.result, hmoved, Veil.token_token]
      simp only [consume, ha, if_true]
      rfl
    · simp only [consume, Veil.state, Veil.cursor, List.map_cons, Veil.kind_token, ha,
        Bool.false_eq_true, if_false]
      exact hrecover

theorem resyncPoint_veil (c : Cursor Token) :
    l.resyncPoint stack (v.cursor c) = v.cursor (l.resyncPoint stack c) :=
  Veil.seek_cursor (fun kind => (l.resyncSet stack).admits l.vocabulary kind) c

theorem kindAt_veil (c : Cursor Token) : l.kindAt (v.cursor c) = l.kindAt c := by
  simp only [kindAt, Veil.next?_cursor]
  cases c.next? <;> rfl

theorem position_veil (c : Cursor Token) : (v.cursor c).position = c.position := List.length_map ..

/-- Giving up a rule looks the same after errors that look the same. -/
theorem resync_veil {e e' : SyntaxError} (h : v.syntaxError e' = v.syntaxError e) :
    v.result v.tree (l.resync stack e' (v.state s)) = v.result v.tree (l.resync stack e s) := by
  have hpoint : l.resyncPoint stack (v.state s).cursor = _ := resyncPoint_veil s.cursor
  simp only [resync, hpoint, kindAt_veil, position_veil, Veil.position_state]
  by_cases hon : l.config.recovery = true
  · simp only [hon, Bool.not_true, Bool.false_eq_true, if_false]
    split
    · have hevent (recovery : Recovery) (kind : TokenId) (position : Nat) :
          v.event (.resumed { e' with recovery } stack kind position) =
            v.event (.resumed { e with recovery } stack kind position) := by
        simp only [Veil.event, recovery_veil h]
      simp only [Veil.result, Veil.state_moved (hevent _ _ _)]
    · simp only [Veil.result, Veil.error, h, Veil.state_state]
  · simp only [hon, Bool.not_false, if_true, Veil.result, Veil.error, h, Veil.state_state]

theorem repetitionPoint?_veil (branches : List Lookahead) (expected : TokenId) :
    l.repetitionPoint? stack branches expected (v.state s) =
      (l.repetitionPoint? stack branches expected s).map v.cursor := by
  have hlimit : l.kindAt (l.resyncPoint stack (v.state s).cursor) =
      l.kindAt (l.resyncPoint stack s.cursor) := by
    rw [show (v.state s).cursor = v.cursor s.cursor from rfl, resyncPoint_veil, kindAt_veil]
  simp only [repetitionPoint?, hlimit]
  generalize l.kindAt (l.resyncPoint stack s.cursor) = limit
  obtain ⟨⟨past, _ | ⟨t, rest⟩⟩, history⟩ := s
  · rfl
  · by_cases hgive : (t.kind == limit || t.kind == l.vocabulary.eof) = true
    · simp only [Veil.state, Veil.cursor, List.map_cons, Veil.kind_token, hgive, if_true,
        Option.map_none]
    · simp only [Veil.state, Veil.cursor, List.map_cons, Veil.kind_token, hgive,
        Bool.false_eq_true, if_false]
      exact Veil.scan_map _ _ _ (t :: past) rest

theorem canEndRepetition_veil (expected : TokenId) (idx : Option Nat) :
    l.canEndRepetition stack expected idx (v.state s) =
      l.canEndRepetition stack expected idx s := by
  have hsecond : l.comesSecond expected (v.state s) = l.comesSecond expected s := by
    simp only [comesSecond, Veil.state, Veil.peek?_cursor]
    cases s.cursor.peek? 2 <;> rfl
  simp only [canEndRepetition, Veil.nextKind_state, hsecond, canInsert_veil]

/-- Skipping after a repetition looks the same. -/
theorem recoverInRepetition_veil (key : DecisionKey) (branches : List Lookahead) :
    (l.recoverInRepetition stack key branches (v.state s)).map (Prod.map v.state id) =
      (l.recoverInRepetition stack key branches s).map (Prod.map v.state id) := by
  simp only [recoverInRepetition]
  cases l.repetitionEnd? stack key with
  | none => rfl
  | some p =>
    simp only [canEndRepetition_veil, repetitionPoint?_veil, Veil.position_state]
    split
    · rfl
    · cases l.repetitionPoint? stack branches p.1 s with
      | none => rfl
      | some target =>
        have herror : v.syntaxError (l.mismatch stack p.1 (v.state s)) =
            v.syntaxError (l.mismatch stack p.1 s) := mismatch_veil p.1
        have hevent (recovery : Recovery) :
            v.event (.skipped { l.mismatch stack p.1 (v.state s) with recovery } key
                target.position) =
              v.event (.skipped { l.mismatch stack p.1 s with recovery } key target.position) := by
          simp only [Veil.event, recovery_veil herror]
        simp only [Option.map_some, Prod.map, kindAt_veil, position_veil,
          Veil.state_moved (hevent _)]

theorem recoverInRepetition_congr (h : v.state s' = v.state s) (key : DecisionKey)
    (branches : List Lookahead) :
    (l.recoverInRepetition stack key branches s').map (Prod.map v.state id) =
      (l.recoverInRepetition stack key branches s).map (Prod.map v.state id) := by
  rw [← recoverInRepetition_veil, h, recoverInRepetition_veil]

theorem recoverInRepetition_eq_none_congr (h : v.state s' = v.state s) {key : DecisionKey}
    {branches : List Lookahead} (hr : l.recoverInRepetition stack key branches s = none) :
    l.recoverInRepetition stack key branches s' = none := by
  have hsame : (l.recoverInRepetition stack key branches s').map (Prod.map v.state id) =
      (l.recoverInRepetition stack key branches s).map (Prod.map v.state id) :=
    recoverInRepetition_congr h key branches
  rwa [hr, Option.map_none, Option.map_eq_none_iff] at hsame

theorem recoverInRepetition_eq_some_congr (h : v.state s' = v.state s) {key : DecisionKey}
    {branches : List Lookahead} {s₁ : ParseState} {resumes : Bool}
    (hr : l.recoverInRepetition stack key branches s = some (s₁, resumes)) :
    ∃ s₁', l.recoverInRepetition stack key branches s' = some (s₁', resumes) ∧
      v.state s₁' = v.state s₁ := by
  have hsame : (l.recoverInRepetition stack key branches s').map (Prod.map v.state id) =
      (l.recoverInRepetition stack key branches s).map (Prod.map v.state id) :=
    recoverInRepetition_congr h key branches
  rw [hr, Option.map_some, Option.map_eq_some_iff] at hsame
  obtain ⟨⟨s₁', resumes'⟩, hr', hpair⟩ := hsame
  obtain ⟨hstate, rfl⟩ := Prod.mk.inj hpair
  exact ⟨s₁', hr', hstate⟩

theorem predicts_congr (h : v.state s' = v.state s) (branches : List Lookahead) :
    l.predicts branches s' = l.predicts branches s := by
  rw [predicts, predicts, Veil.nextKind_congr h]

/-! ## Runs from states that look the same -/

/-- A run from a state that looks the same comes to a result that looks the same. -/
def Mimics (l : Language) (v : Veil) (room : Nat) (stack : Stack) (steps : List Step)
    (s' : ParseState) (r : Result (List Tree)) : Prop :=
  ∃ r', Runs l room stack steps s' r' ∧ v.result v.trees r' = v.result v.trees r

theorem Mimics.map {f f' k : List Tree → List Tree}
    (hf : ∀ parts, v.trees (f parts) = k (v.trees parts))
    (hf' : ∀ parts, v.trees (f' parts) = k (v.trees parts)) {stack' : Stack} {steps' : List Step}
    {s₁ s₂ : ParseState}
    (hruns : ∀ r', Runs l room stack steps s₁ r' → Runs l room stack' steps' s₂ (r'.map f'))
    (h : l.Mimics v room stack steps s₁ r) : l.Mimics v room stack' steps' s₂ (r.map f) := by
  obtain ⟨r', hr', hveil⟩ := h
  refine ⟨r'.map f', hruns r' hr', ?_⟩
  rw [Veil.result_map hf, Veil.result_map hf', hveil]

/-- A result that looks like a value is one. -/
theorem Mimics.ok {parts : List Tree} {s₁ : ParseState}
    (h : l.Mimics v room stack steps s' (.ok parts s₁)) :
    ∃ parts' s₁', Runs l room stack steps s' (.ok parts' s₁') ∧
      v.trees parts' = v.trees parts ∧ v.state s₁' = v.state s₁ := by
  obtain ⟨r', hr', hveil⟩ := h
  cases r' with
  | ok parts' s₁' =>
    obtain ⟨hparts, hstate⟩ := EStateM.Result.ok.inj hveil
    exact ⟨parts', s₁', hr', hparts, hstate⟩
  | error e s₁' => cases hveil

/-- A result that looks like an error is one. -/
theorem Mimics.error {e : ParseError} {s₁ : ParseState}
    (h : l.Mimics v room stack steps s' (.error e s₁)) :
    ∃ e' s₁', Runs l room stack steps s' (.error e' s₁') ∧
      v.error e' = v.error e ∧ v.state s₁' = v.state s₁ := by
  obtain ⟨r', hr', hveil⟩ := h
  cases r' with
  | ok parts' s₁' => cases hveil
  | error e' s₁' =>
    obtain ⟨herror, hstate⟩ := EStateM.Result.error.inj hveil
    exact ⟨e', s₁', hr', herror, hstate⟩

/-- The end of an invocation looks the same after results that look the same. -/
theorem leave_veil {r r' : Result (List Tree)} (h : v.result v.trees r' = v.result v.trees r) :
    v.result v.tree (l.leave stack r') = v.result v.tree (l.leave stack r) := by
  match r, r' with
  | .ok parts s, .ok parts' s' =>
    obtain ⟨hparts, hstate⟩ := EStateM.Result.ok.inj h
    simp only [leave, Veil.result, Veil.tree, hparts, hstate]
  | .error (.syntaxError e) s, .error (.syntaxError e') s' =>
    obtain ⟨herror, hstate⟩ := EStateM.Result.error.inj h
    have herror' : v.syntaxError e' = v.syntaxError e := ParseError.syntaxError.inj herror
    simp only [leave]
    split
    · simp only [Veil.result, herror, hstate]
    · rw [← resync_veil rfl, hstate, resync_veil herror']
  | .error (.fatal e) s, .error (.fatal e') s' =>
    obtain ⟨herror, hstate⟩ := EStateM.Result.error.inj h
    simp only [leave, Veil.result, herror, hstate]
  | .ok parts s, .error e' s' => cases h
  | .error e s, .ok parts' s' => cases h
  | .error (.syntaxError e) s, .error (.fatal e') s' => cases h
  | .error (.fatal e) s, .error (.syntaxError e') s' => cases h

/-- A run from a state that looks the same takes the same steps. -/
theorem Runs.mimics (h : Runs l room stack steps s r) (hs : v.state s' = v.state s) :
    l.Mimics v room stack steps s' r := by
  induction h generalizing s' with
  | nil => exact ⟨_, .nil, by simp only [Veil.result, hs]⟩
  | cons _ _ ihhead ihtail =>
    obtain ⟨parts', s₁', hhead, hparts, hstate⟩ := (ihhead hs).ok
    exact (ihtail hstate).map (fun _ => v.trees_append _ _)
      (fun _ => by rw [Veil.trees_append, hparts]) fun _ => .cons hhead
  | fails _ ih =>
    obtain ⟨e', s₁', hhead, herror, hstate⟩ := (ih hs).error
    exact ⟨_, .fails hhead, by simp only [Veil.result, herror, hstate]⟩
  | consume =>
    refine ⟨_, .consume, ?_⟩
    rw [Veil.result_map (f := v.token) (m := fun t => [.token t]) fun _ => rfl,
      Veil.result_map (f := v.token) (m := fun t => [.token t]) fun _ => rfl,
      ← consume_veil, hs, consume_veil]
  | undeclared hr => exact ⟨_, .undeclared hr, by simp only [Veil.result, hs]⟩
  | @refused _ _ _ r s hr =>
    refine ⟨_, .refused hr, ?_⟩
    simp only [Veil.result, Veil.position_congr hs, Veil.note_congr hs rfl]
  | @entered room stack name idx r s inner result hr hinner _ ih =>
    -- the stack of the invocation holds the position, which can be seen
    rw [← Veil.position_congr hs] at hinner
    obtain ⟨result', hbody, hveil⟩ := ih (Veil.note_congr hs rfl)
    refine ⟨_, .entered hr hinner hbody, ?_⟩
    rw [Veil.result_map (f := v.tree) (m := fun t => [t]) fun _ => rfl,
      Veil.result_map (f := v.tree) (m := fun t => [t]) fun _ => rfl, leave_veil hveil]
  | noOption hb => exact ⟨_, .noOption hb, by simp only [Veil.result, hs]⟩
  | leftOut hb hp =>
    rw [← predicts_congr hs] at hp
    exact ⟨_, .leftOut hb hp, by simp only [Veil.result, hs]⟩
  | taken hb hp _ ih =>
    rw [← predicts_congr hs] at hp
    exact (ih hs).map (k := fun parts => [.taken parts]) (fun _ => rfl) (fun _ => rfl)
      fun _ => .taken hb hp
  | noMany hb => exact ⟨_, .noMany hb, by simp only [Veil.result, hs]⟩
  | stopped hb hp hr =>
    rw [← predicts_congr hs] at hp
    have hskip := recoverInRepetition_eq_none_congr hs hr
    exact ⟨_, .stopped hb hp hskip, by simp only [Veil.result, hs]⟩
  | skipped hb hp hr =>
    rw [← predicts_congr hs] at hp
    obtain ⟨s₁', hr', hstate⟩ := recoverInRepetition_eq_some_congr hs hr
    exact ⟨_, .skipped hb hp hr', by simp only [Veil.result, hstate]⟩
  | resumed hb hp hr _ ih =>
    rw [← predicts_congr hs] at hp
    obtain ⟨s₁', hr', hstate⟩ := recoverInRepetition_eq_some_congr hs hr
    obtain ⟨r', hagain, hveil⟩ := ih hstate
    exact ⟨r', .resumed hb hp hr' hagain, hveil⟩
  | round hb hp _ progress _ ih ihagain =>
    rw [← predicts_congr hs] at hp
    obtain ⟨parts', s₁', hbody, hparts, hstate⟩ := (ih hs).ok
    -- whether the round got on is seen from how many tokens are left
    rw [← Veil.rest_length_congr hs, ← Veil.rest_length_congr hstate] at progress
    exact (ihagain hstate).map (fun _ => v.trees_addRound _ _)
      (fun _ => by rw [Veil.trees_addRound, hparts]) fun _ => .round hb hp hbody progress
  | stalled hb hp _ stall ih =>
    rw [← predicts_congr hs] at hp
    obtain ⟨parts', s₁', hbody, -, hstate⟩ := (ih hs).ok
    rw [← Veil.rest_length_congr hs, ← Veil.rest_length_congr hstate] at stall
    exact ⟨_, .stalled hb hp hbody stall, by simp only [Veil.result, hstate]⟩
  | roundFails hb hp _ ih =>
    rw [← predicts_congr hs] at hp
    obtain ⟨e', s₁', hbody, herror, hstate⟩ := (ih hs).error
    exact ⟨_, .roundFails hb hp hbody, by simp only [Veil.result, herror, hstate]⟩
  | noChoice hb => exact ⟨_, .noChoice hb, by simp only [Veil.result, hs]⟩
  | unviable hb hc =>
    rw [← Veil.nextKind_congr hs] at hc
    refine ⟨_, .unviable hb hc, ?_⟩
    rw [← raise_veil _ rfl, hs, raise_veil _ ?_]
    rw [← noViableAlternative_veil, hs, noViableAlternative_veil]
  | chosen hb hc hi _ ih =>
    rw [← Veil.nextKind_congr hs] at hc
    exact (ih hs).map (k := fun parts => [.chosen _ parts]) (fun _ => rfl) (fun _ => rfl)
      fun _ => .chosen hb hc hi
  | peek =>
    refine ⟨_, .peek, ?_⟩
    simp only [Veil.result, Veil.trees, Veil.tree, Veil.peek?_congr hs, hs]
  | errorCount =>
    refine ⟨_, .errorCount, ?_⟩
    have hlength := congrArg List.length (Veil.errors_congr hs)
    rw [List.length_map, List.length_map] at hlength
    simp only [Veil.result, hlength, hs]
  | live _ ih =>
    obtain ⟨r', hbody, hveil⟩ := ih hs
    exact ⟨r', .live hbody, hveil⟩
  | recorded => exact ⟨_, .recorded, by simp only [Veil.result, hs]⟩
  | attempted _ ih =>
    obtain ⟨parts', s₁', hbody, hparts, hstate⟩ := (ih hs).ok
    exact ⟨_, .attempted hbody, by simp only [Veil.result, Veil.trees, Veil.tree, hparts, hstate]⟩
  | abandoned _ ih =>
    obtain ⟨e', s₁', hbody, herror, hstate⟩ := (ih hs).error
    exact ⟨_, .abandoned hbody, by simp only [Veil.result, Veil.trees, Veil.tree, herror, hstate]⟩
  | fail => exact ⟨_, .fail, by simp only [Veil.result, hs]⟩

/-! ## Whole parses -/

theorem finish_veil {start : String} {r r' : Result Tree}
    (h : v.result v.tree r' = v.result v.tree r) :
    v.output (finish start r') = v.output (finish start r) := by
  match r, r' with
  | .ok value s, .ok value' s' =>
    obtain ⟨hvalue, hstate⟩ := EStateM.Result.ok.inj h
    have hnext := Veil.next?_congr hstate
    have herrors := Veil.errors_congr hstate
    cases hextra : s.cursor.next? with
    | none =>
      rw [hextra, Option.map_none, Option.map_eq_none_iff] at hnext
      simp only [finish, hextra, hnext, Veil.output, Option.map_some, Option.map_none, hvalue,
        herrors]
    | some extra =>
      rw [hextra, Option.map_some, Option.map_eq_some_iff] at hnext
      obtain ⟨extra', hextra', htoken⟩ := hnext
      simp only [finish, hextra, hextra', Veil.output, Option.map_some, Option.map_none, hvalue,
        List.map_append, List.map_cons, List.map_nil, herrors, Veil.syntaxError, Veil.errorKind,
        Veil.found_text htoken]
  | .error (.syntaxError e) s, .error (.syntaxError e') s' =>
    obtain ⟨herror, hstate⟩ := EStateM.Result.error.inj h
    have herror' : v.syntaxError e' = v.syntaxError e := ParseError.syntaxError.inj herror
    simp only [finish, Veil.output, Option.map_none, Option.map_some, Veil.fatalError,
      Veil.errors_congr hstate, Veil.rest_length_congr hstate, recovery_veil herror']
  | .error (.fatal e) s, .error (.fatal e') s' =>
    obtain ⟨herror, hstate⟩ := EStateM.Result.error.inj h
    have herror' : v.fatalError e' = v.fatalError e := ParseError.fatal.inj herror
    simp only [finish, Veil.output, Option.map_none, Option.map_some, Veil.errors_congr hstate,
      herror']
  | .ok value s, .error e' s' => cases h
  | .error e s, .ok value' s' => cases h
  | .error (.syntaxError e) s, .error (.fatal e') s' => cases h
  | .error (.fatal e) s, .error (.syntaxError e') s' => cases h

/-- Tokens that look the same through a veil are parsed in runs that look the same. -/
theorem run_veil (l : Language) (start : String) {ts us : List Token}
    (h : ts.map v.token = us.map v.token) : v.run (l.run start ts) = v.run (l.run start us) := by
  cases hr : l.rule? start with
  | none => simp only [run, hr]
  | some r =>
    cases hd : l.config.maxDepth with
    | zero =>
      have hoff (tokens : List Token) : (l.run start tokens).output =
          ⟨none, [], some (.recursionLimit r.name l.config.maxDepth)⟩ := parse_refused hr hd
      rw [Veil.run, Veil.run, hoff, hoff, events_refused hr hd, events_refused hr hd]
    | succ room =>
      have hstart : v.state (.start ts) = v.state (.start us) := by
        simp only [Veil.state, ParseState.start, Veil.cursor, Cursor.ofList, List.map_nil, h]
      obtain ⟨result, hus⟩ := exists_run l room (startStack r) r.body (startState r us)
      obtain ⟨result', hts, hveil⟩ := hus.mimics (Veil.note_congr hstart rfl)
      have houtput : v.output (finish start (Result.map (.node r.name) result')) =
          v.output (finish start (Result.map (.node r.name) result)) := by
        refine finish_veil ?_
        rw [Veil.result_map (f := v.trees) (m := Tree.node r.name) fun _ => rfl, hveil,
          Veil.result_map (f := v.trees) (m := Tree.node r.name) fun _ => rfl]
      have hevents : v.state result'.state = v.state result.state := by
        rw [← Veil.state_result (f := v.trees), hveil, Veil.state_result]
      have hhistory : result'.state.history.map v.event = result.state.history.map v.event :=
        congrArg ParseState.history hevents
      rw [run_entered hr hd hts, run_entered hr hd hus, Veil.run, Veil.run, houtput,
        ParseState.events, ParseState.events, List.map_reverse, List.map_reverse, hhistory]

/-- Token lists with the same classes in the same order are parsed in the same steps: values,
errors, what ended the parse and all events differ at most in what messages and leaves show of the
tokens. If the same tokens are marked as made up, leaves differ at most in their texts and offsets,
and if the texts are the same too, only offsets differ. -/
theorem run_eq_of_kinds (l : Language) (start : String) {ts us : List Token}
    (hkinds : ts.map (·.kind) = us.map (·.kind)) :
    Veil.allButKinds.run (l.run start ts) = Veil.allButKinds.run (l.run start us) ∧
    (ts.map (·.inserted) = us.map (·.inserted) →
      Veil.offsetsAndTexts.run (l.run start ts) = Veil.offsetsAndTexts.run (l.run start us) ∧
      (ts.map (·.text) = us.map (·.text) →
        Veil.offsets.run (l.run start ts) = Veil.offsets.run (l.run start us))) := by
  refine ⟨run_veil l start ?_, fun hmarks => ⟨run_veil l start ?_, fun htexts => ?_⟩⟩
  · exact Veil.map_token_congr hkinds (fun h => nomatch h) (fun h => nomatch h)
  · exact Veil.map_token_congr hkinds (fun h => nomatch h) fun _ => hmarks
  · exact run_veil l start (Veil.map_token_congr hkinds (fun _ => htexts) fun _ => hmarks)

/-- The JSON language gets past the missing commas of `[1 2 3]` and of `[ 31  4 5]` in the same way,
and reports another span and another token found; `[1 2 3]` and `[ 1  2 3]` differ in spans only. -/
theorem run_eq_of_kinds_json :
    let first := (Json.vocabulary.tokenize "[1 2 3]").1
    let second := (Json.vocabulary.tokenize "[ 31  4 5]").1
    let third := (Json.vocabulary.tokenize "[ 1  2 3]").1
    (first.map (·.kind) = second.map (·.kind) ∧ first.map (·.kind) = third.map (·.kind)) ∧
    ((Json.language.parse "array" first).errors ≠ (Json.language.parse "array" second).errors ∧
      (Json.language.parse "array" first).errors ≠ (Json.language.parse "array" third).errors) ∧
    Veil.offsetsAndTexts.run (Json.language.run "array" first) =
      Veil.offsetsAndTexts.run (Json.language.run "array" second) ∧
    Veil.offsets.run (Json.language.run "array" first) =
      Veil.offsets.run (Json.language.run "array" third) := by
  intro first second third
  have hkinds : first.map (·.kind) = second.map (·.kind) ∧
      first.map (·.kind) = third.map (·.kind) := by
    decide +kernel
  have herrors :
      (Json.language.parse "array" first).errors ≠ (Json.language.parse "array" second).errors ∧
        (Json.language.parse "array" first).errors ≠ (Json.language.parse "array" third).errors := by
    decide +kernel
  have hmarks : first.map (·.inserted) = second.map (·.inserted) ∧
      first.map (·.inserted) = third.map (·.inserted) ∧
      first.map (·.text) = third.map (·.text) := by
    decide +kernel
  refine ⟨hkinds, herrors, ?_, ?_⟩
  · exact ((run_eq_of_kinds Json.language "array" hkinds.1).2 hmarks.1).1
  · exact ((run_eq_of_kinds Json.language "array" hkinds.2).2 hmarks.2.1).2 hmarks.2.2

end Language

end TopDown
