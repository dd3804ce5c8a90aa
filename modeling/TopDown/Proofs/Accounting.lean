import Mathlib.Algebra.GroupWithZero.Nat
import Mathlib.Data.List.Forall2
import TopDown.Proofs.First
import TopDown.Proofs.Moves
import TopDown.Proofs.Samples

/-!
# Every token is accounted for

Each token of the input is returned by a call, dropped, skipped or left over, and none of them
twice, whatever the rules do, even if they let errors pass. What calls returned is read off the
events, and so is where it was. `Language.Ledger` says what adds up in the middle of a parse, and every single
change keeps it (`Language.Ledger.move`); `Language.accounts` says what adds up at the end.

A rule may itself end the parse with an error that no rule could get past. Then the error is
reported as the rule made it, and this is the only way for it not to tell how many tokens are left
over: `Language.Runs.thrown`.
-/

namespace TopDown

namespace Event

/-- The token that a call returned. -/
def returned? (tokens : List Token) : Event → Option Token
  | .consumed position => tokens[position]?
  | .deleted _ position => tokens[position + 1]?
  | .inserted e kind _ _ => some (.standIn kind e.start)
  | .entered _ | .refused .. | .raised .. | .resumed .. | .skipped .. => none

/-- Where the token is that a call returned, if it was not made up. -/
def place? : Event → Option Nat
  | .consumed position => some position
  | .deleted _ position => some (position + 1)
  | .inserted .. | .entered _ | .refused .. | .raised .. | .resumed .. | .skipped .. => none

end Event

namespace ParseState

/-- The tokens that calls returned, in order. -/
def returned (s : ParseState) (tokens : List Token) : List Token :=
  s.events.filterMap (Event.returned? tokens)

/-- The tokens that calls returned and that were not made up. -/
def genuine (s : ParseState) (tokens : List Token) : List Token :=
  (s.returned tokens).filter fun t => !t.inserted

/-- The tokens that calls returned and that were made up. -/
def madeUp (s : ParseState) (tokens : List Token) : List Token :=
  (s.returned tokens).filter (·.inserted)

/-- Where the genuine tokens are. -/
def places (s : ParseState) : List Nat := s.events.filterMap Event.place?

/-- One more event comes last. -/
theorem filterMap_events_cons {β : Type} (f : Event → Option β) (c : Cursor Token) (e : Event)
    (s : ParseState) : (events ⟨c, e :: s.history⟩).filterMap f =
      s.events.filterMap f ++ (f e).toList := by
  rw [events, events, List.reverse_cons, List.filterMap_append]
  cases h : f e <;> simp [h]

end ParseState

namespace Language

variable {l : Language} {tokens : List Token} {s s' : ParseState}

/-- The token was made up to get past the error. -/
structure StandsIn (l : Language) (t : Token) (e : SyntaxError) : Prop where
  token : t = .standIn t.kind e.start
  error : ∃ found, e.kind = .mismatchedToken (l.vocabulary.name t.kind) found
  concrete : l.vocabulary.isAbstract t.kind = false
  allowed : l.mayInsert t.kind = true

/-- What adds up in a state. -/
structure Ledger (l : Language) (tokens : List Token) (s : ParseState) : Prop where
  list : s.cursor.toList = tokens
  increasing : s.places.Pairwise (· < ·)
  passed : ∀ p ∈ s.places, p < s.position
  genuine : (s.genuine tokens).map some = s.places.map (tokens[·]?)
  total : s.places.length + s.errors.countP (·.recovery = .deleted) +
    (s.errors.map (·.skipped)).sum = s.position
  madeUp : List.Forall₂ l.StandsIn (s.madeUp tokens) (s.errors.filter (·.recovery = .inserted))
  recovered : ∀ e ∈ s.errors, e.recovery ≠ .unrecovered

/-- What one event adds to the ledger. -/
structure Entry (l : Language) (tokens : List Token) (e : Event) (before after : Nat) : Prop where
  passed : ∀ p ∈ e.place?, before ≤ p ∧ p < after
  genuine : ((e.returned? tokens).toList.filter fun t => !t.inserted).map some =
    e.place?.toList.map (tokens[·]?)
  total : before + e.place?.toList.length + e.recovered?.toList.countP (·.recovery = .deleted) +
    (e.recovered?.toList.map (·.skipped)).sum = after
  madeUp : List.Forall₂ l.StandsIn ((e.returned? tokens).toList.filter (·.inserted))
    (e.recovered?.toList.filter (·.recovery = .inserted))
  recovered : ∀ error ∈ e.recovered?, error.recovery ≠ .unrecovered

section Entries

variable {e : Event} {error : SyntaxError} {t : Token} {p q : Nat}

theorem entry_quiet (hr : e.returned? tokens = none) (hp : e.place? = none)
    (he : e.recovered? = none) : l.Entry tokens e p p := by
  constructor
  · simp [hp]
  · simp [hr, hp]
  · simp [hp, he]
  · simp [hr, he]
  · simp [he]

theorem entry_consumed (ht : tokens[p]? = some t) (hin : t.inserted = false) :
    l.Entry tokens (.consumed p) p (p + 1) := by
  have hr : Event.returned? tokens (.consumed p) = some t := ht
  have hp : Event.place? (.consumed p) = some p := rfl
  have he : Event.recovered? (.consumed p) = none := rfl
  constructor
  · simp [hp]
  · simp [hr, hp, hin, ht]
  · simp [hp, he]
  · simp [hr, he, hin]
  · simp [he]

theorem entry_deleted (ht : tokens[p + 1]? = some t) (hin : t.inserted = false)
    (hrec : error.recovery = .deleted) : l.Entry tokens (.deleted error p) p (p + 2) := by
  have hr : Event.returned? tokens (.deleted error p) = some t := ht
  have hp : Event.place? (.deleted error p) = some (p + 1) := rfl
  have he : Event.recovered? (.deleted error p) = some error := rfl
  constructor
  · simp [hp]
  · simp [hr, hp, hin, ht]
  · simp [hp, he, hrec, SyntaxError.skipped]
  · simp [hr, he, hin, hrec]
  · simp [he, hrec]

theorem entry_inserted {kind : TokenId} {idx : Nat} (hrec : error.recovery = .inserted)
    (hs : l.StandsIn (.standIn kind error.start) error) :
    l.Entry tokens (.inserted error kind idx p) p p := by
  have hr : Event.returned? tokens (.inserted error kind idx p) =
      some (.standIn kind error.start) := rfl
  have hin : (Token.standIn kind error.start).inserted = true := rfl
  have hp : Event.place? (.inserted error kind idx p) = none := rfl
  have he : Event.recovered? (.inserted error kind idx p) = some error := rfl
  constructor
  · simp [hp]
  · simp [hr, hp, hin]
  · simp [hp, he, hrec, SyntaxError.skipped]
  · simpa [hr, he, hin, hrec] using hs
  · simp [he, hrec]

theorem entry_skipped (hr : e.returned? tokens = none) (hp : e.place? = none)
    (he : e.recovered? = some error) (hle : p ≤ q) (hrec : error.recovery = .resynced (q - p)) :
    l.Entry tokens e p q := by
  constructor
  · simp [hp]
  · simp [hr, hp]
  · simp only [hp, he, hrec, SyntaxError.skipped, Option.toList, List.length_nil,
      List.countP_cons, List.countP_nil, List.map_cons, List.map_nil, List.sum_cons, List.sum_nil]
    simp
    omega
  · simp [hr, he, hrec]
  · simp [he, hrec]

end Entries

/-- The ledger with one more entry. -/
theorem Ledger.post {e : Event} {c : Cursor Token} (h : l.Ledger tokens s)
    (hc : c.toList = tokens) (he : l.Entry tokens e s.position c.position) :
    l.Ledger tokens ⟨c, e :: s.history⟩ := by
  have hplaces : ParseState.places ⟨c, e :: s.history⟩ = s.places ++ e.place?.toList :=
    ParseState.filterMap_events_cons ..
  have hreturned : ParseState.returned ⟨c, e :: s.history⟩ tokens =
      s.returned tokens ++ (e.returned? tokens).toList :=
    ParseState.filterMap_events_cons ..
  have herrors : ParseState.errors ⟨c, e :: s.history⟩ = s.errors ++ e.recovered?.toList :=
    ParseState.filterMap_events_cons ..
  have hle : s.position ≤ c.position := by
    have := he.total
    omega
  constructor
  · exact hc
  · rw [hplaces, List.pairwise_append]
    refine ⟨h.increasing, ?_, ?_⟩
    · cases e.place? <;> simp
    · intro p hp q hq
      have := h.passed p hp
      have := he.passed q (by simpa using hq)
      omega
  · intro p hp
    rw [hplaces, List.mem_append] at hp
    rcases hp with hp | hp
    · have := h.passed p hp
      exact Nat.lt_of_lt_of_le this hle
    · exact (he.passed p (by simpa using hp)).2
  · rw [ParseState.genuine, hreturned, hplaces, List.filter_append, List.map_append,
      List.map_append, he.genuine]
    rw [← h.genuine]
    rfl
  · have htotal := h.total
    have hentry := he.total
    rw [hplaces, herrors, List.length_append, List.countP_append, List.map_append,
      List.sum_append]
    show _ = c.position
    omega
  · rw [ParseState.madeUp, hreturned, herrors, List.filter_append, List.filter_append]
    exact List.rel_append h.madeUp he.madeUp
  · intro error hmem
    rw [herrors, List.mem_append] at hmem
    rcases hmem with hmem | hmem
    · exact h.recovered error hmem
    · exact he.recovered error (by simpa using hmem)

/-- The tokens ahead of a state are those from its position on. -/
theorem getElem?_ahead {past rest : List Token} (h : s.cursor.toList = tokens)
    (hc : s.cursor = ⟨past, rest⟩) (k : Nat) : tokens[s.position + k]? = rest[k]? := by
  rw [← h, ParseState.position, Cursor.getElem?_position_add, hc]

/-- Every change keeps the ledger. -/
theorem Ledger.move (h : l.Ledger tokens s) (hreal : ∀ t ∈ tokens, t.inserted = false)
    (hm : l.Moves s s') : l.Ledger tokens s' := by
  have hlist := h.list
  cases hm with
  | entered | refused | raised => exact h.post hlist (entry_quiet rfl rfl rfl)
  | @consumed past rest t hc =>
    have ht : tokens[s.position]? = some t := getElem?_ahead hlist hc 0
    have hlist' : Cursor.toList ⟨t :: past, rest⟩ = tokens := by
      rw [← hlist, hc]
      exact (Cursor.Before.cons past rest t).toList_eq
    have hposition : Cursor.position ⟨t :: past, rest⟩ = s.position + 1 := by
      rw [ParseState.position, hc]
      rfl
    refine h.post hlist' ?_
    rw [hposition]
    exact entry_consumed ht (hreal t (List.mem_of_getElem? ht))
  | @deleted past rest extra t error hc hrec =>
    have hlist' : Cursor.toList ⟨t :: extra :: past, rest⟩ = tokens := by
      rw [← hlist, hc]
      exact ((Cursor.Before.cons _ _ _).trans (.cons _ _ _)).toList_eq
    have hposition : Cursor.position ⟨t :: extra :: past, rest⟩ = s.position + 2 := by
      rw [ParseState.position, hc]
      rfl
    have ht : tokens[s.position + 1]? = some t := getElem?_ahead hlist hc 1
    refine h.post hlist' ?_
    rw [hposition]
    exact entry_deleted ht (hreal t (List.mem_of_getElem? ht)) hrec
  | @inserted error kind idx hrec hkind _ ha hmay =>
    have hs : l.StandsIn (.standIn kind error.start) error := ⟨rfl, ⟨_, hkind⟩, ha, hmay⟩
    exact h.post hlist (entry_inserted hrec hs)
  | resumed hc hrec | skipped hc hrec =>
    have hlist' := hc.toList_eq.trans hlist
    exact h.post hlist' (entry_skipped rfl rfl rfl hc.position_le hrec)

theorem ledger_start (tokens : List Token) : l.Ledger tokens (.start tokens) where
  list := Cursor.toList_ofList tokens
  increasing := .nil
  passed := nofun
  genuine := rfl
  total := rfl
  madeUp := .nil
  recovered := nofun

theorem Ledger.movesTo (h : l.Ledger tokens s) (hreal : ∀ t ∈ tokens, t.inserted = false)
    (hm : l.MovesTo s s') : l.Ledger tokens s' := by
  induction hm with
  | refl => exact h
  | tail _ hm ih => exact ih.move hreal hm

/-- The ledger is right at the end of every parse. -/
theorem ledger_lastState (hreal : ∀ t ∈ tokens, t.inserted = false) (start : String) :
    l.Ledger tokens (l.lastState start tokens) :=
  (ledger_start tokens).movesTo hreal moves_lastState

/-- A call adds the token that it returns, if it returns one. -/
theorem returned_consume {stack : Stack} {expected : TokenId} {idx : Nat}
    (hlist : s.cursor.toList = tokens) :
    (Result.state (l.consume stack expected idx s)).returned tokens =
      s.returned tokens ++ (Result.value? (l.consume stack expected idx s)).toList := by
  have hcons : ∀ (c : Cursor Token) (e : Event), ParseState.returned ⟨c, e :: s.history⟩ tokens =
      s.returned tokens ++ (e.returned? tokens).toList :=
    fun c e => ParseState.filterMap_events_cons _ c e s
  have hc := consumption l stack expected idx s
  generalize l.consume stack expected idx s = r at hc ⊢
  cases hc with
  | @matched past rest t hc =>
    have ht : tokens[s.position]? = some t := getElem?_ahead hlist hc 0
    exact (hcons _ _).trans (by rw [Event.returned?, ht]; rfl)
  | @deleted past rest extra t _ hc =>
    have ht : tokens[s.position + 1]? = some t := getElem?_ahead hlist hc 1
    exact (hcons _ _).trans (by rw [Event.returned?, ht]; rfl)
  | inserted => exact hcons _ _
  | raised => exact hcons _ _

end Language

/-! ## Errors that rules make -/

namespace Step

mutual

/-- The errors that a step can fail with by itself. -/
def thrown : Step → List ParseError
  | .fail e => [e]
  | .option _ body | .many _ body | .live body => thrownSeq body
  | .choose _ _ alternatives => thrownAlts alternatives
  | .consume .. | .subrule .. | .peek _ | .errorCount | .recorded _ | .attempt _ => []

/-- The errors that one of the steps can fail with by itself. -/
def thrownSeq : List Step → List ParseError
  | [] => []
  | step :: rest => step.thrown ++ thrownSeq rest

/-- The errors that a step of one of the alternatives can fail with by itself. -/
def thrownAlts : List (List Step) → List ParseError
  | [] => []
  | body :: rest => thrownSeq body ++ thrownAlts rest

end

theorem thrownSeq_singleton (step : Step) : thrownSeq [step] = step.thrown := by
  rw [thrownSeq, thrownSeq, List.append_nil]

theorem thrownSeq_subset {alternatives : List (List Step)} {body : List Step}
    (h : body ∈ alternatives) : thrownSeq body ⊆ thrownAlts alternatives :=
  subset_of_mem (fun _ _ => by rw [thrownAlts]) h

end Step

namespace Language

variable {l : Language} {tokens : List Token} {s : ParseState}

/-- The result is an error that no rule could get past, and it is already reported as such. -/
def GivesUp {α : Type} (r : Result α) (e : SyntaxError) : Prop :=
  ∃ s, r = .error (.fatal (.unrecoverable e)) s

theorem givesUp_map {α β : Type} {f : α → β} {r : Result α} {e : SyntaxError} :
    GivesUp (r.map f) e ↔ GivesUp r e := by
  cases r with
  | ok a s => simp [GivesUp]
  | error e' s => simp [GivesUp]

theorem givesUp_leave {stack : Stack} {r : Result (List Tree)} {e : SyntaxError}
    (h : GivesUp (l.leave stack r) e) : GivesUp r e := by
  obtain ⟨s', h⟩ := h
  match r with
  | .ok parts s => cases h
  | .error (.fatal e') s =>
    cases h
    exact ⟨_, rfl⟩
  | .error (.syntaxError e') s =>
    simp only [leave] at h
    split at h
    · cases h
    · rcases resync_cases l stack e' s with hr | ⟨target, kind, -, -, -, -, hr⟩ <;>
      · rw [hr] at h
        cases h

theorem branches_ne_unrecoverable {stack : Stack} {kind : DecisionKind} {idx : Nat}
    {e : SyntaxError} : l.branches stack kind idx ≠ .error (.fatal (.unrecoverable e)) := by
  rw [branches]
  split <;> simp

/-- A rule fails with the error by itself. -/
def Throws (l : Language) (e : SyntaxError) : Prop :=
  ∃ r ∈ l.rules, .fatal (.unrecoverable e) ∈ Step.thrownSeq r.body

/-- Before the parse ends, no error is reported as one that no rule could get past, unless a rule
does so by itself. -/
theorem Runs.thrown {room : Nat} {stack : Stack} {steps : List Step} {r : Result (List Tree)}
    (h : Runs l room stack steps s r) {e : SyntaxError} (hr : GivesUp r e) :
    .fatal (.unrecoverable e) ∈ Step.thrownSeq steps ∨ l.Throws e := by
  have hnone : ∀ {a : List Tree} {s : ParseState}, ¬GivesUp (.ok a s : Result (List Tree)) e := by
    rintro a s ⟨s', heq⟩
    cases heq
  induction h with
  | nil | leftOut | stopped | skipped | peek | errorCount | recorded | attempted | abandoned =>
    exact absurd hr hnone
  | cons _ _ _ ih =>
    rw [Step.thrownSeq]
    exact (ih (givesUp_map.1 hr)).imp_left (List.mem_append_right _)
  | fails _ ih =>
    have hhead := ih hr
    rw [Step.thrownSeq_singleton] at hhead
    rw [Step.thrownSeq]
    exact hhead.imp_left (List.mem_append_left _)
  | @consume room stack token idx s =>
    exfalso
    have hc := consumption l stack token idx s
    obtain ⟨s', heq⟩ := givesUp_map.1 hr
    rw [heq] at hc
    cases hc
  | undeclared | refused | stalled | unviable =>
    obtain ⟨s', heq⟩ := hr
    cases heq
  | entered h _ _ ih =>
    refine .inr ?_
    rcases ih (givesUp_leave (givesUp_map.1 hr)) with hmem | hthrows
    · exact ⟨_, mem_rules_of_rule? h, hmem⟩
    · exact hthrows
  | noOption h | noMany h | noChoice h =>
    obtain ⟨s', heq⟩ := hr
    cases heq
    exact absurd h branches_ne_unrecoverable
  | taken _ _ _ ih =>
    rw [Step.thrownSeq_singleton, Step.thrown]
    exact ih (givesUp_map.1 hr)
  | resumed _ _ _ _ ih => exact ih hr
  | round _ _ _ _ _ _ ih => exact ih (givesUp_map.1 hr)
  | roundFails _ _ _ ih =>
    rw [Step.thrownSeq_singleton, Step.thrown]
    exact ih hr
  | chosen _ _ hi _ ih =>
    rw [Step.thrownSeq_singleton, Step.thrown]
    have hsubset := Step.thrownSeq_subset (List.mem_of_getElem? hi)
    exact (ih (givesUp_map.1 hr)).imp_left (hsubset ·)
  | live _ ih =>
    rw [Step.thrownSeq_singleton, Step.thrown]
    exact ih hr
  | fail =>
    obtain ⟨s', heq⟩ := hr
    cases heq
    rw [Step.thrownSeq_singleton, Step.thrown]
    exact .inl (List.mem_singleton.2 rfl)

theorem throws_of_invoke {room : Nat} {start : String} {r : RuleDef} {e : SyntaxError}
    (h : l.rule? start = some r)
    (hr : GivesUp (l.invoke room r [] none (.start tokens)) e) : l.Throws e := by
  cases room with
  | zero =>
    obtain ⟨s', heq⟩ := hr
    cases heq
  | succ room =>
    obtain ⟨result, hrun⟩ := exists_run l room (startStack r) r.body (startState r tokens)
    rw [invoke_entered hrun, givesUp_map] at hr
    rcases hrun.thrown hr with hmem | hthrows
    · exact ⟨r, mem_rules_of_rule? h, hmem⟩
    · exact hthrows

/-! ## Whole parses -/

/-- The error says that the start rule ended before the input did, and nothing was done about it. -/
def Unread (e : SyntaxError) : Prop :=
  (∃ found, e.kind = .notAllInputParsed found) ∧ e.recovery = .unrecovered

/-- The errors that are reported are those that were got past, and a last one if there is a value
and not all tokens were passed. -/
inductive Reports (s : ParseState) (o : ParseOutput Tree) : Prop where
  | all (he : o.errors = s.errors) (h : o.value = none ∨ s.cursor.rest = [])
  | unread {e : SyntaxError} (he : o.errors = s.errors ++ [e]) (hu : Unread e)
      (h : s.cursor.rest ≠ [])

theorem reports_finish (start : String) (r : Result Tree) : Reports r.state (finish start r) := by
  match r with
  | .error (.syntaxError e) s => exact .all rfl (.inl rfl)
  | .error (.fatal e) s => exact .all rfl (.inl rfl)
  | .ok value ⟨⟨past, []⟩, history⟩ => exact .all rfl (.inr rfl)
  | .ok value ⟨⟨past, t :: rest⟩, history⟩ =>
    exact .unread rfl ⟨⟨_, rfl⟩, rfl⟩ (List.cons_ne_nil _ _)

theorem unrecoverable_finish {start : String} {r : Result Tree} {e : SyntaxError}
    (h : (finish start r).fatal = some (.unrecoverable e)) :
    e.recovery = .resynced r.state.cursor.rest.length ∨ GivesUp r e := by
  match r with
  | .ok value ⟨⟨past, []⟩, history⟩ => cases h
  | .ok value ⟨⟨past, t :: rest⟩, history⟩ => cases h
  | .error (.syntaxError e') s =>
    cases h
    exact .inl rfl
  | .error (.fatal e') s =>
    cases h
    exact .inr ⟨s, rfl⟩

section Reports

variable {o : ParseOutput Tree} {errors more : List SyntaxError} {e : SyntaxError}

/-- The last error is none that was got past. -/
theorem Reports.counted (h : Reports s o) :
    o.errors.countP (·.recovery = .deleted) = s.errors.countP (·.recovery = .deleted) ∧
    (o.errors.map (·.skipped)).sum = (s.errors.map (·.skipped)).sum ∧
    o.errors.filter (·.recovery = .inserted) = s.errors.filter (·.recovery = .inserted) := by
  cases h with
  | all he => rw [he]; exact ⟨rfl, rfl, rfl⟩
  | @unread e he hu =>
    have hskipped : e.skipped = 0 := by rw [SyntaxError.skipped, hu.2]
    rw [he]
    refine ⟨?_, ?_, ?_⟩
    · simp [List.countP_append, hu.2]
    · simp [hskipped]
    · simp [List.filter_append, hu.2]

/-- An error about which nothing was done is the last one. -/
theorem Reports.last (h : Reports s o) (hs : ∀ e ∈ s.errors, e.recovery ≠ .unrecovered)
    (ho : o.errors = errors ++ e :: more) (he : e.recovery = .unrecovered) :
    more = [] ∧ Unread e ∧ s.cursor.rest ≠ [] := by
  have hn : ¬e ∈ s.errors := fun hmem => hs e hmem he
  cases h with
  | all hall =>
    rw [ho] at hall
    exact absurd (hall ▸ List.mem_append_right _ (List.mem_cons_self ..)) hn
  | unread hlast hu hrest =>
    rw [ho] at hlast
    rcases List.eq_nil_or_concat' more with rfl | ⟨init, x, rfl⟩
    · obtain ⟨-, heq⟩ := List.append_inj' hlast rfl
      obtain ⟨rfl, -⟩ := List.cons.inj heq
      exact ⟨rfl, hu, hrest⟩
    · rw [← List.cons_append, ← List.append_assoc] at hlast
      obtain ⟨heq, -⟩ := List.append_inj' hlast rfl
      exact absurd (heq ▸ List.mem_append_right _ (List.mem_cons_self ..)) hn

end Reports

/-- What adds up at the end of a parse. -/
structure Accounted (l : Language) (tokens : List Token) (s : ParseState) (o : ParseOutput Tree) :
    Prop where
  /-- The genuine tokens that calls returned are at increasing places of the input. -/
  increasing : s.places.Pairwise (· < ·)
  genuine : (s.genuine tokens).map some = s.places.map (tokens[·]?)
  /-- Every token was returned, dropped, skipped or left over. -/
  total : (s.genuine tokens).length + o.errors.countP (·.recovery = .deleted) +
    (o.errors.map (·.skipped)).sum + s.cursor.rest.length = tokens.length
  /-- The tokens that were made up go with the errors that were got past this way. -/
  madeUp : List.Forall₂ l.StandsIn (s.madeUp tokens) (o.errors.filter (·.recovery = .inserted))
  /-- If there is a value, tokens are left over exactly if the last error says so. -/
  unread : o.value.isSome = true →
    (s.cursor.rest ≠ [] ↔ ∃ errors e, o.errors = errors ++ [e] ∧ Unread e)
  /-- Nothing was done about no other error. -/
  last : ∀ errors e more, o.errors = errors ++ e :: more → e.recovery = .unrecovered →
    more = [] ∧ Unread e
  /-- An error that no rule could get past tells how many tokens are left over, unless a rule ended
  the parse with it. -/
  unrecoverable : ∀ e, o.fatal = some (.unrecoverable e) →
    e.recovery = .resynced s.cursor.rest.length ∨ l.Throws e

section Parse

variable {start : String}

theorem reports_parse : Reports (l.lastState start tokens) (l.parse start tokens) := by
  cases hr : l.rule? start with
  | none =>
    rw [parse_undeclared hr, lastState_undeclared hr]
    exact .all rfl (.inl rfl)
  | some r =>
    rw [parse_eq_finish hr, lastState_eq hr]
    exact reports_finish start _

theorem unrecoverable_parse {e : SyntaxError}
    (he : (l.parse start tokens).fatal = some (.unrecoverable e)) :
    e.recovery = .resynced (l.lastState start tokens).cursor.rest.length ∨ l.Throws e := by
  cases hr : l.rule? start with
  | none =>
    rw [parse_undeclared hr] at he
    cases he
  | some r =>
    rw [parse_eq_finish hr] at he
    rw [lastState_eq hr]
    exact (unrecoverable_finish he).imp_right (throws_of_invoke hr)

end Parse

/-- Every token is accounted for exactly once in every parse, whatever the rules do and however the
language is configured. What the events say that calls returned is what they returned, and at the
end of a parse everything adds up. -/
theorem accounts (l : Language) (start : String) {tokens : List Token}
    (hreal : ∀ t ∈ tokens, t.inserted = false) :
    (∀ stack expected idx s, s.cursor.toList = tokens →
      (Result.state (l.consume stack expected idx s)).returned tokens =
        s.returned tokens ++ (Result.value? (l.consume stack expected idx s)).toList) ∧
    l.Accounted tokens (l.lastState start tokens) (l.parse start tokens) := by
  refine ⟨fun stack expected idx s hlist => returned_consume hlist, ?_⟩
  have hledger := l.ledger_lastState hreal start
  have hreports : Reports (l.lastState start tokens) (l.parse start tokens) := reports_parse
  obtain ⟨hdeleted, hskipped, hinserted⟩ := hreports.counted
  constructor
  · exact hledger.increasing
  · exact hledger.genuine
  · have hplaces := congrArg List.length hledger.genuine
    have hlength := Cursor.length_toList (l.lastState start tokens).cursor
    have htotal := hledger.total
    rw [List.length_map, List.length_map] at hplaces
    rw [hledger.list] at hlength
    rw [ParseState.position] at htotal
    rw [hdeleted, hskipped]
    omega
  · rw [hinserted]
    exact hledger.madeUp
  · intro hvalue
    constructor
    · intro hrest
      cases hreports with
      | all _ h =>
        rcases h with h | h
        · rw [h] at hvalue
          cases hvalue
        · exact absurd h hrest
      | unread he hu _ => exact ⟨_, _, he, hu⟩
    · rintro ⟨errors, e, he, hu⟩
      exact (hreports.last hledger.recovered he hu.2).2.2
  · intro errors e more ho he
    obtain ⟨hmore, hu, -⟩ := hreports.last hledger.recovered ho he
    exact ⟨hmore, hu⟩
  · exact fun e => unrecoverable_parse

/-- A colon that is missing in an object, two commas in a row and a bracket too many. -/
theorem accounts_json :
    (∀ t ∈ (Json.vocabulary.tokenize "[\x7b\"a\" 1\x7d,,2]]").1, t.inserted = false) ∧
    (∀ stack expected idx s,
      s.cursor.toList = (Json.vocabulary.tokenize "[\x7b\"a\" 1\x7d,,2]]").1 →
      (Result.state (Json.language.consume stack expected idx s)).returned
          (Json.vocabulary.tokenize "[\x7b\"a\" 1\x7d,,2]]").1 =
        s.returned (Json.vocabulary.tokenize "[\x7b\"a\" 1\x7d,,2]]").1 ++
          (Result.value? (Json.language.consume stack expected idx s)).toList) ∧
    Json.language.Accounted (Json.vocabulary.tokenize "[\x7b\"a\" 1\x7d,,2]]").1
      (Json.language.lastState "value" (Json.vocabulary.tokenize "[\x7b\"a\" 1\x7d,,2]]").1)
      (Json.language.parse "value" (Json.vocabulary.tokenize "[\x7b\"a\" 1\x7d,,2]]").1) := by
  have hreal : ∀ t ∈ (Json.vocabulary.tokenize "[\x7b\"a\" 1\x7d,,2]]").1, t.inserted = false := by
    decide +kernel
  exact ⟨hreal, accounts Json.language "value" hreal⟩

/-- An error that a rule reports as one that no rule could get past. -/
def resignation : SyntaxError :=
  ⟨.mismatchedToken "NumberLiteral" "'+'", "number", 0, 1, .unrecovered⟩

/-- A language whose one rule gives up without looking at its input. -/
def resigning : Draft where
  vocabulary := Calc.vocabulary
  rules := [⟨"number",
    [.live [.fail (.fatal (.unrecoverable resignation))], .consume Calc.numberLiteral 1]⟩]

theorem resigning_builds : resigning.build.isOk = true := by decide +kernel

/-- A rule that ends a parse by itself tells nothing about the tokens that are left over. -/
theorem not_resynced_of_resigning : ∃ l tokens e, resigning.build = .ok l ∧
    (∀ t ∈ tokens, t.inserted = false) ∧
    (l.parse "number" tokens).fatal = some (.unrecoverable e) ∧
    e.recovery ≠ .resynced (l.lastState "number" tokens).cursor.rest.length := by
  refine ⟨getOk resigning.build resigning_builds, (Calc.vocabulary.tokenize "1").1, resignation,
    eq_ok_getOk _, by decide +kernel, by decide +kernel, ?_⟩
  simp [resignation]

end Language

end TopDown
