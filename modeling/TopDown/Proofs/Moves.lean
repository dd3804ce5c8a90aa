import Mathlib.Logic.Relation
import TopDown.Proofs.Recovery

/-!
# What happens in a parse, one thing at a time

Whatever the rules do, a parse only ever changes in one of a few ways, each with the event it
leaves (`Language.Moves`). `Language.Runs.moves` says so of every run and `Language.moves_lastState`
of whole parses. So what every such change preserves is preserved by every run, and holds at the end
of every parse. The first instance is that runs go forward: `Language.Runs.leads`.
-/

namespace TopDown

namespace Language

variable {l : Language} {room : Nat} {stack : Stack} {s s' : ParseState}

/-- One thing happens. -/
inductive Moves (l : Language) (s : ParseState) : ParseState → Prop where
  | entered {stack : Stack} : Moves l s (s.note (.entered stack))
  | refused {rule : String} : Moves l s (s.note (.refused rule s.position))
  | raised {error : SyntaxError} {stack : Stack} :
      Moves l s (s.note (.raised error stack s.position))
  | consumed {past rest : List Token} {t : Token} (hc : s.cursor = ⟨past, t :: rest⟩) :
      Moves l s ⟨⟨t :: past, rest⟩, .consumed s.position :: s.history⟩
  | deleted {past rest : List Token} {extra t : Token} {error : SyntaxError}
      (hc : s.cursor = ⟨past, extra :: t :: rest⟩) (he : error.recovery = .deleted) :
      Moves l s ⟨⟨t :: extra :: past, rest⟩, .deleted error s.position :: s.history⟩
  | inserted {error : SyntaxError} {kind : TokenId} {idx : Nat} (he : error.recovery = .inserted)
      (hk : error.kind = .mismatchedToken (l.vocabulary.name kind) s.describeNext)
      (hs : error.start = s.nextSpan.1) (ha : l.vocabulary.isAbstract kind = false)
      (hm : l.mayInsert kind = true) :
      Moves l s (s.note (.inserted error kind idx s.position))
  | resumed {error : SyntaxError} {stack : Stack} {kind : TokenId} {c : Cursor Token}
      (hc : s.cursor.Before c) (he : error.recovery = .resynced (c.position - s.position)) :
      Moves l s ⟨c, .resumed error stack kind c.position :: s.history⟩
  | skipped {error : SyntaxError} {key : DecisionKey} {c : Cursor Token}
      (hc : s.cursor.Before c) (he : error.recovery = .resynced (c.position - s.position)) :
      Moves l s ⟨c, .skipped error key c.position :: s.history⟩

/-- Whatever happens, a parse goes forward. -/
theorem Moves.leads (h : l.Moves s s') : s.Leads s' := by
  cases h with
  | entered | refused | raised | inserted => exact s.leads_note _
  | consumed hc =>
    refine ParseState.leads_of_before ?_ _
    rw [hc]
    exact .cons _ _ _
  | deleted hc =>
    refine ParseState.leads_of_before ?_ _
    rw [hc]
    exact (Cursor.Before.cons _ _ _).trans (.cons _ _ _)
  | resumed hc | skipped hc => exact ParseState.leads_of_before hc _

/-- One thing after the other happens. -/
abbrev MovesTo (l : Language) : ParseState → ParseState → Prop := Relation.ReflTransGen l.Moves

theorem MovesTo.leads (h : l.MovesTo s s') : s.Leads s' := by
  induction h with
  | refl => exact .refl s
  | tail _ hm ih => exact ih.trans hm.leads

/-! ## The parts of the engine -/

theorem Consumption.moves {expected : TokenId} {idx : Nat} {r : Result Token}
    (h : Consumption l stack expected idx s r) : l.Moves s r.state := by
  cases h with
  | matched hc => exact .consumed hc
  | deleted _ hc => exact .deleted hc rfl
  | raised => exact .raised
  | inserted _ _ _ hi =>
    simp only [canInsert, Bool.and_eq_true, Bool.not_eq_true'] at hi
    obtain ⟨⟨ha, hm⟩, -⟩ := hi
    exact .inserted rfl rfl rfl ha hm

theorem movesTo_leave (result : Result (List Tree)) :
    l.MovesTo result.state (Result.state (l.leave stack result)) := by
  match result with
  | .ok parts s => exact .refl
  | .error (.fatal e) s => exact .refl
  | .error (.syntaxError e) s =>
    simp only [leave]
    split
    · exact .refl
    · rcases resync_cases l stack e s with h | ⟨target, kind, rfl, -, -, -, h⟩
      · rw [h]
        exact .refl
      · rw [h]
        exact .single (.resumed (Cursor.before_seek _ _) rfl)

theorem leads_leave (result : Result (List Tree)) :
    result.state.Leads (Result.state (l.leave stack result)) :=
  (movesTo_leave result).leads

theorem moves_recoverInRepetition {key : DecisionKey} {branches : List Lookahead} {resumes : Bool}
    (h : l.recoverInRepetition stack key branches s = some (s', resumes)) : l.Moves s s' := by
  obtain ⟨expected, idx, target, -, -, -, hpoint, rfl, -⟩ := recoverInRepetition_eq_some h
  exact .skipped (before_repetitionPoint hpoint) rfl

theorem leads_recoverInRepetition {key : DecisionKey} {branches : List Lookahead} {resumes : Bool}
    (h : l.recoverInRepetition stack key branches s = some (s', resumes)) : s.Leads s' :=
  (moves_recoverInRepetition h).leads

/-- Every run is a sequence of changes. -/
theorem Runs.moves {steps : List Step} {r : Result (List Tree)} (h : Runs l room stack steps s r) :
    l.MovesTo s r.state := by
  induction h with
  | nil => exact .refl
  | cons _ _ hhead htail =>
    rw [Result.state_map]
    exact hhead.trans htail
  | fails _ hhead => exact hhead
  | consume =>
    rw [Result.state_map]
    exact .single (consumption ..).moves
  | undeclared => exact .refl
  | refused => exact .single .refused
  | entered _ _ _ ih =>
    rw [Result.state_map]
    exact (Relation.ReflTransGen.head .entered ih).trans (movesTo_leave _)
  | noOption | leftOut | noMany | stopped | noChoice | peek | errorCount | recorded | fail =>
    exact .refl
  | taken _ _ _ ih | chosen _ _ _ _ ih =>
    rw [Result.state_map]
    exact ih
  | skipped _ _ hr => exact .single (moves_recoverInRepetition hr)
  | resumed _ _ hr _ ih => exact .head (moves_recoverInRepetition hr) ih
  | round _ _ _ _ _ hbody hagain =>
    rw [Result.state_map]
    exact hbody.trans hagain
  | stalled _ _ _ _ ih | roundFails _ _ _ ih | live _ ih | attempted _ ih | abandoned _ ih =>
    exact ih
  | unviable => exact .single .raised

/-- Every run goes forward. -/
theorem Runs.leads {steps : List Step} {r : Result (List Tree)} (h : Runs l room stack steps s r) :
    s.Leads r.state :=
  h.moves.leads

/-! ## Whole parses -/

/-- The state that a parse ends in. -/
def lastState (l : Language) (start : String) (tokens : List Token) : ParseState :=
  match l.rule? start with
  | none => .start tokens
  | some r => Result.state (l.invoke l.config.maxDepth r [] none (.start tokens))

variable {start : String} {tokens : List Token}

theorem lastState_undeclared (h : l.rule? start = none) :
    l.lastState start tokens = .start tokens := by
  rw [lastState, h]

theorem lastState_eq {r : RuleDef} (h : l.rule? start = some r) : l.lastState start tokens =
    Result.state (l.invoke l.config.maxDepth r [] none (.start tokens)) := by
  rw [lastState, h]

theorem parse_eq_finish {r : RuleDef} (h : l.rule? start = some r) :
    l.parse start tokens = finish start (l.invoke l.config.maxDepth r [] none (.start tokens)) := by
  rw [parse, run, h]

/-- Every parse is a sequence of changes. -/
theorem moves_lastState : l.MovesTo (.start tokens) (l.lastState start tokens) := by
  cases hr : l.rule? start with
  | none => rw [lastState_undeclared hr]
  | some r =>
    rw [lastState_eq hr]
    cases l.config.maxDepth with
    | zero => exact .single .refused
    | succ room =>
      obtain ⟨result, hrun⟩ := exists_run l room (startStack r) r.body (startState r tokens)
      rw [invoke_entered hrun, Result.state_map]
      exact .head .entered hrun.moves

end Language

end TopDown
