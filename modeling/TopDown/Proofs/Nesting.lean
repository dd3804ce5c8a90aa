import Mathlib.Data.List.ProdSigma
import TopDown.Proofs.Machine
import TopDown.Proofs.Soundness
import TopDown.Proofs.WellFormed

/-!
# Without left recursion rules do not nest deep

As long as a plain parse has met no error, whatever a rule has done without passing a token derives
nothing. So a rule that is called for at the place where its caller was entered is one that the
caller can invoke before it consumes a token. The invocations that were entered at one place are
then a chain of such rules, and since no rule of the grammar comes to itself that way, they are of
different rules.

`Language.Runs.settled` says so of the stacks in the history of a run, and `Moment.Noted` that every
stack of the machine is in its history.
-/

namespace TopDown

/-- Of two invocations of one rule the inner was entered after more tokens. -/
def Nested (frames : List Frame) : Prop :=
  frames.Pairwise fun inner outer => inner.rule = outer.rule → outer.entry < inner.entry

namespace Grammar

variable {g : Grammar}

theorem Reaches.append_right {ps qs : List Production} {name : String} (h : g.Vanishes ps)
    (hq : g.Reaches qs name) : g.Reaches (ps ++ qs) name := by
  induction ps with
  | nil => exact hq
  | cons p ps ih =>
    obtain ⟨hp, hps⟩ := Vanishes.cons_iff.1 h
    exact .later hp (ih hps)

/-- The outer invocation led to the inner one. If no token was passed in between, it did so through
rules that can each invoke the next before they consume a token. -/
def Descends (g : Grammar) (inner outer : Frame) : Prop :=
  outer.entry ≤ inner.entry ∧
    (outer.entry = inner.entry → Relation.TransGen g.Invokes outer.rule inner.rule)

end Grammar

namespace Language

variable {l : Language} {stack : Stack} {frames : List Frame} {n place : Nat}

/-- The invocations were entered on the way to the place, and each led to those above it. -/
structure Descent (l : Language) (frames : List Frame) (place : Nat) : Prop where
  chain : frames.Pairwise l.grammar.Descends
  passed : ∀ f ∈ frames, f.entry ≤ place
  declared : ∀ f ∈ frames, f.rule ∈ l.rules.map (·.name)

namespace Descent

theorem mono {later : Nat} (h : l.Descent frames place) (hle : place ≤ later) :
    l.Descent frames later :=
  ⟨h.chain, fun f hf => Nat.le_trans (h.passed f hf) hle, h.declared⟩

/-- A rule is called for on top of the stack. -/
theorem push {r : RuleDef} (h : l.Descent stack.frames place) (hr : r ∈ l.rules)
    (hinvokes : stack.top.entry = place → l.grammar.Invokes stack.rule r.name)
    (site : Option CallSite) : l.Descent (⟨r.name, site, place⟩ :: stack.frames) place := by
  obtain ⟨hbelow, -⟩ := List.pairwise_cons.1 h.chain
  have hdescends : ∀ outer ∈ stack.frames, l.grammar.Descends ⟨r.name, site, place⟩ outer := by
    intro outer hmem
    refine ⟨h.passed outer hmem, fun hsame => ?_⟩
    have htop : stack.top.entry ≤ place := h.passed _ (List.mem_cons_self ..)
    rcases List.mem_cons.1 hmem with rfl | hmem
    · exact .single (hinvokes hsame)
    · -- nothing was passed since the outer rule was entered, so nothing since the top one was
      obtain ⟨hle, hchain⟩ := hbelow outer hmem
      have hentry : outer.entry = place := hsame
      have htop' : stack.top.entry = place := by omega
      exact (hchain (hentry.trans htop'.symm)).tail (hinvokes htop')
  refine ⟨List.pairwise_cons.2 ⟨hdescends, h.chain⟩, ?_, ?_⟩
  · intro f hmem
    rcases List.mem_cons.1 hmem with rfl | hmem
    · exact Nat.le_refl _
    · exact h.passed f hmem
  · intro f hmem
    rcases List.mem_cons.1 hmem with rfl | hmem
    · exact List.mem_map_of_mem hr
    · exact h.declared f hmem

theorem nested (h : l.Descent frames place) (ha : l.grammar.Acyclic) : Nested frames := by
  refine h.chain.imp fun {inner outer} hd hrule => Nat.lt_of_le_of_ne hd.1 fun hentry => ?_
  have hcycle := hd.2 hentry
  rw [hrule] at hcycle
  exact ha _ hcycle

end Descent

/-- No two of the invocations are of the same rule at the same place. -/
theorem Descent.length_le (h : l.Descent frames place) (ha : l.grammar.Acyclic) (hn : place ≤ n) :
    frames.length ≤ l.rules.length * (n + 1) := by
  have hnodup : (frames.map fun f => (f.rule, f.entry)).Nodup := by
    refine List.pairwise_map.2 ((h.nested ha).imp fun {inner outer} hlt hsame => ?_)
    obtain ⟨hrule, hentry⟩ := Prod.mk.inj hsame
    have := hlt hrule
    omega
  have hsubset : (frames.map fun f => (f.rule, f.entry)) ⊆
      l.rules.map (·.name) ×ˢ List.range (n + 1) := by
    intro p hp
    obtain ⟨f, hf, rfl⟩ := List.mem_map.1 hp
    have hlt := Nat.lt_succ_of_le (Nat.le_trans (h.passed f hf) hn)
    exact List.mem_product.2 ⟨h.declared f hf, List.mem_range.2 hlt⟩
  have hle := hnodup.length_le_of_subset hsubset
  rwa [List.length_map, List.length_product, List.length_map, List.length_range] at hle

/-! ## What the history says of the stack -/

/-- What an event says in a parse of `n` tokens that has met no error. -/
def Fitting (l : Language) (n : Nat) : Event → Prop
  | .entered stack => Nested stack.frames
  | .refused .. => l.config.maxDepth < l.rules.length * (n + 1)
  | _ => True

/-- Every event before which no error was met is fitting. -/
def Settled (l : Language) (n : Nat) (history : List Event) : Prop :=
  ∀ e before, e :: before <:+ history → before.filterMap Event.recovered? = [] → l.Fitting n e

theorem Settled.of_suffix {history later : List Event} (h : l.Settled n later)
    (hsuffix : history <:+ later) : l.Settled n history := fun e before he =>
  h e before (he.trans hsuffix)

theorem Settled.cons {history : List Event} {e : Event} (h : l.Settled n history)
    (he : history.filterMap Event.recovered? = [] → l.Fitting n e) :
    l.Settled n (e :: history) := by
  intro e' before hsuffix hbefore
  rcases List.suffix_cons_iff.1 hsuffix with hsame | hsuffix
  · cases hsame
    exact he hbefore
  · exact h e' before hsuffix hbefore

end Language

/-- The position grows by the tokens that are no longer ahead. -/
theorem ParseState.Leads.position_lt {s s' : ParseState} (h : s.Leads s')
    (hlt : s'.cursor.rest.length < s.cursor.rest.length) : s.position < s'.position := by
  have hsame := congrArg List.length h.cursor.toList_eq
  rw [Cursor.length_toList, Cursor.length_toList] at hsame
  show s.cursor.position < s'.cursor.position
  omega

theorem ParseState.errors_eq_nil_iff {s : ParseState} :
    s.errors = [] ↔ s.history.filterMap Event.recovered? = [] := by
  rw [errors_eq, List.reverse_eq_nil_iff]

namespace Language

variable {l : Language} {room n : Nat} {stack : Stack} {steps : List Step} {s : ParseState}
  {r : Result (List Tree)}

theorem Settled.fitting {history : List Event} {e : Event} (h : l.Settled n history)
    (hnil : history.filterMap Event.recovered? = []) (he : e ∈ history) : l.Fitting n e := by
  obtain ⟨later, before, rfl⟩ := List.append_of_mem he
  refine h e before (List.suffix_append _ _) ?_
  rw [List.filterMap_append, List.append_eq_nil_iff] at hnil
  have hbefore := hnil.2
  cases hr : e.recovered? with
  | none => rwa [List.filterMap_cons_none hr] at hbefore
  | some error => simp [List.filterMap_cons_some hr] at hbefore

theorem Consumption.settled {expected : TokenId} {idx : Nat} {r : Result Token}
    (h : Consumption l stack expected idx s r) (hs : l.Settled n s.history) :
    l.Settled n r.state.history := by
  cases h with
  | matched | deleted | inserted | raised => exact hs.cons fun _ => trivial

theorem Settled.leave (h : l.Settled n r.state.history) :
    l.Settled n (Result.state (l.leave stack r)).history := by
  match r with
  | .ok parts s | .error (.fatal e) s => exact h
  | .error (.syntaxError e) s =>
    simp only [Language.leave]
    split
    · exact h
    · rcases resync_cases l stack e s with hr | ⟨target, kind, -, -, -, -, hr⟩
      · rw [hr]
        exact h
      · rw [hr]
        exact h.cons fun _ => trivial

theorem Settled.recoverInRepetition {key : DecisionKey} {branches : List Lookahead}
    {s' : ParseState} {resumes : Bool} (h : l.Settled n s.history)
    (hr : l.recoverInRepetition stack key branches s = some (s', resumes)) :
    l.Settled n s'.history := by
  obtain ⟨expected, idx, target, -, -, -, -, rfl, -⟩ := recoverInRepetition_eq_some hr
  exact h.cons fun _ => trivial

/-- If no token was passed since the rule on top of the stack was entered, then whatever the steps
can call for first can be invoked by the rule. -/
structure Poised (l : Language) (stack : Stack) (steps : List Step) (s : ParseState) : Prop where
  descent : l.Descent stack.frames s.position
  opens : stack.top.entry = s.position → ∀ name, l.grammar.Reaches (Step.outlineSeq steps) name →
    l.grammar.Invokes stack.rule name

namespace Poised

variable {step : Step} {rest : List Step} {s' : ParseState}

/-- Steps that reach no other rules than those do. -/
theorem of_reaches {steps' : List Step} (h : l.Poised stack steps s)
    (hr : ∀ name, l.grammar.Reaches (Step.outlineSeq steps') name →
      l.grammar.Reaches (Step.outlineSeq steps) name) : l.Poised stack steps' s :=
  ⟨h.descent, fun hentry name hname => h.opens hentry name (hr name hname)⟩

theorem head (h : l.Poised stack (step :: rest) s) : l.Poised stack [step] s := by
  refine h.of_reaches fun name hname => ?_
  rw [Step.outlineSeq_singleton] at hname
  rw [Step.outlineSeq]
  exact hname.append_left

/-- After a token was passed nothing is asked of the steps. -/
theorem of_lt (h : l.Poised stack steps s) (hlt : s.position < s'.position)
    (rest : List Step) : l.Poised stack rest s' := by
  refine ⟨h.descent.mono (Nat.le_of_lt hlt), fun hentry => ?_⟩
  have htop : stack.top.entry ≤ s.position := h.descent.passed _ (List.mem_cons_self ..)
  omega

/-- If the first step passes no token it derives nothing, so the others come first. -/
theorem tail (h : l.Poised stack (step :: rest) s) (hleads : s.Leads s')
    (hvanishes : s'.cursor.rest = s.cursor.rest → l.grammar.Vanishes step.outline) :
    l.Poised stack rest s' := by
  obtain ⟨us, hus, hpast⟩ := hleads.cursor
  cases us with
  | cons u us =>
    have hlonger := congrArg List.length hus
    rw [List.length_append, List.length_cons] at hlonger
    exact h.of_lt (hleads.position_lt (by omega)) rest
  | nil =>
    have hposition : s.position = s'.position := (congrArg List.length hpast).symm
    refine ⟨hposition ▸ h.descent, fun hentry name hname => ?_⟩
    have hfirst := hvanishes hus.symm
    refine h.opens (hentry.trans hposition.symm) name ?_
    rw [Step.outlineSeq]
    exact hname.append_right hfirst

end Poised

/-- A rule that is called for joins the chain. -/
theorem Poised.push {name : String} {idx : Nat} {d : RuleDef}
    (h : l.Poised stack [.subrule name idx] s) (hd : l.rule? name = some d)
    (site : Option CallSite) :
    l.Descent (⟨d.name, site, s.position⟩ :: stack.frames) s.position := by
  refine h.descent.push (mem_rules_of_rule? hd) (fun hentry => h.opens hentry _ ?_) site
  rw [name_of_rule? hd]
  exact .nonTerminal

/-- The rule of the stack is at its beginning. -/
theorem poised_body {name : String} {d : RuleDef} (ho : l.Outlined) (hd : l.rule? name = some d)
    (hrule : stack.rule = d.name) (h : l.Descent stack.frames s.position) :
    l.Poised stack d.body s := by
  refine ⟨h, fun _ name' hname => ⟨d.outline, ?_, hname⟩⟩
  rw [hrule, name_of_rule? hd, ho.rule?, hd]
  rfl

/-- A plain run that begins in order keeps the history in order. -/
theorem Runs.settled (ho : l.Outlined) (hp : l.Plain) (ha : l.grammar.Acyclic)
    (h : Runs l room stack steps s r) (hsteps : Step.plainSeq steps = true)
    (hroom : room + stack.frames.length = l.config.maxDepth) (hn : s.cursor.toList.length = n)
    (hpoised : s.errors = [] → l.Poised stack steps s) (hs : l.Settled n s.history) :
    l.Settled n r.state.history := by
  -- Along the run, what may still be called for stays in line with the stack: a step that has
  -- passed no token derives nothing, and after a token or an error nothing is asked any more.
  induction h with
  | nil | undeclared | noOption | leftOut | noMany | stopped | noChoice => exact hs
  | @cons _ stack step rest s s' parts r hhead htail ihhead ihtail =>
    simp only [Step.plainSeq, Bool.and_eq_true] at hsteps
    have hplain : Step.plainSeq [step] = true := by simpa using hsteps.1
    have hleads : s.Leads s' := hhead.leads
    have hmid := ihhead hplain hroom hn (fun hnil => (hpoised hnil).head) hs
    have hn' : s'.cursor.toList.length = n := by rw [hleads.cursor.toList_eq, hn]
    rw [Result.state_map]
    refine ihtail hsteps.2 hroom hn' (fun hnil => ?_) hmid
    have hpoised := hpoised (hleads.errors_eq_nil hnil)
    refine hpoised.tail hleads fun hrest => ?_
    obtain ⟨us, hus, hd⟩ := hhead.derivation ho hp hplain rfl hnil
    have hnone : us = [] := by
      rw [hrest] at hus
      exact List.self_eq_append_left.1 hus
    rw [Step.outlineSeq_singleton] at hd
    exact hd.derives.vanishes hnone
  | @fails _ stack step rest s s' e hhead ih =>
    simp only [Step.plainSeq, Bool.and_eq_true] at hsteps
    exact ih (by simpa using hsteps.1) hroom hn (fun hnil => (hpoised hnil).head) hs
  | consume =>
    rw [Result.state_map]
    exact (consumption ..).settled hs
  | @refused stack name idx d s hd =>
    -- the stack is full, and with the rule that is refused it would still be a chain
    refine hs.cons fun hnil => ?_
    have hpoised := hpoised (ParseState.errors_eq_nil_iff.2 hnil)
    have hplace : s.position ≤ n := by
      rw [Cursor.length_toList] at hn
      show s.cursor.position ≤ n
      omega
    have hle := (hpoised.push hd none).length_le ha hplace
    rw [List.length_cons] at hle
    show l.config.maxDepth < _
    omega
  | @entered room stack name idx d s inner result hd hinner hbody ih =>
    have hdescent : s.errors = [] → l.Descent inner.frames s.position := by
      intro hnil
      rw [hinner]
      exact (hpoised hnil).push hd _
    have hspace : room + inner.frames.length = l.config.maxDepth := by
      have hlength : inner.frames.length = stack.frames.length + 1 := by
        rw [hinner]
        rfl
      omega
    have hbodyPoised : (s.note (.entered inner)).errors = [] →
        l.Poised inner d.body (s.note (.entered inner)) := by
      intro hnil
      rw [ParseState.errors_note rfl] at hnil
      exact poised_body ho hd (by rw [hinner, Stack.rule_push]) (hdescent hnil)
    have hentered : l.Settled n (s.note (.entered inner)).history :=
      hs.cons fun hnil => (hdescent (ParseState.errors_eq_nil_iff.2 hnil)).nested ha
    rw [Result.state_map]
    exact (ih (hp d (mem_rules_of_rule? hd)) hspace hn hbodyPoised hentered).leave
  | @taken _ stack idx steps s branches r _ _ _ ih =>
    rw [Step.plainSeq_singleton, Step.plain] at hsteps
    rw [Result.state_map]
    refine ih hsteps hroom hn (fun hnil => (hpoised hnil).of_reaches fun name hname => ?_) hs
    exact .option hname
  | skipped _ _ hrec => exact hs.recoverInRepetition hrec
  | resumed _ _ hrec _ ih =>
    have hn' := (leads_recoverInRepetition hrec).cursor.toList_eq
    refine ih hsteps hroom (by rw [hn', hn]) (fun hnil => ?_) (hs.recoverInRepetition hrec)
    exact absurd hnil (errors_recoverInRepetition_ne_nil hrec)
  | @round _ stack idx steps s s' branches parts r _ _ hbody hlt hagain ihbody ihagain =>
    have hplain : Step.plainSeq steps = true := by simpa [Step.plain] using hsteps
    have hleads : s.Leads s' := hbody.leads
    have hmid := ihbody hplain hroom hn
      (fun hnil => (hpoised hnil).of_reaches fun name hname => .many hname) hs
    have hn' : s'.cursor.toList.length = n := by rw [hleads.cursor.toList_eq, hn]
    rw [Result.state_map]
    refine ihagain hsteps hroom hn' (fun hnil => ?_) hmid
    exact (hpoised (hleads.errors_eq_nil hnil)).of_lt (hleads.position_lt hlt) _
  | stalled _ _ _ _ ih | roundFails _ _ _ ih =>
    rw [Step.plainSeq_singleton, Step.plain] at hsteps
    refine ih hsteps hroom hn (fun hnil => (hpoised hnil).of_reaches fun name hname => ?_) hs
    exact .many hname
  | unviable => exact hs.cons fun _ => trivial
  | @chosen _ stack idx label alternatives s branches i steps r _ _ hi _ ih =>
    rw [Step.plainSeq_singleton, Step.plain] at hsteps
    have hmem := List.mem_of_getElem? hi
    rw [Result.state_map]
    refine ih (Step.plainSeq_of_mem hsteps hmem) hroom hn
      (fun hnil => (hpoised hnil).of_reaches fun name hname => ?_) hs
    have hmem' : Step.outlineSeq steps ∈ Step.outlineAlts alternatives := by
      rw [Step.outlineAlts_eq]
      exact List.mem_map_of_mem hmem
    exact .choice hmem' hname
  | peek | errorCount | live | recorded | attempted | abandoned | fail =>
    simp [Step.plain] at hsteps

end Language

/-- Rules were nested too deep. -/
inductive Result.TooDeep {α : Type} : Result α → Prop where
  | intro {rule : String} {limit : Nat} {s : ParseState} :
      TooDeep (.error (.fatal (.recursionLimit rule limit)) s)

@[simp] theorem Result.tooDeep_map {α β : Type} {f : α → β} {r : Result α} :
    (r.map f).TooDeep ↔ r.TooDeep := by
  cases r with
  | ok a s => exact ⟨nofun, nofun⟩
  | error e s =>
    constructor
    · rintro ⟨⟩
      exact .intro
    · rintro ⟨⟩
      exact .intro

namespace Language

variable {l : Language} {room : Nat} {stack : Stack} {steps : List Step} {s : ParseState}
  {r : Result (List Tree)} {start : String} {tokens : List Token}

theorem leave_of_tooDeep (h : Result.TooDeep (l.leave stack r)) :
    r.TooDeep ∧ Result.state (l.leave stack r) = r.state := by
  match r with
  | .ok parts s => cases h
  | .error (.fatal e) s =>
    cases h
    exact ⟨.intro, rfl⟩
  | .error (.syntaxError e) s =>
    simp only [leave] at h
    split at h
    · cases h
    · rcases resync_cases l stack e s with hr | ⟨target, kind, -, -, -, -, hr⟩
      · rw [hr] at h
        cases h
      · rw [hr] at h
        cases h

theorem Consumption.not_tooDeep {expected : TokenId} {idx : Nat} {r : Result Token}
    (h : Consumption l stack expected idx s r) : ¬r.TooDeep := by
  cases h with
  | matched | deleted | inserted | raised => nofun

theorem not_tooDeep_branches {kind : DecisionKind} {idx : Nat} {e : ParseError}
    (h : l.branches stack kind idx = .error e) :
    ¬Result.TooDeep (.error e s : Result (List Tree)) := by
  rw [branches] at h
  split at h
  · cases h
  · cases h
    rintro ⟨⟩

/-- Where plain steps end because rules were nested too deep, the rule that was refused is noted. -/
theorem Runs.refused_mem (hp : l.Plain) (h : Runs l room stack steps s r)
    (hsteps : Step.plainSeq steps = true) (hr : r.TooDeep) :
    ∃ rule place, .refused rule place ∈ r.state.history := by
  induction h with
  | nil | leftOut | stopped | skipped | undeclared | unviable | stalled => cases hr
  | noOption h | noMany h | noChoice h => exact absurd hr (not_tooDeep_branches h)
  | consume => exact absurd (Result.tooDeep_map.1 hr) (consumption ..).not_tooDeep
  | refused => exact ⟨_, _, List.mem_cons_self ..⟩
  | cons _ _ _ ih =>
    simp only [Step.plainSeq, Bool.and_eq_true] at hsteps
    rw [Result.tooDeep_map] at hr
    rw [Result.state_map]
    exact ih hsteps.2 hr
  | fails _ ih =>
    simp only [Step.plainSeq, Bool.and_eq_true] at hsteps
    exact ih (by simpa using hsteps.1) hr
  | entered h _ _ ih =>
    rw [Result.tooDeep_map] at hr
    obtain ⟨hdeep, hstate⟩ := leave_of_tooDeep hr
    rw [Result.state_map, hstate]
    exact ih (hp _ (mem_rules_of_rule? h)) hdeep
  | taken _ _ _ ih =>
    rw [Step.plainSeq_singleton, Step.plain] at hsteps
    rw [Result.tooDeep_map] at hr
    rw [Result.state_map]
    exact ih hsteps hr
  | resumed _ _ _ _ ih => exact ih hsteps hr
  | round _ _ _ _ _ _ ih =>
    rw [Result.tooDeep_map] at hr
    rw [Result.state_map]
    exact ih hsteps hr
  | roundFails _ _ _ ih =>
    rw [Step.plainSeq_singleton, Step.plain] at hsteps
    exact ih hsteps hr
  | chosen _ _ hi _ ih =>
    rw [Step.plainSeq_singleton, Step.plain] at hsteps
    rw [Result.tooDeep_map] at hr
    rw [Result.state_map]
    exact ih (Step.plainSeq_of_mem hsteps (List.mem_of_getElem? hi)) hr
  | peek | errorCount | live | recorded | attempted | abandoned | fail =>
    simp [Step.plain] at hsteps

/-! ## Whole parses -/

theorem descent_startStack {d : RuleDef} (hd : d ∈ l.rules) :
    l.Descent (startStack d).frames 0 := by
  refine ⟨List.pairwise_singleton _ _, ?_, ?_⟩
  · intro f hf
    obtain rfl := List.mem_singleton.1 hf
    exact Nat.le_refl _
  · intro f hf
    obtain rfl := List.mem_singleton.1 hf
    exact List.mem_map_of_mem hd

theorem settled_lastState (ho : l.Outlined) (hp : l.Plain) (ha : l.grammar.Acyclic)
    (start : String) (tokens : List Token) :
    l.Settled tokens.length (l.lastState start tokens).history := by
  have hnone : l.Settled tokens.length [] := by
    rintro e before ⟨later, h⟩
    simp at h
  cases hd : l.rule? start with
  | none =>
    rw [lastState_undeclared hd]
    exact hnone
  | some d =>
    have hdescent := descent_startStack (mem_rules_of_rule? hd)
    rw [lastState_eq hd]
    cases hdepth : l.config.maxDepth with
    | zero =>
      refine hnone.cons fun _ => ?_
      show l.config.maxDepth < _
      rw [hdepth]
      exact hdescent.length_le ha (Nat.zero_le _)
    | succ room =>
      obtain ⟨result, hrun⟩ := exists_run l room (startStack d) d.body (startState d tokens)
      have hentered : l.Settled tokens.length (startState d tokens).history :=
        hnone.cons fun _ => hdescent.nested ha
      rw [invoke_entered hrun, Result.state_map]
      exact hrun.settled ho hp ha (hp d (mem_rules_of_rule? hd)) hdepth.symm
        (congrArg List.length (Cursor.toList_ofList tokens))
        (fun _ => poised_body ho hd rfl hdescent) hentered

theorem finish_of_recursionLimit {result : Result Tree} {rule : String} {limit : Nat}
    (h : (finish start result).fatal = some (.recursionLimit rule limit)) :
    result.TooDeep ∧ (finish start result).errors = result.state.errors := by
  match result with
  | .ok t s =>
    simp only [finish] at h
    split at h <;> cases h
  | .error (.syntaxError e) s =>
    rw [finish] at h
    cases h
  | .error (.fatal e) s =>
    cases h
    exact ⟨.intro, rfl⟩

/-- A parse that ends because rules were nested too deep notes the rule that was refused, and
reports the errors that it met before. -/
theorem refused_mem_lastState (hp : l.Plain) {rule : String} {limit : Nat}
    (h : (l.parse start tokens).fatal = some (.recursionLimit rule limit)) :
    (∃ rule place, .refused rule place ∈ (l.lastState start tokens).history) ∧
      (l.parse start tokens).errors = (l.lastState start tokens).errors := by
  cases hd : l.rule? start with
  | none =>
    rw [parse_undeclared hd] at h
    cases h
  | some d =>
    rw [parse_eq_finish hd] at h
    obtain ⟨hdeep, herrors⟩ := finish_of_recursionLimit h
    rw [parse_eq_finish hd, lastState_eq hd]
    refine ⟨?_, herrors⟩
    cases hdepth : l.config.maxDepth with
    | zero => exact ⟨_, _, List.mem_cons_self ..⟩
    | succ room =>
      obtain ⟨result, hrun⟩ := exists_run l room (startStack d) d.body (startState d tokens)
      rw [hdepth, invoke_entered hrun, Result.tooDeep_map] at hdeep
      rw [invoke_entered hrun, Result.state_map]
      exact hrun.refused_mem hp (hp d (mem_rules_of_rule? hd)) hdeep

end Language

/-! ## Every moment -/

/-- The history tells how every invocation that is under way was entered. -/
def Moment.Noted (m : Moment) : Prop :=
  ∀ top below, top :: below <:+ m.frames → .entered ⟨top, below⟩ ∈ m.state.history

namespace Language

variable {l : Language} {stack : Stack} {m m' : Moment} {start : String} {tokens : List Token}

/-- Where no invocation was entered, what was noted is still noted. -/
theorem noted_of_suffix (hm : m.Noted) (hframes : m'.frames <:+ m.frames)
    (hleads : m.state.Leads m'.state) : m'.Noted := fun top below hsuffix =>
  hleads.history.subset (hm top below (hsuffix.trans hframes))

theorem Change.noted (h : l.Change stack m m') (hm : m.Noted) : m'.Noted := by
  have hleads := h.leads
  cases h with
  | @returned focus pending s r =>
    have hframes := Moment.frames_returning stack.frames pending r
    exact noted_of_suffix hm (hframes.symm ▸ List.suffix_refl _) hleads
  | @left outcome pending s r =>
    have hframes := Moment.frames_returning stack.below pending r
    exact noted_of_suffix hm (hframes.symm ▸ List.suffix_cons _ _) hleads
  | begun | live | looped | round | skipped | passed | rest | again =>
    exact noted_of_suffix hm (List.suffix_refl _) hleads
  | @entered name idx d inner pending s hr hd hinner =>
    intro top below hsuffix
    rw [hinner] at hsuffix ⊢
    rcases List.suffix_cons_iff.1 hsuffix with hsame | hsuffix
    · cases hsame
      exact List.mem_cons_self ..
    · exact List.mem_cons_of_mem _ (hm top below hsuffix)

theorem noted_firstMoment (l : Language) (start : String) (tokens : List Token) :
    (l.firstMoment start tokens).Noted := by
  have hnone : ∀ {frames : List Frame} {top : Frame} {below : List Frame},
      top :: below <:+ frames → frames ≠ [] := by
    rintro frames top below hsuffix rfl
    simp at hsuffix
  rw [firstMoment]
  cases l.rule? start with
  | none => exact fun top below hsuffix => absurd rfl (hnone hsuffix)
  | some d =>
    dsimp only
    rw [enter]
    split
    · intro top below hsuffix
      rcases List.suffix_cons_iff.1 hsuffix with hsame | hsuffix
      · cases hsame
        exact List.mem_cons_self ..
      · exact absurd rfl (hnone hsuffix)
    · exact fun top below hsuffix => absurd rfl (hnone hsuffix)

theorem Reaches.noted (h : l.Reaches start tokens m) : m.Noted := by
  induction h with
  | refl => exact noted_firstMoment l start tokens
  | tail _ hnext ih =>
    obtain ⟨stack, hchange⟩ := change_of_advance hnext
    exact hchange.noted ih

/-- As long as a parse has met no error, all invocations of a rule that are under way were entered
at different places, the inner one further on. So a parse of `n` tokens without an error nests no
deeper than there are rules times places between tokens, and is not ended for that if the limit is
not lower. -/
theorem nested_of_build {d : Draft} {l : Language} (hb : d.build = .ok l) (hp : d.Plain)
    (start : String) (tokens : List Token) :
    (∀ m, l.Reaches start tokens m → m.state.errors = [] → Nested m.frames) ∧
    ∀ rule limit, (l.parse start tokens).errors = [] →
      (l.parse start tokens).fatal = some (.recursionLimit rule limit) →
        l.config.maxDepth < l.rules.length * (tokens.length + 1) := by
  obtain ⟨rfl, ho⟩ := outlined_of_build hb hp
  have ha := (Grammar.wellFormed_of_check ho.checked).acyclic
  have hs := settled_lastState ho hp ha start tokens
  constructor
  · intro m hm hnil
    have hsettled : l.Settled tokens.length m.state.history := hs.of_suffix hm.history_suffix
    rw [ParseState.errors_eq_nil_iff] at hnil
    cases hframes : m.frames with
    | nil => exact .nil
    | cons top below =>
      have hnoted := hm.noted top below (hframes ▸ List.suffix_refl _)
      exact hsettled.fitting hnil hnoted
  · intro rule limit hnil hfatal
    obtain ⟨⟨_, _, hmem⟩, herrors⟩ := refused_mem_lastState hp hfatal
    rw [herrors, ParseState.errors_eq_nil_iff] at hnil
    exact hs.fitting hnil hmem

/-- The calculator language cannot parse so many open parentheses, which nest five rules each. -/
theorem nested_of_build_calc :
    Calc.draft.build = .ok Calc.language ∧ Calc.draft.Plain ∧
    (∀ m, Calc.language.Reaches "expression" (Calc.vocabulary.tokenize "2*(3-4)").1 m →
      m.state.errors = [] → Nested m.frames) ∧
    ∃ tokens rule, tokens.length = 26 ∧ (Calc.language.parse "expression" tokens).errors = [] ∧
      (Calc.language.parse "expression" tokens).fatal = some (.recursionLimit rule 128) ∧
      Calc.language.config.maxDepth < Calc.language.rules.length * (26 + 1) := by
  obtain ⟨hnested, -⟩ := nested_of_build Calc.build_draft Calc.plain_draft "expression"
    (Calc.vocabulary.tokenize "2*(3-4)").1
  have hlength : (Calc.vocabulary.tokenize "((((((((((((((((((((((((((").1.length = 26 := by
    decide +kernel
  have herrors : (Calc.language.parse "expression"
      (Calc.vocabulary.tokenize "((((((((((((((((((((((((((").1).errors = [] := by
    decide +kernel
  have hfatal : (Calc.language.parse "expression"
      (Calc.vocabulary.tokenize "((((((((((((((((((((((((((").1).fatal =
        some (.recursionLimit "atomicExpression" 128) := by
    decide +kernel
  obtain ⟨-, hlimit⟩ := nested_of_build Calc.build_draft Calc.plain_draft "expression"
    (Calc.vocabulary.tokenize "((((((((((((((((((((((((((").1
  have hlimit := hlimit _ _ herrors hfatal
  rw [hlength] at hlimit
  exact ⟨Calc.build_draft, Calc.plain_draft, hnested, _, _, hlength, herrors, hfatal, hlimit⟩

end Language

end TopDown
