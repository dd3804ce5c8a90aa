import TopDown.Proofs.Discipline
import TopDown.Proofs.Resumption

/-!
# Where an escaping error is caught

A syntax error that a rule cannot get past goes from one invocation to the next. Each looks for a
resync point of its own, with its own stack, so the stack shrinks from one search to the next. Still
they all find the same place: an invocation that gives up nothing has nothing to do with where the
error lands (`Language.LandsAt.tail`). So the innermost invocation that can be followed by the token
there is the one that is given up: `Language.caught_of_build`.
-/

namespace TopDown

/-! ## The place where an error lands -/

/-- The elements that are sought past do not satisfy `stop`, and the next one does. -/
theorem Cursor.seek_spec {α : Type} (stop : α → Bool) (c : Cursor α) :
    (∀ i x, c.position ≤ i → i < (c.seek stop).position → c.toList[i]? = some x → stop x = false) ∧
    ∀ x, (c.seek stop).next? = some x → stop x = true := by
  obtain ⟨past, rest⟩ := c
  show (∀ i x, past.length ≤ i → i < (seek.go stop past rest).position → _ → _) ∧
    ∀ x, (seek.go stop past rest).next? = some x → _
  fun_induction seek.go stop past rest with
  | case1 past =>
    exact ⟨fun i x hle hlt => absurd hlt (Nat.not_lt.2 hle), fun x hx => by cases hx⟩
  | case2 past y rest hstop =>
    refine ⟨fun i x hle hlt => absurd hlt (Nat.not_lt.2 hle), fun x hx => ?_⟩
    obtain rfl : y = x := Option.some.inj hx
    exact hstop
  | case3 past y rest hstop ih =>
    obtain ⟨hbefore, hnext⟩ := ih
    refine ⟨fun i x hle hlt hx => ?_, hnext⟩
    rcases Nat.eq_or_lt_of_le hle with rfl | hgt
    · have hhere := Cursor.getElem?_position ⟨past, y :: rest⟩
      obtain rfl : y = x := Option.some.inj (hhere.symm.trans hx)
      simpa using hstop
    · refine hbefore i x hgt hlt ?_
      rw [← hx, (Cursor.Before.cons past rest y).toList_eq]

namespace Language

variable {l : Language} {tokens : List Token} {frames : List Frame} {f : Frame} {p q : Nat}

/-- The token at the position, or the end of the input, can follow the invocation. -/
def Fits (l : Language) (tokens : List Token) (f : Frame) (position : Nat) : Prop :=
  (l.frameFollow f).admits l.vocabulary (l.vocabulary.kindAt tokens position) = true

instance (l : Language) (tokens : List Token) (f : Frame) (position : Nat) :
    Decidable (l.Fits tokens f position) :=
  inferInstanceAs (Decidable (_ = true))

/-- Of the positions from `p` on, `q` is the first whose token can follow one of the invocations, or
the end of the input if there is none. -/
structure LandsAt (l : Language) (tokens : List Token) (frames : List Frame) (p q : Nat) :
    Prop where
  le : p ≤ q
  bound : q ≤ tokens.length
  first : ∀ i, p ≤ i → i < q → ∀ f ∈ frames, ¬l.Fits tokens f i
  fits : q < tokens.length → ∃ f ∈ frames, l.Fits tokens f q

theorem LandsAt.unique {q' : Nat} (h : l.LandsAt tokens frames p q)
    (h' : l.LandsAt tokens frames p q') : q = q' := by
  have hnot : ∀ {a b : Nat}, l.LandsAt tokens frames p a → l.LandsAt tokens frames p b →
      ¬a < b := by
    intro a b ha hb hlt
    obtain ⟨f, hf, hfits⟩ := ha.fits (Nat.lt_of_lt_of_le hlt hb.bound)
    exact hb.first a ha.le hlt f hf hfits
  exact Nat.le_antisymm (Nat.not_lt.1 (hnot h' h)) (Nat.not_lt.1 (hnot h h'))

/-- The place does not change when an invocation that does not fit it is left. -/
theorem LandsAt.tail (h : l.LandsAt tokens (f :: frames) p q) (hf : ¬l.Fits tokens f q) :
    l.LandsAt tokens frames p q where
  le := h.le
  bound := h.bound
  first i hle hlt g hg := h.first i hle hlt g (List.mem_cons_of_mem f hg)
  fits hlt := by
    obtain ⟨g, hg, hfits⟩ := h.fits hlt
    rcases List.mem_cons.1 hg with rfl | hg
    · exact absurd hfits hf
    · exact ⟨g, hg, hfits⟩

theorem landsAt_seek {c : Cursor Token} (hc : c.toList = tokens) (frames : List Frame) :
    l.LandsAt tokens frames c.position (c.seek fun t =>
      frames.any fun f => (l.frameFollow f).admits l.vocabulary t.kind).position := by
  generalize hstop : (fun t : Token => frames.any fun f =>
    (l.frameFollow f).admits l.vocabulary t.kind) = stop
  obtain ⟨hpassed, hnext⟩ := Cursor.seek_spec stop c
  have hkind : ∀ {i : Nat} {t : Token}, tokens[i]? = some t →
      l.vocabulary.kindAt tokens i = t.kind := fun ht => by rw [Vocabulary.kindAt, ht]; rfl
  have hlist : (c.seek stop).toList = tokens := (Cursor.toList_seek stop c).trans hc
  have hlength := Cursor.length_toList (c.seek stop)
  rw [hlist] at hlength
  constructor
  · exact (Cursor.before_seek stop c).position_le
  · omega
  · intro i hle hlt f hf hfits
    obtain ⟨t, ht⟩ : ∃ t, tokens[i]? = some t := ⟨_, List.getElem?_eq_getElem (by omega)⟩
    have hno := hpassed i t hle hlt (hc ▸ ht)
    rw [← hstop, List.any_eq_false] at hno
    rw [Fits, hkind ht] at hfits
    exact hno f hf hfits
  · intro hlt
    obtain ⟨t, ht⟩ : ∃ t, tokens[(c.seek stop).position]? = some t :=
      ⟨_, List.getElem?_eq_getElem hlt⟩
    have hyes := hnext t ((Cursor.getElem?_position _).symm.trans (hlist ▸ ht))
    rw [← hstop, List.any_eq_true] at hyes
    obtain ⟨f, hf, hfits⟩ := hyes
    exact ⟨f, hf, by rw [Fits, hkind ht]; exact hfits⟩

theorem admits_foldl_union {v : Vocabulary} {follow : Frame → TokenSet} {kind : TokenId}
    {set : TokenSet} : (frames.foldl (fun set f => set.union (follow f)) set).admits v kind = true ↔
      set.admits v kind = true ∨ ∃ f ∈ frames, (follow f).admits v kind = true := by
  induction frames generalizing set with
  | nil => simp
  | cons f frames ih =>
    have hunion : (set.union (follow f)).admits v kind = true ↔
        set.admits v kind = true ∨ (follow f).admits v kind = true := by
      simp only [TokenSet.admits_iff, TokenSet.mem_union, or_and_right, exists_or]
    rw [List.foldl_cons, ih, hunion, List.exists_mem_cons_iff, or_assoc]

/-- A token is in the resync set if it can follow one of the invocations. -/
theorem admits_resyncSet (stack : Stack) (kind : TokenId) :
    (l.resyncSet stack).admits l.vocabulary kind =
      stack.frames.any fun f => (l.frameFollow f).admits l.vocabulary kind := by
  have hempty : ¬(∅ : TokenSet).admits l.vocabulary kind = true := by
    rw [TokenSet.admits_iff]
    rintro ⟨c, hc, -⟩
    exact TokenSet.not_mem_empty hc
  rw [Bool.eq_iff_iff, resyncSet, admits_foldl_union, List.any_eq_true]
  exact or_iff_right hempty

/-- The resync point is where the error lands. -/
theorem landsAt_resyncPoint {c : Cursor Token} (hc : c.toList = tokens) (stack : Stack) :
    l.LandsAt tokens stack.frames c.position (l.resyncPoint stack c).position := by
  have hpoint := landsAt_seek (l := l) hc stack.frames
  rw [resyncPoint]
  simp only [admits_resyncSet]
  exact hpoint

theorem kindAt_resyncPoint {c : Cursor Token} (hc : c.toList = tokens) (stack : Stack) :
    l.kindAt (l.resyncPoint stack c) =
      l.vocabulary.kindAt tokens (l.resyncPoint stack c).position := by
  have hlist : (l.resyncPoint stack c).toList = tokens := (Cursor.toList_seek _ c).trans hc
  rw [Vocabulary.kindAt, ← hlist, Cursor.getElem?_position]
  rfl

section Resync

variable (stack : Stack) {s : ParseState} {e : SyntaxError}

/-- An invocation that fits the place where the error lands is given up there. -/
theorem resync_of_fits (hrec : l.config.recovery = true) (hs : s.cursor.toList = tokens)
    (hq : l.LandsAt tokens stack.frames s.position q) (hf : l.Fits tokens stack.top q) :
    ∃ s' : ParseState, l.resync stack e s = .ok .hole s' ∧ s'.position = q ∧
      s'.errors = s.errors ++ [{ e with recovery := .resynced (q - s.position) }] := by
  have hpoint : (l.resyncPoint stack s.cursor).position = q :=
    (landsAt_resyncPoint hs stack).unique hq
  have hfits : (l.frameFollow stack.top).admits l.vocabulary
      (l.kindAt (l.resyncPoint stack s.cursor)) = true := by
    rw [kindAt_resyncPoint hs, hpoint]
    exact hf
  subst hpoint
  rw [resync, if_neg (by simp [hrec])]
  dsimp only
  rw [if_pos hfits]
  exact ⟨_, rfl, rfl, ParseState.errors_cons rfl⟩

/-- Any other invocation passes the error on. -/
theorem resync_of_not_fits (hs : s.cursor.toList = tokens)
    (hq : l.LandsAt tokens stack.frames s.position q) (hf : ¬l.Fits tokens stack.top q) :
    l.resync stack e s = .error (.syntaxError e) s := by
  rcases resync_cases l stack e s with hr | ⟨target, kind, rfl, rfl, -, hfits, -⟩
  · exact hr
  · rw [kindAt_resyncPoint hs, (landsAt_resyncPoint hs stack).unique hq] at hfits
    exact absurd hfits hf

end Resync

end Language

/-! ## Moments of plain parses -/

/-- Only plain steps are to be done. -/
def Focus.Plain : Focus → Prop
  | .steps todo => Step.plainSeq todo = true
  | .step called => called.plain = true
  | .loop repetition => Step.plainSeq repetition.body = true
  | .back _ => True

/-- Only plain steps are to be done later, and no error is let pass. -/
def Pending.Plain : Pending → Prop
  | .rest others => Step.plainSeq others = true
  | .round loop _ => Step.plainSeq loop.body = true
  | .attempt => False
  | .prepend _ | .taken | .chosen _ | .leave => True

/-- The moment is one of a plain parse. -/
structure Moment.Plain (m : Moment) : Prop where
  focus : m.focus.Plain
  pending : ∀ p ∈ m.pending, p.Plain

namespace Language

variable {l : Language} {stack : Stack} {frames : List Frame} {pending : List Pending}
  {p : Pending} {s : ParseState} {r : Result (List Tree)} {m m' : Moment}

theorem plain_returning (h : ∀ p ∈ pending, p.Plain) :
    (Moment.returning frames pending r).Plain := by
  cases r with
  | ok parts s => exact ⟨trivial, h⟩
  | error e s => exact ⟨trivial, h⟩

theorem plain_begin {focus : Focus} (hf : focus.Plain) (hp : p.Plain)
    (h : ∀ p ∈ pending, p.Plain) : Moment.Plain ⟨frames, focus, p :: pending, s⟩ :=
  ⟨hf, List.forall_mem_cons.2 ⟨hp, h⟩⟩

theorem plain_enter (hp : l.Plain) {d : RuleDef} (hd : d ∈ l.rules) (site : Option CallSite)
    (h : ∀ p ∈ pending, p.Plain) : (l.enter d site frames pending s).Plain := by
  rw [enter]
  split
  · exact plain_begin (hp d hd) trivial h
  · exact plain_returning h

theorem plain_perform (hp : l.Plain) {step : Step} (hstep : step.plain = true)
    (h : ∀ p ∈ pending, p.Plain) : (l.perform stack pending s step).Plain := by
  cases step with
  | consume token idx => exact plain_returning h
  | subrule name idx =>
    rw [perform]
    cases hd : l.rule? name with
    | none => exact plain_returning h
    | some d => exact plain_enter hp (mem_rules_of_rule? hd) _ h
  | option idx body =>
    rw [perform]
    cases l.branches stack .option idx with
    | error e => exact plain_returning h
    | ok branches =>
      dsimp only
      split
      · exact plain_begin hstep trivial h
      · exact plain_returning h
  | many idx body =>
    rw [perform]
    cases l.branches stack .many idx with
    | error e => exact plain_returning h
    | ok branches => exact ⟨hstep, h⟩
  | choose idx label alternatives =>
    rw [perform]
    cases l.branches stack .choice idx with
    | error e => exact plain_returning h
    | ok branches =>
      dsimp only
      split
      · rename_i i body htaken
        have hmem : body ∈ alternatives := by
          cases hc : l.chosenBranch? branches (s.nextKind l.vocabulary) with
          | none => simp [hc] at htaken
          | some k =>
            simp only [hc, Option.bind_eq_bind, Option.bind_some, Option.pure_def,
              Option.bind_eq_some_iff, Option.some.injEq, Prod.mk.injEq] at htaken
            obtain ⟨_, hget, -, rfl⟩ := htaken
            exact List.mem_of_getElem? hget
        exact plain_begin (Step.plainSeq_of_mem hstep hmem) trivial h
      · exact plain_returning h
  | peek | errorCount | live | recorded | attempt | fail => simp [Step.plain] at hstep

theorem plain_turn {loop : Loop} (hbody : Step.plainSeq loop.body = true)
    (h : ∀ p ∈ pending, p.Plain) : (l.turn stack pending s loop).Plain := by
  rw [turn]
  split
  · exact plain_begin hbody hbody h
  · split
    · exact plain_returning h
    · exact plain_returning h
    · exact ⟨hbody, h⟩

theorem plain_resume (hp : p.Plain) (h : ∀ p ∈ pending, p.Plain) :
    (l.resume stack pending p r).Plain := by
  cases p with
  | rest steps =>
    cases r with
    | ok parts s => exact plain_begin hp trivial h
    | error e s =>
      rw [resume]
      exact plain_returning h
  | prepend | taken | chosen =>
    rw [resume]
    exact plain_returning h
  | round loop start =>
    cases r with
    | ok parts s =>
      rw [resume]
      split
      · exact ⟨hp, h⟩
      · exact plain_returning h
    | error e s =>
      rw [resume]
      exact plain_returning h
  | attempt => exact hp.elim
  | leave =>
    rw [resume_leave]
    exact plain_returning h

/-- A plain parse stays plain. -/
theorem plain_of_advance (hp : l.Plain) (h : l.advance m = some m') (hm : m.Plain) : m'.Plain := by
  obtain ⟨frames, focus, pending, s⟩ := m
  obtain ⟨hfocus, hpending⟩ := hm
  cases frames with
  | nil => cases focus <;> cases h
  | cons top below =>
    cases focus with
    | steps steps =>
      cases steps with
      | nil =>
        cases h
        exact ⟨trivial, hpending⟩
      | cons step rest =>
        cases h
        have hsteps : step.plain = true ∧ Step.plainSeq rest = true := by
          simpa [Focus.Plain, Step.plainSeq] using hfocus
        exact plain_begin hsteps.1 hsteps.2 hpending
    | step step =>
      cases h
      exact plain_perform hp hfocus hpending
    | loop repetition =>
      cases h
      exact plain_turn hfocus hpending
    | back outcome =>
      cases pending with
      | nil => cases h
      | cons p pending =>
        cases h
        obtain ⟨hhead, htail⟩ := List.forall_mem_cons.1 hpending
        exact plain_resume hhead htail

theorem Reaches.plain (hp : l.Plain) {start : String} {tokens : List Token}
    (h : l.Reaches start tokens m) : m.Plain := by
  induction h with
  | refl =>
    have hnone : ∀ p ∈ ([] : List Pending), p.Plain := fun _ hmem => nomatch hmem
    rw [firstMoment]
    cases hd : l.rule? start with
    | none => exact plain_returning hnone
    | some d => exact plain_enter hp (mem_rules_of_rule? hd) none hnone
  | tail _ hnext ih => exact plain_of_advance hp hnext ih

/-! ## Invocations that are under way -/

/-- The invocation was called for at the moment `call`, and has not come back up to `m`. -/
structure Calls (l : Language) (start : String) (tokens : List Token) (call : Moment) (f : Frame)
    (m : Moment) : Prop where
  reached : l.Reaches start tokens call
  entry : f.entry = call.state.position
  site : ∃ caller below idx, call.frames = caller :: below ∧
    call.focus = .step (.subrule f.rule idx) ∧ f.site = some ⟨caller.rule, .rule f.rule, idx⟩
  within : l.Within call.pending call m

/-- Each of the invocations but the start rule was called for at some moment and is to be left for
it, and so is the start rule at the end. -/
inductive Underway (l : Language) (start : String) (tokens : List Token) (m : Moment) :
    List Frame → List Pending → Prop where
  | nil : Underway l start tokens m [] []
  | waits {f : Frame} {frames : List Frame} {p : Pending} {pending : List Pending}
      (hp : p ≠ .leave) (h : Underway l start tokens m (f :: frames) pending) :
      Underway l start tokens m (f :: frames) (p :: pending)
  | start {f : Frame} : Underway l start tokens m [f] [.leave]
  | call {f : Frame} {call : Moment} (hcall : l.Calls start tokens call f m)
      (h : Underway l start tokens m call.frames call.pending) :
      Underway l start tokens m (f :: call.frames) (.leave :: call.pending)

variable {start : String} {tokens : List Token}

/-- What lies under what is done next stays under way. -/
theorem Underway.next (h : l.Underway start tokens m frames pending) (hnext : l.Next m m')
    (hsuffix : pending <:+ m.pending) : l.Underway start tokens m' frames pending := by
  induction h with
  | nil => exact .nil
  | waits hp _ ih => exact .waits hp (ih ((List.suffix_cons _ _).trans hsuffix))
  | start => exact .start
  | @call f call hcall _ ih =>
    have hbelow : call.pending <:+ m.pending := (List.suffix_cons _ _).trans hsuffix
    have hinside : m.Inside call.pending := by
      refine ⟨hbelow, fun hsame => ?_⟩
      have hlength := hsuffix.length_le
      rw [hsame, List.length_cons] at hlength
      omega
    have hgoes : l.Goes call.pending m m' := ⟨hinside, hnext⟩
    exact .call { hcall with within := hcall.within.tail hgoes } (ih hbelow)

theorem underway_returning (h : l.Underway start tokens m' frames pending) :
    l.Underway start tokens m' (Moment.returning frames pending r).frames
      (Moment.returning frames pending r).pending := by
  rw [Moment.frames_returning, Moment.pending_returning]
  exact h

/-- Whatever is done, the invocations stay in line with what is to be done. -/
theorem Change.underway (h : l.Change stack m m') (hnext : l.Next m m')
    (hreach : l.Reaches start tokens m) (hm : l.Underway start tokens m m.frames m.pending) :
    l.Underway start tokens m' m'.frames m'.pending := by
  have hsame : l.Underway start tokens m' m.frames m.pending := hm.next hnext (List.suffix_refl _)
  obtain ⟨top, below⟩ := stack
  cases h with
  | returned => exact underway_returning hsame
  | @begun _ _ p _ _ _ _ hp =>
    refine .waits ?_ hsame
    rintro rfl
    exact hp
  | live | looped | skipped => exact hsame
  | @entered name idx d inner pending s hr _ hinner =>
    subst hinner
    have hname : d.name = name := name_of_rule? hr
    refine .call ⟨hreach, rfl, ⟨top, below, idx, rfl, ?_, ?_⟩, ?_⟩ hsame
    · show Focus.step (.subrule name idx) = .step (.subrule d.name idx)
      rw [hname]
    · show some (⟨top.rule, .rule name, idx⟩ : CallSite) = some ⟨top.rule, .rule d.name, idx⟩
      rw [hname]
    · exact .single (goes_of_begin nofun hnext)
  | round => exact .waits nofun hsame
  | passed hp =>
    cases hsame with
    | waits _ h => exact h
    | start | call => exact absurd rfl hp
  | rest =>
    cases hsame with
    | waits _ h => exact .waits nofun h
  | again =>
    cases hsame with
    | waits _ h => exact h
  | left =>
    cases hsame with
    | waits hp => exact absurd rfl hp
    | start => exact underway_returning .nil
    | call _ h => exact underway_returning h

theorem Reaches.underway (h : l.Reaches start tokens m) :
    l.Underway start tokens m m.frames m.pending := by
  induction h with
  | refl =>
    rw [firstMoment]
    cases l.rule? start with
    | none => exact .nil
    | some d =>
      dsimp only
      rw [enter]
      split
      · exact .start
      · exact .nil
  | tail hreach hnext ih =>
    obtain ⟨stack, hchange⟩ := change_of_advance hnext
    exact hchange.underway hnext hreach ih

/-! ## Errors that escape -/

variable {e : SyntaxError} {q : Nat}

/-- The moment when the error comes back. -/
def failing (frames : List Frame) (pending : List Pending) (e : SyntaxError) (s : ParseState) :
    Moment :=
  ⟨frames, .back (.error (.syntaxError e)), pending, s⟩

/-- The error comes back from one thing after the other, and nothing else happens. -/
def Falls (l : Language) (e : SyntaxError) (s : ParseState) : Moment → Moment → Prop :=
  Relation.ReflTransGen fun m m' =>
    l.Next m m' ∧ m'.focus = .back (.error (.syntaxError e)) ∧ m'.state = s

/-- The invocation `f` is given up for the error that was coming back at the moment `m`: the
invocations above it pass the error on, and its own call comes back without a value. The error is
recorded, and the parse goes on at the position `q`. -/
def Catches (l : Language) (start : String) (tokens : List Token) (m : Moment) (e : SyntaxError)
    (q : Nat) (f : Frame) (below : List Frame) : Prop :=
  ∃ call last s', l.Falls e m.state m last ∧ last.frames = f :: below ∧ call.frames = below ∧
    l.Calls start tokens call f last ∧
    l.Next last (.returning below call.pending (.ok [.hole] s')) ∧
    s'.position = q ∧
    s'.errors = m.state.errors ++ [{ e with recovery := .resynced (q - m.state.position) }]

/-- What becomes of an error that comes back and lands at the position `q`. -/
structure Fate (l : Language) (start : String) (tokens : List Token) (e : SyntaxError) (q : Nat)
    (m : Moment) : Prop where
  /-- The innermost invocation that fits is given up, if it is not that of the start rule. -/
  caught : ∀ above f below, m.frames = above ++ f :: below → below ≠ [] → l.Fits tokens f q →
    (∀ g ∈ above, ¬l.Fits tokens g q) → l.Catches start tokens m e q f below
  /-- If there is none, the start rule fails. -/
  escapes : (∀ f ∈ m.frames.dropLast, ¬l.Fits tokens f q) →
    l.Falls e m.state m (failing [] [] e m.state)

section Falling

variable {below : List Frame} {f : Frame}

/-- What waits inside an invocation of a plain rule passes errors on. -/
theorem resume_error (stack : Stack) (hp : p ≠ .leave) (hplain : p.Plain) (e : ParseError) :
    l.resume stack pending p (.error e s) = .returning stack.frames pending (.error e s) := by
  cases p with
  | leave => exact absurd rfl hp
  | attempt => exact hplain.elim
  | rest | prepend | taken | chosen | round => rfl

/-- An invocation is left with what it makes of the error. -/
theorem next_leave {r : Result Tree} {below : List Frame} (hne : below ≠ [])
    (hr : l.resync ⟨f, below⟩ e s = r) :
    l.Next (failing (f :: below) (.leave :: pending) e s)
      (.returning below pending (r.map ([·]))) := by
  have hleave : l.leave ⟨f, below⟩ (.error (.syntaxError e) s) = r := by
    rw [leave, if_neg (by simp [hne]), hr]
  have hresume := resume_leave (l := l) ⟨f, below⟩ pending (.error (.syntaxError e) s)
  rw [hleave] at hresume
  exact congrArg some hresume

theorem Falls.head {frames' : List Frame} {pending' : List Pending}
    (hnext : l.Next (failing frames pending e s) (failing frames' pending' e s))
    (h : l.Falls e s (failing frames' pending' e s) m) :
    l.Falls e s (failing frames pending e s) m :=
  Relation.ReflTransGen.head ⟨hnext, rfl, rfl⟩ h

theorem Falls.next (h : l.Falls e s m m') : Relation.ReflTransGen l.Next m m' :=
  h.lift id fun _ _ hstep => hstep.1

/-- What is found out about the next moment holds of this one. -/
theorem Catches.head {frames' : List Frame} {pending' : List Pending}
    (hnext : l.Next (failing frames pending e s) (failing frames' pending' e s))
    (h : l.Catches start tokens (failing frames' pending' e s) e q f below) :
    l.Catches start tokens (failing frames pending e s) e q f below := by
  obtain ⟨call, last, s', hfalls, hrest⟩ := h
  exact ⟨call, last, s', hfalls.head hnext, hrest⟩

/-- The error comes back inside an invocation. -/
theorem Fate.waits {pending' : List Pending}
    (hnext : l.Next (failing frames pending e s) (failing frames pending' e s))
    (h : l.Fate start tokens e q (failing frames pending' e s)) :
    l.Fate start tokens e q (failing frames pending e s) where
  caught above f below hsplit hbelow hfits habove :=
    (h.caught above f below hsplit hbelow hfits habove).head hnext
  escapes hnone := (h.escapes hnone).head hnext

/-- The error leaves an invocation that does not fit. -/
theorem Fate.leave {pending' : List Pending} (hne : frames ≠ []) (hf : ¬l.Fits tokens f q)
    (hnext : l.Next (failing (f :: frames) pending e s) (failing frames pending' e s))
    (h : l.Fate start tokens e q (failing frames pending' e s)) :
    l.Fate start tokens e q (failing (f :: frames) pending e s) where
  caught above g below hsplit hbelow hfits habove := by
    cases above with
    | nil =>
      obtain ⟨rfl, -⟩ := List.cons.inj hsplit
      exact absurd hfits hf
    | cons f' above =>
      obtain ⟨-, hsplit⟩ := List.cons.inj hsplit
      have habove' : ∀ g ∈ above, ¬l.Fits tokens g q := fun g hg =>
        habove g (List.mem_cons_of_mem _ hg)
      exact (h.caught above g below hsplit hbelow hfits habove').head hnext
  escapes hnone := by
    have hmore : (f :: frames).dropLast = f :: frames.dropLast := List.dropLast_cons_of_ne_nil hne
    refine (h.escapes fun g hg => hnone g ?_).head hnext
    show g ∈ (f :: frames).dropLast
    rw [hmore]
    exact List.mem_cons_of_mem _ hg

/-- The error leaves the start rule. -/
theorem fate_start (hnext : l.Next (failing [f] pending e s) (failing [] [] e s)) :
    l.Fate start tokens e q (failing [f] pending e s) where
  caught above g below hsplit hbelow := by
    have hlength : ([f] : List Frame).length = (above ++ g :: below).length :=
      congrArg List.length hsplit
    have hpos := List.length_pos_iff.2 hbelow
    simp only [List.length_append, List.length_cons, List.length_nil] at hlength
    omega
  escapes _ := Falls.head hnext .refl

/-- The error comes to an invocation that fits. -/
theorem fate_of_fits {call : Moment} {s' : ParseState} (hfits : l.Fits tokens f q)
    (hcall : l.Calls start tokens call f
      (failing (f :: call.frames) (.leave :: call.pending) e s))
    (hnext : l.Next (failing (f :: call.frames) (.leave :: call.pending) e s)
      (.returning call.frames call.pending (.ok [.hole] s')))
    (hposition : s'.position = q)
    (herrors : s'.errors = s.errors ++ [{ e with recovery := .resynced (q - s.position) }]) :
    l.Fate start tokens e q (failing (f :: call.frames) (.leave :: call.pending) e s) where
  caught above g below hsplit _ _ habove := by
    cases above with
    | nil =>
      obtain ⟨rfl, rfl⟩ := List.cons.inj hsplit
      exact ⟨call, _, s', .refl, rfl, rfl, hcall, hnext, hposition, herrors⟩
    | cons f' above =>
      obtain ⟨rfl, -⟩ := List.cons.inj hsplit
      exact absurd hfits (habove _ (List.mem_cons_self ..))
  escapes hnone := by
    obtain ⟨caller, outer, idx, hframes, -⟩ := hcall.site
    refine absurd hfits (hnone f ?_)
    show f ∈ (f :: call.frames).dropLast
    rw [hframes, List.dropLast_cons_cons]
    exact List.mem_cons_self ..

end Falling

/-- An error that comes back is caught where it lands, or not at all. -/
theorem Underway.fate (hrec : l.config.recovery = true) (hs : s.cursor.toList = tokens)
    (hm : l.Underway start tokens (failing frames pending e s) frames pending)
    (hplain : ∀ p ∈ pending, p.Plain) (hq : l.LandsAt tokens frames s.position q) :
    l.Fate start tokens e q (failing frames pending e s) := by
  -- one thing that waits is left after the other, and the place where the error lands stays the same
  induction pending generalizing frames with
  | nil =>
    cases hm
    exact ⟨fun above f below hsplit => by simp [failing] at hsplit, fun _ => .refl⟩
  | cons p pending ih =>
    obtain ⟨hp, hlater⟩ := List.forall_mem_cons.1 hplain
    cases hm with
    | @waits f frames _ _ hne h =>
      have hnext : l.Next (failing (f :: frames) (p :: pending) e s)
          (failing (f :: frames) pending e s) :=
        congrArg some (resume_error ⟨f, frames⟩ hne hp (.syntaxError e))
      exact (ih (h.next hnext (List.suffix_cons _ _)) hlater hq).waits hnext
    | @start f =>
      exact fate_start (congrArg some (resume_leave ⟨f, []⟩ [] (.error (.syntaxError e) s)))
    | @call f call hcall h =>
      obtain ⟨caller, outer, idx, hframes, -⟩ := id hcall.site
      have hne : call.frames ≠ [] := by simp [hframes]
      by_cases hf : l.Fits tokens f q
      · obtain ⟨s', hr, hposition, herrors⟩ :=
          resync_of_fits ⟨f, call.frames⟩ (e := e) hrec hs hq hf
        exact fate_of_fits hf hcall (next_leave hne hr) hposition herrors
      · have hnext : l.Next (failing (f :: call.frames) (.leave :: call.pending) e s) _ :=
          next_leave hne (resync_of_not_fits ⟨f, call.frames⟩ hs hq hf)
        exact (ih (h.next hnext (List.suffix_cons _ _)) hlater (hq.tail hf)).leave hne hf hnext

/-- An error that leaves the start rule ends the parse. -/
theorem parse_of_falls (hm : l.Reaches start tokens m)
    (hfalls : l.Falls e m.state m (failing [] [] e m.state)) :
    l.parse start tokens = ⟨none, m.state.errors, some (.unrecoverable
      { e with recovery := .resynced (tokens.length - m.state.position) })⟩ := by
  obtain ⟨result, hend, -, hparse⟩ := exists_reaches_end l start tokens
  have hfailed : l.Reaches start tokens (failing [] [] e m.state) :=
    hm.trans hfalls.next
  -- nothing comes after either of the two, so they are one
  have hsame : failing [] [] e m.state = .returning [] [] (result.map ([·])) := by
    have hlast := hfailed.ends hend (l.advance_returning _ _)
    rcases Relation.ReflTransGen.cases_head hlast with hsame | ⟨next, hnext, -⟩
    · exact hsame
    · cases hnext
  have hlength := Cursor.length_toList m.state.cursor
  rw [hm.disciplined.kept.tokens] at hlength
  have hrest : m.state.cursor.rest.length = tokens.length - m.state.position := by
    rw [ParseState.position]
    omega
  rw [hparse]
  cases result with
  | ok tree s => cases hsame
  | error e' s =>
    cases hsame
    rw [← hrest]
    rfl

/-- Where an escaping error is caught, in every parse of a plain language with recovery. Whenever a
syntax error comes back, after a call for a token or for one of several alternatives as after
anything else, there is one place where it lands: the first from the cursor on whose token can follow
one of the invocations, or else the end of the input. The innermost invocation that can be followed by
the token there, if it is not that of the start rule, is given up: the invocations above it pass the
error on and leave nothing behind, its call comes back without a value, and the parse goes on at the
place with the error recorded. If there is none, the parse ends with the error, and nothing is
recorded. -/
theorem caught_of_build {d : Draft} (hb : d.build = .ok l) (hp : d.Plain)
    (hrec : l.config.recovery = true) (hm : l.Reaches start tokens m)
    (he : m.focus = .back (.error (.syntaxError e))) :
    ∃ q, l.LandsAt tokens m.frames m.state.position q ∧
      (∀ above f below, m.frames = above ++ f :: below → below ≠ [] → l.Fits tokens f q →
        (∀ g ∈ above, ¬l.Fits tokens g q) → l.Catches start tokens m e q f below) ∧
      ((∀ f ∈ m.frames.dropLast, ¬l.Fits tokens f q) →
        l.parse start tokens = ⟨none, m.state.errors, some (.unrecoverable
          { e with recovery := .resynced (tokens.length - m.state.position) })⟩) := by
  obtain ⟨rfl, ho⟩ := outlined_of_build hb hp
  have hs : m.state.cursor.toList = tokens := hm.disciplined.kept.tokens
  have hq := landsAt_seek (l := l) hs m.frames
  have hunderway := hm.underway
  have hplain := (Reaches.plain hp hm).pending
  obtain ⟨frames, focus, pending, s⟩ := m
  cases he
  obtain ⟨hcaught, hescapes⟩ := hunderway.fate hrec hs hplain hq
  exact ⟨_, hq, hcaught, fun hnone => parse_of_falls hm (hescapes hnone)⟩

/-- The moment after so many things, or the last one. -/
def momentAfter (l : Language) : Nat → Moment → Moment
  | 0, m => m
  | n + 1, m =>
    match l.advance m with
    | some next => l.momentAfter n next
    | none => m

theorem next_momentAfter (l : Language) (n : Nat) (m : Moment) :
    Relation.ReflTransGen l.Next m (l.momentAfter n m) := by
  induction n generalizing m with
  | zero => exact .refl
  | succ n ih =>
    rw [momentAfter]
    cases hnext : l.advance m with
    | none => exact .refl
    | some next => exact .head hnext (ih next)

/-- The syntax error that comes back. -/
def escaping? (m : Moment) : Option SyntaxError :=
  match m.focus with
  | .back (.error (.syntaxError e)) => some e
  | _ => none

theorem focus_of_escaping? (h : escaping? m = some e) :
    m.focus = .back (.error (.syntaxError e)) := by
  rw [escaping?] at h
  split at h
  · rename_i hfocus
    rw [hfocus, Option.some.inj h]
  · cases h

/-- In `[\x7b"a" : : : ], 3]` the second colon is no value. The value, the member and the object
pass the error on, and the item of the array that they belong to is given up before the bracket. -/
theorem caught_of_build_json :
    let tokens := (Json.vocabulary.tokenize "[\x7b\"a\" : : : ], 3]").1
    let m := Json.language.momentAfter 32 (Json.language.firstMoment "value" tokens)
    let item : Frame := ⟨"value", some ⟨"array", .rule "value", 1⟩, 1⟩
    let below : List Frame := [⟨"array", some ⟨"value", .rule "array", 1⟩, 0⟩, ⟨"value", none, 0⟩]
    ∃ e, (Json.draft.build = .ok Json.language ∧ Json.draft.Plain ∧
        Json.language.config.recovery = true ∧ Json.language.Reaches "value" tokens m ∧
        m.focus = .back (.error (.syntaxError e))) ∧
      e.message = "expected a value, found ':' in rule `value`" ∧ m.state.position = 4 ∧
      Json.language.Catches "value" tokens m e 6 item below := by
  intro tokens m item below
  have hreach : Json.language.Reaches "value" tokens m := next_momentAfter _ _ _
  -- The machine is run once, for all that is to be known of it.
  obtain ⟨⟨e, he, hmessage⟩, hposition, hframes, habove, hitem, hbound, hfirst, hfits⟩ :
      (∃ e ∈ escaping? m, e.message = "expected a value, found ':' in rule `value`") ∧
      m.state.position = 4 ∧ m.frames = m.frames.take 3 ++ item :: below ∧
      (∀ g ∈ m.frames.take 3, ¬Json.language.Fits tokens g 6) ∧
      Json.language.Fits tokens item 6 ∧ 6 ≤ tokens.length ∧
      (∀ i, 4 ≤ i → i < 6 → ∀ f ∈ m.frames, ¬Json.language.Fits tokens f i) ∧
      (6 < tokens.length → ∃ f ∈ m.frames, Json.language.Fits tokens f 6) := by
    decide +kernel
  have hfocus := focus_of_escaping? he
  obtain ⟨q, hq, hcaught, -⟩ :=
    caught_of_build Json.build_draft Json.plain_draft rfl hreach hfocus
  have hlands : Json.language.LandsAt tokens m.frames m.state.position 6 := by
    rw [hposition]
    exact ⟨by decide, hbound, hfirst, hfits⟩
  obtain rfl := hq.unique hlands
  exact ⟨e, ⟨Json.build_draft, Json.plain_draft, rfl, hreach, hfocus⟩, hmessage, hposition,
    hcaught _ item below hframes (List.cons_ne_nil _ _) hitem habove⟩

end Language

end TopDown
