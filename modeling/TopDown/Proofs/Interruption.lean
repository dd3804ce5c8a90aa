import TopDown.Proofs.Recording
import TopDown.Proofs.Samples

/-!
# Interrupted recordings

An error ends the recording of the sequences it passes through without closing them. Which sequences
those are does not depend on what is open around them: recording steps adds to the innermost open
sequence, leaves others open inside it, and never touches what lies below (`Recording.Leaves`). So
the steps alone tell how many sequences they leave open (`Step.leftOpen`) and what they add if they
leave none (`Step.kept`).

As long as an attempt catches no error that comes out of an option, a repetition or an alternative,
its rule has all that comes before the error and after the attempt. Otherwise nothing is left of
what comes before the attempt: `RuleDef.record_attempt`.
-/

namespace TopDown

namespace Recording

variable {α β : Type}

/-- A result together with the sequences that are open then. -/
def outcome (result : Except ParseError α) (sequences : OpenSequences) :
    EStateM.Result ParseError OpenSequences α :=
  match result with
  | .ok a => .ok a sequences
  | .error e => .error e sequences

/-- Whatever is open around it, the recording ends with the result, adds to the innermost sequence
and leaves sequences open inside it. -/
def Leaves (x : Recording α) (result : Except ParseError α) (opened : OpenSequences)
    (added : List Production) : Prop :=
  ∀ inner outer, x (inner :: outer) = outcome result (opened ++ (inner ++ added) :: outer)

section Leaves

variable {x : Recording α} {f : α → Recording β} {a : α} {e : ParseError}
  {result : Except ParseError β} {opened opened' : OpenSequences} {q added added' : List Production}

theorem leaves_pure (a : α) : Leaves (pure a) (.ok a) [] [] := fun inner outer => by
  rw [List.append_nil]
  rfl

theorem leaves_push (p : Production) : Leaves (push p) (.ok ()) [] [p] := fun _ _ => rfl

theorem leaves_throw (e : ParseError) : Leaves (throw e : Recording α) (.error e) [] [] :=
  fun inner outer => by
    rw [List.append_nil]
    rfl

theorem Leaves.bind_error (hx : Leaves x (.error e) opened added) :
    Leaves (x >>= f) (.error e) opened added := fun inner outer => by
  rw [bind_apply, hx inner outer]
  rfl

theorem Leaves.bind (hx : Leaves x (.ok a) [] added) (hf : Leaves (f a) result opened added') :
    Leaves (x >>= f) result opened (added ++ added') := fun inner outer => by
  rw [bind_apply, hx inner outer, ← List.append_assoc]
  exact hf (inner ++ added) outer

/-- What comes after a sequence that was left open goes into it. -/
theorem Leaves.bind_opened (hx : Leaves x (.ok a) (q :: opened) added)
    (hf : Leaves (f a) result opened' added') :
    Leaves (x >>= f) result (opened' ++ (q ++ added') :: opened) added := fun inner outer => by
  rw [bind_apply, hx inner outer, List.append_assoc]
  exact hf q (opened ++ (inner ++ added) :: outer)

variable {y : Recording Unit}

theorem nested_apply (y : Recording Unit) (sequences : OpenSequences) :
    nested y sequences = (y >>= fun _ => leave) ([] :: sequences) := rfl

/-- An error leaves the sequence of its own open. -/
theorem Leaves.nested_error (hy : Leaves y (.error e) opened added) :
    Leaves (nested y) (.error e) (opened ++ [added]) [] := fun inner outer => by
  rw [nested_apply, bind_apply, hy [] (inner :: outer), List.append_nil, List.append_assoc]
  rfl

theorem Leaves.nested (hy : Leaves y (.ok ()) [] added) :
    Leaves (nested y) (.ok added) [] [] := fun inner outer => by
  rw [nested_apply, bind_apply, hy [] (inner :: outer), List.append_nil]
  rfl

/-- What is closed at the end is the innermost sequence that was left open. -/
theorem Leaves.nested_opened (hy : Leaves y (.ok ()) (q :: opened) added) :
    Leaves (Recording.nested y) (.ok q) (opened ++ [added]) [] := fun inner outer => by
  rw [nested_apply, bind_apply, hy [] (inner :: outer), List.append_nil, List.append_assoc]
  rfl

theorem Leaves.attempt {result : Except ParseError Unit} (hy : Leaves y result opened added) :
    Leaves (attempt y) (.ok ()) opened added := fun inner outer => by
  rw [Recording.attempt, hy inner outer]
  cases result <;> rfl

end Leaves

/-- Whether an error ends the recording and how many sequences it leaves open. If there are none,
the recording adds the productions, and gives the value unless it was ended by an error. -/
def Settles (x : Recording α) (broken : Bool) (n : Nat) (value : α) (ps : List Production) :
    Prop :=
  ∃ result opened added, Leaves x result opened added ∧ result.isOk = !broken ∧
    opened.length = n ∧ (n = 0 → added = ps ∧ ∀ a, result = .ok a → a = value)

section Settles

variable {x : Recording α} {f : α → Recording β} {broken : Bool} {m n : Nat} {a : α} {c : α → β}
  {ps : List Production} {qs : α → List Production}

theorem settles_pure (a : α) : Settles (pure a) false 0 a [] :=
  ⟨_, _, _, leaves_pure a, rfl, rfl, fun _ => ⟨rfl, fun _ h => (Except.ok.inj h).symm⟩⟩

theorem settles_push (p : Production) : Settles (push p) false 0 () [p] :=
  ⟨_, _, _, leaves_push p, rfl, rfl, fun _ => ⟨rfl, fun _ _ => rfl⟩⟩

theorem settles_throw (e : ParseError) (a : α) : Settles (throw e) true 0 a [] :=
  ⟨_, _, _, leaves_throw e, rfl, rfl, fun _ => ⟨rfl, fun _ h => by cases h⟩⟩

theorem Settles.bind_broken (hx : Settles x true n a ps) (b : β) :
    Settles (x >>= f) true n b ps := by
  obtain ⟨result, opened, added, hleaves, hok, hlength, hnone⟩ := hx
  cases result with
  | ok a => cases hok
  | error e =>
    exact ⟨_, _, _, hleaves.bind_error, rfl, hlength, fun h => ⟨(hnone h).1, fun _ h => by cases h⟩⟩

theorem Settles.bind (hx : Settles x false m a ps)
    (hf : ∀ a, Settles (f a) broken n (c a) (qs a)) :
    Settles (x >>= f) broken (m + n) (c a) (ps ++ qs a) := by
  obtain ⟨result, opened, added, hleaves, hok, hlength, hnone⟩ := hx
  cases result with
  | error e => cases hok
  | ok a' =>
    obtain ⟨result', opened', added', hleaves', hok', hlength', hnone'⟩ := hf a'
    cases opened with
    | nil =>
      obtain rfl : m = 0 := hlength.symm
      obtain ⟨rfl, ha⟩ := hnone rfl
      obtain rfl := ha a' rfl
      rw [Nat.zero_add]
      exact ⟨_, _, _, hleaves.bind hleaves', hok', hlength', fun h =>
        ⟨congrArg (added ++ ·) (hnone' h).1, (hnone' h).2⟩⟩
    | cons q opened =>
      rw [List.length_cons] at hlength
      refine ⟨_, _, _, hleaves.bind_opened hleaves', hok', ?_, fun h => by omega⟩
      rw [List.length_append, List.length_cons]
      omega

theorem Settles.map (hx : Settles x broken n a ps) (g : α → β) :
    Settles (x >>= fun a => pure (g a)) broken n (g a) ps := by
  cases broken with
  | true => exact hx.bind_broken (g a)
  | false =>
    have h := hx.bind fun a => settles_pure (g a)
    rwa [Nat.add_zero, List.append_nil] at h

variable {y : Recording Unit}

theorem Settles.nested (hy : Settles y false n () ps) : Settles (nested y) false n ps [] := by
  obtain ⟨result, opened, added, hleaves, hok, hlength, hnone⟩ := hy
  cases result with
  | error e => cases hok
  | ok a =>
    cases opened with
    | nil =>
      refine ⟨_, _, _, hleaves.nested, rfl, hlength, fun h => ⟨rfl, fun qs hqs => ?_⟩⟩
      rw [← (hnone h).1]
      exact (Except.ok.inj hqs).symm
    | cons q opened =>
      rw [List.length_cons] at hlength
      refine ⟨_, _, _, hleaves.nested_opened, rfl, ?_, fun h => by omega⟩
      rw [List.length_append, List.length_singleton]
      exact hlength

theorem Settles.nested_broken (hy : Settles y true n () ps) (qs : List Production) :
    Settles (Recording.nested y) true (n + 1) qs [] := by
  obtain ⟨result, opened, added, hleaves, hok, hlength, hnone⟩ := hy
  cases result with
  | ok a => cases hok
  | error e =>
    refine ⟨_, _, _, hleaves.nested_error, rfl, ?_, fun h => by omega⟩
    rw [List.length_append, List.length_singleton, hlength]

theorem Settles.attempt (hy : Settles y broken n () ps) :
    Settles (attempt y) false n () ps := by
  obtain ⟨result, opened, added, hleaves, -, hlength, hnone⟩ := hy
  exact ⟨_, _, _, hleaves.attempt, rfl, hlength, fun h => ⟨(hnone h).1, fun _ _ => rfl⟩⟩

end Settles

end Recording

namespace Step

/-! ## What the steps tell -/

mutual

/-- Whether an error ends the recording of the step. -/
def breaks : Step → Bool
  | .consume .. | .subrule .. | .peek _ | .errorCount | .live _ | .attempt _ => false
  | .option _ body | .many _ body | .recorded body => breaksSeq body
  | .choose _ _ alternatives => alternatives.isEmpty || breaksAlts alternatives
  | .fail _ => true

/-- Whether an error ends the recording of the steps. -/
def breaksSeq : List Step → Bool
  | [] => false
  | step :: rest => step.breaks || breaksSeq rest

/-- Whether an error ends the recording of one of the alternatives. -/
def breaksAlts : List (List Step) → Bool
  | [] => false
  | body :: rest => breaksSeq body || breaksAlts rest

end

mutual

/-- How many sequences the recording of the step leaves open: an error leaves that of every option,
repetition and alternative open that it comes out of. -/
def leftOpen : Step → Nat
  | .consume .. | .subrule .. | .peek _ | .errorCount | .live _ | .fail _ => 0
  | .option _ body | .many _ body => leftOpenSeq body + if breaksSeq body then 1 else 0
  | .choose _ _ alternatives => leftOpenAlts alternatives
  | .recorded body | .attempt body => leftOpenSeq body

/-- How many sequences the recording of the steps leaves open. -/
def leftOpenSeq : List Step → Nat
  | [] => 0
  | step :: rest => step.leftOpen + if step.breaks then 0 else leftOpenSeq rest

/-- How many sequences the recording of the alternatives leaves open. -/
def leftOpenAlts : List (List Step) → Nat
  | [] => 0
  | body :: rest => leftOpenSeq body + if breaksSeq body then 1 else leftOpenAlts rest

end

mutual

/-- The productions that the step comes to before an error ends its recording. -/
def kept : Step → List Production
  | .consume token idx => [.terminal token idx]
  | .subrule rule idx => [.nonTerminal rule idx]
  | .option idx body => if breaksSeq body then [] else [.option idx (keptSeq body)]
  | .many idx body => if breaksSeq body then [] else [.many idx (keptSeq body)]
  | .choose idx _ alternatives =>
    if breaksAlts alternatives then [] else [.choice idx (keptAlts alternatives)]
  | .recorded body | .attempt body => keptSeq body
  | .peek _ | .errorCount | .live _ | .fail _ => []

/-- The productions that the steps come to before an error ends their recording. -/
def keptSeq : List Step → List Production
  | [] => []
  | step :: rest => step.kept ++ if step.breaks then [] else keptSeq rest

/-- The productions that each of the alternatives comes to. -/
def keptAlts : List (List Step) → List (List Production)
  | [] => []
  | body :: rest => keptSeq body :: keptAlts rest

end

open Recording

theorem record_choose_nil (rule : String) (idx : Nat) (label : Option String) :
    (choose idx label []).record rule =
      (do push (.choice idx []); throw (.fatal (.emptyAlternatives rule idx))) := by
  rw [record, recordAlts]
  rfl

/-- A choice that has an alternative is complete once they are recorded. -/
theorem record_choose_cons (rule : String) (idx : Nat) (label : Option String) (body : List Step)
    (rest : List (List Step)) :
    (choose idx label (body :: rest)).record rule =
      (do let bodies ← recordAlts rule (body :: rest); push (.choice idx bodies)) := by
  funext sequences
  rw [record, recordAlts]
  simp only [bind_apply]
  cases nested (recordSeq rule body) sequences with
  | error => rfl
  | ok parts sequences =>
    dsimp only
    cases recordAlts rule rest sequences with
    | error => rfl
    | ok bodies sequences => cases sequences <;> rfl

mutual

theorem settles_record (rule : String) :
    ∀ step : Step, Settles (step.record rule) step.breaks step.leftOpen () step.kept
  | .consume token idx | .subrule target idx => by
    rw [record, breaks, leftOpen, kept]
    exact settles_push _
  | .option idx body | .many idx body => by
    have hbody := settles_recordSeq rule body
    rw [record, breaks, leftOpen, kept]
    cases hb : breaksSeq body with
    | false =>
      rw [hb] at hbody
      exact hbody.nested.bind fun parts => settles_push _
    | true =>
      rw [hb] at hbody
      exact (hbody.nested_broken []).bind_broken ()
  | .choose idx label [] => by
    rw [record_choose_nil]
    show Settles _ true 0 () [.choice idx []]
    exact (settles_push _).bind fun _ => settles_throw _ ()
  | .choose idx label (body :: rest) => by
    have halts := settles_recordAlts rule (body :: rest)
    rw [record_choose_cons, breaks, leftOpen, kept]
    cases hb : breaksAlts (body :: rest) with
    | false =>
      rw [hb] at halts
      exact halts.bind fun bodies => settles_push _
    | true =>
      rw [hb] at halts
      exact halts.bind_broken ()
  | .peek _ | .errorCount | .live _ => by
    rw [record, breaks, leftOpen, kept]
    exact settles_pure ()
  | .recorded body => by
    rw [record, breaks, leftOpen, kept]
    exact settles_recordSeq rule body
  | .attempt body => by
    rw [record, breaks, leftOpen, kept]
    exact (settles_recordSeq rule body).attempt
  | .fail error => by
    rw [record, breaks, leftOpen, kept]
    exact settles_throw error ()

theorem settles_recordSeq (rule : String) : ∀ steps : List Step,
    Settles (recordSeq rule steps) (breaksSeq steps) (leftOpenSeq steps) () (keptSeq steps)
  | [] => by
    rw [recordSeq, breaksSeq, leftOpenSeq, keptSeq]
    exact settles_pure ()
  | step :: rest => by
    have hstep := settles_record rule step
    rw [recordSeq, breaksSeq, leftOpenSeq, keptSeq]
    cases hb : step.breaks with
    | false =>
      rw [hb] at hstep
      exact hstep.bind fun _ => settles_recordSeq rule rest
    | true =>
      rw [hb] at hstep
      rw [Bool.true_or, if_pos rfl, if_pos rfl, List.append_nil]
      exact hstep.bind_broken ()

theorem settles_recordAlts (rule : String) : ∀ alternatives : List (List Step),
    Settles (recordAlts rule alternatives) (breaksAlts alternatives) (leftOpenAlts alternatives)
      (keptAlts alternatives) []
  | [] => by
    rw [recordAlts, breaksAlts, leftOpenAlts, keptAlts]
    exact settles_pure []
  | body :: rest => by
    have hbody := settles_recordSeq rule body
    rw [recordAlts, breaksAlts, leftOpenAlts, keptAlts]
    cases hb : breaksSeq body with
    | false =>
      rw [hb] at hbody
      exact hbody.nested.bind fun parts => (settles_recordAlts rule rest).map (parts :: ·)
    | true =>
      rw [hb] at hbody
      exact (hbody.nested_broken []).bind_broken _

end

/-- Steps that leave nothing open add what is kept of them and leave the other sequences as they
are. -/
theorem recordSeq_eq_ok (rule : String) {steps : List Step} (hb : breaksSeq steps = false)
    (hn : leftOpenSeq steps = 0) (inner : List Production) (outer : OpenSequences) :
    recordSeq rule steps (inner :: outer) = .ok () ((inner ++ keptSeq steps) :: outer) := by
  obtain ⟨result, opened, added, hleaves, hok, hlength, hnone⟩ := settles_recordSeq rule steps
  rw [hb] at hok
  obtain ⟨rfl, -⟩ := hnone hn
  obtain rfl := List.length_eq_zero_iff.1 (hlength.trans hn)
  cases result with
  | error e => cases hok
  | ok a => exact hleaves inner outer

/-! ## What is left of a rule -/

theorem recordSeq_append (rule : String) (before after : List Step) :
    recordSeq rule (before ++ after) = (do recordSeq rule before; recordSeq rule after) := by
  induction before with
  | nil => rfl
  | cons step rest ih =>
    funext sequences
    rw [List.cons_append, recordSeq, recordSeq, ih]
    simp only [bind_apply]
    cases step.record rule sequences <;> rfl

theorem breaksSeq_append (before after : List Step) :
    breaksSeq (before ++ after) = (breaksSeq before || breaksSeq after) := by
  induction before with
  | nil => rfl
  | cons step rest ih => rw [List.cons_append, breaksSeq, breaksSeq, ih, Bool.or_assoc]

theorem keptSeq_append {before : List Step} (h : breaksSeq before = false) (after : List Step) :
    keptSeq (before ++ after) = keptSeq before ++ keptSeq after := by
  induction before with
  | nil => rfl
  | cons step rest ih =>
    rw [breaksSeq, Bool.or_eq_false_iff] at h
    rw [List.cons_append, keptSeq, keptSeq, h.1, ih h.2, List.append_assoc]
    rfl

/-- What is open inside the others after the last steps is so whatever comes before them. -/
theorem leaves_append {rule : String} {before after : List Step} {q added : List Production}
    {opened : OpenSequences} (hbefore : breaksSeq before = false)
    (hafter : Leaves (recordSeq rule after) (.ok ()) (q :: opened) added) :
    ∃ opened' added',
      Leaves (recordSeq rule (before ++ after)) (.ok ()) (q :: opened') added' := by
  obtain ⟨result, opened₀, added₀, hleaves, hok, -, -⟩ := settles_recordSeq rule before
  rw [hbefore] at hok
  rw [recordSeq_append]
  cases result with
  | error e => cases hok
  | ok a =>
    cases opened₀ with
    | nil => exact ⟨_, _, hleaves.bind hafter⟩
    | cons q₀ opened₀ =>
      have h := Leaves.bind_opened (f := fun _ => recordSeq rule after) hleaves hafter
      exact ⟨opened ++ (q₀ ++ added) :: opened₀, added₀, h⟩

end Step

namespace RuleDef

open Recording

/-- A rule comes to the innermost sequence that it leaves open, if there is one. -/
theorem record_of_opened {r : RuleDef} {q added : List Production} {opened : OpenSequences}
    (h : Leaves (Step.recordSeq r.name r.body) (.ok ()) (q :: opened) added) :
    r.record = .ok q := by
  rw [RuleDef.record, bind_apply, h [] []]
  rfl

theorem record_of_leftOpen {r : RuleDef} (hb : Step.breaksSeq r.body = false)
    (hn : Step.leftOpenSeq r.body = 0) : r.record = .ok (Step.keptSeq r.body) := by
  rw [RuleDef.record, bind_apply, Step.recordSeq_eq_ok r.name hb hn]
  rfl

/-- If the last steps leave a sequence open, nothing is left of the steps before them. -/
theorem record_append {name : String} {before after : List Step}
    (hbefore : Step.breaksSeq before = false) (hafter : Step.breaksSeq after = false)
    (hn : Step.leftOpenSeq after ≠ 0) :
    RuleDef.record ⟨name, before ++ after⟩ = RuleDef.record ⟨name, after⟩ := by
  obtain ⟨result, opened, added, hleaves, hok, hlength, -⟩ := Step.settles_recordSeq name after
  rw [hafter] at hok
  cases result with
  | error e => cases hok
  | ok a =>
    cases opened with
    | nil => exact absurd hlength.symm hn
    | cons q opened =>
      obtain ⟨opened', added', h⟩ := Step.leaves_append hbefore hleaves
      exact (record_of_opened h).trans (record_of_opened hleaves).symm

/-- Recording a step leaves one sequence open for every option, repetition and alternative that an
error came out of, whether the step ends with the error or lets it pass. If none stays open, then a
rule that lets an error pass has what comes before, up to and after the error. If the last steps of
a rule leave one open, then it has nothing of what comes before them. -/
theorem record_attempt (name : String) :
    (∀ step : Step, ∃ result opened added,
      Leaves (step.record name) result opened added ∧ opened.length = step.leftOpen) ∧
    (∀ before body after : List Step,
      Step.breaksSeq before = false → Step.breaksSeq after = false →
      Step.leftOpenSeq (before ++ .attempt body :: after) = 0 →
      RuleDef.record ⟨name, before ++ .attempt body :: after⟩ =
        .ok (Step.keptSeq before ++ (Step.keptSeq body ++ Step.keptSeq after))) ∧
    ∀ before after : List Step,
      Step.breaksSeq before = false → Step.breaksSeq after = false → Step.leftOpenSeq after ≠ 0 →
      RuleDef.record ⟨name, before ++ after⟩ = RuleDef.record ⟨name, after⟩ := by
  refine ⟨fun step => ?_, fun before body after hbefore hafter hn => ?_, fun _ _ => record_append⟩
  · obtain ⟨result, opened, added, hleaves, -, hlength, -⟩ := Step.settles_record name step
    exact ⟨result, opened, added, hleaves, hlength⟩
  · have hb : Step.breaksSeq (before ++ .attempt body :: after) = false := by
      rw [Step.breaksSeq_append, hbefore]
      exact hafter
    rw [record_of_leftOpen hb hn, Step.keptSeq_append hbefore]
    rfl

/-- A failure that is let pass between two tokens: where it stands by itself everything is recorded,
and where it comes out of an alternative only what is inside that and after it. -/
theorem record_attempt_choice :
    RuleDef.record ⟨"r", [.consume 0 1,
        .attempt [.consume 1 1, .fail (.fatal (.unknownRule "x"))], .consume 2 1]⟩ =
      .ok [.terminal 0 1, .terminal 1 1, .terminal 2 1] ∧
    RuleDef.record ⟨"r", [.consume 0 1,
        .attempt [.choose 1 none [[.consume 1 1, .fail (.fatal (.unknownRule "x"))]]],
        .consume 2 1]⟩ =
      .ok [.terminal 1 1, .terminal 2 1] := by
  obtain ⟨-, hkept, hlost⟩ := record_attempt "r"
  refine ⟨hkept [.consume 0 1] [.consume 1 1, .fail (.fatal (.unknownRule "x"))] [.consume 2 1] rfl
    rfl rfl, ?_⟩
  exact hlost [.consume 0 1] [.attempt [.choose 1 none [[.consume 1 1,
    .fail (.fatal (.unknownRule "x"))]]], .consume 2 1] rfl rfl (by decide)

/-- A rule that ignores a failure inside an option between a plus and a minus. -/
def careless : Draft where
  vocabulary := Calc.vocabulary
  rules := [⟨"r", [.consume Calc.plus 1,
    .attempt [.option 1 [.fail (.fatal (.unknownRule "x"))]], .consume Calc.minus 1]⟩]

theorem careless_builds : careless.build.isOk = true := rfl

/-- The option leaves its sequence open, and the language is built without the plus. -/
theorem not_balanced_of_careless : ∃ l, careless.build = .ok l ∧
    (Step.attempt [.option 1 [.fail (.fatal (.unknownRule "x"))]]).record "r"
      [[.terminal Calc.plus 1]] = .ok () [[], [.terminal Calc.plus 1]] ∧
    l.grammar.rules = [⟨"r", [.terminal Calc.minus 1]⟩] :=
  ⟨getOk careless.build careless_builds, eq_ok_getOk _, rfl, rfl⟩

end RuleDef

end TopDown
