import Mathlib.Data.Nat.Find
import Mathlib.Order.Bounds.Basic
import TopDown.Proofs.Samples
import TopDown.Proofs.Unwinding

/-!
# Skipping after a repetition

A repetition has stopped, and what comes next is not what has to come after it. Then all tokens up to
one that the parse can go on with are skipped, or none. The engine scans for such a token and gives
up at a class of tokens, not at a place. That comes to the same thing: no token before the resync
point is of the class of the one that stands there, and so the scan finds the first place between
the cursor and the resync point where the parse can go on, if there is one
(`Language.repetitionPoint?_eq_some_iff`). The result for every moment of a parse is
`Language.stays_or_skips`.
-/

namespace TopDown

/-! ## The scan -/

namespace Cursor

variable {α : Type} {c c' c'' : Cursor α}

/-- There is one place at each position. -/
theorem Before.eq_of_position (h : c.Before c') (h' : c.Before c'')
    (hp : c'.position = c''.position) : c' = c'' := by
  obtain ⟨passed, hrest, hpast⟩ := h
  obtain ⟨passed', hrest', hpast'⟩ := h'
  have hlength : passed.length = passed'.length := by
    rw [position, position, hpast, hpast', List.length_append, List.length_append,
      List.length_reverse, List.length_reverse] at hp
    omega
  obtain ⟨rfl, hsame⟩ := List.append_inj (hrest.symm.trans hrest') hlength
  obtain ⟨past', rest'⟩ := c'
  obtain ⟨past'', rest''⟩ := c''
  cases hsame
  cases hpast
  cases hpast'
  rfl

/-- There is a place at each position from the cursor to the end. -/
theorem exists_before (c : Cursor α) {q : Nat} (hle : c.position ≤ q) (hq : q ≤ c.toList.length) :
    ∃ c', c.Before c' ∧ c'.position = q := by
  rw [length_toList] at hq
  refine ⟨⟨(c.rest.take (q - c.position)).reverse ++ c.past, c.rest.drop (q - c.position)⟩,
    ⟨_, (List.take_append_drop _ _).symm, rfl⟩, ?_⟩
  rw [position, List.length_append, List.length_reverse, List.length_take, ← position]
  omega

end Cursor

theorem Vocabulary.kindAt_of_toList {v : Vocabulary} {tokens : List Token} {c : Cursor Token}
    (h : c.toList = tokens) : v.kindAt tokens c.position = c.next?.elim v.eof (·.kind) := by
  rw [Vocabulary.kindAt, ← h, Cursor.getElem?_position]

/-- From `c` on, `c'` is the first place before a token that satisfies `stop`, and no token between
the two satisfies `giveUp`. The end of the input counts as a token. -/
structure ScansTo (v : Vocabulary) (tokens : List Token) (stop giveUp : TokenId → Bool)
    (c c' : Cursor Token) : Prop where
  before : c.Before c'
  stops : stop (v.kindAt tokens c'.position) = true
  passed : ∀ i, c.position ≤ i → i < c'.position →
    stop (v.kindAt tokens i) = false ∧ giveUp (v.kindAt tokens i) = false

namespace ScansTo

variable {v : Vocabulary} {tokens past rest : List Token} {t : Token}
  {stop giveUp : TokenId → Bool} {c c' : Cursor Token}

theorem iff_eq (h : stop (v.kindAt tokens c.position) = true) :
    ScansTo v tokens stop giveUp c c' ↔ c = c' := by
  constructor
  · rintro ⟨hbefore, -, hpassed⟩
    refine Cursor.Before.eq_of_position (.refl _) hbefore ?_
    refine Nat.le_antisymm hbefore.position_le (Nat.not_lt.1 fun hlt => ?_)
    rw [(hpassed _ (Nat.le_refl _) hlt).1] at h
    cases h
  · rintro rfl
    exact ⟨.refl _, h, fun i hle hlt => absurd hlt (Nat.not_lt.2 hle)⟩

/-- If the scan does not stop at once, then it passes a token. -/
theorem position_lt (h : ScansTo v tokens stop giveUp c c')
    (hstop : stop (v.kindAt tokens c.position) = false) : c.position < c'.position := by
  refine Nat.lt_of_le_of_ne h.before.position_le fun heq => ?_
  have hstops := h.stops
  rw [← heq, hstop] at hstops
  cases hstops

theorem iff_step (hstop : stop (v.kindAt tokens past.length) = false)
    (hgo : giveUp (v.kindAt tokens past.length) = false) :
    ScansTo v tokens stop giveUp ⟨past, t :: rest⟩ c' ↔
      ScansTo v tokens stop giveUp ⟨t :: past, rest⟩ c' := by
  constructor
  · intro h
    have hlt := h.position_lt hstop
    obtain ⟨⟨_ | ⟨x, passed⟩, hrest, hpast⟩, hstops, hpassed⟩ := h
    · exact absurd hlt (by simp [Cursor.position, hpast])
    · obtain ⟨rfl, rfl⟩ := List.cons.inj hrest
      refine ⟨⟨passed, rfl, by simp [hpast]⟩, hstops, fun i hle => hpassed i (Nat.le_of_succ_le hle)⟩
  · rintro ⟨hbefore, hstops, hpassed⟩
    refine ⟨(Cursor.Before.cons past rest t).trans hbefore, hstops, fun i hle hlt => ?_⟩
    rcases Nat.eq_or_lt_of_le hle with rfl | hgt
    · exact ⟨hstop, hgo⟩
    · exact hpassed i hgt hlt

end ScansTo

namespace Language

variable {l : Language} {tokens : List Token}

theorem scan_eq_some_iff {v : Vocabulary} {stop giveUp : TokenId → Bool} {past rest : List Token}
    {c : Cursor Token} (hlist : (⟨past, rest⟩ : Cursor Token).toList = tokens) :
    scan stop giveUp v.eof past rest = some c ↔
      ScansTo v tokens stop giveUp ⟨past, rest⟩ c := by
  have hhere (p : TokenId → Bool) {b : Bool} (h : p (rest.head?.elim v.eof (·.kind)) = b) :
      p (v.kindAt tokens past.length) = b :=
    (congrArg p (Vocabulary.kindAt_of_toList hlist)).trans h
  induction rest generalizing past with
  | nil =>
    rw [scan]
    cases hstop : stop v.eof with
    | true => rw [if_pos rfl, Option.some.injEq, ScansTo.iff_eq (hhere stop hstop)]
    | false =>
      -- there is no other place to scan to
      rw [if_neg Bool.false_ne_true]
      refine ⟨fun h => (by cases h), fun h => ?_⟩
      have hlt : past.length < c.position := h.position_lt (hhere stop hstop)
      have hlength := congrArg List.length h.before.toList_eq
      rw [Cursor.length_toList, Cursor.length_toList] at hlength
      simp only [Cursor.position, List.length_nil] at hlength hlt
      omega
  | cons t rest ih =>
    rw [scan]
    cases hstop : stop t.kind with
    | true => rw [if_pos rfl, Option.some.injEq, ScansTo.iff_eq (hhere stop hstop)]
    | false =>
      rw [if_neg Bool.false_ne_true]
      cases hgo : giveUp t.kind with
      | true =>
        rw [if_pos rfl]
        refine ⟨fun h => (by cases h), fun h => ?_⟩
        have hlt : past.length < c.position := h.position_lt (hhere stop hstop)
        have hnot := (h.passed past.length (Nat.le_refl _) hlt).2
        rw [hhere giveUp hgo] at hnot
        cases hnot
      | false =>
        have hnext : (⟨t :: past, rest⟩ : Cursor Token).toList = tokens :=
          (Cursor.Before.cons past rest t).toList_eq.trans hlist
        rw [if_neg Bool.false_ne_true, ScansTo.iff_step (hhere stop hstop) (hhere giveUp hgo)]
        exact ih hnext fun p b h => (congrArg p (Vocabulary.kindAt_of_toList hnext)).trans h

/-! ## The place that the parse can go on with -/

/-- The parse can go on with the token at the position: it is of the expected class, or can begin a
round of the repetition. -/
def GoesOn (l : Language) (tokens : List Token) (branches : List Lookahead) (expected : TokenId)
    (position : Nat) : Prop :=
  l.vocabulary.isA (l.vocabulary.kindAt tokens position) expected = true ∨
    l.admitsAny branches (l.vocabulary.kindAt tokens position) = true

instance (l : Language) (tokens : List Token) (branches : List Lookahead) (expected : TokenId)
    (position : Nat) : Decidable (l.GoesOn tokens branches expected position) :=
  inferInstanceAs (Decidable (_ ∨ _))

theorem goesOn_iff {branches : List Lookahead} {expected : TokenId} {i : Nat} :
    (l.vocabulary.isA (l.vocabulary.kindAt tokens i) expected ||
      l.admitsAny branches (l.vocabulary.kindAt tokens i)) = true ↔
      l.GoesOn tokens branches expected i := by
  rw [Bool.or_eq_true, GoesOn]

variable {stack : Stack} {branches : List Lookahead} {expected : TokenId} {s s' : ParseState}
  {c : Cursor Token} {q : Nat}

/-- Where the parse cannot go on, the scan can as well begin at the cursor itself. -/
theorem repetitionPoint?_eq_scan (hs : s.cursor.toList = tokens)
    (hstop : ¬l.GoesOn tokens branches expected s.position) :
    l.repetitionPoint? stack branches expected s =
      scan (fun kind => l.vocabulary.isA kind expected || l.admitsAny branches kind)
        (fun kind => kind == l.kindAt (l.resyncPoint stack s.cursor) || kind == l.vocabulary.eof)
        l.vocabulary.eof s.cursor.past s.cursor.rest := by
  have hnot : (l.vocabulary.isA (l.vocabulary.kindAt tokens s.position) expected ||
      l.admitsAny branches (l.vocabulary.kindAt tokens s.position)) = false := by
    rw [← Bool.not_eq_true, goesOn_iff]
    exact hstop
  rw [ParseState.position, Vocabulary.kindAt_of_toList hs] at hnot
  rw [repetitionPoint?]
  obtain ⟨⟨past, _ | ⟨t, rest⟩⟩, history⟩ := s
  · exact (if_neg (Bool.not_eq_true _ ▸ hnot)).symm
  · rw [scan, if_neg (Bool.not_eq_true _ ▸ hnot)]

/-- The invocation of the start rule can be followed by the end of the input. -/
theorem exists_fits_of_linked {frames : List Frame} (h : Linked frames) (hne : frames ≠ []) {i : Nat}
    (hi : l.vocabulary.kindAt tokens i = l.vocabulary.eof) : ∃ f ∈ frames, l.Fits tokens f i := by
  induction h with
  | nil => exact absurd rfl hne
  | @start f hf =>
    refine ⟨f, List.mem_singleton_self f, ?_⟩
    rw [Fits, frameFollow, hf, hi]
    exact TokenSet.admits_iff.2 ⟨_, TokenSet.mem_single.2 rfl, Vocabulary.isA_eof_iff.2 rfl⟩
  | call _ _ ih =>
    obtain ⟨f, hf, hfits⟩ := ih (List.cons_ne_nil _ _)
    exact ⟨f, List.mem_cons_of_mem _ hf, hfits⟩

/-- No token before the resync point is of the class of the token there, and none marks the end of
the input. -/
theorem LandsAt.kindAt_ne {frames : List Frame} {p r : Nat} (h : l.LandsAt tokens frames p r)
    (hlinked : Linked frames) (hne : frames ≠ []) {i : Nat} (hle : p ≤ i) (hlt : i < r) :
    l.vocabulary.kindAt tokens i ≠ l.vocabulary.kindAt tokens r ∧
      l.vocabulary.kindAt tokens i ≠ l.vocabulary.eof := by
  have heof : l.vocabulary.kindAt tokens i ≠ l.vocabulary.eof := by
    intro hi
    obtain ⟨f, hf, hfits⟩ := exists_fits_of_linked hlinked hne hi
    exact h.first i hle hlt f hf hfits
  refine ⟨fun hsame => ?_, heof⟩
  rcases Nat.eq_or_lt_of_le h.bound with rfl | hr
  · -- the resync point is the end of the input
    refine heof (hsame.trans ?_)
    rw [Vocabulary.kindAt, List.getElem?_eq_none (Nat.le_refl _)]
    rfl
  · obtain ⟨f, hf, hfits⟩ := h.fits hr
    refine h.first i hle hlt f hf ?_
    rw [Fits, hsame]
    exact hfits

/-- The repetition recovers at the first place from the cursor up to the resync point where the
parse can go on. -/
theorem repetitionPoint?_eq_some_iff (hs : s.cursor.toList = tokens) (hlinked : Linked stack.frames)
    (hstop : ¬l.GoesOn tokens branches expected s.position)
    (hr : l.LandsAt tokens stack.frames s.position q) :
    l.repetitionPoint? stack branches expected s = some c ↔
      s.cursor.Before c ∧
        IsLeast {i | s.position ≤ i ∧ i ≤ q ∧ l.GoesOn tokens branches expected i} c.position := by
  have hlimit : l.kindAt (l.resyncPoint stack s.cursor) = l.vocabulary.kindAt tokens q := by
    rw [kindAt_resyncPoint hs, (landsAt_resyncPoint hs stack).unique hr]
  rw [repetitionPoint?_eq_scan hs hstop, scan_eq_some_iff hs, hlimit]
  constructor
  · rintro ⟨hbefore, hstops, hpassed⟩
    refine ⟨hbefore, ⟨hbefore.position_le, ?_, goesOn_iff.1 hstops⟩, fun i hi => ?_⟩
    · -- the scan gives up at the resync point, so it does not pass it
      refine Nat.not_lt.1 fun hlt => ?_
      have hgo := (hpassed q hr.le hlt).2
      simp at hgo
    · obtain ⟨hle, -, hgoes⟩ := hi
      refine Nat.not_lt.1 fun hlt => ?_
      have hno := (hpassed i hle hlt).1
      rw [goesOn_iff.2 hgoes] at hno
      cases hno
  · rintro ⟨hbefore, ⟨-, hle, hgoes⟩, hleast⟩
    refine ⟨hbefore, goesOn_iff.2 hgoes, fun i hi hlt => ⟨?_, ?_⟩⟩
    · rw [← Bool.not_eq_true, goesOn_iff]
      exact fun hi' => Nat.not_le.2 hlt (hleast ⟨hi, (Nat.le_of_lt hlt).trans hle, hi'⟩)
    · obtain ⟨hkind, heof⟩ :=
        hr.kindAt_ne hlinked (List.cons_ne_nil _ _) hi (Nat.lt_of_lt_of_le hlt hle)
      simp [hkind, heof]

/-! ## A repetition that has stopped -/

theorem predicts_iff_admitsAny (hs : s.cursor.toList = tokens) :
    l.predicts branches s = l.admitsAny branches (l.vocabulary.kindAt tokens s.position) := by
  rw [predicts, ParseState.nextKind_of_toList hs]

/-- If what has to come can neither be got past to nor made up, then calling for it fails. -/
theorem consume_eq_raise_of_not_canEnd {i : Nat}
    (h : l.canEndRepetition stack expected (some i) s = false) :
    l.consume stack expected i s = raise stack (l.mismatch stack expected s) s := by
  rw [canEndRepetition, Option.any_some, Bool.or_eq_false_iff, Bool.or_eq_false_iff] at h
  obtain ⟨hhere, hsecond, hinsert⟩ := h
  have hc := consumption l stack expected i s
  generalize l.consume stack expected i s = r at hc ⊢
  cases hc with
  | matched hcursor ha =>
    rw [ParseState.nextKind_eq, hcursor] at hhere
    exact Bool.noConfusion (ha.symm.trans hhere)
  | deleted _ hcursor _ ha =>
    rw [comesSecond, hcursor] at hsecond
    exact Bool.noConfusion (ha.symm.trans hsecond)
  | inserted _ _ _ hi => exact Bool.noConfusion (hi.symm.trans hinsert)
  | raised => rfl

/-- Tokens are skipped after a repetition with the branches, from the state `s` in which it has
stopped to the state `s'`. What has to come after it is of the class `expected`; if it is called for,
then with the index. -/
structure Skips (l : Language) (tokens : List Token) (stack : Stack) (branches : List Lookahead)
    (expected : TokenId) (idx : Option Nat) (s s' : ParseState) : Prop where
  /-- The tokens are the same. -/
  kept : s'.cursor.toList = tokens
  /-- One of them was skipped, or more. -/
  forward : s.position < s'.position
  /-- The parse goes on at the first place where it can, not after the resync point. -/
  target : ∃ q, l.LandsAt tokens stack.frames s.position q ∧
    IsLeast {i | s.position ≤ i ∧ i ≤ q ∧ l.GoesOn tokens branches expected i} s'.position
  /-- One error is recorded, which says how many tokens were skipped. -/
  errors : s'.errors = s.errors ++ [{ l.mismatch stack expected s with
    recovery := .resynced (s'.position - s.position) }]
  /-- The call for what has to come would have failed. -/
  call : ∀ i ∈ idx, l.consume stack expected i s = raise stack (l.mismatch stack expected s) s

/-- After a repetition that has stopped in the state there is nothing to recover from, or nowhere to
go on before the resync point. -/
def Settles (l : Language) (tokens : List Token) (stack : Stack) (key : DecisionKey)
    (branches : List Lookahead) (s : ParseState) : Prop :=
  ∀ expected idx q, l.config.recovery = true → l.repetitionEnd? stack key = some (expected, idx) →
    l.canEndRepetition stack expected idx s = false →
    l.LandsAt tokens stack.frames s.position q →
    ∀ i, s.position ≤ i → i ≤ q → ¬l.GoesOn tokens branches expected i

theorem not_goesOn_of_stopped (hs : s.cursor.toList = tokens)
    (hstop : l.predicts branches s = false) {idx : Option Nat}
    (hcan : l.canEndRepetition stack expected idx s = false) :
    ¬l.GoesOn tokens branches expected s.position := by
  rw [canEndRepetition, Bool.or_eq_false_iff, ← ParseState.nextKind_of_toList hs] at hcan
  rw [predicts_iff_admitsAny hs] at hstop
  rw [← goesOn_iff, hcan.1, hstop]
  exact Bool.false_ne_true

section Stopped

variable {key : DecisionKey} (hs : s.cursor.toList = tokens) (hlinked : Linked stack.frames)
  (hstop : l.predicts branches s = false)

include hs hlinked hstop

theorem skips_of_eq_some {resumes : Bool}
    (h : l.recoverInRepetition stack key branches s = some (s', resumes)) :
    ∃ expected idx, l.repetitionEnd? stack key = some (expected, idx) ∧
      l.Skips tokens stack branches expected idx s s' ∧ resumes = l.predicts branches s' := by
  obtain ⟨expected, idx, target, hend, -, hcan, hpoint, rfl, rfl⟩ := recoverInRepetition_eq_some h
  have hr := landsAt_resyncPoint (l := l) hs stack
  have hnot := not_goesOn_of_stopped hs hstop hcan
  obtain ⟨hbefore, hleast⟩ := (repetitionPoint?_eq_some_iff hs hlinked hnot hr).1 hpoint
  refine ⟨expected, idx, hend, ⟨hbefore.toList_eq.trans hs, ?_, ⟨_, hr, hleast⟩,
    ParseState.errors_cons rfl, ?_⟩, rfl⟩
  · refine Nat.lt_of_le_of_ne hbefore.position_le fun hsame => hnot ?_
    rw [hsame]
    exact hleast.1.2.2
  · rintro i rfl
    exact consume_eq_raise_of_not_canEnd hcan

theorem settles_of_eq_none (h : l.recoverInRepetition stack key branches s = none) :
    l.Settles tokens stack key branches s := by
  intro expected idx q hrec hend hcan hr i hi hle hgoes
  have hnot := not_goesOn_of_stopped hs hstop hcan
  have hex : ∃ i, s.position ≤ i ∧ i ≤ q ∧ l.GoesOn tokens branches expected i :=
    ⟨i, hi, hle, hgoes⟩
  -- at the least such place the parse would have gone on
  have hleast : IsLeast {i | s.position ≤ i ∧ i ≤ q ∧ l.GoesOn tokens branches expected i}
      (Nat.find hex) := ⟨Nat.find_spec hex, fun j hj => Nat.find_min' hex hj⟩
  obtain ⟨c, hbefore, hc⟩ := s.cursor.exists_before hleast.1.1
    (hs.symm ▸ hleast.1.2.1.trans hr.bound)
  have hpoint := (repetitionPoint?_eq_some_iff hs hlinked hnot hr).2 ⟨hbefore, hc ▸ hleast⟩
  rw [recoverInRepetition, hend] at h
  dsimp only at h
  rw [hrec, hcan, hpoint] at h
  cases h

end Stopped

/-- A repetition that has stopped, at any moment of a parse, recovers from all that is in the way or
from nothing. Either the repetition ends in the state in which it has stopped, and there was no
reason or no way to recover. Or tokens are skipped, and the repetition goes on if the token after
them can begin a round and ends if not. -/
theorem stays_or_skips {start : String} {m : Moment} (hm : l.Reaches start tokens m) {loop : Loop}
    (hloop : m.focus = .loop loop) (hstop : l.predicts loop.branches m.state = false) :
    ∃ stack, m.frames = stack.frames ∧
      ((l.recoverInRepetition stack ⟨stack.rule, .many, loop.idx⟩ loop.branches m.state = none ∧
          l.Settles tokens stack ⟨stack.rule, .many, loop.idx⟩ loop.branches m.state ∧
          l.Next m (.returning m.frames m.pending (.ok [.rounds loop.done] m.state))) ∨
        ∃ expected idx s',
          l.repetitionEnd? stack ⟨stack.rule, .many, loop.idx⟩ = some (expected, idx) ∧
          l.recoverInRepetition stack ⟨stack.rule, .many, loop.idx⟩ loop.branches m.state =
            some (s', l.predicts loop.branches s') ∧
          l.Skips tokens stack loop.branches expected idx m.state s' ∧
          l.Next m (if l.predicts loop.branches s' then ⟨m.frames, .loop loop, m.pending, s'⟩
            else .returning m.frames m.pending (.ok [.rounds loop.done] s'))) := by
  obtain ⟨hkept, hfits⟩ := hm.disciplined
  obtain ⟨frames, focus, pending, s⟩ := m
  cases hloop
  obtain ⟨top, below, rfl⟩ := List.exists_cons_of_ne_nil hfits.1
  have hs : s.cursor.toList = tokens := hkept.tokens
  have hlinked : Linked (⟨top, below⟩ : Stack).frames := hkept.linked
  have hnext : l.Next ⟨top :: below, .loop loop, pending, s⟩
      (l.turn ⟨top, below⟩ pending s loop) := rfl
  rw [turn, if_neg (by simp [hstop])] at hnext
  refine ⟨⟨top, below⟩, rfl, ?_⟩
  cases hanswer : l.recoverInRepetition ⟨top, below⟩ ⟨top.rule, .many, loop.idx⟩ loop.branches s with
  | none =>
    rw [show (⟨top, below⟩ : Stack).rule = top.rule from rfl, hanswer] at hnext
    exact .inl ⟨hanswer, settles_of_eq_none hs hlinked hstop hanswer, hnext⟩
  | some target =>
    obtain ⟨s', resumes⟩ := target
    obtain ⟨expected, idx, hend, hskips, rfl⟩ := skips_of_eq_some hs hlinked hstop hanswer
    rw [show (⟨top, below⟩ : Stack).rule = top.rule from rfl, hanswer] at hnext
    refine .inr ⟨expected, idx, s', hend, hanswer, hskips, ?_⟩
    cases hp : l.predicts loop.branches s' with
    | true => rwa [hp] at hnext
    | false => rwa [hp] at hnext

/-- The repetition that decides whether to do a round. -/
def deciding? (m : Moment) : Option Loop :=
  match m.focus with
  | .loop loop => some loop
  | _ => none

theorem focus_of_deciding? {m : Moment} {loop : Loop} (h : deciding? m = some loop) :
    m.focus = .loop loop := by
  rw [deciding?] at h
  split at h
  · rename_i hfocus
    rw [hfocus, Option.some.inj h]
  · cases h

/-- In `[[1 2 3, 4] 5]` the items of the inner array stop before the second number. Two tokens are
skipped, up to the comma, which is also where the array could be given up, and the items go on. -/
theorem stays_or_skips_json :
    let tokens := (Json.vocabulary.tokenize "[[1 2 3, 4] 5]").1
    let m := Json.language.momentAfter 37 (Json.language.firstMoment "value" tokens)
    let array : Frame := ⟨"array", some ⟨"value", .rule "array", 1⟩, 1⟩
    let below : List Frame := [⟨"value", some ⟨"array", .rule "value", 1⟩, 1⟩,
      ⟨"array", some ⟨"value", .rule "array", 1⟩, 0⟩, ⟨"value", none, 0⟩]
    ∃ loop s', (Json.language.Reaches "value" tokens m ∧ m.focus = .loop loop ∧
        Json.language.predicts loop.branches m.state = false) ∧
      Json.language.Skips tokens ⟨array, below⟩ loop.branches Json.rightSquare (some 1) m.state s' ∧
      m.state.position = 3 ∧ s'.position = 5 ∧
      Json.language.Next m ⟨array :: below, .loop loop, m.pending, s'⟩ := by
  intro tokens m array below
  have hreach : Json.language.Reaches "value" tokens m := next_momentAfter _ _ _
  obtain ⟨loop, hloop, hstop, hframes, hposition, hend, hanswer⟩ :
      ∃ loop ∈ deciding? m, Json.language.predicts loop.branches m.state = false ∧
        m.frames = array :: below ∧ m.state.position = 3 ∧
        Json.language.repetitionEnd? ⟨array, below⟩ ⟨"array", .many, loop.idx⟩ =
          some (Json.rightSquare, some 1) ∧
        (Json.language.recoverInRepetition ⟨array, below⟩ ⟨"array", .many, loop.idx⟩ loop.branches
          m.state).map (fun answer => (answer.1.position, answer.2)) = some (5, true) := by
    decide +kernel
  have hfocus := focus_of_deciding? hloop
  obtain ⟨stack, hstack, hcases⟩ := stays_or_skips hreach hfocus hstop
  obtain rfl : stack = ⟨array, below⟩ := by
    obtain ⟨top, rest⟩ := stack
    rw [hframes] at hstack
    obtain ⟨rfl, rfl⟩ := List.cons.inj hstack
    rfl
  have hrule : (⟨array, below⟩ : Stack).rule = "array" := rfl
  rcases hcases with ⟨hnone, -⟩ | ⟨expected, idx, s', hend', hsome, hskips, hnext⟩
  · rw [hrule] at hnone
    rw [hnone] at hanswer
    cases hanswer
  · rw [hrule] at hend' hsome
    rw [hend] at hend'
    cases hend'
    rw [hsome, Option.map_some, Option.some.injEq, Prod.mk.injEq] at hanswer
    obtain ⟨hposition', hresumes⟩ := hanswer
    rw [if_pos hresumes, hframes] at hnext
    exact ⟨loop, s', ⟨hreach, hfocus, hstop⟩, hskips, hposition, hposition', hnext⟩

end Language

end TopDown
