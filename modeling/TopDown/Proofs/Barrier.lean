import TopDown.Proofs.Scanning

/-!
# What an expression cannot pass

An expression without conditions does not look beyond a character that is in none of its sets. So it
finds the same before such a character, whatever comes after it, and also before the end of the text.
If a text is cut short there, no match appears, and a match stays unless it ended in the part that is
gone (`Regex.keeps_matchHere?`).
-/

namespace TopDown

namespace Regex

/-- Whether the expression has no condition on its place. -/
def unconditional : Regex → Bool
  | .empty | .chars _ => true
  | .assertion _ => false
  | .seq first second | .alt first second => first.unconditional && second.unconditional
  | .repeat body _ _ _ | .group body => body.unconditional

/-- A character that no part of the expression can pass is in none of its texts. -/
theorem Spells.not_mem {r : Regex} {w : List Char} {x : Char} (h : r.Spells w)
    (hx : r.idles (some x) = true) : x ∉ w := by
  induction h with
  | empty | assertion => exact List.not_mem_nil
  | chars h =>
    rw [idles, Option.any_some, Bool.not_eq_true'] at hx
    rintro hmem
    rw [List.mem_singleton.1 hmem, h] at hx
    cases hx
  | seq _ _ ih ih' =>
    rw [idles, Bool.and_eq_true] at hx
    exact fun hmem => (List.mem_append.1 hmem).elim (ih hx.1) (ih' hx.2)
  | left _ ih =>
    rw [idles, Bool.and_eq_true] at hx
    exact ih hx.1
  | right _ ih =>
    rw [idles, Bool.and_eq_true] at hx
    exact ih hx.2
  | turns _ _ _ ih =>
    intro hmem
    obtain ⟨w, hw, hmem⟩ := List.mem_flatten.1 hmem
    exact ih w hw hx hmem
  | group _ ih => exact ih hx

/-! ## Before two ends of a text -/

/-- The outcomes for two texts, of which the first ends in `x` where the second ends in `y`: no match
appears, and a match that ends before `x` stays. -/
structure Keeps (x y : List Char) (o o' : Outcome) : Prop where
  lost : o = none → o' = none
  kept : ∀ past b, o = some ⟨past, b ++ x⟩ → o' = some ⟨past, b ++ y⟩

/-- What is found from places before the two ends. -/
def KeepsBefore (x y : List Char) (k k' : Cursor Char → Outcome) : Prop :=
  ∀ past b, Keeps x y (k ⟨past, b ++ x⟩) (k' ⟨past, b ++ y⟩)

/-- No match ends before the place where it is looked for. -/
def Later (k : Cursor Char → Outcome) : Prop := ∀ c stop, k c = some stop → c.Before stop

/-- The matcher finds as much as what comes after it. -/
def Steadfast (x y : List Char) (m : Matcher) : Prop :=
  ∀ k k', Later k → KeepsBefore x y k k' → KeepsBefore x y (m · k) (m · k')

variable {x y : List Char} {o o' : Outcome} {k k' : Cursor Char → Outcome} {m body : Matcher}
  {p : List Char → Prop} {greedy : Bool}

theorem keeps_none : Keeps x y none none := ⟨fun h => h, fun _ _ h => (nomatch h)⟩

theorem Keeps.orElse {s s' : Unit → Outcome} (h : Keeps x y o o') (hs : Keeps x y (s ()) (s' ())) :
    Keeps x y (o.orElse s) (o'.orElse s') := by
  cases o with
  | none =>
    rw [h.lost rfl]
    exact hs
  | some stop =>
    refine ⟨fun h => (nomatch h), fun past b hstop => ?_⟩
    rw [h.kept past b hstop]
    rfl

theorem Keeps.prefer {t t' l l' : Unit → Outcome} (ht : Keeps x y (t ()) (t' ()))
    (hl : Keeps x y (l ()) (l' ())) : Keeps x y (prefer greedy t l) (prefer greedy t' l') := by
  cases greedy with
  | true => exact ht.orElse hl
  | false => exact hl.orElse ht

theorem later_none : Later fun _ => none := fun _ _ h => (nomatch h)

theorem Onward.later (h : Onward m) (hk : Later k) : Later (m · k) := by
  intro c stop hm
  obtain ⟨c', hc, hstop⟩ := h c k stop hm
  exact hc.trans (hk c' stop hstop)

/-- What comes after a turn, which may depend on whether the turn has passed something. -/
theorem Later.guard {l : Cursor Char → Outcome} (hk : Later k) (hl : Later l) (n : Nat) :
    Later fun c => if c.rest.length < n then k c else l c := by
  intro c stop hm
  dsimp only at hm
  by_cases hlt : c.rest.length < n
  · rw [if_pos hlt] at hm
    exact hk c stop hm
  · rw [if_neg hlt] at hm
    exact hl c stop hm

theorem KeepsBefore.guard {l l' : Cursor Char → Outcome} {b : List Char}
    (hk : ∀ past a, a.length < b.length → Keeps x y (k ⟨past, a ++ x⟩) (k' ⟨past, a ++ y⟩))
    (hl : KeepsBefore x y l l') :
    KeepsBefore x y (fun c => if c.rest.length < (b ++ x).length then k c else l c)
      (fun c => if c.rest.length < (b ++ y).length then k' c else l' c) := by
  intro past a
  simp only [List.length_append, Nat.add_lt_add_iff_right]
  by_cases hlt : a.length < b.length
  · rw [if_pos hlt, if_pos hlt]
    exact hk past a hlt
  · rw [if_neg hlt, if_neg hlt]
    exact hl past a

namespace Steadfast

theorem exactly (h : Steadfast x y body) (hp : Passes body p) (n : Nat) :
    Steadfast x y (exactly body n) := by
  induction n with
  | zero => exact fun k k' _ hkeeps => hkeeps
  | succ n ih =>
    intro k k' hk hkeeps
    exact h _ _ ((hp.exactly n).onward.later hk) (ih k k' hk hkeeps)

theorem atMost (h : Steadfast x y body) (hp : Passes body p) (n : Nat) :
    Steadfast x y (atMost body greedy n) := by
  induction n with
  | zero => exact fun k k' _ hkeeps => hkeeps
  | succ n ih =>
    intro k k' hk hkeeps past b
    have hlater : Later (Regex.atMost body greedy n · k) := (hp.atMost n).onward.later hk
    have hturn := h _ _ hlater (ih k k' hk hkeeps) past b
    exact Keeps.prefer hturn (hkeeps past b)

/-- Each turn shortens what lies ahead, so the induction is on that. -/
theorem turns (h : Steadfast x y body) (hp : Passes body p) :
    Steadfast x y (turns body greedy) := by
  intro k k' hk hkeeps past b
  induction hn : b.length using Nat.strongRecOn generalizing past b with
  | ind n ih =>
    have hlater : Later (Regex.turns body greedy · k) := hp.turns.onward.later hk
    have hmore : KeepsBefore x y
        (fun c => if c.rest.length < (b ++ x).length then Regex.turns body greedy c k else none)
        (fun c => if c.rest.length < (b ++ y).length then Regex.turns body greedy c k' else none) :=
      .guard (fun past a hlt => ih _ (hn ▸ hlt) past a rfl) fun _ _ => keeps_none
    have hturn := h _ _ (hlater.guard later_none _) hmore past b
    dsimp only
    rw [Regex.turns, Regex.turns]
    exact Keeps.prefer hturn (hkeeps past b)

theorem onceOrMore (h : Steadfast x y body) (hp : Passes body p) :
    Steadfast x y (onceOrMore body greedy) := by
  intro k k' hk hkeeps past b
  have hlater : Later (Regex.turns body greedy · k) := hp.turns.onward.later hk
  have hmore : KeepsBefore x y
      (fun c => if c.rest.length < (b ++ x).length then Regex.turns body greedy c k else k c)
      (fun c => if c.rest.length < (b ++ y).length then Regex.turns body greedy c k' else k' c) :=
    .guard (fun past a _ => h.turns hp k k' hk hkeeps past a) hkeeps
  exact h _ _ (hlater.guard hk _) hmore past b

theorem atLeast (h : Steadfast x y body) (hp : Passes body p) (n : Nat) :
    Steadfast x y (atLeast body greedy n) := by
  intro k k' hk hkeeps
  cases n with
  | zero =>
    intro past b
    dsimp only [Regex.atLeast]
    exact Keeps.prefer (h.onceOrMore hp k k' hk hkeeps past b) (hkeeps past b)
  | succ n =>
    have hlater : Later (Regex.onceOrMore body greedy · k) := hp.onceOrMore.onward.later hk
    exact h.exactly hp n _ _ hlater (h.onceOrMore hp k k' hk hkeeps)

end Steadfast

theorem steadfast_run {r : Regex} (hfree : r.unconditional = true)
    (hy : r.idles y.head? = true) : Steadfast x y r.run := by
  induction r with
  | empty => exact fun k k' _ hkeeps => hkeeps
  | chars set =>
    intro k k' hk hkeeps past b
    cases b with
    | nil =>
      dsimp only [List.nil_append]
      rw [run_chars_eq_none hy]
      refine ⟨fun _ => rfl, fun past' b hm => ?_⟩
      -- a match that begins with the character after the place ends after it
      cases x with
      | nil => cases hm
      | cons z x =>
        by_cases hz : set.contains z = true
        · rw [run, if_pos hz] at hm
          have hle := (hk _ _ hm).rest_length_le
          simp only [List.length_append, List.length_cons] at hle
          omega
        · rw [run, if_neg hz] at hm
          cases hm
    | cons z b =>
      by_cases hz : set.contains z = true
      · simp only [List.cons_append, run, if_pos hz]
        exact hkeeps (z :: past) b
      · simp only [List.cons_append, run, if_neg hz]
        exact keeps_none
  | assertion => cases hfree
  | seq first second ih₁ ih₂ =>
    rw [unconditional, Bool.and_eq_true] at hfree
    rw [idles, Bool.and_eq_true] at hy
    intro k k' hk hkeeps
    exact ih₁ hfree.1 hy.1 _ _ ((onward_run second).later hk) (ih₂ hfree.2 hy.2 k k' hk hkeeps)
  | alt first second ih₁ ih₂ =>
    rw [unconditional, Bool.and_eq_true] at hfree
    rw [idles, Bool.and_eq_true] at hy
    intro k k' hk hkeeps past b
    exact (ih₁ hfree.1 hy.1 k k' hk hkeeps past b).orElse (ih₂ hfree.2 hy.2 k k' hk hkeeps past b)
  | «repeat» body least most greedy ih =>
    have hbody := ih hfree hy
    have hp := passes_run body
    cases most with
    | none => exact hbody.atLeast hp least
    | some most =>
      intro k k' hk hkeeps
      have hlater : Later (atMost body.run greedy (most - least) · k) :=
        (hp.atMost (most - least)).onward.later hk
      exact hbody.exactly hp least _ _ hlater (hbody.atMost hp _ k k' hk hkeeps)
  | group body ih => exact ih hfree hy

/-- What the expression finds if the text is cut short where it cannot go on. -/
theorem keeps_matchHere? {r : Regex} (hfree : r.unconditional = true)
    (hy : r.idles y.head? = true) (a : List Char) :
    Keeps x y (r.matchHere? (.ofList (a ++ x))) (r.matchHere? (.ofList (a ++ y))) := by
  refine steadfast_run hfree hy some some ?_ ?_ [] a
  · rintro c stop ⟨⟩
    exact .refl c
  · intro past b
    refine ⟨fun h => (nomatch h), fun past' b' h => ?_⟩
    obtain ⟨rfl, hb⟩ := Cursor.mk.inj (Option.some.inj h)
    rw [List.append_cancel_right hb]

end Regex

end TopDown
