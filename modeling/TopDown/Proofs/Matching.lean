import TopDown.Proofs.Recovery
import TopDown.Proofs.Spelling

/-!
# Where a match is

A matcher goes on only from places that are not before the one it was started at: `Regex.Onward`.
So a match lies inside the text, and `Regex.find?` finds the one that begins first.
-/

namespace TopDown

namespace Regex

/-- If the whole match succeeds, what comes after was matched at a later place or the same. -/
def Onward (m : Matcher) : Prop :=
  ∀ c k stop, m c k = some stop → ∃ c', c.Before c' ∧ k c' = some stop

theorem Passes.onward {m : Matcher} {p : List Char → Prop} (h : Passes m p) : Onward m := by
  rintro ⟨past, text⟩ k stop hm
  obtain ⟨w, rest, htext, -, hk⟩ := h past text k stop hm
  exact ⟨⟨w.reverse ++ past, rest⟩, ⟨w, htext, rfl⟩, hk⟩

theorem onward_run (r : Regex) : Onward r.run := (passes_run r).onward

theorem before_matchHere? {r : Regex} {c stop : Cursor Char} (h : r.matchHere? c = some stop) :
    c.Before stop := by
  obtain ⟨c', hc', hk⟩ := onward_run r c some stop h
  cases hk
  exact hc'

/-- The match that is found begins at the first place that has one. -/
theorem find?_go_eq_some {r : Regex} {text past : List Char} {i j : Nat}
    (h : find?.go r text past = some (i, j)) :
    ∃ before after stop, text = before ++ after ∧ i = past.length + before.length ∧
      r.matchHere? ⟨before.reverse ++ past, after⟩ = some stop ∧ j = stop.position ∧
      ∀ a b, before = a ++ b → b ≠ [] → r.matchHere? ⟨a.reverse ++ past, b ++ after⟩ = none := by
  induction text generalizing past with
  | nil =>
    obtain ⟨stop, hstop, hij⟩ := Option.map_eq_some_iff.1 h
    cases hij
    refine ⟨[], [], stop, rfl, rfl, hstop, rfl, ?_⟩
    intro a b hab hb
    exact absurd (List.append_eq_nil_iff.1 hab.symm).2 hb
  | cons x rest ih =>
    rw [find?.go] at h
    cases hx : r.matchHere? ⟨past, x :: rest⟩ with
    | some stop =>
      rw [hx] at h
      cases h
      refine ⟨[], x :: rest, stop, rfl, rfl, hx, rfl, ?_⟩
      intro a b hab hb
      exact absurd (List.append_eq_nil_iff.1 hab.symm).2 hb
    | none =>
      rw [hx] at h
      obtain ⟨before, after, stop, rfl, rfl, hstop, rfl, hfirst⟩ := ih h
      refine ⟨x :: before, after, stop, rfl, ?_, ?_, rfl, ?_⟩
      · simp only [List.length_cons]
        omega
      · simpa using hstop
      · intro a b hab hb
        cases a with
        | nil =>
          cases hab
          exact hx
        | cons y a =>
          cases hab
          simpa using hfirst a b rfl hb

/-- A match is found at the very beginning if there is one there. -/
theorem find?_eq_some_zero {r : Regex} {text : List Char} {n : Nat} :
    r.find? text = some (0, n) ↔
      ∃ stop, r.matchHere? (.ofList text) = some stop ∧ stop.position = n := by
  constructor
  · intro h
    obtain ⟨before, after, stop, rfl, hi, hstop, rfl, -⟩ := find?_go_eq_some h
    have hbefore : before = [] := by
      cases before with
      | nil => rfl
      | cons x before =>
        simp only [List.length_nil, List.length_cons] at hi
        omega
    subst hbefore
    exact ⟨stop, hstop, rfl⟩
  · rintro ⟨stop, hstop, rfl⟩
    cases text with
    | nil => exact Option.map_eq_some_iff.2 ⟨stop, hstop, rfl⟩
    | cons x rest =>
      have hstop : r.matchHere? ⟨[], x :: rest⟩ = some stop := hstop
      rw [find?, find?.go, hstop]
      rfl

/-- A match ends inside the text. -/
theorem position_le_of_matchHere? {r : Regex} {text : List Char} {stop : Cursor Char}
    (h : r.matchHere? (.ofList text) = some stop) : stop.position ≤ text.length := by
  have hsame : stop.toList = text := by
    rw [(before_matchHere? h).toList_eq, Cursor.toList_ofList]
  have hlength := stop.length_toList
  rw [hsame] at hlength
  omega

end Regex

end TopDown
