import TopDown.Regex.Match

/-!
# What an expression can pass

`Regex.Spells` says which texts an expression stands for. It leaves out in which order the ways to
match are tried, and where conditions hold. Whatever a matcher passes on its way to a match is such
a text (`Regex.passes_run`), so a match is known to be well formed without following the search.
-/

namespace TopDown

namespace Regex

theorem orElse_eq_some {first : Outcome} {second : Unit → Outcome} {stop : Cursor Char}
    (h : first.orElse second = some stop) : first = some stop ∨ second () = some stop := by
  cases first with
  | none => exact .inr h
  | some _ => exact .inl h

theorem prefer_eq_some {greedy : Bool} {turn leave : Unit → Outcome} {stop : Cursor Char}
    (h : prefer greedy turn leave = some stop) : turn () = some stop ∨ leave () = some stop := by
  cases greedy with
  | true => exact orElse_eq_some h
  | false => exact (orElse_eq_some h).symm

/-- Some texts with the property one after the other, as many as the condition says. -/
def InTurn (p : List Char → Prop) (count : Nat → Prop) (w : List Char) : Prop :=
  ∃ ws : List (List Char), w = ws.flatten ∧ (∀ x ∈ ws, p x) ∧ count ws.length

/-- The expression stands for the text. -/
inductive Spells : Regex → List Char → Prop where
  | empty : Spells .empty []
  | chars {set : CharSet} {x : Char} (h : set.contains x = true) : Spells (.chars set) [x]
  | assertion (a : Assertion) : Spells (.assertion a) []
  | seq {r s : Regex} {w w' : List Char} (h : Spells r w) (h' : Spells s w') :
      Spells (.seq r s) (w ++ w')
  | left {r s : Regex} {w : List Char} (h : Spells r w) : Spells (.alt r s) w
  | right {r s : Regex} {w : List Char} (h : Spells s w) : Spells (.alt r s) w
  /-- The texts of the turns. The least number of turns counts if it is more than the most. -/
  | turns {body : Regex} {least : Nat} {most : Option Nat} {greedy : Bool}
      {ws : List (List Char)} (h : ∀ w ∈ ws, Spells body w) (hleast : least ≤ ws.length)
      (hmost : ∀ n ∈ most, ws.length ≤ max least n) :
      Spells (.repeat body least most greedy) ws.flatten
  | group {r : Regex} {w : List Char} (h : Spells r w) : Spells (.group r) w

/-! ## Matchers -/

/-- If the whole match succeeds, the matcher has passed a text with the property, and what comes
after was matched from there. -/
def Passes (m : Matcher) (p : List Char → Prop) : Prop :=
  ∀ past text k stop, m ⟨past, text⟩ k = some stop →
    ∃ w rest, text = w ++ rest ∧ p w ∧ k ⟨w.reverse ++ past, rest⟩ = some stop

variable {p q q' : List Char → Prop} {count count' : Nat → Prop} {m m' body : Matcher}
  {greedy : Bool} {w w' : List Char}

theorem InTurn.nil (h : count 0) : InTurn p count [] :=
  ⟨[], rfl, List.forall_mem_nil _, h⟩

theorem InTurn.cons (hw : p w) (h : InTurn p count w') (hcount : ∀ n, count n → count' (n + 1)) :
    InTurn p count' (w ++ w') := by
  obtain ⟨ws, rfl, hall, hn⟩ := h
  refine ⟨w :: ws, List.flatten_cons.symm, List.forall_mem_cons.2 ⟨hw, hall⟩, ?_⟩
  rw [List.length_cons]
  exact hcount _ hn

theorem InTurn.append {count'' : Nat → Prop} (h : InTurn p count w) (h' : InTurn p count' w')
    (hcount : ∀ m n, count m → count' n → count'' (m + n)) : InTurn p count'' (w ++ w') := by
  obtain ⟨ws, rfl, hall, hm⟩ := h
  obtain ⟨ws', rfl, hall', hn⟩ := h'
  refine ⟨ws ++ ws', List.flatten_append.symm, List.forall_mem_append.2 ⟨hall, hall'⟩, ?_⟩
  rw [List.length_append]
  exact hcount _ _ hm hn

theorem InTurn.imp (h : InTurn p count w) (hcount : ∀ n, count n → count' n) :
    InTurn p count' w := by
  obtain ⟨ws, hw, hall, hn⟩ := h
  exact ⟨ws, hw, hall, hcount _ hn⟩

namespace Passes

theorem imp (h : Passes m p) (hpq : ∀ w, p w → q w) : Passes m q := by
  intro past text k stop hm
  obtain ⟨w, rest, htext, hw, hk⟩ := h past text k stop hm
  exact ⟨w, rest, htext, hpq w hw, hk⟩

theorem stay (h : p []) : Passes (fun c k => k c) p :=
  fun _ text _ _ hm => ⟨[], text, rfl, h, hm⟩

theorem andThen (h : Passes m p) (h' : Passes m' q) (happend : ∀ w w', p w → q w' → q' (w ++ w')) :
    Passes (fun c k => m c fun c' => m' c' k) q' := by
  intro past text k stop hm
  obtain ⟨w, rest, rfl, hw, hm⟩ := h past text _ stop hm
  obtain ⟨w', rest', rfl, hw', hk⟩ := h' _ _ k stop hm
  refine ⟨w ++ w', rest', (List.append_assoc w w' rest').symm, happend w w' hw hw', ?_⟩
  rw [List.reverse_append, List.append_assoc]
  exact hk

theorem prefer (h : Passes m p) (h' : Passes m' p) :
    Passes (fun c k => prefer greedy (fun _ => m c k) fun _ => m' c k) p := by
  intro past text k stop hm
  rcases prefer_eq_some hm with hm | hm
  · exact h past text k stop hm
  · exact h' past text k stop hm

theorem exactly (h : Passes body p) (n : Nat) : Passes (exactly body n) (InTurn p (· = n)) := by
  induction n with
  | zero => exact stay (.nil rfl)
  | succ n ih => exact h.andThen ih fun w w' hw hw' => hw'.cons hw fun k hk => by omega

theorem atMost (h : Passes body p) (n : Nat) : Passes (atMost body greedy n) (InTurn p (· ≤ n)) := by
  induction n with
  | zero => exact stay (.nil (Nat.le_refl 0))
  | succ n ih =>
    have hcons : ∀ w w', p w → InTurn p (· ≤ n) w' → InTurn p (· ≤ n + 1) (w ++ w') :=
      fun w w' hw hw' => hw'.cons hw fun k hk => Nat.succ_le_succ hk
    exact (h.andThen ih hcons).prefer (stay (.nil (Nat.zero_le _)))

/-- Each turn shortens what lies ahead, so the induction is on that. -/
theorem turns (h : Passes body p) : Passes (turns body greedy) (InTurn p fun _ => True) := by
  intro past text k stop hm
  induction hn : text.length using Nat.strongRecOn generalizing past text with
  | ind n ih =>
    rw [Regex.turns] at hm
    rcases prefer_eq_some hm with hm | hk
    · obtain ⟨w, rest, rfl, hw, hm⟩ := h past text _ stop hm
      by_cases hlt : rest.length < (w ++ rest).length
      · rw [dif_pos hlt] at hm
        obtain ⟨w', rest', rfl, hw', hk⟩ := ih _ (hn ▸ hlt) _ _ hm rfl
        refine ⟨w ++ w', rest', (List.append_assoc ..).symm, hw'.cons hw fun _ _ => trivial, ?_⟩
        rw [List.reverse_append, List.append_assoc]
        exact hk
      · rw [dif_neg hlt] at hm
        cases hm
    · exact ⟨[], text, rfl, .nil trivial, hk⟩

theorem onceOrMore (h : Passes body p) : Passes (onceOrMore body greedy) (InTurn p (1 ≤ ·)) := by
  intro past text k stop hm
  obtain ⟨w, rest, rfl, hw, hm⟩ := h past text _ stop hm
  by_cases hlt : rest.length < (w ++ rest).length
  · rw [if_pos hlt] at hm
    obtain ⟨w', rest', rfl, hw', hk⟩ := h.turns _ _ k stop hm
    refine ⟨w ++ w', rest', (List.append_assoc ..).symm, ?_, ?_⟩
    · exact hw'.cons hw fun n _ => Nat.succ_le_succ n.zero_le
    · rw [List.reverse_append, List.append_assoc]
      exact hk
  · rw [if_neg hlt] at hm
    have hnone : InTurn p (fun _ => True) [] := .nil trivial
    have hone : InTurn p (1 ≤ ·) (w ++ []) := hnone.cons hw fun n _ => Nat.succ_le_succ n.zero_le
    rw [List.append_nil] at hone
    exact ⟨w, rest, rfl, hone, hm⟩

theorem atLeast (h : Passes body p) (n : Nat) :
    Passes (atLeast body greedy n) (InTurn p (n ≤ ·)) := by
  cases n with
  | zero =>
    have hmore : Passes (Regex.onceOrMore body greedy) (InTurn p (0 ≤ ·)) :=
      h.onceOrMore.imp fun w hw => hw.imp fun k _ => k.zero_le
    exact hmore.prefer (stay (.nil (Nat.le_refl 0)))
  | succ n =>
    exact (h.exactly n).andThen h.onceOrMore fun w w' hw hw' =>
      hw.append hw' fun i j hi hj => by omega

end Passes

/-- Whatever is passed on the way to a match is a text that the expression stands for. -/
theorem passes_run (r : Regex) : Passes r.run r.Spells := by
  induction r with
  | empty => exact .stay .empty
  | chars set =>
    intro past text k stop hm
    cases text with
    | nil => cases hm
    | cons x rest =>
      by_cases hx : set.contains x = true
      · rw [run, if_pos hx] at hm
        exact ⟨[x], rest, rfl, .chars hx, hm⟩
      · rw [run, if_neg hx] at hm
        cases hm
  | assertion a =>
    intro past text k stop hm
    by_cases ha : a.holds ⟨past, text⟩ = true
    · rw [run, if_pos ha] at hm
      exact ⟨[], text, rfl, .assertion a, hm⟩
    · rw [run, if_neg ha] at hm
      cases hm
  | seq first second ih₁ ih₂ => exact ih₁.andThen ih₂ fun w w' hw hw' => .seq hw hw'
  | alt first second ih₁ ih₂ =>
    intro past text k stop hm
    rcases orElse_eq_some hm with hm | hm
    · exact (ih₁.imp fun w hw => hw.left) past text k stop hm
    · exact (ih₂.imp fun w hw => hw.right) past text k stop hm
  | «repeat» body least most greedy ih =>
    cases most with
    | none =>
      refine (ih.atLeast least).imp ?_
      rintro w ⟨ws, rfl, hall, hn⟩
      exact .turns hall hn fun n hn => nomatch hn
    | some most =>
      have happend : ∀ w w', InTurn body.Spells (· = least) w →
          InTurn body.Spells (· ≤ most - least) w' →
          InTurn body.Spells (fun n => least ≤ n ∧ n ≤ max least most) (w ++ w') :=
        fun w w' hw hw' => hw.append hw' fun i j hi hj => by omega
      have hturns : Passes (Regex.run (.repeat body least (some most) greedy)) _ :=
        (ih.exactly least).andThen (ih.atMost (most - least)) happend
      refine hturns.imp ?_
      rintro w ⟨ws, rfl, hall, hleast, hmost⟩
      refine .turns hall hleast fun n hn => ?_
      rwa [← Option.some.inj hn]
  | group body ih => exact ih.imp fun w hw => hw.group

/-- A match passes a text that the expression stands for. -/
theorem spells_of_matchHere? {r : Regex} {past text : List Char} {stop : Cursor Char}
    (h : r.matchHere? ⟨past, text⟩ = some stop) :
    ∃ w rest, text = w ++ rest ∧ r.Spells w ∧ stop = ⟨w.reverse ++ past, rest⟩ := by
  obtain ⟨w, rest, htext, hw, hstop⟩ := passes_run r past text some stop h
  exact ⟨w, rest, htext, hw, (Option.some.inj hstop).symm⟩

/-! ## Sets of characters in a row -/

/-- What a repetition of a set of characters stands for. -/
theorem spells_repeat_chars_iff {set : CharSet} {least : Nat} {most : Option Nat} :
    (Regex.repeat (.chars set) least most greedy).Spells w ↔
      (∀ x ∈ w, set.contains x = true) ∧ least ≤ w.length ∧ ∀ n ∈ most, w.length ≤ max least n := by
  constructor
  · intro h
    have hchars : ∀ ws : List (List Char), (∀ w ∈ ws, (Regex.chars set).Spells w) →
        (∀ x ∈ ws.flatten, set.contains x = true) ∧ ws.flatten.length = ws.length := by
      intro ws hall
      induction ws with
      | nil => exact ⟨List.forall_mem_nil _, rfl⟩
      | cons w ws ih =>
        obtain ⟨hw, hall⟩ := List.forall_mem_cons.1 hall
        obtain ⟨hmem, hlength⟩ := ih hall
        cases hw with
        | chars hx => exact ⟨List.forall_mem_cons.2 ⟨hx, hmem⟩, congrArg (· + 1) hlength⟩
    cases h with
    | turns hall hleast hmost =>
      obtain ⟨hmem, hlength⟩ := hchars _ hall
      rw [hlength]
      exact ⟨hmem, hleast, hmost⟩
  · rintro ⟨hmem, hleast, hmost⟩
    have hflatten : (w.map ([·])).flatten = w := by
      rw [← List.flatMap_def, List.flatMap_singleton']
    have hlength : (w.map ([·])).length = w.length := List.length_map ..
    rw [← hflatten]
    refine .turns (List.forall_mem_map.2 fun x hx => .chars (hmem x hx)) ?_ ?_
    · rwa [hlength]
    · rwa [hlength]

end Regex

end TopDown
