import TopDown.Proofs.Enclosure
import TopDown.Proofs.Hierarchy
import TopDown.Proofs.Segmentation

/-!
# Matches that begin at the cursor

A pattern of a vocabulary is tied to its place and is refused if it may match the empty text. Both
checks do what they are meant to do for a pattern that is well formed as it stands and whose sets of
characters are not empty: each match begins where the search does and passes a character
(`Vocabulary.anchored_of_build`), so no match is turned down by the lexer.

The length of a match is bounded by going through the texts that the expression stands for
(`Regex.Spells.minLength?_le`).
-/

namespace TopDown

namespace Regex

/-! ## The length of a match -/

/-- The sets of characters of the expression. -/
def sets : Regex → List CharSet
  | .empty | .assertion _ => []
  | .chars set => [set]
  | .seq first second | .alt first second => first.sets ++ second.sets
  | .repeat body _ _ _ | .group body => body.sets

/-- There is a bound exactly if every set has a character. -/
theorem isSome_minLength?_iff {r : Regex} :
    r.minLength?.isSome = true ↔ ∀ set ∈ r.sets, set.isEmpty = false := by
  induction r with
  | empty | assertion => exact iff_of_true rfl (List.forall_mem_nil _)
  | chars set =>
    rw [minLength?, sets, List.forall_mem_singleton]
    cases set.isEmpty with
    | false => exact iff_of_true rfl rfl
    | true => exact iff_of_false (fun h => nomatch h) fun h => nomatch h
  | seq first second ih₁ ih₂ | alt first second ih₁ ih₂ =>
    rw [minLength?, sets, List.forall_mem_append, ← ih₁, ← ih₂]
    cases first.minLength? with
    | none => exact iff_of_false (fun h => nomatch h) fun h => nomatch h.1
    | some m =>
      cases second.minLength? with
      | none => exact iff_of_false (fun h => nomatch h) fun h => nomatch h.2
      | some n => exact iff_of_true rfl ⟨rfl, rfl⟩
  | «repeat» body least most greedy ih => rw [minLength?, Option.isSome_map, ih, sets]
  | group body ih => exact ih

theorem mul_le_length_flatten {m : Nat} {ws : List (List Char)} (h : ∀ w ∈ ws, m ≤ w.length) :
    m * ws.length ≤ ws.flatten.length := by
  induction ws with
  | nil => exact Nat.le_refl 0
  | cons w ws ih =>
    obtain ⟨hw, hws⟩ := List.forall_mem_cons.1 h
    rw [List.length_cons, Nat.mul_succ, List.flatten_cons, List.length_append, Nat.add_comm]
    exact Nat.add_le_add hw (ih hws)

/-- A text that the expression stands for is no shorter than the bound. -/
theorem Spells.minLength?_le {r : Regex} {w : List Char} (h : r.Spells w) {n : Nat}
    (hn : r.minLength? = some n) : n ≤ w.length := by
  induction h generalizing n with
  | empty | assertion =>
    cases hn
    exact Nat.le_refl 0
  | @chars set x hx =>
    rw [minLength?] at hn
    split at hn
    · cases hn
    · cases hn
      exact Nat.le_refl 1
  | @seq r s w w' _ _ ih ih' =>
    rw [minLength?] at hn
    split at hn
    · rename_i k l hk hl
      cases hn
      rw [List.length_append]
      exact Nat.add_le_add (ih hk) (ih' hl)
    · cases hn
  | left _ ih =>
    rw [minLength?] at hn
    split at hn
    · rename_i k l hk hl
      cases hn
      exact (Nat.min_le_left k l).trans (ih hk)
    · cases hn
  | right _ ih =>
    rw [minLength?] at hn
    split at hn
    · rename_i k l hk hl
      cases hn
      exact (Nat.min_le_right k l).trans (ih hl)
    · cases hn
  | @turns body least most greedy ws _ hleast _ ih =>
    rw [minLength?] at hn
    obtain ⟨m, hm, rfl⟩ := Option.map_eq_some_iff.1 hn
    have hturns := mul_le_length_flatten fun w hw => ih w hw hm
    exact (Nat.mul_le_mul_left m hleast).trans hturns
  | group _ ih => exact ih hn

/-! ## Matches of an expression that is tied to its place -/

/-- An expression that is tied to the beginning of the text finds a text at the beginning only. -/
theorem find?_textStart {r : Regex} {text : List Char} {i j : Nat}
    (h : (Regex.seq (.assertion .textStart) r).find? text = some (i, j)) :
    i = 0 ∧ j ≤ text.length ∧ r.Spells (text.take j) := by
  obtain ⟨before, after, stop, rfl, rfl, hstop, rfl, -⟩ := find?_go_eq_some h
  rw [List.append_nil, matchHere?, run, run] at hstop
  by_cases hstart : Assertion.holds ⟨before.reverse, after⟩ .textStart = true
  · obtain rfl : before = [] := by simpa [Assertion.holds] using hstart
    rw [if_pos hstart] at hstop
    obtain ⟨w, rest, rfl, hw, rfl⟩ := spells_of_matchHere? hstop
    refine ⟨rfl, ?_, ?_⟩
    · simp [Cursor.position]
    · simpa [Cursor.position] using hw
  · rw [if_neg hstart] at hstop
    cases hstop

end Regex

namespace Vocabulary

variable {ds : List Declaration} {v : Vocabulary} {id : TokenId} {d : Declaration}
  {pattern : String}

/-- The class of a pattern, with what the pattern has been checked for. -/
theorem exists_compiled (hv : build ds = .ok v) (hd : ds[id]? = some d)
    (hp : d.pattern = some pattern) : ∃ c w, v.class? id = some c ∧ c.pattern = some w ∧
      Regex.parse? ("^(?:" ++ pattern ++ ")") = some w ∧
      (Regex.parse? pattern).bind (·.minLength?) ≠ some 0 := by
  obtain ⟨c, hc, hstands⟩ := (mirrors_of_build hv).exists_class hd
  have hrel := hstands.pattern
  rw [hp] at hrel
  cases hw : c.pattern with
  | none =>
    rw [hw] at hrel
    cases hrel
  | some w =>
    rw [hw] at hrel
    cases hrel with
    | some hcompile => exact ⟨c, w, hc, hw, compile_eq_ok_iff.1 hcompile⟩

/-- A match of an expression is turned down only if it does not begin at the beginning of the text
or is empty. -/
theorem isSome_lexeme? {c : TokenClass} {w : Regex} (hw : c.pattern = some w) {text : List Char}
    (h : ∀ i j, w.find? text = some (i, j) → i = 0 ∧ 0 < j) :
    (lexeme? text c id).isSome = (w.find? text).isSome := by
  cases hfind : w.find? text with
  | none =>
    cases hm : lexeme? text c id with
    | none => rfl
    | some m =>
      obtain ⟨-, -, -, r, hr, hfound⟩ := lexeme?_eq_some hm
      rw [hw] at hr
      cases hr
      rw [hfind] at hfound
      cases hfound
  | some place =>
    obtain ⟨i, j⟩ := place
    obtain ⟨rfl, hj⟩ := h i j hfind
    rw [lexeme?_of_find? hw hj hfind]
    rfl

/-- The expression of a pattern that is well formed as it stands finds its matches at the beginning
of a text only. If none of its sets of characters is empty, every match passes a character, and the
lexer takes every match. -/
theorem anchored_of_build (hv : build ds = .ok v) (hd : ds[id]? = some d)
    (hp : d.pattern = some pattern) : ∃ c w, v.class? id = some c ∧ c.pattern = some w ∧
      ∀ r, Regex.parse? pattern = some r →
        (∀ text i j, w.find? text = some (i, j) →
          i = 0 ∧ j ≤ text.length ∧ r.Spells (text.take j)) ∧
        ((∀ set ∈ r.sets, set.isEmpty = false) → ∀ text,
          (∀ i j, w.find? text = some (i, j) → 0 < j) ∧
          (lexeme? text c id).isSome = (w.find? text).isSome) := by
  obtain ⟨c, w, hc, hw, hwrapped, hlength⟩ := exists_compiled hv hd hp
  refine ⟨c, w, hc, hw, fun r hr => ?_⟩
  rw [hr, Option.bind_some] at hlength
  have hanchored : w = .seq (.assertion .textStart) r := by
    rw [Regex.eq_sequence_of_parse? hr hwrapped]
    cases r with
    | empty => exact absurd rfl hlength
    | chars | assertion | seq | alt | «repeat» | group => rfl
  have hfind : ∀ text i j, w.find? text = some (i, j) →
      i = 0 ∧ j ≤ text.length ∧ r.Spells (text.take j) := by
    intro text i j h
    rw [hanchored] at h
    exact Regex.find?_textStart h
  refine ⟨hfind, fun hsets text => ?_⟩
  obtain ⟨n, hn⟩ := Option.isSome_iff_exists.1 (Regex.isSome_minLength?_iff.2 hsets)
  have hpos : 0 < n := Nat.pos_of_ne_zero fun heq => hlength (heq ▸ hn)
  have hmatch : ∀ i j, w.find? text = some (i, j) → i = 0 ∧ 0 < j := by
    intro i j h
    obtain ⟨hi, hj, hspells⟩ := hfind text i j h
    have hle := hspells.minLength?_le hn
    rw [List.length_take, Nat.min_eq_left hj] at hle
    exact ⟨hi, Nat.lt_of_lt_of_le hpos hle⟩
  exact ⟨fun i j h => (hmatch i j h).2, isSome_lexeme? hw hmatch⟩

/-- Words, or one underscore. -/
def words : List Declaration := [.token "Word" "[a-z]+|_"]

/-- The lexer takes every match of a word. -/
theorem anchored_of_build_words : ∃ v c w, build words = .ok v ∧ v.class? 0 = some c ∧
    c.pattern = some w ∧ (∀ text i j, w.find? text = some (i, j) → i = 0 ∧ 0 < j) ∧
    ∀ text, (lexeme? text c 0).isSome = (w.find? text).isSome := by
  have hok : (build words).isOk = true := by decide +kernel
  have hsets : (Regex.parse? "[a-z]+|_").any fun r => r.sets.all fun set => !set.isEmpty := by
    decide +kernel
  obtain ⟨r, hr, hsets⟩ := (Option.any_eq_true _ _).1 hsets
  have hnonempty : ∀ set ∈ r.sets, set.isEmpty = false := by simpa using hsets
  cases hv : build words with
  | error e =>
    rw [hv] at hok
    cases hok
  | ok v =>
    have hword : words[0]? = some (.token "Word" "[a-z]+|_") := rfl
    obtain ⟨c, w, hc, hw, hanchored⟩ := anchored_of_build hv hword rfl
    obtain ⟨hstart, hpasses⟩ := hanchored r hr
    refine ⟨v, c, w, rfl, hc, hw, fun text i j h => ?_, fun text => (hpasses hnonempty text).2⟩
    exact ⟨(hstart text i j h).1, (hpasses hnonempty text).1 i j h⟩

/-- What the expression of a single pattern finds in a text, and whether the lexer takes it. -/
def findAlone (pattern text : String) : Option ((Nat × Nat) × Bool) := do
  let v ← (build [.token "X" pattern]).toOption
  let c ← v.class? 0
  let w ← c.pattern
  return (← w.find? text.toList, (lexeme? text.toList c 0).isSome)

/-- A pattern that closes the group around it leaves a branch that is not tied to its place, or an
empty branch. A part that can match nothing at all keeps the empty branch next to it from being
noticed. An empty match hides what the branch after it would match, and the lexer turns it down. -/
theorem findAlone_strays : findAlone "a)|(?:b" "xb" = some ((1, 2), false) ∧
    findAlone ")|(?:a" "a" = some ((0, 0), false) ∧
    findAlone "[^\\s\\S]||a" "a" = some ((0, 0), false) := by
  decide +kernel

end Vocabulary

end TopDown
