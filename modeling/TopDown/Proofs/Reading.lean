import TopDown.Proofs.Completeness
import TopDown.Proofs.Scanning

/-!
# Reading a text from its beginning to its value

`Sample.Reads` says of a part of a text what it contributes: the lexer cuts it off as tokens of its
own, some productions of the grammar derive these tokens, with so many rules nested, and the leaves
that the meaning gets to see are known. What the lexer does with the end of the part depends on what
comes after it, so a condition on that belongs to the statement.

The parts of a text are put together in the way the grammar is made, with one rule for each kind of
production. A whole text that is read in this way has the value that was put together
(`Sample.Reads.runRule`).
-/

namespace TopDown

variable {α : Type}

/-- The leaf with what can be seen of its token. -/
def Leaf.veil (v : Veil) : Leaf α → Leaf α
  | .token t => .token (v.token t)
  | .value a => .value a

theorem Leaf.values_append (leaves more : List (Leaf α)) :
    Leaf.values (leaves ++ more) = Leaf.values leaves ++ Leaf.values more :=
  List.filterMap_append

theorem Leaf.values_veil (v : Veil) (leaves : List (Leaf α)) :
    Leaf.values (leaves.map (·.veil v)) = Leaf.values leaves := by
  induction leaves with
  | nil => rfl
  | cons leaf leaves ih =>
    cases leaf with
    | token t => exact ih
    | value a => exact congrArg (a :: ·) ih

namespace Semantics

variable {m : Semantics α} {v : Veil}

/-- The values of rules do not depend on what the veil hides of the tokens. -/
def Ignores (m : Semantics α) (v : Veil) : Prop :=
  ∀ name leaves, m.rule name (leaves.map (·.veil v)) = m.rule name leaves

theorem leavesSeq_append (m : Semantics α) (parts more : List Tree) :
    m.leavesSeq (parts ++ more) = m.leavesSeq parts ++ m.leavesSeq more := by
  induction parts with
  | nil => rfl
  | cons t parts ih => rw [List.cons_append, leavesSeq, leavesSeq, ih, List.append_assoc]

theorem leavesSeq_singleton (m : Semantics α) (t : Tree) : m.leavesSeq [t] = m.leaves t := by
  rw [leavesSeq, leavesSeq, List.append_nil]

mutual

theorem leaves_veil (h : m.Ignores v) (t : Tree) :
    m.leaves (v.tree t) = (m.leaves t).map (·.veil v) := by
  cases t with
  | token t => rfl
  | node name parts =>
    rw [Veil.tree, leaves, leaves, leavesSeq_veil h parts, h]
    rfl
  | hole => rfl
  | taken parts | chosen _ parts | attempted parts =>
    rw [Veil.tree, leaves, leaves]
    exact leavesSeq_veil h parts
  | rounds rounds =>
    rw [Veil.tree, leaves, leaves]
    exact leavesRounds_veil h rounds
  | leftOut | peeked | errorCount | abandoned => rfl

theorem leavesSeq_veil (h : m.Ignores v) (parts : List Tree) :
    m.leavesSeq (v.trees parts) = (m.leavesSeq parts).map (·.veil v) := by
  cases parts with
  | nil => rfl
  | cons t rest =>
    rw [Veil.trees, leavesSeq, leavesSeq, leaves_veil h t, leavesSeq_veil h rest, List.map_append]

theorem leavesRounds_veil (h : m.Ignores v) (rounds : List (List Tree)) :
    m.leavesRounds (v.rounds rounds) = (m.leavesRounds rounds).map (·.veil v) := by
  cases rounds with
  | nil => rfl
  | cons parts rest =>
    rw [Veil.rounds, leavesRounds, leavesRounds, leavesSeq_veil h parts, leavesRounds_veil h rest,
      List.map_append]

end

theorem eval_veil (h : m.Ignores v) (t : Tree) : m.eval (v.tree t) = m.eval t := by
  rw [eval, eval, leaves_veil h, Leaf.values_veil]

/-- Trees that look the same have the same value. -/
theorem eval_congr (h : m.Ignores v) {t t' : Tree} (ht : v.tree t' = v.tree t) :
    m.eval t' = m.eval t := by
  rw [← eval_veil h, ht, eval_veil h]

end Semantics

theorem Tree.depthSeq_append (parts more : List Tree) :
    Tree.depthSeq (parts ++ more) = max (Tree.depthSeq parts) (Tree.depthSeq more) := by
  induction parts with
  | nil => exact (Nat.zero_max _).symm
  | cons t parts ih =>
    rw [List.cons_append, Tree.depthSeq, Tree.depthSeq, ih, Nat.max_assoc]

/-- A repetition is read with one more round behind it. -/
theorem Grammar.Derivation.another {g : Grammar} {v : Vocabulary} {idx : Nat}
    {body ps : List Production} {trees parts : List Tree} {rounds : List (List Tree)}
    {us ws : List Token} (h : g.Derivation v ps trees us) (hps : ps = [.many idx body])
    (htrees : trees = [.rounds rounds]) (hlast : g.Derivation v body parts ws) :
    g.Derivation v [.many idx body] [.rounds (rounds ++ [parts])] (us ++ ws) := by
  induction h generalizing rounds with
  | cons _ tail ih =>
    -- the repetition is the only production
    obtain ⟨rfl, rfl⟩ := List.cons.inj hps
    obtain ⟨rfl, rfl⟩ := List.cons.inj htrees
    cases tail
    rw [List.append_nil]
    exact ih rfl rfl
  | stopped =>
    cases hps
    cases htrees
    have hround : g.Derivation v [.many idx body] [.rounds [parts]] (ws ++ []) :=
      .round hlast .stopped
    rwa [List.append_nil] at hround
  | round inner _ _ ih =>
    cases hps
    cases htrees
    rw [List.append_assoc]
    exact .round inner (ih rfl rfl)
  | nil | terminal | nonTerminal | leftOut | taken | chosen => cases hps

theorem Tree.depthRounds_append (rounds more : List (List Tree)) :
    Tree.depthRounds (rounds ++ more) = max (Tree.depthRounds rounds) (Tree.depthRounds more) := by
  induction rounds with
  | nil => exact (Nat.zero_max _).symm
  | cons parts rounds ih =>
    rw [List.cons_append, Tree.depthRounds, Tree.depthRounds, ih, Nat.max_assoc]

theorem Semantics.leavesRounds_append (m : Semantics α) (rounds more : List (List Tree)) :
    m.leavesRounds (rounds ++ more) = m.leavesRounds rounds ++ m.leavesRounds more := by
  induction rounds with
  | nil => rfl
  | cons parts rounds ih =>
    rw [List.cons_append, Semantics.leavesRounds, Semantics.leavesRounds, ih, List.append_assoc]

namespace Sample

variable {s : Sample α} {after after' : List Char → Prop} {ps qs : List Production}
  {w w' : List Char} {d d' idx : Nat} {leaves leaves' : List (Leaf α)}

/-- If what comes after it is as the condition says, the lexer makes tokens of `w` that the
productions derive, with rules nested `d` deep and the given leaves. -/
def Reads (s : Sample α) (after : List Char → Prop) (ps : List Production) (w : List Char) (d : Nat)
    (leaves : List (Leaf α)) : Prop :=
  ∃ ts trees, s.language.vocabulary.Cuts after w ts ∧
    s.language.grammar.Derivation s.language.vocabulary ps trees ts ∧
    Tree.depthSeq trees = d ∧ s.meaning.leavesSeq trees = leaves

namespace Reads

/-! ## One part after the other -/

theorem append (h : s.Reads after ps w d leaves) (h' : s.Reads after' qs w' d' leaves')
    (hafter : ∀ rest, after' rest → after (w' ++ rest)) :
    s.Reads after' (ps ++ qs) (w ++ w') (max d d') (leaves ++ leaves') := by
  obtain ⟨ts, trees, hcuts, hd, rfl, rfl⟩ := h
  obtain ⟨us, trees', hcuts', hd', rfl, rfl⟩ := h'
  exact ⟨_, _, hcuts.append hcuts' hafter, hd.append hd', Tree.depthSeq_append trees trees',
    s.meaning.leavesSeq_append trees trees'⟩

/-- What the lexer drops may stand before. -/
theorem dropped_before (h : s.Reads after ps w d leaves)
    (hdrop : s.language.vocabulary.Cuts (fun _ => True) w' []) :
    s.Reads after ps (w' ++ w) d leaves := by
  obtain ⟨ts, trees, hcuts, hread⟩ := h
  exact ⟨ts, trees, hdrop.append hcuts fun _ _ => trivial, hread⟩

/-- What the lexer drops may stand behind. -/
theorem dropped_after (h : s.Reads after ps w d leaves)
    (hdrop : s.language.vocabulary.Cuts after' w' [])
    (hafter : ∀ rest, after' rest → after (w' ++ rest)) : s.Reads after' ps (w ++ w') d leaves := by
  obtain ⟨ts, trees, hcuts, hread⟩ := h
  refine ⟨ts, trees, ?_, hread⟩
  rw [← List.append_nil ts]
  exact hcuts.append hdrop hafter

/-! ## Each kind of production -/

section Productions

variable {token id : TokenId} {name : String} {body : List Production}

theorem terminal (hid : s.language.vocabulary.isA id token = true)
    (hcuts : s.language.vocabulary.Cuts after w [.spelled id w]) :
    s.Reads after [.terminal token idx] w 0 [.token (.spelled id w)] :=
  ⟨_, _, hcuts, .terminal hid, rfl, rfl⟩

theorem nonTerminal {r : Rule} (hr : s.language.grammar.rule? name = some r)
    (h : s.Reads after r.body w d leaves) :
    s.Reads after [.nonTerminal name idx] w (d + 1) [.value (s.meaning.rule name leaves)] := by
  obtain ⟨ts, trees, hcuts, hd, rfl, rfl⟩ := h
  refine ⟨ts, _, hcuts, .nonTerminal hr hd, ?_, ?_⟩
  · rw [Tree.depthSeq_singleton, Tree.depth]
  · rw [Semantics.leavesSeq_singleton, Semantics.leaves]

theorem leftOut (s : Sample α) (after : List Char → Prop) :
    s.Reads after [.option idx body] [] 0 [] :=
  ⟨[], _, Vocabulary.cuts_nil _ _, .leftOut, rfl, rfl⟩

theorem taken (h : s.Reads after body w d leaves) :
    s.Reads after [.option idx body] w d leaves := by
  obtain ⟨ts, trees, hcuts, hd, rfl, rfl⟩ := h
  refine ⟨ts, _, hcuts, .taken hd, Tree.depthSeq_singleton _, ?_⟩
  rw [Semantics.leavesSeq_singleton, Semantics.leaves]

theorem stopped (s : Sample α) (after : List Char → Prop) :
    s.Reads after [.many idx body] [] 0 [] :=
  ⟨[], _, Vocabulary.cuts_nil _ _, .stopped, rfl, rfl⟩

theorem round (h : s.Reads after body w d leaves)
    (h' : s.Reads after' [.many idx body] w' d' leaves')
    (hafter : ∀ rest, after' rest → after (w' ++ rest)) :
    s.Reads after' [.many idx body] (w ++ w') (max d d') (leaves ++ leaves') := by
  obtain ⟨ts, trees, hcuts, hd, rfl, rfl⟩ := h
  obtain ⟨us, trees', hcuts', hd', rfl, rfl⟩ := h'
  obtain ⟨rounds, rfl⟩ := hd'.of_many rfl
  refine ⟨_, _, hcuts.append hcuts' hafter, .round hd hd', ?_, ?_⟩
  · rw [Tree.depthSeq_singleton, Tree.depthSeq_singleton, Tree.depth, Tree.depth, Tree.depthRounds]
  · rw [Semantics.leavesSeq_singleton, Semantics.leavesSeq_singleton, Semantics.leaves,
      Semantics.leaves, Semantics.leavesRounds]

/-- One more round comes last. -/
theorem another (h : s.Reads after [.many idx body] w d leaves)
    (h' : s.Reads after' body w' d' leaves') (hafter : ∀ rest, after' rest → after (w' ++ rest)) :
    s.Reads after' [.many idx body] (w ++ w') (max d d') (leaves ++ leaves') := by
  obtain ⟨ts, trees, hcuts, hd, rfl, rfl⟩ := h
  obtain ⟨us, trees', hcuts', hd', rfl, rfl⟩ := h'
  obtain ⟨rounds, rfl⟩ := hd.of_many rfl
  refine ⟨_, _, hcuts.append hcuts' hafter, hd.another rfl rfl hd', ?_, ?_⟩
  · rw [Tree.depthSeq_singleton, Tree.depthSeq_singleton, Tree.depth, Tree.depth,
      Tree.depthRounds_append, Tree.depthRounds, Tree.depthRounds, Nat.max_zero]
  · rw [Semantics.leavesSeq_singleton, Semantics.leavesSeq_singleton, Semantics.leaves,
      Semantics.leaves, Semantics.leavesRounds_append, Semantics.leavesRounds,
      Semantics.leavesRounds, List.append_nil]

theorem chosen {i : Nat} {alternatives : List (List Production)} (hi : alternatives[i]? = some body)
    (h : s.Reads after body w d leaves) :
    s.Reads after [.choice idx alternatives] w d leaves := by
  obtain ⟨ts, trees, hcuts, hd, rfl, rfl⟩ := h
  refine ⟨ts, _, hcuts, .chosen hi hd, Tree.depthSeq_singleton _, ?_⟩
  rw [Semantics.leavesSeq_singleton, Semantics.leaves]

end Productions

/-! ## Whole texts -/

/-- A text that is read from the start rule is lexed and parsed without an error, and it has the
value that was read, if its rules are not nested deeper than the limit. -/
theorem runRule {draft : Draft} {start text : String} {a : α} (hb : draft.build = .ok s.language)
    (hp : draft.Plain) (hll : s.language.grammar.IsLL1 s.language.vocabulary start)
    (hm : s.meaning.Ignores Veil.offsets)
    (h : s.Reads after [.nonTerminal start 0] text.toList d [.value a]) (hend : after [])
    (hd : d ≤ s.language.config.maxDepth) :
    (s.runRule start text).lexErrors = [] ∧ (s.runRule start text).output = ⟨some a, [], none⟩ := by
  obtain ⟨ts, trees, hcuts, hderives, rfl, hleaves⟩ := h
  obtain ⟨rfl, ho⟩ := Language.outlined_of_build hb hp
  obtain ⟨_, parts, -, rfl, -⟩ := hderives.of_nonTerminal rfl
  rw [Tree.depthSeq_singleton] at hd
  rw [Semantics.leavesSeq_singleton] at hleaves
  obtain ⟨hlex, htokens⟩ := Vocabulary.tokenize_of_scan (hcuts.scan hend)
  have hparse : s.language.parse start ts = ⟨some (.node start parts), [], none⟩ :=
    (Language.parse_of_derivation ho hp hll hderives).1 hd
  -- the tokens of the text are those that were read, up to their offsets
  have hbare : (s.language.vocabulary.tokenize text).1.map Veil.offsets.token =
      ts.map Veil.offsets.token := by
    rw [← htokens, List.map_map]
    exact List.map_congr_left fun t _ => (Veil.token_token t).symm
  have houtput : Veil.offsets.output
      (s.language.parse start (s.language.vocabulary.tokenize text).1) =
      Veil.offsets.output ⟨some (.node start parts), [], none⟩ := by
    rw [← hparse]
    exact congrArg Language.Run.output (Language.run_veil s.language start hbare)
  refine ⟨hlex, ?_⟩
  change s.parse start (s.language.vocabulary.tokenize text).1 = _
  rw [parse]
  generalize s.language.parse start (s.language.vocabulary.tokenize text).1 = output at houtput
  obtain ⟨value, errors, fatal⟩ := output
  obtain ⟨hvalue, herrors, hfatal⟩ := ParseOutput.mk.inj houtput
  obtain ⟨t, rfl, ht⟩ := Option.map_eq_some_iff.1 hvalue
  obtain rfl : errors = [] := List.map_eq_nil_iff.1 herrors
  obtain rfl : fatal = none := Option.map_eq_none_iff.1 hfatal
  rw [ParseOutput.map, Option.map_some, Semantics.eval_congr hm ht, Semantics.eval, hleaves]
  rfl

end Reads

end Sample

end TopDown
