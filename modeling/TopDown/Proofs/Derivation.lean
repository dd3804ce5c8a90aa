import TopDown.Grammar
import TopDown.Parse.Step

/-!
# What a grammar derives

A production is read as usual: a terminal derives one token that is accepted for its class, an
option its body or nothing, a repetition its body any number of times in a row, a choice what one of
its alternatives derives, and the name of a rule what the body of the rule derives.
`Grammar.Derivation` relates a sequence of productions, the trees that say how it was read, and the
tokens it derives; `Grammar.Derives` leaves the trees out.

Two parts of this meaning are needed for prediction: whether a sequence derives nothing
(`Grammar.Vanishes`), and the classes that can come first in what it derives (`Grammar.Starts`).
-/

namespace TopDown

namespace Tree

mutual

/-- The tokens that were called for, in order. -/
def tokens : Tree → List Token
  | .token t => [t]
  | .node _ parts | .taken parts | .chosen _ parts | .attempted parts => tokensSeq parts
  | .rounds parts => tokensRounds parts
  | .hole | .leftOut | .peeked _ | .errorCount _ | .abandoned _ => []

/-- The tokens of a sequence. -/
def tokensSeq : List Tree → List Token
  | [] => []
  | t :: rest => t.tokens ++ tokensSeq rest

/-- The tokens of the rounds of a repetition. -/
def tokensRounds : List (List Tree) → List Token
  | [] => []
  | parts :: rest => tokensSeq parts ++ tokensRounds rest

end

mutual

/-- How deep rules are nested in the tree. -/
def depth : Tree → Nat
  | .node _ parts => depthSeq parts + 1
  | .taken parts | .chosen _ parts | .attempted parts => depthSeq parts
  | .rounds parts => depthRounds parts
  | .token _ | .hole | .leftOut | .peeked _ | .errorCount _ | .abandoned _ => 0

/-- How deep rules are nested in a sequence. -/
def depthSeq : List Tree → Nat
  | [] => 0
  | t :: rest => max t.depth (depthSeq rest)

/-- How deep rules are nested in the rounds of a repetition. -/
def depthRounds : List (List Tree) → Nat
  | [] => 0
  | parts :: rest => max (depthSeq parts) (depthRounds rest)

end

@[simp] theorem depthSeq_singleton (t : Tree) : depthSeq [t] = t.depth := by
  rw [depthSeq, depthSeq, Nat.max_zero]

end Tree

namespace Grammar

variable {g : Grammar} {v : Vocabulary}

/-- The trees are a reading of the tokens as what the productions derive, one tree for each. -/
inductive Derivation (g : Grammar) (v : Vocabulary) :
    List Production → List Tree → List Token → Prop where
  /-- The empty sequence derives nothing. -/
  | nil : Derivation g v [] [] []
  /-- A sequence derives what its first production derives, followed by what the others derive. -/
  | cons {p : Production} {ps : List Production} {tree : Tree} {trees : List Tree}
      {us ws : List Token} (head : Derivation g v [p] [tree] us) (tail : Derivation g v ps trees ws) :
      Derivation g v (p :: ps) (tree :: trees) (us ++ ws)
  /-- A terminal derives one token. -/
  | terminal {token : TokenId} {idx : Nat} {t : Token} (h : v.isA t.kind token = true) :
      Derivation g v [.terminal token idx] [.token t] [t]
  /-- The name of a rule derives what the body of the rule derives. -/
  | nonTerminal {name : String} {idx : Nat} {r : Rule} {parts : List Tree} {us : List Token}
      (h : g.rule? name = some r) (body : Derivation g v r.body parts us) :
      Derivation g v [.nonTerminal name idx] [.node name parts] us
  /-- An option derives nothing. -/
  | leftOut {idx : Nat} {body : List Production} : Derivation g v [.option idx body] [.leftOut] []
  /-- An option derives what its body derives. -/
  | taken {idx : Nat} {body : List Production} {parts : List Tree} {us : List Token}
      (inner : Derivation g v body parts us) :
      Derivation g v [.option idx body] [.taken parts] us
  /-- A repetition derives nothing. -/
  | stopped {idx : Nat} {body : List Production} : Derivation g v [.many idx body] [.rounds []] []
  /-- A repetition derives what its body derives, followed by what it derives. -/
  | round {idx : Nat} {body : List Production} {parts : List Tree} {more : List (List Tree)}
      {us ws : List Token} (inner : Derivation g v body parts us)
      (again : Derivation g v [.many idx body] [.rounds more] ws) :
      Derivation g v [.many idx body] [.rounds (parts :: more)] (us ++ ws)
  /-- A choice derives what one of its alternatives derives. -/
  | chosen {idx i : Nat} {alternatives : List (List Production)} {body : List Production}
      {parts : List Tree} {us : List Token} (h : alternatives[i]? = some body)
      (inner : Derivation g v body parts us) :
      Derivation g v [.choice idx alternatives] [.chosen i parts] us

/-- The productions derive the tokens. -/
inductive Derives (g : Grammar) (v : Vocabulary) : List Production → List Token → Prop where
  | nil : Derives g v [] []
  | terminal {token : TokenId} {idx : Nat} {t : Token} {ps : List Production} {us : List Token}
      (h : v.isA t.kind token = true) (rest : Derives g v ps us) :
      Derives g v (.terminal token idx :: ps) (t :: us)
  | nonTerminal {name : String} {idx : Nat} {r : Rule} {ps : List Production} {us ws : List Token}
      (h : g.rule? name = some r) (body : Derives g v r.body us) (rest : Derives g v ps ws) :
      Derives g v (.nonTerminal name idx :: ps) (us ++ ws)
  | leftOut {idx : Nat} {body ps : List Production} {us : List Token} (rest : Derives g v ps us) :
      Derives g v (.option idx body :: ps) us
  | taken {idx : Nat} {body ps : List Production} {us ws : List Token}
      (inner : Derives g v body us) (rest : Derives g v ps ws) :
      Derives g v (.option idx body :: ps) (us ++ ws)
  | stopped {idx : Nat} {body ps : List Production} {us : List Token} (rest : Derives g v ps us) :
      Derives g v (.many idx body :: ps) us
  | round {idx : Nat} {body ps : List Production} {us ws : List Token}
      (inner : Derives g v body us) (again : Derives g v (.many idx body :: ps) ws) :
      Derives g v (.many idx body :: ps) (us ++ ws)
  | chosen {idx : Nat} {alternatives : List (List Production)} {body ps : List Production}
      {us ws : List Token} (h : body ∈ alternatives) (inner : Derives g v body us)
      (rest : Derives g v ps ws) : Derives g v (.choice idx alternatives :: ps) (us ++ ws)

/-- The sequence derives nothing. -/
inductive Vanishes (g : Grammar) : List Production → Prop where
  | nil : Vanishes g []
  | nonTerminal {name : String} {idx : Nat} {r : Rule} {ps : List Production}
      (h : g.rule? name = some r) (body : Vanishes g r.body) (rest : Vanishes g ps) :
      Vanishes g (.nonTerminal name idx :: ps)
  | option {idx : Nat} {body ps : List Production} (rest : Vanishes g ps) :
      Vanishes g (.option idx body :: ps)
  | many {idx : Nat} {body ps : List Production} (rest : Vanishes g ps) :
      Vanishes g (.many idx body :: ps)
  | choice {idx : Nat} {alternatives : List (List Production)} {body ps : List Production}
      (h : body ∈ alternatives) (inner : Vanishes g body) (rest : Vanishes g ps) :
      Vanishes g (.choice idx alternatives :: ps)

/-- A token of the class can come first in what the sequence derives. Only the beginning is looked
at: whether all that follows derives something does not matter. -/
inductive Starts (g : Grammar) : List Production → TokenId → Prop where
  | terminal {token : TokenId} {idx : Nat} {ps : List Production} :
      Starts g (.terminal token idx :: ps) token
  | nonTerminal {name : String} {idx : Nat} {r : Rule} {ps : List Production} {c : TokenId}
      (h : g.rule? name = some r) (body : Starts g r.body c) :
      Starts g (.nonTerminal name idx :: ps) c
  | option {idx : Nat} {body ps : List Production} {c : TokenId} (inner : Starts g body c) :
      Starts g (.option idx body :: ps) c
  | many {idx : Nat} {body ps : List Production} {c : TokenId} (inner : Starts g body c) :
      Starts g (.many idx body :: ps) c
  | choice {idx : Nat} {alternatives : List (List Production)} {body ps : List Production}
      {c : TokenId} (h : body ∈ alternatives) (inner : Starts g body c) :
      Starts g (.choice idx alternatives :: ps) c
  | later {p : Production} {ps : List Production} {c : TokenId} (h : Vanishes g [p])
      (rest : Starts g ps c) : Starts g (p :: ps) c

/-! ## Derivations -/

theorem Derives.append {ps qs : List Production} {us ws : List Token} (h : g.Derives v ps us)
    (h' : g.Derives v qs ws) : g.Derives v (ps ++ qs) (us ++ ws) := by
  induction h with
  | nil => exact h'
  | terminal h _ ih => exact .terminal h ih
  | leftOut _ ih => exact .leftOut ih
  | stopped _ ih => exact .stopped ih
  | nonTerminal h hb _ _ ih =>
    rw [List.append_assoc]
    exact .nonTerminal h hb ih
  | taken hb _ _ ih =>
    rw [List.append_assoc]
    exact .taken hb ih
  | round hb _ _ ih =>
    rw [List.append_assoc]
    exact .round hb ih
  | chosen h hb _ _ ih =>
    rw [List.append_assoc]
    exact .chosen h hb ih

theorem Derivation.derives {ps : List Production} {trees : List Tree} {us : List Token}
    (h : g.Derivation v ps trees us) : g.Derives v ps us := by
  induction h with
  | nil => exact .nil
  | cons _ _ ihh iht => exact ihh.append iht
  | terminal h => exact .terminal h .nil
  | @nonTerminal _ _ _ _ us h _ ih =>
    rw [← List.append_nil us]
    exact .nonTerminal h ih .nil
  | leftOut => exact .leftOut .nil
  | @taken _ _ _ us _ ih =>
    rw [← List.append_nil us]
    exact .taken ih .nil
  | stopped => exact .stopped .nil
  | round _ _ ihb ih => exact .round ihb ih
  | @chosen _ _ _ _ _ us h _ ih =>
    rw [← List.append_nil us]
    exact .chosen (List.mem_of_getElem? h) ih .nil

/-- The tokens of the trees are those that are derived. -/
theorem Derivation.tokens {ps : List Production} {trees : List Tree} {us : List Token}
    (h : g.Derivation v ps trees us) : Tree.tokensSeq trees = us := by
  induction h with
  | nil => rfl
  | cons _ _ ihh iht =>
    rw [Tree.tokensSeq, Tree.tokensSeq, List.append_nil] at ihh
    rw [Tree.tokensSeq, ihh, iht]
  | terminal => rfl
  | leftOut => rfl
  | stopped => rfl
  | nonTerminal _ _ ih | taken _ ih | chosen _ _ ih =>
    rw [Tree.tokensSeq, Tree.tokens, Tree.tokensSeq, List.append_nil, ih]
  | round _ _ ihb ih =>
    rw [Tree.tokensSeq, Tree.tokens, Tree.tokensSeq, List.append_nil] at ih ⊢
    rw [Tree.tokensRounds, ihb, ih]

theorem Derivation.append {ps qs : List Production} {trees trees' : List Tree}
    {us ws : List Token} (h : g.Derivation v ps trees us) (h' : g.Derivation v qs trees' ws) :
    g.Derivation v (ps ++ qs) (trees ++ trees') (us ++ ws) := by
  induction h with
  | nil => exact h'
  | cons hh _ _ iht =>
    rw [List.append_assoc]
    exact .cons hh iht
  | terminal h => exact .cons (.terminal h) h'
  | nonTerminal h hb => exact .cons (.nonTerminal h hb) h'
  | leftOut => exact .cons .leftOut h'
  | taken hb => exact .cons (.taken hb) h'
  | stopped => exact .cons .stopped h'
  | round hb ha => exact .cons (.round hb ha) h'
  | chosen h hb => exact .cons (.chosen h hb) h'

/-- A repetition is read in rounds. -/
theorem Derivation.of_many {idx : Nat} {body ps : List Production} {trees : List Tree}
    {us : List Token} (h : g.Derivation v ps trees us) (hps : ps = [.many idx body]) :
    ∃ rounds, trees = [.rounds rounds] := by
  induction h with
  | cons _ tail ih =>
    -- the repetition is the only production
    obtain ⟨rfl, rfl⟩ := List.cons.inj hps
    cases tail
    exact ih rfl
  | stopped => exact ⟨[], rfl⟩
  | round => exact ⟨_, rfl⟩
  | nil | terminal | nonTerminal | leftOut | taken | chosen => cases hps

/-- A sequence is read one production after the other. -/
theorem Derivation.uncons {p : Production} {ps qs : List Production} {trees : List Tree}
    {us : List Token} (h : g.Derivation v qs trees us) (hqs : qs = p :: ps) :
    ∃ tree rest us' ws, us = us' ++ ws ∧ g.Derivation v [p] [tree] us' ∧
      g.Derivation v ps rest ws := by
  have hself := h
  cases h with
  | nil => cases hqs
  | cons head tail =>
    obtain ⟨rfl, rfl⟩ := List.cons.inj hqs
    exact ⟨_, _, _, _, rfl, head, tail⟩
  | terminal | nonTerminal | leftOut | taken | stopped | round | chosen =>
    obtain ⟨rfl, rfl⟩ := List.cons.inj hqs
    exact ⟨_, [], _, [], (List.append_nil _).symm, hself, .nil⟩

/-- What is derived can be read. -/
theorem Derives.exists_derivation {ps : List Production} {us : List Token}
    (h : g.Derives v ps us) : ∃ trees, g.Derivation v ps trees us := by
  induction h with
  | nil => exact ⟨_, .nil⟩
  | @terminal _ _ t _ us ha _ ih =>
    obtain ⟨trees, hrest⟩ := ih
    exact ⟨_, Derivation.cons (.terminal ha) hrest⟩
  | nonTerminal hr _ _ ihb ih =>
    obtain ⟨parts, hbody⟩ := ihb
    obtain ⟨trees, hrest⟩ := ih
    exact ⟨_, .cons (.nonTerminal hr hbody) hrest⟩
  | leftOut _ ih =>
    obtain ⟨trees, hrest⟩ := ih
    exact ⟨_, .cons .leftOut hrest⟩
  | taken _ _ ihb ih =>
    obtain ⟨parts, hbody⟩ := ihb
    obtain ⟨trees, hrest⟩ := ih
    exact ⟨_, .cons (.taken hbody) hrest⟩
  | stopped _ ih =>
    obtain ⟨trees, hrest⟩ := ih
    exact ⟨_, .cons .stopped hrest⟩
  | round _ _ ihb ih =>
    obtain ⟨parts, hbody⟩ := ihb
    obtain ⟨trees, hagain⟩ := ih
    obtain ⟨tree, rest, us', ws', rfl, hmany, hrest⟩ := hagain.uncons rfl
    obtain ⟨rounds, hrounds⟩ := hmany.of_many rfl
    obtain rfl : tree = .rounds rounds := List.head_eq_of_cons_eq hrounds
    rw [← List.append_assoc]
    exact ⟨_, .cons (.round hbody hmany) hrest⟩
  | chosen hmem _ _ ihb ih =>
    obtain ⟨parts, hbody⟩ := ihb
    obtain ⟨trees, hrest⟩ := ih
    obtain ⟨i, hi⟩ := List.getElem?_of_mem hmem
    exact ⟨_, .cons (.chosen hi hbody) hrest⟩

theorem derives_iff {ps : List Production} {us : List Token} :
    g.Derives v ps us ↔ ∃ trees, g.Derivation v ps trees us :=
  ⟨Derives.exists_derivation, fun ⟨_, h⟩ => h.derives⟩

/-- The name of a rule derives what the rule derives only. -/
theorem Derivation.of_nonTerminal {name : String} {idx : Nat} {ps : List Production}
    {trees : List Tree} {us : List Token} (h : g.Derivation v ps trees us)
    (hps : ps = [.nonTerminal name idx]) : ∃ r parts, g.rule? name = some r ∧
      trees = [.node name parts] ∧ g.Derivation v r.body parts us := by
  induction h with
  | cons _ tail ih =>
    obtain ⟨rfl, rfl⟩ := List.cons.inj hps
    cases tail
    rw [List.append_nil]
    exact ih rfl
  | nonTerminal hr hb =>
    cases hps
    exact ⟨_, _, hr, rfl, hb⟩
  | nil | terminal | leftOut | taken | stopped | round | chosen => cases hps

/-! ## Nothing, and what comes first -/

theorem Vanishes.append {ps qs : List Production} (h : g.Vanishes ps) (h' : g.Vanishes qs) :
    g.Vanishes (ps ++ qs) := by
  induction h with
  | nil => exact h'
  | nonTerminal h hb _ _ ih => exact .nonTerminal h hb ih
  | option _ ih => exact .option ih
  | many _ ih => exact .many ih
  | choice h hb _ _ ih => exact .choice h hb ih

theorem Vanishes.cons_iff {p : Production} {ps : List Production} :
    g.Vanishes (p :: ps) ↔ g.Vanishes [p] ∧ g.Vanishes ps := by
  refine ⟨fun h => ?_, fun h => h.1.append h.2⟩
  cases h with
  | nonTerminal h hb hr => exact ⟨.nonTerminal h hb .nil, hr⟩
  | option hr => exact ⟨.option .nil, hr⟩
  | many hr => exact ⟨.many .nil, hr⟩
  | choice h hb hr => exact ⟨.choice h hb .nil, hr⟩

theorem Vanishes.append_iff {ps qs : List Production} :
    g.Vanishes (ps ++ qs) ↔ g.Vanishes ps ∧ g.Vanishes qs := by
  induction ps with
  | nil => exact ⟨fun h => ⟨.nil, h⟩, fun h => h.2⟩
  | cons p ps ih => rw [List.cons_append, Vanishes.cons_iff, ih, ← and_assoc, ← Vanishes.cons_iff]

/-- A sequence vanishes if it derives no token. -/
theorem Derives.vanishes {ps : List Production} {us : List Token} (h : g.Derives v ps us)
    (hus : us = []) : g.Vanishes ps := by
  induction h with
  | nil => exact .nil
  | terminal => cases hus
  | nonTerminal h _ _ ihb ih =>
    obtain ⟨hu, hw⟩ := List.append_eq_nil_iff.1 hus
    exact .nonTerminal h (ihb hu) (ih hw)
  | leftOut _ ih => exact .option (ih hus)
  | taken _ _ _ ih => exact .option (ih (List.append_eq_nil_iff.1 hus).2)
  | stopped _ ih => exact .many (ih hus)
  | round _ _ _ ih => exact ih (List.append_eq_nil_iff.1 hus).2
  | chosen h _ _ ihb ih =>
    obtain ⟨hu, hw⟩ := List.append_eq_nil_iff.1 hus
    exact .choice h (ihb hu) (ih hw)

theorem Vanishes.derives {ps : List Production} (h : g.Vanishes ps) : g.Derives v ps [] := by
  induction h with
  | nil => exact .nil
  | nonTerminal h _ _ ihb ih => exact .nonTerminal h ihb ih
  | option _ ih => exact .leftOut ih
  | many _ ih => exact .stopped ih
  | choice h _ _ ihb ih => exact .chosen h ihb ih

/-- A sequence vanishes exactly if it derives the empty list of tokens. -/
theorem vanishes_iff {ps : List Production} : g.Vanishes ps ↔ g.Derives v ps [] :=
  ⟨Vanishes.derives, fun h => h.vanishes rfl⟩

theorem Starts.append_left {ps qs : List Production} {c : TokenId} (h : g.Starts ps c) :
    g.Starts (ps ++ qs) c := by
  induction h with
  | terminal => exact .terminal
  | nonTerminal h hb _ => exact .nonTerminal h hb
  | option hb _ => exact .option hb
  | many hb _ => exact .many hb
  | choice h hb _ => exact .choice h hb
  | later h _ ih => exact .later h ih

theorem Starts.cons_iff {p : Production} {ps : List Production} {c : TokenId} :
    g.Starts (p :: ps) c ↔ g.Starts [p] c ∨ g.Vanishes [p] ∧ g.Starts ps c := by
  constructor
  · intro h
    cases h with
    | terminal => exact .inl .terminal
    | nonTerminal h hb => exact .inl (.nonTerminal h hb)
    | option hb => exact .inl (.option hb)
    | many hb => exact .inl (.many hb)
    | choice h hb => exact .inl (.choice h hb)
    | later h hr => exact .inr ⟨h, hr⟩
  · rintro (h | ⟨hp, h⟩)
    · exact h.append_left
    · exact .later hp h

theorem Starts.append_iff {ps qs : List Production} {c : TokenId} :
    g.Starts (ps ++ qs) c ↔ g.Starts ps c ∨ g.Vanishes ps ∧ g.Starts qs c := by
  induction ps with
  | nil => exact ⟨fun h => .inr ⟨.nil, h⟩, fun h => h.elim nofun And.right⟩
  | cons p ps ih =>
    have hstarts : g.Starts (p :: ps) c ↔ g.Starts [p] c ∨ g.Vanishes [p] ∧ g.Starts ps c :=
      Starts.cons_iff
    have hvanishes : g.Vanishes (p :: ps) ↔ g.Vanishes [p] ∧ g.Vanishes ps := Vanishes.cons_iff
    rw [List.cons_append, Starts.cons_iff, ih, hstarts, hvanishes]
    simp only [and_or_left, or_assoc, and_assoc]

/-! ## Single productions -/

section Single

variable {idx : Nat} {name : String} {token c : TokenId} {body : List Production}
  {alternatives : List (List Production)}

@[simp] theorem not_starts_nil : ¬g.Starts [] c := nofun

@[simp] theorem starts_terminal_iff : g.Starts [.terminal token idx] c ↔ c = token := by
  constructor
  · intro h
    cases h with
    | terminal => rfl
    | later _ hr => cases hr
  · rintro rfl
    exact .terminal

@[simp] theorem starts_nonTerminal_iff : g.Starts [.nonTerminal name idx] c ↔
    ∃ r, g.rule? name = some r ∧ g.Starts r.body c := by
  constructor
  · intro h
    cases h with
    | nonTerminal hr hb => exact ⟨_, hr, hb⟩
    | later _ hr => cases hr
  · rintro ⟨r, hr, hb⟩
    exact .nonTerminal hr hb

@[simp] theorem starts_option_iff : g.Starts [.option idx body] c ↔ g.Starts body c := by
  refine ⟨fun h => ?_, .option⟩
  cases h with
  | option hb => exact hb
  | later _ hr => cases hr

@[simp] theorem starts_many_iff : g.Starts [.many idx body] c ↔ g.Starts body c := by
  refine ⟨fun h => ?_, .many⟩
  cases h with
  | many hb => exact hb
  | later _ hr => cases hr

@[simp] theorem starts_choice_iff : g.Starts [.choice idx alternatives] c ↔
    ∃ body ∈ alternatives, g.Starts body c := by
  constructor
  · intro h
    cases h with
    | choice hmem hb => exact ⟨_, hmem, hb⟩
    | later _ hr => cases hr
  · rintro ⟨body, hmem, hb⟩
    exact .choice hmem hb

@[simp] theorem not_vanishes_terminal : ¬g.Vanishes [.terminal token idx] := nofun

@[simp] theorem vanishes_nonTerminal_iff : g.Vanishes [.nonTerminal name idx] ↔
    ∃ r, g.rule? name = some r ∧ g.Vanishes r.body := by
  constructor
  · intro h
    cases h with
    | nonTerminal hr hb _ => exact ⟨_, hr, hb⟩
  · rintro ⟨r, hr, hb⟩
    exact .nonTerminal hr hb .nil

@[simp] theorem vanishes_choice_iff : g.Vanishes [.choice idx alternatives] ↔
    ∃ body ∈ alternatives, g.Vanishes body := by
  constructor
  · intro h
    cases h with
    | choice hmem hb _ => exact ⟨_, hmem, hb⟩
  · rintro ⟨body, hmem, hb⟩
    exact .choice hmem hb .nil

end Single

/-! ## The first token -/

/-- A token of the class `kind` is accepted as the first of what the sequence derives. -/
def Admits (g : Grammar) (v : Vocabulary) (ps : List Production) (kind : TokenId) : Prop :=
  ∃ c, g.Starts ps c ∧ v.isA kind c = true

theorem Admits.append_iff {ps qs : List Production} {kind : TokenId} :
    g.Admits v (ps ++ qs) kind ↔
      g.Admits v ps kind ∨ g.Vanishes ps ∧ g.Admits v qs kind := by
  constructor
  · rintro ⟨c, hc, ha⟩
    rcases Starts.append_iff.1 hc with hc | ⟨hps, hc⟩
    · exact .inl ⟨c, hc, ha⟩
    · exact .inr ⟨hps, c, hc, ha⟩
  · rintro (⟨c, hc, ha⟩ | ⟨hps, c, hc, ha⟩)
    · exact ⟨c, hc.append_left, ha⟩
    · exact ⟨c, Starts.append_iff.2 (.inr ⟨hps, hc⟩), ha⟩

section AdmitsSingle

variable {idx : Nat} {name : String} {token kind : TokenId} {body : List Production}
  {alternatives : List (List Production)}

theorem admits_terminal_iff : g.Admits v [.terminal token idx] kind ↔ v.isA kind token = true := by
  simp only [Admits, starts_terminal_iff, exists_eq_left]

theorem admits_nonTerminal_iff : g.Admits v [.nonTerminal name idx] kind ↔
    ∃ r, g.rule? name = some r ∧ g.Admits v r.body kind := by
  constructor
  · rintro ⟨c, hc, ha⟩
    obtain ⟨r, hr, hc⟩ := starts_nonTerminal_iff.1 hc
    exact ⟨r, hr, c, hc, ha⟩
  · rintro ⟨r, hr, c, hc, ha⟩
    exact ⟨c, starts_nonTerminal_iff.2 ⟨r, hr, hc⟩, ha⟩

theorem admits_option_iff : g.Admits v [.option idx body] kind ↔ g.Admits v body kind := by
  simp only [Admits, starts_option_iff]

theorem admits_many_iff : g.Admits v [.many idx body] kind ↔ g.Admits v body kind := by
  simp only [Admits, starts_many_iff]

theorem admits_choice_iff : g.Admits v [.choice idx alternatives] kind ↔
    ∃ body ∈ alternatives, g.Admits v body kind := by
  constructor
  · rintro ⟨c, hc, ha⟩
    obtain ⟨body, hmem, hc⟩ := starts_choice_iff.1 hc
    exact ⟨body, hmem, c, hc, ha⟩
  · rintro ⟨body, hmem, c, hc, ha⟩
    exact ⟨c, starts_choice_iff.2 ⟨body, hmem, hc⟩, ha⟩

end AdmitsSingle

/-- The first token that is derived is of a class that can come first. -/
theorem Derives.admits {ps : List Production} {us : List Token} (h : g.Derives v ps us) {t : Token}
    {rest : List Token} (hus : us = t :: rest) : g.Admits v ps t.kind := by
  induction h generalizing rest with
  | nil => cases hus
  | terminal h _ _ =>
    cases hus
    exact ⟨_, .terminal, h⟩
  | leftOut _ ih =>
    obtain ⟨c, hc, ha⟩ := ih hus
    exact ⟨c, .later (.option .nil) hc, ha⟩
  | stopped _ ih =>
    obtain ⟨c, hc, ha⟩ := ih hus
    exact ⟨c, .later (.many .nil) hc, ha⟩
  | nonTerminal h hb _ ihb ih =>
    rcases List.append_eq_cons_iff.1 hus with ⟨rfl, hw⟩ | ⟨as, hu, -⟩
    · obtain ⟨c, hc, ha⟩ := ih hw
      exact ⟨c, .later (.nonTerminal h (hb.vanishes rfl) .nil) hc, ha⟩
    · obtain ⟨c, hc, ha⟩ := ihb hu
      exact ⟨c, .nonTerminal h hc, ha⟩
  | taken _ _ ihb ih =>
    rcases List.append_eq_cons_iff.1 hus with ⟨-, hw⟩ | ⟨as, hu, -⟩
    · obtain ⟨c, hc, ha⟩ := ih hw
      exact ⟨c, .later (.option .nil) hc, ha⟩
    · obtain ⟨c, hc, ha⟩ := ihb hu
      exact ⟨c, .option hc, ha⟩
  | round _ _ ihb ih =>
    rcases List.append_eq_cons_iff.1 hus with ⟨-, hw⟩ | ⟨as, hu, -⟩
    · exact ih hw
    · obtain ⟨c, hc, ha⟩ := ihb hu
      exact ⟨c, .many hc, ha⟩
  | chosen h hb _ ihb ih =>
    rcases List.append_eq_cons_iff.1 hus with ⟨rfl, hw⟩ | ⟨as, hu, -⟩
    · obtain ⟨c, hc, ha⟩ := ih hw
      exact ⟨c, .later (.choice h (hb.vanishes rfl) .nil) hc, ha⟩
    · obtain ⟨c, hc, ha⟩ := ihb hu
      exact ⟨c, .choice h hc, ha⟩

end Grammar

end TopDown
