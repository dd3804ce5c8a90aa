import TopDown.Ebnf
import TopDown.Proofs.Continuation
import TopDown.Proofs.Hierarchy

/-!
# Grammars are known by their text

The text of a grammar in extended Backus-Naur form leaves out the indices of the productions and
nothing else (`Grammar.ebnf_eq_iff`), as long as the names are words, rules are told apart from
classes, and every choice has an alternative. A choice without alternatives would look like one
whose only alternative is empty.

The text is read from the left. After a production comes a space, a closing bracket or the end of
the line (`AfterProduction`), so a word ends where the next text begins, and a pair of round
brackets is a repetition exactly if a star follows. After a sequence comes no further production
(`AfterSequence`), so its end is seen too. With what comes after it, the text of each kind of phrase
determines the phrase and where it ends: `Reads`, `ReadsSeq`, `ReadsRest`, `ReadsBars`.
-/

namespace TopDown

/-! ## Words -/

/-- A letter, a digit or an underscore. All characters beyond ASCII pass for letters. -/
def IsWordChar (c : Char) : Prop := c.isAlphanum = true ∨ c = '_' ∨ 128 ≤ c.toNat

instance : DecidablePred IsWordChar := fun c =>
  inferInstanceAs (Decidable (c.isAlphanum = true ∨ c = '_' ∨ 128 ≤ c.toNat))

/-- A name made of letters, digits and underscores. -/
def IsWord (name : String) : Prop := name ≠ "" ∧ ∀ c ∈ name.toList, IsWordChar c

-- The characters of the name are looked at, not all characters that there are.
instance : DecidablePred IsWord := fun name =>
  @instDecidableAnd _ _ inferInstance (name.toList.decidableBAll IsWordChar)

theorem IsWord.exists_cons {w : String} (hw : IsWord w) :
    ∃ c cs, w.toList = c :: cs ∧ IsWordChar c := by
  cases h : w.toList with
  | nil => exact absurd (String.toList_eq_nil_iff.1 h) hw.1
  | cons c cs => exact ⟨c, cs, rfl, hw.2 c (h ▸ List.mem_cons_self)⟩

/-- Words end at the first character that is none of a word. -/
theorem wordChars_append_inj {w w' r r' : List Char} (hw : ∀ c ∈ w, IsWordChar c)
    (hw' : ∀ c ∈ w', IsWordChar c) (hr : ∀ c, r.head? = some c → ¬IsWordChar c)
    (hr' : ∀ c, r'.head? = some c → ¬IsWordChar c) (h : w ++ r = w' ++ r') : w = w' ∧ r = r' := by
  induction w generalizing w' with
  | nil =>
    cases w' with
    | nil => exact ⟨rfl, h⟩
    | cons c w' =>
      have hhead : r.head? = some c := by
        rw [List.nil_append] at h
        rw [h]
        rfl
      exact absurd (hw' c List.mem_cons_self) (hr c hhead)
  | cons c w ih =>
    cases w' with
    | nil =>
      have hhead : r'.head? = some c := by
        rw [List.nil_append] at h
        rw [← h]
        rfl
      exact absurd (hw c List.mem_cons_self) (hr' c hhead)
    | cons c' w' =>
      obtain ⟨rfl, hrest⟩ := List.cons.inj h
      obtain ⟨rfl, hr⟩ := ih (fun x hx => hw x (List.mem_cons_of_mem _ hx))
        (fun x hx => hw' x (List.mem_cons_of_mem _ hx)) hrest
      exact ⟨rfl, hr⟩

/-! ## Grammars without indices -/

namespace Production

mutual

/-- The production with all indices set to zero. -/
def unindexed : Production → Production
  | .terminal token _ => .terminal token 0
  | .nonTerminal rule _ => .nonTerminal rule 0
  | .option _ body => .option 0 (unindexedSeq body)
  | .many _ body => .many 0 (unindexedSeq body)
  | .choice _ alternatives => .choice 0 (unindexedAlts alternatives)

/-- The sequence with all indices set to zero. -/
def unindexedSeq : List Production → List Production
  | [] => []
  | p :: rest => p.unindexed :: unindexedSeq rest

/-- The alternatives with all indices set to zero. -/
def unindexedAlts : List (List Production) → List (List Production)
  | [] => []
  | body :: rest => unindexedSeq body :: unindexedAlts rest

end

end Production

/-- The rule with all indices set to zero. -/
def Rule.unindexed (r : Rule) : Rule := ⟨r.name, Production.unindexedSeq r.body⟩

/-- The grammar with all indices set to zero. -/
def Grammar.unindexed (g : Grammar) : Grammar :=
  ⟨g.rules.map Rule.unindexed, by
    rw [List.map_map]
    exact g.distinct⟩

/-! ## What can be read -/

/-- The classes are told apart by their names, which are words. -/
structure Vocabulary.Legible (v : Vocabulary) : Prop where
  word : ∀ id < v.size, IsWord (v.name id)
  id?_name : ∀ id < v.size, v.id? (v.name id) = some id

/-- The production shows a declared class or a word that names no class, and it is not a choice
without alternatives. -/
def Production.Legible (v : Vocabulary) : Production → Prop
  | .terminal token _ => token < v.size
  | .nonTerminal rule _ => IsWord rule ∧ v.id? rule = none
  | .choice _ alternatives => alternatives ≠ []
  | .option .. | .many .. => True

/-- The name is a word, and all of the body can be read. -/
structure Rule.Legible (v : Vocabulary) (r : Rule) : Prop where
  word : IsWord r.name
  body : ∀ p ∈ Production.preorderSeq r.body, p.Legible v

/-- The production shows a declared class or a declared rule, and it is not a choice without
alternatives. -/
def Production.Declared (v : Vocabulary) (g : Grammar) : Production → Prop
  | .terminal token _ => token < v.size
  | .nonTerminal rule _ => g.declares rule = true
  | .choice _ alternatives => alternatives ≠ []
  | .option .. | .many .. => True

instance (v : Vocabulary) (g : Grammar) : DecidablePred (Production.Declared v g)
  | .terminal token _ => inferInstanceAs (Decidable (token < v.size))
  | .nonTerminal rule _ => inferInstanceAs (Decidable (g.declares rule = true))
  | .choice _ alternatives => inferInstanceAs (Decidable (alternatives ≠ []))
  | .option .. | .many .. => .isTrue trivial

/-- The names of rules are words and no names of classes, and at any depth the productions show
declared classes and rules, and no choice is without alternatives. -/
structure Grammar.Legible (v : Vocabulary) (g : Grammar) : Prop where
  word : ∀ r ∈ g.rules, IsWord r.name
  apart : ∀ r ∈ g.rules, v.id? r.name = none
  declared : ∀ r ∈ g.rules, ∀ p ∈ Production.preorderSeq r.body, p.Declared v g

theorem Grammar.Legible.rule {v : Vocabulary} {g : Grammar} {r : Rule} (h : g.Legible v)
    (hr : r ∈ g.rules) : r.Legible v := by
  refine ⟨h.word r hr, fun p hp => ?_⟩
  have hp := h.declared r hr p hp
  cases p with
  | terminal | option | many | choice => exact hp
  | nonTerminal rule idx =>
    obtain ⟨r', hr', rfl⟩ := List.mem_map.1 (declares_iff.1 hp)
    exact ⟨h.word r' hr', h.apart r' hr'⟩

theorem Vocabulary.legible_of_build {ds : List Declaration} {v : Vocabulary}
    (hv : build ds = .ok v) (hwords : ∀ c ∈ v.classes, IsWord c.name) : v.Legible := by
  have hmirrors := mirrors_of_build hv
  have hwell := exists_build_iff.1 ⟨v, hv⟩
  refine ⟨fun id hid => ?_, fun id hid => hmirrors.id?_name hwell (hmirrors.size_eq ▸ hid)⟩
  have hne : id ≠ v.eof := Nat.ne_of_lt hid
  have hc : v.class? id = some v.classes[id] := List.getElem?_eq_getElem hid
  rw [name, if_neg hne, hc]
  exact hwords _ (List.getElem_mem hid)

namespace Production

variable {v : Vocabulary} {p q : Production} {ps qs body body' : List Production}
  {alts alts' : List (List Production)} {w : String} {c : Char}
  {r r' : List Char} {idx : Nat}

/-! ## The text

Every text is followed by another one, `r`. -/

theorem ebnf_option_append : ((option idx body).ebnf v).toList ++ r =
    '[' :: ((ebnfSeq v body).toList ++ ']' :: r) := by simp [ebnf]

theorem ebnf_many_append : ((many idx body).ebnf v).toList ++ r =
    '(' :: ((ebnfSeq v body).toList ++ ')' :: '*' :: r) := by simp [ebnf]

theorem ebnf_choice_append : ((choice idx (body :: alts)).ebnf v).toList ++ r =
    '(' :: ((ebnfSeq v body).toList ++ ((ebnfBars v alts).toList ++ ')' :: r)) := by
  simp [ebnf, ebnfAlts]

theorem ebnfSeq_nil_append : (ebnfSeq v []).toList ++ r = r := by simp [ebnfSeq]

theorem ebnfSeq_cons_append : (ebnfSeq v (p :: ps)).toList ++ r =
    (p.ebnf v).toList ++ ((ebnfRest v ps).toList ++ r) := by simp [ebnfSeq]

theorem ebnfRest_nil_append : (ebnfRest v []).toList ++ r = r := by simp [ebnfRest]

theorem ebnfRest_cons_append : (ebnfRest v (p :: ps)).toList ++ r =
    ' ' :: ((p.ebnf v).toList ++ ((ebnfRest v ps).toList ++ r)) := by simp [ebnfRest]

theorem ebnfBars_nil_append : (ebnfBars v []).toList ++ r = r := by simp [ebnfBars]

theorem ebnfBars_cons_append : (ebnfBars v (body :: alts)).toList ++ r =
    ' ' :: '|' :: ' ' :: ((ebnfSeq v body).toList ++ ((ebnfBars v alts).toList ++ r)) := by
  simp [ebnfBars]

/-- The word that a call is shown as. -/
def word? (v : Vocabulary) : Production → Option String
  | .terminal token _ => some (v.name token)
  | .nonTerminal rule _ => some rule
  | .option .. | .many .. | .choice .. => none

theorem ebnf_of_word? (h : p.word? v = some w) : p.ebnf v = w := by
  cases p with
  | terminal | nonTerminal =>
    rw [word?, Option.some.injEq] at h
    rw [ebnf, h]
  | option | many | choice => cases h

theorem isWord_of_word? (hv : v.Legible) (hp : p.Legible v) (h : p.word? v = some w) :
    IsWord w := by
  cases p with
  | terminal token =>
    obtain rfl := Option.some.inj h
    exact hv.word token hp
  | nonTerminal rule =>
    obtain rfl := Option.some.inj h
    exact hp.1
  | option | many | choice => cases h

/-- A call is known by its word. -/
theorem unindexed_of_word? (hv : v.Legible) (hp : p.Legible v) (h : p.word? v = some w) :
    p.unindexed = (v.id? w).elim (.nonTerminal w 0) (.terminal · 0) := by
  cases p with
  | terminal token =>
    obtain rfl := Option.some.inj h
    rw [hv.id?_name token hp, unindexed, Option.elim_some]
  | nonTerminal rule =>
    obtain rfl := Option.some.inj h
    rw [hp.2, unindexed, Option.elim_none]
  | option | many | choice => cases h

/-- What a production can begin with. -/
def Opens (c : Char) : Prop := IsWordChar c ∨ c = '[' ∨ c = '('

instance : DecidablePred Opens := fun c =>
  inferInstanceAs (Decidable (IsWordChar c ∨ c = '[' ∨ c = '('))

/-- What is no call begins with a bracket. -/
theorem exists_bracket (hp : p.Legible v) (h : p.word? v = none) (r : List Char) :
    ∃ c cs, (p.ebnf v).toList ++ r = c :: cs ∧ (c = '[' ∨ c = '(') := by
  cases p with
  | terminal | nonTerminal => cases h
  | option idx body => exact ⟨_, _, ebnf_option_append, .inl rfl⟩
  | many idx body => exact ⟨_, _, ebnf_many_append, .inr rfl⟩
  | choice idx alternatives =>
    cases alternatives with
    | nil => exact absurd rfl hp
    | cons body rest => exact ⟨_, _, ebnf_choice_append, .inr rfl⟩

/-- A call begins with a character of its word. -/
theorem exists_wordChar (hv : v.Legible) (hp : p.Legible v) (h : p.word? v = some w)
    (r : List Char) : ∃ c cs, (p.ebnf v).toList ++ r = c :: cs ∧ IsWordChar c := by
  obtain ⟨c, cs, hcs, hc⟩ := (isWord_of_word? hv hp h).exists_cons
  exact ⟨c, cs ++ r, by rw [ebnf_of_word? h, hcs, List.cons_append], hc⟩

theorem exists_opens (hv : v.Legible) (hp : p.Legible v) (r : List Char) :
    ∃ c cs, (p.ebnf v).toList ++ r = c :: cs ∧ Opens c := by
  cases hword : p.word? v with
  | some w =>
    obtain ⟨c, cs, hcs, hc⟩ := exists_wordChar hv hp hword r
    exact ⟨c, cs, hcs, .inl hc⟩
  | none =>
    obtain ⟨c, cs, hcs, hc⟩ := exists_bracket hp hword r
    exact ⟨c, cs, hcs, .inr hc⟩

/-- A call has no text that begins with a bracket. -/
theorem ebnf_ne_of_word? (hv : v.Legible) (hp : p.Legible v) (h : p.word? v = some w)
    (hc : ¬IsWordChar c) : c :: r ≠ (p.ebnf v).toList ++ r' := by
  obtain ⟨c', cs, hcs, hc'⟩ := exists_wordChar hv hp h r'
  rw [hcs]
  intro heq
  obtain ⟨rfl, -⟩ := List.cons.inj heq
  exact hc hc'

/-! ## What comes after -/

/-- The text goes on in a way that can come after a production. -/
inductive AfterProduction : List Char → Prop where
  | space (r : List Char) : AfterProduction (' ' :: r)
  | square (r : List Char) : AfterProduction (']' :: r)
  | round (r : List Char) : AfterProduction (')' :: r)
  | line (r : List Char) : AfterProduction ('\n' :: r)

/-- The text goes on in a way that can come after a sequence. -/
inductive AfterSequence : List Char → Prop where
  | bar (r : List Char) : AfterSequence (' ' :: '|' :: r)
  | square (r : List Char) : AfterSequence (']' :: r)
  | round (r : List Char) : AfterSequence (')' :: r)
  | line (r : List Char) : AfterSequence ('\n' :: r)

theorem AfterSequence.afterProduction (h : AfterSequence r) : AfterProduction r := by
  cases h with
  | bar r => exact .space _
  | square r => exact .square r
  | round r => exact .round r
  | line r => exact .line r

theorem AfterProduction.not_wordChar (h : AfterProduction r) :
    ∀ c, r.head? = some c → ¬IsWordChar c := by
  intro c hc
  cases h <;>
  · obtain rfl := Option.some.inj hc
    decide

theorem AfterProduction.ne_ebnf (h : AfterProduction r) (hv : v.Legible) (hp : p.Legible v) :
    r ≠ (p.ebnf v).toList ++ r' := by
  obtain ⟨c, cs, hcs, hc⟩ := exists_opens hv hp r'
  rw [hcs]
  rintro rfl
  cases h <;> exact absurd hc (by decide)

theorem AfterSequence.ne_space_ebnf (h : AfterSequence r) (hv : v.Legible) (hp : p.Legible v) :
    r ≠ ' ' :: ((p.ebnf v).toList ++ r') := by
  obtain ⟨c, cs, hcs, hc⟩ := exists_opens hv hp r'
  rw [hcs]
  rintro rfl
  -- Behind the space comes a bar, with which no production begins.
  cases h
  exact absurd hc (by decide)

theorem AfterSequence.rest (hr : AfterSequence r) :
    AfterProduction ((ebnfRest v ps).toList ++ r) := by
  cases ps with
  | nil =>
    rw [ebnfRest_nil_append]
    exact hr.afterProduction
  | cons p ps =>
    rw [ebnfRest_cons_append]
    exact .space _

theorem afterSequence_bars : AfterSequence ((ebnfBars v alts).toList ++ ')' :: r) := by
  cases alts with
  | nil =>
    rw [ebnfBars_nil_append]
    exact .round r
  | cons body alts =>
    rw [ebnfBars_cons_append]
    exact .bar _

/-- A star after the bracket tells a repetition from a choice. -/
theorem bars_ne_star (hr : AfterProduction r) :
    (ebnfBars v alts).toList ++ ')' :: r ≠ ')' :: '*' :: r' := by
  intro h
  cases alts with
  | nil =>
    rw [ebnfBars_nil_append] at h
    cases h
    cases hr
  | cons body alts =>
    rw [ebnfBars_cons_append] at h
    cases h

/-! ## Reading -/

/-- Up to indices the production is the only one of its text, and what comes after it shows where it
ends. -/
def Reads (v : Vocabulary) (p : Production) : Prop :=
  ∀ (q : Production) (r r' : List Char), (∀ x ∈ q.preorder, x.Legible v) → AfterProduction r →
    AfterProduction r' → (p.ebnf v).toList ++ r = (q.ebnf v).toList ++ r' →
      p.unindexed = q.unindexed ∧ r = r'

/-- The same for the text of a sequence. -/
def ReadsSeq (v : Vocabulary) (ps : List Production) : Prop :=
  ∀ (qs : List Production) (r r' : List Char), (∀ x ∈ preorderSeq qs, x.Legible v) →
    AfterSequence r → AfterSequence r' →
      (ebnfSeq v ps).toList ++ r = (ebnfSeq v qs).toList ++ r' →
        unindexedSeq ps = unindexedSeq qs ∧ r = r'

/-- The same for the text of the further parts of a sequence. -/
def ReadsRest (v : Vocabulary) (ps : List Production) : Prop :=
  ∀ (qs : List Production) (r r' : List Char), (∀ x ∈ preorderSeq qs, x.Legible v) →
    AfterSequence r → AfterSequence r' →
      (ebnfRest v ps).toList ++ r = (ebnfRest v qs).toList ++ r' →
        unindexedSeq ps = unindexedSeq qs ∧ r = r'

/-- The same for the text of the further alternatives, which the bracket ends. -/
def ReadsBars (v : Vocabulary) (alts : List (List Production)) : Prop :=
  ∀ (alts' : List (List Production)) (r r' : List Char), (∀ x ∈ preorderAlts alts', x.Legible v) →
    (ebnfBars v alts).toList ++ ')' :: r = (ebnfBars v alts').toList ++ ')' :: r' →
      unindexedAlts alts = unindexedAlts alts' ∧ r = r'

theorem legible_self (h : ∀ x ∈ p.preorder, x.Legible v) : p.Legible v := h p (mem_preorder_self p)

theorem legible_seq_cons (h : ∀ x ∈ preorderSeq (p :: ps), x.Legible v) :
    (∀ x ∈ p.preorder, x.Legible v) ∧ ∀ x ∈ preorderSeq ps, x.Legible v := by
  rw [preorderSeq] at h
  exact List.forall_mem_append.1 h

theorem legible_alts_cons (h : ∀ x ∈ preorderAlts (body :: alts), x.Legible v) :
    (∀ x ∈ preorderSeq body, x.Legible v) ∧ ∀ x ∈ preorderAlts alts, x.Legible v := by
  rw [preorderAlts] at h
  exact List.forall_mem_append.1 h

theorem reads_of_word? (hv : v.Legible) (hp : p.Legible v) (hw : p.word? v = some w) :
    Reads v p := by
  intro q r r' hlegible hr hr' h
  have hq := legible_self hlegible
  cases hw' : q.word? v with
  | some w' =>
    rw [ebnf_of_word? hw, ebnf_of_word? hw'] at h
    obtain ⟨heq, hrest⟩ := wordChars_append_inj (isWord_of_word? hv hp hw).2
      (isWord_of_word? hv hq hw').2 hr.not_wordChar hr'.not_wordChar h
    obtain rfl := String.toList_inj.1 heq
    rw [unindexed_of_word? hv hp hw, unindexed_of_word? hv hq hw']
    exact ⟨rfl, hrest⟩
  | none =>
    obtain ⟨c, cs, hcs, hc⟩ := exists_bracket hq hw' r'
    have hnot : ¬IsWordChar c := by rcases hc with rfl | rfl <;> decide
    exact absurd (hcs.symm.trans h.symm) (ebnf_ne_of_word? hv hp hw hnot)

theorem reads_option (hv : v.Legible) (hbody : ReadsSeq v body) : Reads v (.option idx body) := by
  intro q r r' hq _ _ h
  rw [ebnf_option_append] at h
  cases q with
  | terminal | nonTerminal =>
    exact absurd h (ebnf_ne_of_word? hv (legible_self hq) rfl (by decide))
  | option idx' body' =>
    rw [ebnf_option_append] at h
    obtain ⟨hseq, hrest⟩ := hbody body' _ _ (List.forall_mem_cons.1 hq).2 (.square r) (.square r')
      (List.cons.inj h).2
    rw [unindexed, unindexed, hseq]
    exact ⟨rfl, (List.cons.inj hrest).2⟩
  | many idx' body' =>
    rw [ebnf_many_append] at h
    cases h
  | choice idx' alternatives =>
    cases alternatives with
    | nil => exact absurd rfl (legible_self hq)
    | cons body' alts' =>
      rw [ebnf_choice_append] at h
      cases h

theorem reads_many (hv : v.Legible) (hbody : ReadsSeq v body) : Reads v (.many idx body) := by
  intro q r r' hq _ hr' h
  rw [ebnf_many_append] at h
  cases q with
  | terminal | nonTerminal =>
    exact absurd h (ebnf_ne_of_word? hv (legible_self hq) rfl (by decide))
  | option idx' body' =>
    rw [ebnf_option_append] at h
    cases h
  | many idx' body' =>
    rw [ebnf_many_append] at h
    obtain ⟨hseq, hrest⟩ := hbody body' _ _ (List.forall_mem_cons.1 hq).2 (.round _) (.round _)
      (List.cons.inj h).2
    rw [unindexed, unindexed, hseq]
    exact ⟨rfl, (List.cons.inj (List.cons.inj hrest).2).2⟩
  | choice idx' alternatives =>
    cases alternatives with
    | nil => exact absurd rfl (legible_self hq)
    | cons body' alts' =>
      rw [ebnf_choice_append] at h
      -- The repeated body is read as the first alternative, and then the star is left.
      obtain ⟨hbody', -⟩ := legible_alts_cons (List.forall_mem_cons.1 hq).2
      obtain ⟨-, hrest⟩ := hbody body' _ _ hbody' (.round _) afterSequence_bars (List.cons.inj h).2
      exact absurd hrest.symm (bars_ne_star hr')

/-- Alternatives are read one after the other. -/
theorem ReadsSeq.alternatives (hbody : ReadsSeq v body) (halts : ReadsBars v alts)
    (hlegible : ∀ x ∈ preorderAlts (body' :: alts'), x.Legible v)
    (h : (ebnfSeq v body).toList ++ ((ebnfBars v alts).toList ++ ')' :: r) =
      (ebnfSeq v body').toList ++ ((ebnfBars v alts').toList ++ ')' :: r')) :
    unindexedAlts (body :: alts) = unindexedAlts (body' :: alts') ∧ r = r' := by
  obtain ⟨hbody', halts'⟩ := legible_alts_cons hlegible
  obtain ⟨hseq, hrest⟩ := hbody body' _ _ hbody' afterSequence_bars afterSequence_bars h
  obtain ⟨hbars, hr⟩ := halts alts' r r' halts' hrest
  rw [unindexedAlts, unindexedAlts, hseq, hbars]
  exact ⟨rfl, hr⟩

theorem reads_choice (hv : v.Legible) (hbody : ReadsSeq v body) (halts : ReadsBars v alts) :
    Reads v (.choice idx (body :: alts)) := by
  intro q r r' hq hr _ h
  rw [ebnf_choice_append] at h
  cases q with
  | terminal | nonTerminal =>
    exact absurd h (ebnf_ne_of_word? hv (legible_self hq) rfl (by decide))
  | option idx' body' =>
    rw [ebnf_option_append] at h
    cases h
  | many idx' body' =>
    rw [ebnf_many_append] at h
    obtain ⟨-, hrest⟩ := hbody body' _ _ (List.forall_mem_cons.1 hq).2 afterSequence_bars
      (.round _) (List.cons.inj h).2
    exact absurd hrest (bars_ne_star hr)
  | choice idx' alternatives =>
    cases alternatives with
    | nil => exact absurd rfl (legible_self hq)
    | cons body' alts' =>
      rw [ebnf_choice_append] at h
      obtain ⟨heq, hr⟩ := hbody.alternatives halts (List.forall_mem_cons.1 hq).2
        (List.cons.inj h).2
      rw [unindexed, unindexed, heq]
      exact ⟨rfl, hr⟩

/-- The parts of a sequence are read one after the other. -/
theorem Reads.parts (hp : Reads v p) (hps : ReadsRest v ps)
    (hlegible : ∀ x ∈ preorderSeq (q :: qs), x.Legible v) (hr : AfterSequence r)
    (hr' : AfterSequence r') (h : (p.ebnf v).toList ++ ((ebnfRest v ps).toList ++ r) =
      (q.ebnf v).toList ++ ((ebnfRest v qs).toList ++ r')) :
    unindexedSeq (p :: ps) = unindexedSeq (q :: qs) ∧ r = r' := by
  obtain ⟨hq, hqs⟩ := legible_seq_cons hlegible
  obtain ⟨heq, hrest⟩ := hp q _ _ hq hr.rest hr'.rest h
  obtain ⟨hseq, hr⟩ := hps qs r r' hqs hr hr' hrest
  rw [unindexedSeq, unindexedSeq, heq, hseq]
  exact ⟨rfl, hr⟩

theorem readsSeq_nil (hv : v.Legible) : ReadsSeq v [] := by
  intro qs r r' hqs hr _ h
  rw [ebnfSeq_nil_append] at h
  cases qs with
  | nil =>
    rw [ebnfSeq_nil_append] at h
    exact ⟨rfl, h⟩
  | cons q qs =>
    rw [ebnfSeq_cons_append] at h
    exact absurd h (hr.afterProduction.ne_ebnf hv (legible_self (legible_seq_cons hqs).1))

theorem readsSeq_cons (hv : v.Legible) (hlegible : p.Legible v) (hp : Reads v p)
    (hps : ReadsRest v ps) : ReadsSeq v (p :: ps) := by
  intro qs r r' hqs hr hr' h
  rw [ebnfSeq_cons_append] at h
  cases qs with
  | nil =>
    rw [ebnfSeq_nil_append] at h
    exact absurd h.symm (hr'.afterProduction.ne_ebnf hv hlegible)
  | cons q qs =>
    rw [ebnfSeq_cons_append] at h
    exact hp.parts hps hqs hr hr' h

theorem readsRest_nil (hv : v.Legible) : ReadsRest v [] := by
  intro qs r r' hqs hr _ h
  rw [ebnfRest_nil_append] at h
  cases qs with
  | nil =>
    rw [ebnfRest_nil_append] at h
    exact ⟨rfl, h⟩
  | cons q qs =>
    rw [ebnfRest_cons_append] at h
    exact absurd h (hr.ne_space_ebnf hv (legible_self (legible_seq_cons hqs).1))

theorem readsRest_cons (hv : v.Legible) (hlegible : p.Legible v) (hp : Reads v p)
    (hps : ReadsRest v ps) : ReadsRest v (p :: ps) := by
  intro qs r r' hqs hr hr' h
  rw [ebnfRest_cons_append] at h
  cases qs with
  | nil =>
    rw [ebnfRest_nil_append] at h
    exact absurd h.symm (hr'.ne_space_ebnf hv hlegible)
  | cons q qs =>
    rw [ebnfRest_cons_append] at h
    exact hp.parts hps hqs hr hr' (List.cons.inj h).2

theorem readsBars_nil : ReadsBars v [] := by
  intro alts' r r' _ h
  rw [ebnfBars_nil_append] at h
  cases alts' with
  | nil =>
    rw [ebnfBars_nil_append] at h
    exact ⟨rfl, (List.cons.inj h).2⟩
  | cons body' alts' =>
    rw [ebnfBars_cons_append] at h
    cases h

theorem readsBars_cons (hbody : ReadsSeq v body) (halts : ReadsBars v alts) :
    ReadsBars v (body :: alts) := by
  intro alts' r r' hlegible h
  rw [ebnfBars_cons_append] at h
  cases alts' with
  | nil =>
    rw [ebnfBars_nil_append] at h
    cases h
  | cons body' alts' =>
    rw [ebnfBars_cons_append] at h
    simp only [List.cons.injEq, true_and] at h
    exact hbody.alternatives halts hlegible h

mutual

theorem reads (hv : v.Legible) : ∀ {p : Production}, (∀ x ∈ p.preorder, x.Legible v) → Reads v p
  | .terminal .., h => reads_of_word? hv (legible_self h) rfl
  | .nonTerminal .., h => reads_of_word? hv (legible_self h) rfl
  | .option _ body, h => reads_option hv (readsSeq hv (List.forall_mem_cons.1 h).2)
  | .many _ body, h => reads_many hv (readsSeq hv (List.forall_mem_cons.1 h).2)
  | .choice _ [], h => absurd rfl (legible_self h)
  | .choice _ (body :: alts), h => by
    obtain ⟨hbody, halts⟩ := legible_alts_cons (List.forall_mem_cons.1 h).2
    exact reads_choice hv (readsSeq hv hbody) (readsBars hv halts)

theorem readsSeq (hv : v.Legible) :
    ∀ {ps : List Production}, (∀ x ∈ preorderSeq ps, x.Legible v) → ReadsSeq v ps
  | [], _ => readsSeq_nil hv
  | p :: rest, h => by
    obtain ⟨hp, hrest⟩ := legible_seq_cons h
    exact readsSeq_cons hv (legible_self hp) (reads hv hp) (readsRest hv hrest)

theorem readsRest (hv : v.Legible) :
    ∀ {ps : List Production}, (∀ x ∈ preorderSeq ps, x.Legible v) → ReadsRest v ps
  | [], _ => readsRest_nil hv
  | p :: rest, h => by
    obtain ⟨hp, hrest⟩ := legible_seq_cons h
    exact readsRest_cons hv (legible_self hp) (reads hv hp) (readsRest hv hrest)

theorem readsBars (hv : v.Legible) :
    ∀ {alts : List (List Production)}, (∀ x ∈ preorderAlts alts, x.Legible v) → ReadsBars v alts
  | [], _ => readsBars_nil
  | body :: rest, h => by
    obtain ⟨hbody, hrest⟩ := legible_alts_cons h
    exact readsBars_cons (readsSeq hv hbody) (readsBars hv hrest)

end

mutual

/-- Indices are not shown. -/
theorem ebnf_unindexed : ∀ p : Production, p.unindexed.ebnf v = p.ebnf v
  | .terminal .. => by rw [unindexed, ebnf, ebnf]
  | .nonTerminal .. => by rw [unindexed, ebnf, ebnf]
  | .option _ body => by rw [unindexed, ebnf, ebnf, ebnfSeq_unindexed body]
  | .many _ body => by rw [unindexed, ebnf, ebnf, ebnfSeq_unindexed body]
  | .choice _ alternatives => by rw [unindexed, ebnf, ebnf, ebnfAlts_unindexed alternatives]

theorem ebnfSeq_unindexed : ∀ ps : List Production, ebnfSeq v (unindexedSeq ps) = ebnfSeq v ps
  | [] => by rw [unindexedSeq]
  | p :: rest => by
    rw [unindexedSeq, ebnfSeq, ebnfSeq, ebnf_unindexed p, ebnfRest_unindexed rest]

theorem ebnfRest_unindexed : ∀ ps : List Production, ebnfRest v (unindexedSeq ps) = ebnfRest v ps
  | [] => by rw [unindexedSeq]
  | p :: rest => by
    rw [unindexedSeq, ebnfRest, ebnfRest, ebnf_unindexed p, ebnfRest_unindexed rest]

theorem ebnfAlts_unindexed : ∀ alts : List (List Production),
    ebnfAlts v (unindexedAlts alts) = ebnfAlts v alts
  | [] => by rw [unindexedAlts]
  | body :: rest => by
    rw [unindexedAlts, ebnfAlts, ebnfAlts, ebnfSeq_unindexed body, ebnfBars_unindexed rest]

theorem ebnfBars_unindexed : ∀ alts : List (List Production),
    ebnfBars v (unindexedAlts alts) = ebnfBars v alts
  | [] => by rw [unindexedAlts]
  | body :: rest => by
    rw [unindexedAlts, ebnfBars, ebnfBars, ebnfSeq_unindexed body, ebnfBars_unindexed rest]

end

end Production

/-! ## Rules -/

section Rules

variable {v : Vocabulary} {rules rules' : List Rule} {g g' : Grammar}

/-- A body follows the equals sign like the further parts of a sequence follow the first. -/
theorem Rule.ebnf_eq (rule : Rule) :
    rule.ebnf v = rule.name ++ " =" ++ Production.ebnfRest v rule.body ++ "\n" := by
  cases h : rule.body with
  | nil => simp [Rule.ebnf, h, Production.ebnfRest]
  | cons p rest =>
    simp [Rule.ebnf, h, Production.ebnfRest, Production.ebnfSeq, String.append_assoc]

theorem Rule.ebnf_append (rule : Rule) (r : List Char) : (rule.ebnf v).toList ++ r =
    rule.name.toList ++ ' ' :: '=' :: ((Production.ebnfRest v rule.body).toList ++ '\n' :: r) := by
  simp [rule.ebnf_eq]

theorem Rule.ebnf_unindexed (rule : Rule) : rule.unindexed.ebnf v = rule.ebnf v := by
  rw [ebnf_eq, ebnf_eq, unindexed, Production.ebnfRest_unindexed]

theorem Grammar.toList_ebnf (g : Grammar) :
    (g.ebnf v).toList = g.rules.flatMap fun r => (r.ebnf v).toList := by
  rw [Grammar.ebnf, String.toList_join, List.flatMap_map]

theorem Grammar.ebnf_unindexed (g : Grammar) : g.unindexed.ebnf v = g.ebnf v := by
  rw [Grammar.ebnf, Grammar.ebnf, unindexed, List.map_map]
  exact congrArg String.join (List.map_congr_left fun r _ => r.ebnf_unindexed)

/-- Rules are read line by line. -/
theorem readsRules (hv : v.Legible) (hrules : ∀ r ∈ rules, r.Legible v)
    (hrules' : ∀ r ∈ rules', r.Legible v)
    (h : rules.flatMap (fun r => (r.ebnf v).toList) = rules'.flatMap fun r => (r.ebnf v).toList) :
    rules.map Rule.unindexed = rules'.map Rule.unindexed := by
  induction rules generalizing rules' with
  | nil =>
    cases rules' with
    | nil => rfl
    | cons r' rest' =>
      rw [List.flatMap_nil, List.flatMap_cons, Rule.ebnf_append] at h
      simp at h
  | cons r rest ih =>
    obtain ⟨hr, hrest⟩ := List.forall_mem_cons.1 hrules
    rw [List.flatMap_cons, Rule.ebnf_append] at h
    cases rules' with
    | nil => simp at h
    | cons r' rest' =>
      obtain ⟨hr', hrest'⟩ := List.forall_mem_cons.1 hrules'
      rw [List.flatMap_cons, Rule.ebnf_append] at h
      -- The name ends at the space before the equals sign, the body at the end of the line.
      obtain ⟨hname, hline⟩ := wordChars_append_inj hr.word.2 hr'.word.2
        (Production.AfterProduction.space _).not_wordChar
        (Production.AfterProduction.space _).not_wordChar h
      obtain ⟨hbody, hlines⟩ := Production.readsRest hv hr.body r'.body _ _ hr'.body (.line _)
        (.line _) (List.cons.inj (List.cons.inj hline).2).2
      have hunindexed : r.unindexed = r'.unindexed := by
        rw [Rule.unindexed, Rule.unindexed, String.toList_inj.1 hname, hbody]
      rw [List.map_cons, List.map_cons, hunindexed, ih hrest hrest' (List.cons.inj hlines).2]

/-- Two grammars over a vocabulary have the same text exactly if they differ in indices only. -/
theorem Grammar.ebnf_eq_iff {ds : List Declaration} (hv : Vocabulary.build ds = .ok v)
    (hwords : ∀ c ∈ v.classes, IsWord c.name) (hg : g.Legible v) (hg' : g'.Legible v) :
    g.ebnf v = g'.ebnf v ↔ g.unindexed = g'.unindexed := by
  constructor
  · intro h
    have hlines := congrArg String.toList h
    rw [toList_ebnf, toList_ebnf] at hlines
    have hrules := readsRules (Vocabulary.legible_of_build hv hwords) (fun r hr => hg.rule hr)
      (fun r hr => hg'.rule hr) hlines
    rw [unindexed, unindexed, Grammar.mk.injEq]
    exact hrules
  · intro h
    rw [← g.ebnf_unindexed, h, ebnf_unindexed]

/-- A choice without alternatives looks like one whose only alternative is empty. -/
example : (Production.choice 1 []).ebnf ⟨[]⟩ = (Production.choice 1 [[]]).ebnf ⟨[]⟩ := by decide

/-- The classes of lists in brackets. -/
def listTokens : List Declaration :=
  [.token "LParen" "\\(", .token "RParen" "\\)", .token "Comma" ",", .token "Num" "[0-9]"]

theorem listTokens_build : (Vocabulary.build listTokens).isOk = true := by decide +kernel

/-- The vocabulary of lists in brackets. -/
def listVocabulary : Vocabulary := getOk (Vocabulary.build listTokens) listTokens_build

/-- Lists in brackets whose items are digits or lists. The indices begin with the given one. -/
def listGrammar (idx : Nat) : Grammar := .ofList [
  ("list", [.terminal 0 idx,
    .option idx [.nonTerminal "item" idx,
      .many idx [.terminal 2 idx, .nonTerminal "item" (idx + 1)]],
    .terminal 1 idx]),
  ("item", [.choice idx [[.terminal 3 idx], [.nonTerminal "list" idx]]])]

/-- Grammars of lists that are numbered from one and from five. -/
theorem Grammar.ebnf_eq_iff_lists :
    (listGrammar 1).ebnf listVocabulary = (listGrammar 5).ebnf listVocabulary ∧
      (listGrammar 1).unindexed = (listGrammar 5).unindexed := by
  have hv : Vocabulary.build listTokens = .ok listVocabulary := eq_ok_getOk _
  have hwords : ∀ c ∈ listVocabulary.classes, IsWord c.name := by decide +kernel
  have hone : (listGrammar 1).Legible listVocabulary :=
    ⟨by decide +kernel, by decide +kernel, by decide +kernel⟩
  have hfive : (listGrammar 5).Legible listVocabulary :=
    ⟨by decide +kernel, by decide +kernel, by decide +kernel⟩
  have htext : (listGrammar 1).ebnf listVocabulary = (listGrammar 5).ebnf listVocabulary := by
    decide +kernel
  exact ⟨htext, (ebnf_eq_iff hv hwords hone hfive).1 htext⟩

end Rules

end TopDown
