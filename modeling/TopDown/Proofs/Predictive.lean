import TopDown.Proofs.LL1
import TopDown.Proofs.Samples

/-!
# A check for LL(1) grammars

Whether a grammar is LL(1) can be computed from sets that bound what can follow the rules. The
check goes through every rule once with the classes of what comes after each place, and compares
sets of classes by the tokens that they accept. It is enough: `Grammar.isLL1_of_passes`. With it
both sample languages are seen to be LL(1).
-/

namespace TopDown

theorem Vocabulary.chain_eq_nil {classes : List TokenClass} {id : TokenId}
    (h : classes.length ≤ id) : chain classes id = [] := by
  induction classes with
  | nil => rfl
  | cons c earlier ih =>
    have hlt : earlier.length < id := h
    rw [chain, if_neg (Nat.ne_of_gt hlt)]
    exact ih (Nat.le_of_lt hlt)

/-- A place outside the vocabulary is accepted as nothing. -/
theorem Vocabulary.ancestors_eq_nil {v : Vocabulary} {id : TokenId} (h : v.eof < id) :
    v.ancestors id = [] := by
  rw [ancestors, if_neg (Nat.ne_of_gt h)]
  refine chain_eq_nil ?_
  rw [List.length_reverse]
  exact Nat.le_of_lt h

namespace TokenSet

/-- Whether no token is accepted for classes of both sets. -/
def apart (v : Vocabulary) (s t : TokenSet) : Bool :=
  (List.range (v.eof + 1)).all fun kind => !(s.admits v kind && t.admits v kind)

theorem not_admits_of_apart {v : Vocabulary} {s t : TokenSet} (h : s.apart v t = true)
    {kind : TokenId} (hs : s.admits v kind = true) : ¬t.admits v kind = true := by
  intro ht
  by_cases hk : kind ≤ v.eof
  · have hboth := List.all_eq_true.1 h kind (List.mem_range.2 (Nat.lt_succ_of_le hk))
    rw [hs, ht] at hboth
    cases hboth
  · rw [admits, Vocabulary.ancestors_eq_nil (Nat.lt_of_not_le hk)] at hs
    cases hs

theorem mem_of_all_contains {s t : TokenSet} (h : s.ids.all t.contains = true) {c : TokenId}
    (hc : c ∈ s) : c ∈ t :=
  contains_iff.1 (List.all_eq_true.1 h c hc)

end TokenSet

/-- What can come before the classes of `after`, and they themselves if the sequence may be empty. -/
def FirstSets.before (f : FirstSets) (ps : List Production) (after : TokenSet) : TokenSet :=
  ((f.ofSeq ps).andThen ⟨after, true⟩).set

namespace Production

/-- Whether one token decides which of the branches comes, where `after` comes after them. -/
def separate (v : Vocabulary) (branches : List Lookahead) (after : TokenSet) : Bool :=
  decide (branches.Pairwise fun a b => a.set.apart v b.set = true) &&
    decide (branches.Pairwise fun a b => (a.nullable && b.nullable) = false) &&
    (!branches.any (·.nullable) || branches.all (·.set.apart v after))

theorem separate_iff {v : Vocabulary} {branches : List Lookahead} {after : TokenSet} :
    separate v branches after = true ↔
      (branches.Pairwise fun a b => a.set.apart v b.set = true) ∧
      (branches.Pairwise fun a b => (a.nullable && b.nullable) = false) ∧
      ∀ a ∈ branches, a.nullable = true → ∀ b ∈ branches, b.set.apart v after = true := by
  rw [separate, Bool.and_eq_true, Bool.and_eq_true, decide_eq_true_iff, decide_eq_true_iff,
    and_assoc]
  simp only [Bool.or_eq_true, Bool.not_eq_true', List.any_eq_false, List.all_eq_true]
  grind

section Predictive

variable (f : FirstSets) (v : Vocabulary) (follow : String → TokenSet)

mutual

/-- Whether one token decides how to go on everywhere in the production, where the classes of
`after` can come after it. -/
def predictive (after : TokenSet) : Production → Bool
  | .terminal .. => true
  | .nonTerminal name _ => after.ids.all (follow name).contains
  | .option _ body => (f.ofSeq body).set.apart v after && predictiveSeq after body
  | .many _ body =>
    (f.ofSeq body).set.apart v after && predictiveSeq ((f.ofSeq body).set.union after) body
  | .choice _ alternatives =>
    separate v (alternatives.map f.ofSeq) after && predictiveAlts after alternatives

/-- Whether one token decides how to go on everywhere in the sequence. -/
def predictiveSeq (after : TokenSet) : List Production → Bool
  | [] => true
  | p :: rest => p.predictive (f.before rest after) && predictiveSeq after rest

/-- Whether one token decides how to go on everywhere in the alternatives. -/
def predictiveAlts (after : TokenSet) : List (List Production) → Bool
  | [] => true
  | body :: rest => predictiveSeq after body && predictiveAlts after rest

end

end Predictive

end Production

namespace Grammar

/-- Whether one token decides how to go on everywhere in the grammar. The sets have to hold what can
follow the rules. -/
def passesLL1 (g : Grammar) (v : Vocabulary) (follow : String → TokenSet) (start : String) : Bool :=
  (follow start).contains v.eof &&
    g.rules.all fun r => Production.predictiveSeq (.ofGrammar g) v follow (follow r.name) r.body

variable {g : Grammar} {v : Vocabulary} {follow : String → TokenSet} {start : String}

/-- The classes of `after` are all that can come first in the productions, and the end of the input
is one of them if they vanish. -/
structure Bounds (g : Grammar) (v : Vocabulary) (after : TokenSet) (ps : List Production) : Prop where
  starts : ∀ c, g.Starts ps c → c ∈ after
  vanishes : g.Vanishes ps → v.eof ∈ after

theorem Bounds.admits {after : TokenSet} {ps : List Production} (h : g.Bounds v after ps)
    {kind : TokenId} (hf : g.Follows v ps kind) : after.admits v kind = true := by
  rw [TokenSet.admits_iff]
  rcases hf with ⟨c, hc, ha⟩ | ⟨hv, ha⟩
  · exact ⟨c, h.starts c hc, ha⟩
  · exact ⟨v.eof, h.vanishes hv, ha⟩

theorem Bounds.mono {after after' : TokenSet} {ps : List Production} (h : g.Bounds v after ps)
    (hsub : ∀ c ∈ after, c ∈ after') : g.Bounds v after' ps :=
  ⟨fun c hc => hsub c (h.starts c hc), fun hv => hsub _ (h.vanishes hv)⟩

/-- Nothing but the end of the input comes where nothing is left to read. -/
theorem bounds_nil : g.Bounds v (.single v.eof) [] :=
  ⟨fun _ hc => (nomatch hc), fun _ => TokenSet.mem_single.2 rfl⟩

section Acyclic

variable (hleft : g.checkLeftRecursion g.nullableRules = .ok ()) {after : TokenSet}
  {ps qs : List Production}

include hleft

theorem admits_ofSeq {kind : TokenId} :
    ((FirstSets.ofGrammar g).ofSeq ps).set.admits v kind = true ↔ g.Admits v ps kind := by
  simp only [TokenSet.admits_iff, mem_ofSeq hleft, Admits]

theorem mem_before {c : TokenId} : c ∈ (FirstSets.ofGrammar g).before ps after ↔
    g.Starts ps c ∨ g.Vanishes ps ∧ c ∈ after := by
  rw [FirstSets.before, Lookahead.mem_set_andThen, mem_ofSeq hleft, nullable_ofSeq]

theorem Bounds.append (h : g.Bounds v after qs) :
    g.Bounds v ((FirstSets.ofGrammar g).before ps after) (ps ++ qs) := by
  refine ⟨fun c hc => (mem_before hleft).2 ?_, fun hv => (mem_before hleft).2 ?_⟩
  · exact (Starts.append_iff.1 hc).imp_right fun hc => ⟨hc.1, h.starts c hc.2⟩
  · obtain ⟨hp, hq⟩ := Vanishes.append_iff.1 hv
    exact .inr ⟨hp, h.vanishes hq⟩

/-- After the body of a repetition comes the body again or what comes after the repetition. -/
theorem Bounds.many {idx : Nat} {body : List Production} (h : g.Bounds v after qs) :
    g.Bounds v (((FirstSets.ofGrammar g).ofSeq body).set.union after)
      (.many idx body :: qs) := by
  refine ⟨fun c hc => TokenSet.mem_union.2 ?_, fun hv => TokenSet.mem_union.2 (.inr ?_)⟩
  · rcases Starts.cons_iff.1 hc with hc | ⟨-, hc⟩
    · exact .inl ((mem_ofSeq hleft).2 (starts_many_iff.1 hc))
    · exact .inr (h.starts c hc)
  · exact h.vanishes (Vanishes.cons_iff.1 hv).2

/-- What begins the sequence cannot follow where the check found it apart from what can. -/
theorem Bounds.not_follows (h : g.Bounds v after qs)
    (ha : ((FirstSets.ofGrammar g).ofSeq ps).set.apart v after = true) {kind : TokenId}
    (hk : g.Admits v ps kind) : ¬g.Follows v qs kind := by
  intro hf
  exact TokenSet.not_admits_of_apart ha ((admits_ofSeq hleft).2 hk) (h.admits hf)

end Acyclic

/-- The productions are left from sequences that pass the check, one after the other, each with
classes that bound what comes after it. -/
inductive Checked (g : Grammar) (v : Vocabulary) (follow : String → TokenSet) :
    List Production → Prop where
  | nil : Checked g v follow []
  | append {after : TokenSet} {ps qs : List Production}
      (h : Production.predictiveSeq (.ofGrammar g) v follow after ps = true)
      (hb : g.Bounds v after qs) (hq : Checked g v follow qs) : Checked g v follow (ps ++ qs)

/-- What passes the check for the first of the productions. -/
theorem Checked.uncons (hleft : g.checkLeftRecursion g.nullableRules = .ok ())
    {ps : List Production} (h : g.Checked v follow ps) {p : Production} {rest : List Production}
    (hps : ps = p :: rest) : ∃ after, p.predictive (.ofGrammar g) v follow after = true ∧
      g.Bounds v after rest ∧ g.Checked v follow rest := by
  induction h with
  | nil => cases hps
  | @append after ps qs hp hb hq ih =>
    cases ps with
    | nil => exact ih hps
    | cons p' ps =>
      obtain ⟨rfl, rfl⟩ := List.cons.inj hps
      rw [Production.predictiveSeq, Bool.and_eq_true] at hp
      exact ⟨_, hp.1, hb.append hleft, .append hp.2 hb hq⟩

theorem predictiveSeq_of_mem {f : FirstSets} {after : TokenSet}
    {alternatives : List (List Production)} {body : List Production}
    (h : Production.predictiveAlts f v follow after alternatives = true)
    (hmem : body ∈ alternatives) : Production.predictiveSeq f v follow after body = true := by
  induction alternatives with
  | nil => cases hmem
  | cons first rest ih =>
    rw [Production.predictiveAlts, Bool.and_eq_true] at h
    rcases List.mem_cons.1 hmem with rfl | hmem
    · exact h.1
    · exact ih h.2 hmem

section Passes

variable (hleft : g.checkLeftRecursion g.nullableRules = .ok ())
  (hpass : g.passesLL1 v follow start = true)

include hleft hpass

/-- Whatever is left to read comes from sequences that pass the check. -/
theorem Upcoming.checked {ps : List Production} (h : g.Upcoming start ps) :
    g.Checked v follow ps := by
  rw [passesLL1, Bool.and_eq_true, TokenSet.contains_iff] at hpass
  obtain ⟨hstart, hrules⟩ := hpass
  induction h with
  | start =>
    have hp : Production.predictiveSeq (.ofGrammar g) v follow (.single v.eof)
        [.nonTerminal start 0] = true := by
      rw [Production.predictiveSeq, Production.predictive, Production.predictiveSeq,
        Bool.and_true, List.all_eq_true]
      intro c hc
      rcases (mem_before hleft).1 hc with hc | ⟨-, hc⟩
      · cases hc
      · rw [TokenSet.mem_single.1 hc]
        exact TokenSet.contains_iff.2 hstart
    exact .append hp bounds_nil .nil
  | drop _ ih => exact (ih.uncons hleft rfl).choose_spec.2.2
  | @nonTerminal name idx r ps hr _ ih =>
    obtain ⟨after, hp, hb, hq⟩ := ih.uncons hleft rfl
    rw [Production.predictive] at hp
    obtain ⟨hmem, rfl⟩ := rule?_eq_some hr
    exact .append (List.all_eq_true.1 hrules r hmem)
      (hb.mono fun _ => TokenSet.mem_of_all_contains hp) hq
  | option _ ih =>
    obtain ⟨after, hp, hb, hq⟩ := ih.uncons hleft rfl
    rw [Production.predictive, Bool.and_eq_true] at hp
    exact .append hp.2 hb hq
  | many _ ih =>
    obtain ⟨after, hp, hb, hq⟩ := ih.uncons hleft rfl
    rw [Production.predictive, Bool.and_eq_true] at hp
    exact .append hp.2 (hb.many hleft) ih
  | choice hmem _ ih =>
    obtain ⟨after, hp, hb, hq⟩ := ih.uncons hleft rfl
    rw [Production.predictive, Bool.and_eq_true] at hp
    exact .append (predictiveSeq_of_mem hp.2 hmem) hb hq

/-- A grammar that passes the check is LL(1). -/
theorem isLL1_of_passes : g.IsLL1 v start where
  option idx body ps hup kind := by
    obtain ⟨after, hp, hb, -⟩ := (hup.checked hleft hpass).uncons hleft rfl
    rw [Production.predictive, Bool.and_eq_true] at hp
    exact hb.not_follows hleft hp.1
  many idx body ps hup kind := by
    obtain ⟨after, hp, hb, -⟩ := (hup.checked hleft hpass).uncons hleft rfl
    rw [Production.predictive, Bool.and_eq_true] at hp
    exact hb.not_follows hleft hp.1
  distinct idx alternatives ps hup := by
    obtain ⟨after, hp, -, -⟩ := (hup.checked hleft hpass).uncons hleft rfl
    rw [Production.predictive, Bool.and_eq_true, Production.separate_iff] at hp
    refine (List.pairwise_map.1 hp.1.1).imp fun hab kind ha hb => ?_
    exact TokenSet.not_admits_of_apart hab ((admits_ofSeq hleft).2 ha) ((admits_ofSeq hleft).2 hb)
  vanishing idx alternatives ps hup := by
    obtain ⟨after, hp, -, -⟩ := (hup.checked hleft hpass).uncons hleft rfl
    rw [Production.predictive, Bool.and_eq_true, Production.separate_iff] at hp
    refine (List.pairwise_map.1 hp.1.2.1).imp fun hab ha hb => ?_
    rw [nullable_ofSeq.2 ha, nullable_ofSeq.2 hb] at hab
    cases hab
  choice idx alternatives ps hup := by
    intro a ha hv b hb kind
    obtain ⟨after, hp, hbounds, -⟩ := (hup.checked hleft hpass).uncons hleft rfl
    rw [Production.predictive, Bool.and_eq_true, Production.separate_iff] at hp
    exact hbounds.not_follows hleft (hp.1.2.2 _ (List.mem_map_of_mem ha) (nullable_ofSeq.2 hv)
      _ (List.mem_map_of_mem hb))

end Passes

end Grammar

theorem Language.isLL1_of_passes {l : Language} (ho : l.Outlined) (follow : String → TokenSet)
    {start : String} (hpass : l.grammar.passesLL1 l.vocabulary follow start = true) :
    l.grammar.IsLL1 l.vocabulary start := by
  obtain ⟨-, -, -, hleft, -, -⟩ := checked_eq_ok ho.checked
  exact Grammar.isLL1_of_passes hleft hpass

/-! ## The sample languages -/

/-- What can follow the rules of the calculator language. -/
def Calc.follow (name : String) : TokenSet :=
  let expression := (TokenSet.single vocabulary.eof).insert rightParenthesis
  if name = "expression" || name = "additionExpression" then expression
  else if name = "multiplicationExpression" then expression.insert additionOperator
  else (expression.insert additionOperator).insert multiplicationOperator

theorem Calc.isLL1 : language.grammar.IsLL1 language.vocabulary "expression" :=
  Language.isLL1_of_passes (Language.outlined_of_build build_draft plain_draft).2 follow
    (by decide +kernel)

/-- What can follow the rules of the JSON language. -/
def Json.follow (name : String) : TokenSet :=
  let member := (TokenSet.single comma).insert rightCurly
  if name = "objectItem" then member else (member.insert rightSquare).insert vocabulary.eof

theorem Json.isLL1 : language.grammar.IsLL1 language.vocabulary "value" :=
  Language.isLL1_of_passes (Language.outlined_of_build build_draft plain_draft).2 follow
    (by decide +kernel)

end TopDown
