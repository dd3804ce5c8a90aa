import TopDown.Proofs.First
import TopDown.Proofs.Run

/-!
# Looking things up in the table

The table of a language is a list of entries for all its rules. The sites of a rule differ from each
other and so do the names of the rules, hence every place of a rule finds its own entry:
`Language.Outlined.decision?` for decisions, and `Language.Charted` for a sequence of productions
of the rule, after which `tail` and `next` come.
-/

namespace TopDown

theorem lookup_of_mem {α β : Type} [BEq α] [LawfulBEq α] {entries : List (α × β)} {k : α} {b : β}
    (hn : (entries.map (·.1)).Nodup) (h : (k, b) ∈ entries) : entries.lookup k = some b := by
  induction entries with
  | nil => cases h
  | cons entry rest ih =>
    obtain ⟨k', b'⟩ := entry
    simp only [List.map_cons, List.nodup_cons] at hn
    rcases List.mem_cons.1 h with heq | hmem
    · cases heq
      exact List.lookup_cons_self
    · have hne : k ≠ k' := by
        rintro rfl
        exact hn.1 (List.mem_map_of_mem hmem)
      rw [List.lookup_cons, beq_eq_false_iff_ne.2 hne]
      exact ih hn.2 hmem

theorem forM_eq_ok {α ε : Type} {f : α → Except ε Unit} {xs : List α} (h : xs.forM f = .ok ())
    {x : α} (hx : x ∈ xs) : f x = .ok () := by
  induction xs with
  | nil => cases hx
  | cons y ys ih =>
    have hcons : (y :: ys).forM f = f y >>= fun _ => ys.forM f := rfl
    rw [hcons] at h
    cases hy : f y with
    | error e =>
      rw [hy] at h
      cases h
    | ok _ =>
      rw [hy] at h
      rcases List.mem_cons.1 hx with rfl | hx
      · exact hy
      · exact ih h hx

namespace Production

/-- The call site that the production is, if it is one. -/
def callSite? (rule : String) : Production → Option CallSite
  | .terminal token idx => some ⟨rule, .token token, idx⟩
  | .nonTerminal target idx => some ⟨rule, .rule target, idx⟩
  | _ => none

/-- The key of the decision that the production asks for, if it is one. -/
def decisionKey? (rule : String) (p : Production) : Option DecisionKey :=
  p.decision?.map fun d => ⟨rule, d.1, d.2⟩

/-- The key of the repetition that the production is, if it is one. -/
def repetition? (rule : String) : Production → Option DecisionKey
  | .many idx _ => some ⟨rule, .many, idx⟩
  | _ => none

theorem preorderSeq_append (ps qs : List Production) :
    preorderSeq (ps ++ qs) = preorderSeq ps ++ preorderSeq qs := by
  induction ps with
  | nil => rfl
  | cons p ps ih => rw [List.cons_append, preorderSeq, ih, preorderSeq, List.append_assoc]

theorem preorderSeq_subset {alternatives : List (List Production)} {body : List Production}
    (h : body ∈ alternatives) : preorderSeq body ⊆ preorderAlts alternatives :=
  subset_of_mem (fun _ _ => by rw [preorderAlts]) h

end Production

namespace FirstSets

variable {f : FirstSets} {rule : String}

theorem walkSeq_append (tail : Lookahead) (next : AfterRepetition) (ps qs : List Production) :
    f.walkSeq rule tail next (ps ++ qs) =
      let after := f.walkSeq rule tail next qs
      let w := f.walkSeq rule after.lookahead after.next ps
      ⟨w.lookahead, w.next, w.follows ++ after.follows, w.repetitions ++ after.repetitions⟩ := by
  induction ps with
  | nil => rfl
  | cons p ps ih =>
    rw [List.cons_append, walkSeq, ih]
    simp only [walkSeq, List.append_assoc]

/-- The walk has an entry for every call site and for every repetition of the productions, in their
order. -/
structure Visits (w : FollowWalk) (rule : String) (ps : List Production) : Prop where
  follows : w.follows.map (·.1) = ps.filterMap (Production.callSite? rule)
  repetitions : w.repetitions.map (·.1) = ps.filterMap (Production.repetition? rule)

theorem Visits.append {w w' : FollowWalk} {ps qs : List Production} (h : Visits w rule ps)
    (h' : Visits w' rule qs) (lookahead : Lookahead) (next : AfterRepetition) :
    Visits ⟨lookahead, next, w.follows ++ w'.follows, w.repetitions ++ w'.repetitions⟩ rule
      (ps ++ qs) where
  follows := by rw [List.map_append, List.filterMap_append, h.follows, h'.follows]
  repetitions := by rw [List.map_append, List.filterMap_append, h.repetitions, h'.repetitions]

mutual

theorem visits_walk (tail : Lookahead) (next : AfterRepetition) :
    ∀ p : Production, Visits (f.walk rule tail next p) rule p.preorder
  | .terminal _ _ | .nonTerminal _ _ => ⟨rfl, rfl⟩
  | .option _ body => by
    have hbody := visits_walkSeq tail next body
    rw [walk, Production.preorder]
    exact ⟨hbody.follows, hbody.repetitions⟩
  | .many _ body => by
    have hbody := visits_walkSeq ⟨(f.ofSeq body).set.union tail.set, tail.nullable⟩ .other body
    rw [walk, Production.preorder]
    exact ⟨hbody.follows, congrArg (List.cons _) hbody.repetitions⟩
  | .choice _ alternatives => by
    have halts := visits_walkAlts tail next alternatives
    rw [walk, Production.preorder]
    exact ⟨halts.follows, halts.repetitions⟩

theorem visits_walkSeq (tail : Lookahead) (next : AfterRepetition) :
    ∀ ps : List Production, Visits (f.walkSeq rule tail next ps) rule (Production.preorderSeq ps)
  | [] => ⟨rfl, rfl⟩
  | p :: rest => by
    rw [walkSeq, Production.preorderSeq]
    exact (visits_walk _ _ p).append (visits_walkSeq tail next rest) _ _

theorem visits_walkAlts (tail : Lookahead) (next : AfterRepetition) :
    ∀ alternatives : List (List Production),
      Visits (f.walkAlts rule tail next alternatives) rule (Production.preorderAlts alternatives)
  | [] => ⟨rfl, rfl⟩
  | body :: rest => by
    rw [walkAlts, Production.preorderAlts]
    exact (visits_walkSeq tail next body).append (visits_walkAlts tail next rest) _ _

end

theorem follows_walkSeq_subset {tail : Lookahead} {next : AfterRepetition}
    {alternatives : List (List Production)} {body : List Production} (h : body ∈ alternatives) :
    (f.walkSeq rule tail next body).follows ⊆ (f.walkAlts rule tail next alternatives).follows :=
  subset_of_mem (f := fun body => (f.walkSeq rule tail next body).follows)
    (F := fun alternatives => (f.walkAlts rule tail next alternatives).follows)
    (fun _ _ => by simp only [walkAlts]) h

theorem repetitions_walkSeq_subset {tail : Lookahead} {next : AfterRepetition}
    {alternatives : List (List Production)} {body : List Production} (h : body ∈ alternatives) :
    (f.walkSeq rule tail next body).repetitions ⊆
      (f.walkAlts rule tail next alternatives).repetitions :=
  subset_of_mem (f := fun body => (f.walkSeq rule tail next body).repetitions)
    (F := fun alternatives => (f.walkAlts rule tail next alternatives).repetitions)
    (fun _ _ => by simp only [walkAlts]) h

theorem keys_decisionsOf (r : Rule) :
    (f.decisionsOf r).map (·.1) =
      (Production.preorderSeq r.body).filterMap (Production.decisionKey? r.name) := by
  rw [decisionsOf, List.map_filterMap]
  congr 1
  funext p
  cases p <;> rfl

end FirstSets

namespace Grammar

variable {g : Grammar}

theorem nodup_of_firstRepeated? {seen sites : List Site} (h : firstRepeated? seen sites = none) :
    sites.Nodup ∧ ∀ site ∈ sites, ¬site ∈ seen := by
  induction sites generalizing seen with
  | nil => simp
  | cons site rest ih =>
    rw [firstRepeated?] at h
    split at h
    · cases h
    · rename_i hs
      obtain ⟨hn, hd⟩ := ih h
      refine ⟨List.nodup_cons.2 ⟨fun hmem => hd site hmem (List.mem_cons_self ..), hn⟩, ?_⟩
      intro site' hmem
      rcases List.mem_cons.1 hmem with rfl | hmem
      · simpa using hs
      · exact fun hseen => hd site' hmem (List.mem_cons_of_mem _ hseen)

/-- The productions of a rule of a checked grammar differ in their sites. -/
theorem nodup_sites (h : g.checkOccurrences = .ok ()) {r : Rule} (hr : r ∈ g.rules) :
    ((Production.preorderSeq r.body).map (·.site)).Nodup := by
  have hok := forM_eq_ok h hr
  revert hok
  cases hs : firstRepeated? [] ((Production.preorderSeq r.body).map (·.site)) with
  | some site => rintro ⟨⟩
  | none => exact fun _ => (nodup_of_firstRepeated? hs).1

section Entries

variable {κ β : Type} {key : String → Production → Option κ} {entries : Rule → List (κ × β)}

/-- The keys of a rule's entries are those of the productions in its body. They say which production
and which rule they belong to. -/
structure Keyed (key : String → Production → Option κ) (entries : Rule → List (κ × β)) : Prop where
  keys : ∀ r, (entries r).map (·.1) = (Production.preorderSeq r.body).filterMap (key r.name)
  site : ∀ {rule p q k}, key rule p = some k → key rule q = some k → p.site = q.site
  rule : ∀ {rule rule' p q k}, key rule p = some k → key rule' q = some k → rule = rule'

/-- The keys of a rule differ from each other. -/
theorem Keyed.nodup (hk : Keyed key entries) {r : Rule}
    (hn : ((Production.preorderSeq r.body).map (·.site)).Nodup) :
    ((entries r).map (·.1)).Nodup := by
  rw [hk.keys]
  rw [List.Nodup, List.pairwise_map] at hn
  refine List.Pairwise.filterMap _ ?_ hn
  rintro p q hne k hp k' hq rfl
  exact hne (hk.site hp hq)

/-- The keys of rules with distinct names differ from each other. -/
theorem Keyed.nodup_flatMap (hk : Keyed key entries) {rules : List Rule}
    (hnames : (rules.map (·.name)).Nodup)
    (hn : ∀ r ∈ rules, ((Production.preorderSeq r.body).map (·.site)).Nodup) :
    ((rules.flatMap entries).map (·.1)).Nodup := by
  induction rules with
  | nil => simp
  | cons r rest ih =>
    simp only [List.map_cons, List.nodup_cons] at hnames
    have hrest := ih hnames.2 fun r' hr' => hn r' (List.mem_cons_of_mem _ hr')
    rw [List.flatMap_cons, List.map_append]
    refine List.nodup_append.2 ⟨hk.nodup (hn r (List.mem_cons_self ..)), hrest, ?_⟩
    rintro k hr k' hmem rfl
    obtain ⟨x, hx, rfl⟩ := List.mem_map.1 hmem
    obtain ⟨r', hr', hx⟩ := List.mem_flatMap.1 hx
    have hx' := List.mem_map_of_mem (f := (·.1)) hx
    rw [hk.keys] at hr hx'
    obtain ⟨p, -, hp⟩ := List.mem_filterMap.1 hr
    obtain ⟨q, -, hq⟩ := List.mem_filterMap.1 hx'
    exact hnames.1 (hk.rule hp hq ▸ List.mem_map_of_mem hr')

/-- Every entry of a rule is found under its key. -/
theorem Keyed.lookup (hk : Keyed key entries) (h : g.checkOccurrences = .ok ()) {r : Rule}
    (hr : r ∈ g.rules) {x : κ × β} [BEq κ] [LawfulBEq κ] (hx : x ∈ entries r) :
    (g.rules.flatMap entries).lookup x.1 = some x.2 :=
  lookup_of_mem (hk.nodup_flatMap g.distinct fun _ => nodup_sites h)
    (List.mem_flatMap.2 ⟨r, hr, hx⟩)

end Entries

theorem keyed_decisions (f : FirstSets) : Keyed Production.decisionKey? f.decisionsOf where
  keys := FirstSets.keys_decisionsOf
  site := by
    intro rule p q k hp hq
    cases p <;> cases q <;>
      simp_all [Production.decisionKey?, Production.decision?, Production.site] <;> grind
  rule := by
    intro rule rule' p q k hp hq
    cases p <;> cases q <;> simp_all [Production.decisionKey?, Production.decision?] <;> grind

theorem keyed_follows (f : FirstSets) :
    Keyed Production.callSite? fun r => (f.walkRule r).follows where
  keys r := (FirstSets.visits_walkSeq _ _ r.body).follows
  site := by
    intro rule p q k hp hq
    cases p <;> cases q <;> simp_all [Production.callSite?, Production.site] <;> grind
  rule := by
    intro rule rule' p q k hp hq
    cases p <;> cases q <;> simp_all [Production.callSite?] <;> grind

theorem keyed_repetitions (f : FirstSets) :
    Keyed Production.repetition? fun r => (f.walkRule r).repetitions where
  keys r := (FirstSets.visits_walkSeq _ _ r.body).repetitions
  site := by
    intro rule p q k hp hq
    cases p <;> cases q <;> simp_all [Production.repetition?, Production.site]
    grind
  rule := by
    intro rule rule' p q k hp hq
    cases p <;> cases q <;> simp_all [Production.repetition?]
    grind

end Grammar

/-- The production occurs in the rule, at any depth. -/
def Grammar.Occurs (g : Grammar) (rule : String) (p : Production) : Prop :=
  ∃ r, g.rule? rule = some r ∧ p ∈ Production.preorderSeq r.body

theorem Grammar.Occurs.declares {g : Grammar} {rule name : String} {idx : Nat}
    (h : g.Occurs rule (.nonTerminal name idx)) (hrefs : g.checkReferences = .ok ()) :
    g.declares name = true := by
  obtain ⟨r, hr, hmem⟩ := h
  have hok := forM_eq_ok hrefs (rule?_eq_some hr).1
  revert hok
  cases hf : g.undeclaredIn? r with
  | some x => rintro ⟨⟩
  | none =>
    intro _
    have hnone := List.findSome?_eq_none_iff.1 hf _ hmem
    simpa using hnone

theorem Grammar.Occurs.nullableBody? {g : Grammar} {f : FirstSets} {rule : String} {p : Production}
    (h : g.Occurs rule p) (hreps : g.checkRepetitions f = .ok ()) :
    Grammar.nullableBody? f p = none := by
  obtain ⟨r, hr, hmem⟩ := h
  have hok := forM_eq_ok hreps (rule?_eq_some hr).1
  revert hok
  cases hf : (Production.preorderSeq r.body).findSome? (Grammar.nullableBody? f) with
  | some x => rintro ⟨⟩
  | none => exact fun _ => List.findSome?_eq_none_iff.1 hf p hmem

/-- The class that the production calls for, if it calls for one. -/
def Production.token? : Production → Option TokenId
  | .terminal token _ => some token
  | _ => none

/-- No rule calls for a token of the class. -/
def Grammar.Avoids (g : Grammar) (token : TokenId) : Prop :=
  ∀ r ∈ g.rules, ∀ p ∈ Production.preorderSeq r.body, p.token? ≠ some token

instance (g : Grammar) (token : TokenId) : Decidable (g.Avoids token) :=
  inferInstanceAs (Decidable (∀ r ∈ g.rules, ∀ p ∈ Production.preorderSeq r.body, _))

theorem Grammar.Avoids.not_occurs {g : Grammar} {token : TokenId} (h : g.Avoids token)
    {rule : String} {idx : Nat} : ¬g.Occurs rule (.terminal token idx) := by
  rintro ⟨r, hr, hmem⟩
  exact h r (rule?_eq_some hr).1 _ hmem rfl

namespace Language

variable {l : Language} {rule : String} {tail : Lookahead} {next : AfterRepetition}

/-- The first sets of the grammar. -/
def first (l : Language) : FirstSets := .ofGrammar l.grammar

/-! ## Productions that occur in a rule -/

theorem Outlined.mem_ofSeq (ho : l.Outlined) {ps : List Production} {c : TokenId} :
    c ∈ (l.first.ofSeq ps).set ↔ l.grammar.Starts ps c := by
  obtain ⟨-, -, -, hleft, -, -⟩ := checked_eq_ok ho.checked
  exact Grammar.mem_ofSeq hleft

theorem nullable_ofSeq {ps : List Production} :
    (l.first.ofSeq ps).nullable = true ↔ l.grammar.Vanishes ps :=
  Grammar.nullable_ofSeq

theorem Outlined.decision? (ho : l.Outlined) {p : Production} (h : l.grammar.Occurs rule p)
    {x : DecisionKey × List Lookahead} (hx : l.first.branches? rule p = some x) :
    l.table.decision? x.1 = some x.2 := by
  obtain ⟨r, hr, hmem⟩ := h
  obtain ⟨hrule, rfl⟩ := Grammar.rule?_eq_some hr
  obtain ⟨-, -, hoccs, -, -, -⟩ := checked_eq_ok ho.checked
  rw [ho.table]
  exact (Grammar.keyed_decisions _).lookup hoccs hrule (List.mem_filterMap.2 ⟨p, hmem, hx⟩)

/-- The body of an option or a repetition is not empty. -/
theorem Outlined.nullableBody? (ho : l.Outlined) {p : Production} (h : l.grammar.Occurs rule p) :
    Grammar.nullableBody? l.first p = none := by
  obtain ⟨-, -, -, -, -, hreps⟩ := checked_eq_ok ho.checked
  exact h.nullableBody? hreps

/-- A rule that is called for is declared. -/
theorem Outlined.declares (ho : l.Outlined) {name : String} {idx : Nat}
    (h : l.grammar.Occurs rule (.nonTerminal name idx)) : l.grammar.declares name = true := by
  obtain ⟨-, hrefs, -, -, -, -⟩ := checked_eq_ok ho.checked
  exact h.declares hrefs

/-! ## Sequences of productions -/

/-- The table has the right entries for all places of a sequence of productions of the rule, after
which `tail` and `next` come. -/
structure Charted (l : Language) (rule : String) (tail : Lookahead) (next : AfterRepetition)
    (ps : List Production) : Prop where
  occurs : ∀ p ∈ Production.preorderSeq ps, l.grammar.Occurs rule p
  follow : ∀ x ∈ (l.first.walkSeq rule tail next ps).follows, l.table.follow? x.1 = some x.2
  repetition : ∀ x ∈ (l.first.walkSeq rule tail next ps).repetitions,
    l.table.afterRepetition? x.1 = some x.2

/-- All rules of a language that was built are charted. -/
theorem Outlined.charted (ho : l.Outlined) {r : Rule} (hr : l.grammar.rule? rule = some r) :
    l.Charted rule .empty .endOfRule r.body := by
  obtain ⟨hrule, hname⟩ := Grammar.rule?_eq_some hr
  obtain ⟨-, -, hoccs, -, -, -⟩ := checked_eq_ok ho.checked
  subst hname
  refine ⟨fun p hp => ⟨r, hr, hp⟩, ?_, ?_⟩
  · intro x hx
    rw [ho.table]
    exact (Grammar.keyed_follows _).lookup hoccs hrule hx
  · intro x hx
    rw [ho.table]
    exact (Grammar.keyed_repetitions _).lookup hoccs hrule hx

/-- Places that are found in a sequence are charted if those of the sequence are. -/
theorem Charted.mono {tail' : Lookahead} {next' : AfterRepetition} {ps qs : List Production}
    (h : l.Charted rule tail next ps)
    (hp : Production.preorderSeq qs ⊆ Production.preorderSeq ps)
    (hf : (l.first.walkSeq rule tail' next' qs).follows ⊆
      (l.first.walkSeq rule tail next ps).follows)
    (hr : (l.first.walkSeq rule tail' next' qs).repetitions ⊆
      (l.first.walkSeq rule tail next ps).repetitions) : l.Charted rule tail' next' qs :=
  ⟨fun p hmem => h.occurs p (hp hmem), fun x hmem => h.follow x (hf hmem),
    fun x hmem => h.repetition x (hr hmem)⟩

/-- What comes after the first part of a sequence is the second part. -/
theorem Charted.append {ps qs : List Production} (h : l.Charted rule tail next (ps ++ qs)) :
    l.Charted rule (l.first.walkSeq rule tail next qs).lookahead
      (l.first.walkSeq rule tail next qs).next ps ∧ l.Charted rule tail next qs := by
  refine ⟨h.mono ?_ ?_ ?_, h.mono ?_ ?_ ?_⟩
  · rw [Production.preorderSeq_append]
    exact List.subset_append_left _ _
  · rw [FirstSets.walkSeq_append]
    exact List.subset_append_left _ _
  · rw [FirstSets.walkSeq_append]
    exact List.subset_append_left _ _
  · rw [Production.preorderSeq_append]
    exact List.subset_append_right _ _
  · rw [FirstSets.walkSeq_append]
    exact List.subset_append_right _ _
  · rw [FirstSets.walkSeq_append]
    exact List.subset_append_right _ _

theorem Charted.option {idx : Nat} {body : List Production}
    (h : l.Charted rule tail next [.option idx body]) : l.Charted rule tail next body := by
  refine h.mono ?_ ?_ ?_
  · simp [Production.preorderSeq, Production.preorder]
  · simp [FirstSets.walkSeq, FirstSets.walk]
  · simp [FirstSets.walkSeq, FirstSets.walk]

/-- After the body of a repetition the body can come again. -/
theorem Charted.many {idx : Nat} {body : List Production}
    (h : l.Charted rule tail next [.many idx body]) :
    l.table.afterRepetition? ⟨rule, .many, idx⟩ = some next ∧
      l.Charted rule ⟨(l.first.ofSeq body).set.union tail.set, tail.nullable⟩ .other body := by
  refine ⟨?_, h.mono ?_ ?_ ?_⟩
  · refine h.repetition (⟨rule, .many, idx⟩, next) ?_
    simp [FirstSets.walkSeq, FirstSets.walk]
  · simp [Production.preorderSeq, Production.preorder]
  · simp [FirstSets.walkSeq, FirstSets.walk]
  · simp [FirstSets.walkSeq, FirstSets.walk]

theorem Charted.choice {idx : Nat} {alternatives : List (List Production)}
    (h : l.Charted rule tail next [.choice idx alternatives]) {body : List Production}
    (hmem : body ∈ alternatives) : l.Charted rule tail next body := by
  refine h.mono ?_ ?_ ?_
  · simp only [Production.preorderSeq, Production.preorder, List.append_nil]
    exact List.subset_cons_of_subset _ (Production.preorderSeq_subset hmem)
  · simp only [FirstSets.walkSeq, FirstSets.walk, List.append_nil]
    exact FirstSets.follows_walkSeq_subset hmem
  · simp only [FirstSets.walkSeq, FirstSets.walk, List.append_nil]
    exact FirstSets.repetitions_walkSeq_subset hmem

end Language

end TopDown
