import Mathlib.Data.List.Chain
import TopDown.Proofs.Chart
import TopDown.Proofs.Exactness

/-!
# What the analysis accepts

`Grammar.WellFormed` says without the computations of the analysis what makes a grammar fit for
prediction. `Grammar.wellFormed_iff` says that the analysis accepts exactly these grammars. If it
refuses a grammar, the error is about the first of the conditions that does not hold, and what it
names is a violation of it (`Grammar.Refuted`).

The one search among the checks is that for left recursion. Its path is a chain of rules of which
each can be invoked in the next, so the path that closes is a cycle.
-/

namespace TopDown

theorem forM_eq_error {α ε : Type} {f : α → Except ε Unit} {xs : List α} {e : ε}
    (h : xs.forM f = .error e) : ∃ x ∈ xs, f x = .error e := by
  induction xs with
  | nil => cases h
  | cons y ys ih =>
    have hcons : (y :: ys).forM f = f y >>= fun _ => ys.forM f := rfl
    rw [hcons] at h
    cases hy : f y with
    | error e' =>
      rw [hy] at h
      obtain rfl : e' = e := Except.error.inj h
      exact ⟨y, List.mem_cons_self .., hy⟩
    | ok _ =>
      rw [hy] at h
      obtain ⟨x, hx, hfx⟩ := ih h
      exact ⟨x, List.mem_cons_of_mem _ hx, hfx⟩

theorem foldlM_eq_error {α β ε : Type} {f : β → α → Except ε β} {xs : List α} {b : β} {e : ε}
    (h : xs.foldlM f b = .error e) : ∃ x ∈ xs, ∃ b, f b x = .error e := by
  induction xs generalizing b with
  | nil => cases h
  | cons y ys ih =>
    rw [List.foldlM_cons] at h
    cases hy : f b y with
    | error e' =>
      rw [hy] at h
      obtain rfl : e' = e := Except.error.inj h
      exact ⟨y, List.mem_cons_self .., b, hy⟩
    | ok b' =>
      rw [hy] at h
      obtain ⟨x, hx, hfx⟩ := ih h
      exact ⟨x, List.mem_cons_of_mem _ hx, hfx⟩

theorem bind_eq_error {α ε : Type} {x : Except ε Unit} {y : Except ε α} {e : ε} :
    (x >>= fun _ => y) = .error e ↔ x = .error e ∨ x = .ok () ∧ y = .error e := by
  cases x with
  | error e' =>
    show Except.error e' = Except.error e ↔ _
    simp
  | ok _ =>
    show y = .error e ↔ _
    simp

theorem transGen_of_isChain {α : Type} {R : α → α → Prop} {a b : α} {mid : List α}
    (h : (a :: (mid ++ [b])).IsChain R) : Relation.TransGen R a b := by
  induction mid generalizing a with
  | nil => exact .single (List.isChain_pair.1 h)
  | cons c mid ih =>
    obtain ⟨hac, hrest⟩ := List.isChain_cons_cons.1 h
    exact .head hac (ih hrest)

namespace Grammar

variable {g : Grammar}

/-! ## Rules that are invoked before a token is consumed -/

/-- The rule can be invoked in what the sequence stands for before a token is consumed: it occurs
where only what derives nothing comes before it. -/
inductive Reaches (g : Grammar) : List Production → String → Prop where
  | nonTerminal {name : String} {idx : Nat} {ps : List Production} :
      Reaches g (.nonTerminal name idx :: ps) name
  | option {idx : Nat} {body ps : List Production} {name : String} (inner : Reaches g body name) :
      Reaches g (.option idx body :: ps) name
  | many {idx : Nat} {body ps : List Production} {name : String} (inner : Reaches g body name) :
      Reaches g (.many idx body :: ps) name
  | choice {idx : Nat} {alternatives : List (List Production)} {body ps : List Production}
      {name : String} (h : body ∈ alternatives) (inner : Reaches g body name) :
      Reaches g (.choice idx alternatives :: ps) name
  | later {p : Production} {ps : List Production} {name : String} (h : g.Vanishes [p])
      (rest : Reaches g ps name) : Reaches g (p :: ps) name

theorem Reaches.append_left {ps qs : List Production} {name : String} (h : g.Reaches ps name) :
    g.Reaches (ps ++ qs) name := by
  induction h with
  | nonTerminal => exact .nonTerminal
  | option hb _ => exact .option hb
  | many hb _ => exact .many hb
  | choice h hb _ => exact .choice h hb
  | later h _ ih => exact .later h ih

theorem fromFront_reaches {name : String} : g.FromFront (.rule name) (g.Reaches · name) where
  terminal := by rintro _ _ _ ⟨⟩
  nonTerminal := by
    rintro _ _ _ ⟨⟩
    exact .nonTerminal
  option := .option
  many := .many
  choice := .choice
  later := .later

theorem Reaches.mem_leadingSeq {ps : List Production} {name : String} (h : g.Reaches ps name) :
    .rule name ∈ Production.leadingSeq g.nullableRules ps := by
  induction h with
  | nonTerminal => exact List.mem_append_left _ (List.mem_singleton.2 rfl)
  | option _ ih | many _ ih => exact List.mem_append_left _ (by rwa [Production.leading])
  | choice h _ ih =>
    refine List.mem_append_left _ ?_
    rw [Production.leading]
    exact leadingSeq_subset h ih
  | later hp _ ih =>
    rw [Production.leadingSeq, if_pos (nullable_iff.2 hp)]
    exact List.mem_append_right _ ih

/-- The first rule can invoke the second before it consumes a token. -/
def Invokes (g : Grammar) (outer inner : String) : Prop :=
  ∃ r, g.rule? outer = some r ∧ g.Reaches r.body inner

theorem invokes_iff {outer inner : String} : g.Invokes outer inner ↔ g.Opens inner outer := by
  rw [opens_iff]
  constructor
  · rintro ⟨r, hr, h⟩
    exact ⟨r, hr, h.mem_leadingSeq⟩
  · rintro ⟨r, hr, h⟩
    exact ⟨r, hr, fromFront_reaches.of_mem_leadingSeq h⟩

end Grammar

/-- The body of an option or a repetition. -/
def Production.repeated? : Production → Option (List Production)
  | .option _ body | .many _ body => some body
  | _ => none

namespace Grammar

variable {g : Grammar}

/-! ## The conditions -/

/-- Every rule that is referred to is declared. -/
def Closed (g : Grammar) : Prop :=
  ∀ rule target idx, g.Occurs rule (.nonTerminal target idx) → g.declares target = true

/-- No two productions of a rule have the same site. -/
def Distinguished (g : Grammar) : Prop :=
  ∀ r ∈ g.rules, ((Production.preorderSeq r.body).map (·.site)).Nodup

/-- No rule comes to itself before it consumes a token. -/
def Acyclic (g : Grammar) : Prop := ∀ name, ¬Relation.TransGen g.Invokes name name

/-- Every rule can begin with some token. -/
def Consuming (g : Grammar) : Prop := ∀ r ∈ g.rules, ∃ c, g.Starts r.body c

/-- The body of every option and of every repetition derives a token whenever it is taken. -/
def Advancing (g : Grammar) : Prop :=
  ∀ rule p body, g.Occurs rule p → p.repeated? = some body → ¬g.Vanishes body

/-- The grammar is fit for prediction. -/
structure WellFormed (g : Grammar) : Prop where
  closed : g.Closed
  distinguished : g.Distinguished
  acyclic : g.Acyclic
  consuming : g.Consuming
  advancing : g.Advancing

/-- The error is about the first condition that the grammar does not satisfy, and names a violation
of it. -/
inductive Refuted (g : Grammar) : AnalysisError → Prop where
  | unknownRule {rule target : String} {idx : Nat} (h : g.Occurs rule (.nonTerminal target idx))
      (hn : g.declares target = false) : Refuted g (.unknownRule rule target)
  | duplicateOccurrence {r : Rule} {site : Site} (hclosed : g.Closed) (hr : r ∈ g.rules)
      (h : 2 ≤ ((Production.preorderSeq r.body).map (·.site)).count site) :
      Refuted g (.duplicateOccurrence r.name site)
  /-- Each rule of the path can invoke the next, and the last is the first again. -/
  | leftRecursion {rule : String} {between : List String} (hclosed : g.Closed)
      (hdist : g.Distinguished) (h : (rule :: (between ++ [rule])).IsChain g.Invokes) :
      Refuted g (.leftRecursion rule (rule :: (between ++ [rule])))
  | neverConsumes {r : Rule} (hclosed : g.Closed) (hdist : g.Distinguished) (hacyclic : g.Acyclic)
      (hr : r ∈ g.rules) (h : ∀ c, ¬g.Starts r.body c) : Refuted g (.neverConsumes r.name)
  | nullableBody {rule : String} {kind : DecisionKind} {idx : Nat} {p : Production}
      {body : List Production} (hclosed : g.Closed) (hdist : g.Distinguished)
      (hacyclic : g.Acyclic) (hconsuming : g.Consuming) (hp : g.Occurs rule p)
      (hkind : p.decision? = some (kind, idx)) (hbody : p.repeated? = some body)
      (h : g.Vanishes body) : Refuted g (.nullableBody rule kind idx)

/-- A violation of a condition is one. -/
theorem Refuted.not_wellFormed {e : AnalysisError} (h : g.Refuted e) : ¬g.WellFormed := by
  intro hg
  cases h with
  | unknownRule h hn =>
    have hd := hg.closed _ _ _ h
    rw [hn] at hd
    cases hd
  | @duplicateOccurrence r site _ hr h =>
    have hle := List.nodup_iff_count_le_one.1 (hg.distinguished r hr) site
    omega
  | leftRecursion _ _ h => exact hg.acyclic _ (transGen_of_isChain h)
  | neverConsumes _ _ _ hr h =>
    obtain ⟨c, hc⟩ := hg.consuming _ hr
    exact h c hc
  | nullableBody _ _ _ _ hp _ hbody h => exact hg.advancing _ _ _ hp hbody h

/-! ## The checks -/

theorem occurs_of_mem {r : Rule} {p : Production} (hr : r ∈ g.rules)
    (hp : p ∈ Production.preorderSeq r.body) : g.Occurs r.name p :=
  ⟨r, rule?_of_mem hr, hp⟩

theorem closed_of_checkReferences (h : g.checkReferences = .ok ()) : g.Closed :=
  fun _ _ _ hp => hp.declares h

theorem refuted_of_checkReferences {e : AnalysisError} (h : g.checkReferences = .error e) :
    g.Refuted e := by
  obtain ⟨r, hr, he⟩ := forM_eq_error h
  cases hf : g.undeclaredIn? r with
  | none =>
    rw [hf] at he
    cases he
  | some target =>
    rw [hf] at he
    obtain rfl := Except.error.inj he
    obtain ⟨p, hp, hpt⟩ := List.exists_of_findSome?_eq_some hf
    cases p with
    | nonTerminal name idx =>
      by_cases hd : g.declares name = true
      · simp [hd] at hpt
      · rw [Bool.not_eq_true] at hd
        simp only [hd, Bool.false_eq_true, if_false, Option.some.injEq] at hpt
        subst hpt
        exact .unknownRule (occurs_of_mem hr hp) hd
    | terminal | option | many | choice => cases hpt

theorem count_of_firstRepeated? {seen sites : List Site} {site : Site}
    (h : firstRepeated? seen sites = some site) :
    site ∈ seen ∧ site ∈ sites ∨ 2 ≤ sites.count site := by
  induction sites generalizing seen with
  | nil => cases h
  | cons first rest ih =>
    rw [firstRepeated?] at h
    by_cases hseen : seen.contains first = true
    · rw [if_pos hseen] at h
      obtain rfl := Option.some.inj h
      exact .inl ⟨by simpa using hseen, List.mem_cons_self ..⟩
    · rw [if_neg hseen] at h
      rcases ih h with ⟨hmem, hrest⟩ | hcount
      · rcases List.mem_cons.1 hmem with rfl | hmem
        · have hpos := List.count_pos_iff.2 hrest
          rw [List.count_cons_self]
          omega
        · exact .inl ⟨hmem, List.mem_cons_of_mem _ hrest⟩
      · have hle : rest.count site ≤ (first :: rest).count site := List.count_le_count_cons
        omega

theorem refuted_of_checkOccurrences {e : AnalysisError} (hclosed : g.Closed)
    (h : g.checkOccurrences = .error e) : g.Refuted e := by
  obtain ⟨r, hr, he⟩ := forM_eq_error h
  cases hf : firstRepeated? [] ((Production.preorderSeq r.body).map (·.site)) with
  | none =>
    rw [hf] at he
    cases he
  | some site =>
    rw [hf] at he
    obtain rfl := Except.error.inj he
    rcases count_of_firstRepeated? hf with ⟨hmem, -⟩ | hcount
    · cases hmem
    · exact .duplicateOccurrence hclosed hr hcount

/-- The path is listed last first. When it comes to a rule that is on it, the part from that rule on
is a cycle. -/
theorem isChain_closed {R : String → String → Prop} {path : List String} {name : String}
    (hmem : name ∈ path) (hpath : (name :: path).IsChain fun a b => R b a) :
    (name :: ((path.takeWhile (· != name)).reverse ++ [name])).IsChain R := by
  obtain ⟨front, rest, rfl, hfront⟩ := List.eq_append_cons_of_mem hmem
  have htake : (front ++ name :: rest).takeWhile (· != name) = front := by
    rw [List.takeWhile_append_of_pos, List.takeWhile_cons_of_neg, List.append_nil]
    · simp
    · intro x hx
      rw [bne_iff_ne]
      rintro rfl
      exact hfront hx
  have hall : ((name :: (front ++ [name])) ++ rest).IsChain fun a b => R b a := by
    simpa using hpath
  have hchain := hall.left_of_append
  rw [htake]
  rw [← List.isChain_reverse] at hchain
  simpa using hchain

/-- A search for a cycle that fails has found one. -/
theorem isChain_of_findCycle {successors : String → List String} {room : Nat}
    {path done cycle : List String} {name : String}
    (hpath : (name :: path).IsChain fun a b => a ∈ successors b)
    (h : findCycle successors room path done name = .error cycle) :
    ∃ rule between, cycle = rule :: (between ++ [rule]) ∧
      cycle.IsChain fun a b => b ∈ successors a := by
  induction room generalizing path done name with
  | zero =>
    rw [findCycle] at h
    by_cases hmem : path.contains name = true
    · rw [if_pos hmem] at h
      obtain rfl := Except.error.inj h
      exact ⟨name, _, rfl, isChain_closed (by simpa using hmem) hpath⟩
    · rw [if_neg hmem, ite_self] at h
      cases h
  | succ room ih =>
    rw [findCycle] at h
    by_cases hmem : path.contains name = true
    · rw [if_pos hmem] at h
      obtain rfl := Except.error.inj h
      exact ⟨name, _, rfl, isChain_closed (by simpa using hmem) hpath⟩
    · rw [if_neg hmem] at h
      split at h
      · cases h
      · split at h
        · cases h
        · rename_i cycle' hfold
          obtain rfl := Except.error.inj h
          obtain ⟨inner, hinner, done', hrec⟩ := foldlM_eq_error hfold
          exact ih (List.isChain_cons_cons.2 ⟨hinner, hpath⟩) hrec

theorem refuted_of_checkLeftRecursion {e : AnalysisError} (hclosed : g.Closed)
    (hdist : g.Distinguished) (h : g.checkLeftRecursion g.nullableRules = .error e) :
    g.Refuted e := by
  rw [checkLeftRecursion] at h
  split at h
  · cases h
  · rename_i cycle hfold
    obtain rfl := Except.error.inj h
    obtain ⟨name, -, done, hsearch⟩ := foldlM_eq_error hfold
    obtain ⟨rule, between, rfl, hchain⟩ := isChain_of_findCycle (.singleton name) hsearch
    refine .leftRecursion hclosed hdist (hchain.imp ?_)
    intro outer inner hi
    exact invokes_iff.2 hi

theorem acyclic_of_checkLeftRecursion (h : g.checkLeftRecursion g.nullableRules = .ok ()) :
    g.Acyclic := by
  intro name hcycle
  have hswap : Relation.TransGen (Function.swap g.Opens) name name :=
    Relation.TransGen.mono (fun _ _ hi => invokes_iff.1 hi) _ _ hcycle
  have hopens : Relation.TransGen g.Opens name name := Relation.transGen_swap.1 hswap
  exact (wellFounded_opens h).transGen.irrefl.irrefl name hopens

/-! Which rules can begin with a token is read off the first sets, which are exact once there is no
left recursion. -/

theorem isEmpty_first_iff (hleft : g.checkLeftRecursion g.nullableRules = .ok ()) {r : Rule}
    (hr : r ∈ g.rules) :
    ((FirstSets.ofGrammar g).first r.name).isEmpty = true ↔ ∀ c, ¬g.Starts r.body c := by
  have hmem : ∀ c, c ∈ (FirstSets.ofGrammar g).first r.name ↔ g.Starts r.body c := by
    intro c
    rw [mem_first hleft]
    show (∃ r', g.rule? r.name = some r' ∧ g.Starts r'.body c) ↔ _
    rw [rule?_of_mem hr]
    simp
  rw [TokenSet.isEmpty, List.isEmpty_iff, List.eq_nil_iff_forall_not_mem]
  exact forall_congr' fun c => not_congr (hmem c)

theorem consuming_of_checkConsumption (hleft : g.checkLeftRecursion g.nullableRules = .ok ())
    (h : g.checkConsumption (.ofGrammar g) = .ok ()) : g.Consuming := by
  intro r hr
  have hok := forM_eq_ok h hr
  by_cases hempty : ((FirstSets.ofGrammar g).first r.name).isEmpty = true
  · simp [hempty] at hok
  · rw [isEmpty_first_iff hleft hr] at hempty
    simpa using hempty

theorem refuted_of_checkConsumption {e : AnalysisError} (hclosed : g.Closed)
    (hdist : g.Distinguished) (hleft : g.checkLeftRecursion g.nullableRules = .ok ())
    (h : g.checkConsumption (.ofGrammar g) = .error e) : g.Refuted e := by
  obtain ⟨r, hr, he⟩ := forM_eq_error h
  by_cases hempty : ((FirstSets.ofGrammar g).first r.name).isEmpty = true
  · rw [if_pos hempty] at he
    obtain rfl := Except.error.inj he
    exact .neverConsumes hclosed hdist (acyclic_of_checkLeftRecursion hleft) hr
      ((isEmpty_first_iff hleft hr).1 hempty)
  · rw [if_neg hempty] at he
    cases he

theorem nullableBody?_eq_some_iff {p : Production} {kind : DecisionKind} {idx : Nat} :
    nullableBody? (.ofGrammar g) p = some (kind, idx) ↔
      ∃ body, p.repeated? = some body ∧ p.decision? = some (kind, idx) ∧ g.Vanishes body := by
  cases p with
  | option i body | many i body =>
    simp [nullableBody?, Production.repeated?, Production.decision?, nullable_ofSeq, and_comm]
  | terminal | nonTerminal | choice => simp [nullableBody?, Production.repeated?]

theorem advancing_of_checkRepetitions (h : g.checkRepetitions (.ofGrammar g) = .ok ()) :
    g.Advancing := by
  intro rule p body hp hbody hv
  have hnone := hp.nullableBody? h
  obtain ⟨⟨kind, idx⟩, hkind⟩ : ∃ site, p.decision? = some site := by
    cases p with
    | option | many => exact ⟨_, rfl⟩
    | terminal | nonTerminal | choice => cases hbody
  rw [nullableBody?_eq_some_iff.2 ⟨body, hbody, hkind, hv⟩] at hnone
  cases hnone

theorem refuted_of_checkRepetitions {e : AnalysisError} (hclosed : g.Closed)
    (hdist : g.Distinguished) (hacyclic : g.Acyclic) (hconsuming : g.Consuming)
    (h : g.checkRepetitions (.ofGrammar g) = .error e) : g.Refuted e := by
  obtain ⟨r, hr, he⟩ := forM_eq_error h
  cases hf : (Production.preorderSeq r.body).findSome? (nullableBody? (.ofGrammar g)) with
  | none =>
    rw [hf] at he
    cases he
  | some site =>
    obtain ⟨kind, idx⟩ := site
    rw [hf] at he
    obtain rfl := Except.error.inj he
    obtain ⟨p, hp, hpsome⟩ := List.exists_of_findSome?_eq_some hf
    obtain ⟨body, hbody, hkind, hv⟩ := nullableBody?_eq_some_iff.1 hpsome
    exact .nullableBody hclosed hdist hacyclic hconsuming (occurs_of_mem hr hp) hkind hbody hv

/-! ## The analysis -/

theorem wellFormed_of_check {f : FirstSets} (h : g.check = .ok f) : g.WellFormed := by
  obtain ⟨-, hrefs, hoccs, hleft, hcons, hreps⟩ := Language.checked_eq_ok h
  exact ⟨closed_of_checkReferences hrefs, fun _ => nodup_sites hoccs,
    acyclic_of_checkLeftRecursion hleft, consuming_of_checkConsumption hleft hcons,
    advancing_of_checkRepetitions hreps⟩

/-- The checks are made one after the other, and the first that fails gives the error. -/
theorem refuted_of_check {e : AnalysisError} (h : g.check = .error e) : g.Refuted e := by
  rw [check] at h
  rcases bind_eq_error.1 h with hrefs | ⟨hrefs, h⟩
  · exact refuted_of_checkReferences hrefs
  have hclosed := closed_of_checkReferences hrefs
  rcases bind_eq_error.1 h with hoccs | ⟨hoccs, h⟩
  · exact refuted_of_checkOccurrences hclosed hoccs
  have hdist : g.Distinguished := fun _ => nodup_sites hoccs
  rcases bind_eq_error.1 h with hleft | ⟨hleft, h⟩
  · exact refuted_of_checkLeftRecursion hclosed hdist hleft
  have hacyclic := acyclic_of_checkLeftRecursion hleft
  rcases bind_eq_error.1 h with hcons | ⟨hcons, h⟩
  · exact refuted_of_checkConsumption hclosed hdist hleft hcons
  have hconsuming := consuming_of_checkConsumption hleft hcons
  rcases bind_eq_error.1 h with hreps | ⟨-, h⟩
  · exact refuted_of_checkRepetitions hclosed hdist hacyclic hconsuming hreps
  · cases h

theorem analyze_eq_error_iff {e : AnalysisError} : g.analyze = .error e ↔ g.check = .error e := by
  rw [analyze]
  cases g.check with
  | error e' =>
    show (Except.error e' : Except AnalysisError LookaheadTable) = .error e ↔ _
    simp
  | ok f =>
    constructor
    · rintro ⟨⟩
    · rintro ⟨⟩

/-- The analysis accepts exactly the grammars that are fit for prediction. The error that it refuses
another with is about the first condition that does not hold and names a violation of it. -/
theorem wellFormed_iff (g : Grammar) :
    ((∃ table, g.analyze = .ok table) ↔ g.WellFormed) ∧
      ∀ e, g.analyze = .error e → g.Refuted e := by
  have hrefuted : ∀ e, g.analyze = .error e → g.Refuted e := by
    intro e he
    exact refuted_of_check (analyze_eq_error_iff.1 he)
  refine ⟨⟨?_, ?_⟩, hrefuted⟩
  · rintro ⟨table, htable⟩
    cases hc : g.check with
    | error e =>
      rw [analyze_eq_error_iff.2 hc] at htable
      cases htable
    | ok f => exact wellFormed_of_check hc
  · intro hg
    cases ha : g.analyze with
    | error e => exact absurd hg (hrefuted e ha).not_wellFormed
    | ok table => exact ⟨table, rfl⟩

/-- Two rules that come to each other by way of an option that may be left out. -/
def entangled : Grammar :=
  .ofList [("x", [.option 1 [.terminal 0 1], .nonTerminal "y" 1]),
    ("y", [.choice 1 [[.nonTerminal "x" 1, .terminal 1 1], [.terminal 1 2]]])]

/-- The grammar of the calculator language is fit for prediction, and the entangled rules are not:
the error names the cycle. -/
theorem wellFormed_iff_calc_entangled :
    Calc.language.grammar.analyze = .ok Calc.language.table ∧ Calc.language.grammar.WellFormed ∧
    entangled.analyze = .error (.leftRecursion "x" ["x", "y", "x"]) ∧
    entangled.Refuted (.leftRecursion "x" ["x", "y", "x"]) := by
  have hcalc : Calc.language.grammar.analyze = .ok Calc.language.table :=
    (Language.outlined_of_build Calc.build_draft Calc.plain_draft).2.analyze
  have herror : entangled.analyze = .error (.leftRecursion "x" ["x", "y", "x"]) := by
    decide +kernel
  exact ⟨hcalc, (wellFormed_iff _).1.1 ⟨_, hcalc⟩, herror, (wellFormed_iff entangled).2 _ herror⟩

end Grammar

end TopDown
