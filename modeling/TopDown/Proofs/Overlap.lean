import TopDown.Proofs.Hierarchy
import TopDown.Proofs.Prediction
import TopDown.Proofs.WellFormed

/-!
# Alternatives that overlap

The analysis reports two alternatives of a choice if their first sets have a class in common
(`Grammar.reports_iff`), while the engine goes by the classes that the sets admit. A token that both
sets admit has an ancestor in each of them, and its ancestors form a chain, so the two ancestors are
the same class or one of them lies above the other (`TokenSet.contested_iff`). Overlaps of the second
kind, where one alternative can start with a class and the other with a category above it, go
unreported: `Grammar.reports_iff_contested`.
-/

namespace TopDown

open Declaration

/-! ## Sets that admit the same tokens -/

/-- Tokens of some class are admitted by both sets. -/
def TokenSet.Contested (v : Vocabulary) (s t : TokenSet) : Prop :=
  ∃ kind < v.size, s.admits v kind = true ∧ t.admits v kind = true

/-- A class of the one set lies above a class of the other. -/
def TokenSet.Crossed (v : Vocabulary) (s t : TokenSet) : Prop :=
  ∃ a ∈ s, ∃ b ∈ t, a < v.size ∧ b < v.size ∧ a ≠ b ∧ (v.isA a b = true ∨ v.isA b a = true)

section Hierarchy

variable {ds : List Declaration} {v : Vocabulary} {kind a b : TokenId} {s t : TokenSet}

theorem Vocabulary.isA_refl (h : kind < v.size) : v.isA kind kind = true :=
  isA_self (List.getElem?_eq_getElem h)

/-- The classes for which a class is accepted lie above each other. -/
theorem Vocabulary.Mirrors.isA_total (h : v.Mirrors ds) (hw : WellDeclared ds)
    (hkind : kind < v.size) (ha : v.isA kind a = true) (hb : v.isA kind b = true) :
    a < v.size ∧ b < v.size ∧ (v.isA a b = true ∨ v.isA b a = true) := by
  have hid : kind < ds.length := h.size_eq ▸ hkind
  have halt : a < v.size := Nat.lt_of_le_of_lt (h.le_of_isA hw hid ha) hkind
  have hblt : b < v.size := Nat.lt_of_le_of_lt (h.le_of_isA hw hid hb) hkind
  refine ⟨halt, hblt, ?_⟩
  rw [h.isA_iff hw (h.size_eq ▸ halt), h.isA_iff hw (h.size_eq ▸ hblt)]
  have hunique : Relator.RightUnique (ChildOf ds) := fun _ _ _ hp hp' => hp.unique hp'
  exact Relation.ReflTransGen.total_of_right_unique hunique ((h.isA_iff hw hid).1 ha)
    ((h.isA_iff hw hid).1 hb)

theorem TokenSet.contested_of_mem {c : TokenId} (hc : c < v.size) (hs : c ∈ s) (ht : c ∈ t) :
    Contested v s t :=
  ⟨c, hc, admits_iff.2 ⟨c, hs, v.isA_refl hc⟩, admits_iff.2 ⟨c, ht, v.isA_refl hc⟩⟩

/-- A token of the lower class is admitted by both sets. -/
theorem TokenSet.Crossed.contested (h : Crossed v s t) : Contested v s t := by
  obtain ⟨a, hs, b, ht, ha, hb, -, hab | hba⟩ := h
  · exact ⟨a, ha, admits_iff.2 ⟨a, hs, v.isA_refl ha⟩, admits_iff.2 ⟨b, ht, hab⟩⟩
  · exact ⟨b, hb, admits_iff.2 ⟨a, hs, hba⟩, admits_iff.2 ⟨b, ht, v.isA_refl hb⟩⟩

/-- Two sets admit the same token in one of two ways. -/
theorem TokenSet.contested_iff (hv : Vocabulary.build ds = .ok v) :
    Contested v s t ↔ (∃ c < v.size, c ∈ s ∧ c ∈ t) ∨ Crossed v s t := by
  constructor
  · rintro ⟨kind, hkind, hs, ht⟩
    obtain ⟨a, has, ha⟩ := admits_iff.1 hs
    obtain ⟨b, hbt, hb⟩ := admits_iff.1 ht
    obtain ⟨halt, hblt, htotal⟩ := (Vocabulary.mirrors_of_build hv).isA_total
      (Vocabulary.exists_build_iff.1 ⟨v, hv⟩) hkind ha hb
    by_cases heq : a = b
    · exact .inl ⟨a, halt, has, heq ▸ hbt⟩
    · exact .inr ⟨a, has, b, hbt, halt, hblt, heq, htotal⟩
  · rintro (⟨c, hc, hs, ht⟩ | h)
    · exact contested_of_mem hc hs ht
    · exact h.contested

end Hierarchy

/-! ## What is reported -/

section Reports

variable {key : DecisionKey} {branches : List Lookahead} {o : Overlap}

theorem TokenSet.isEmpty_inter_iff {s t : TokenSet} :
    (s.inter t).isEmpty = false ↔ ∃ c, c ∈ s ∧ c ∈ t := by
  rw [isEmpty, List.isEmpty_eq_false_iff_exists_mem]
  exact exists_congr fun _ => mem_inter

/-- The overlaps of a decision are its pairs of branches with a class in common. -/
theorem mem_overlapsOf_iff : o ∈ overlapsOf key branches ↔
    ∃ a b, branches[o.first]? = some a ∧ branches[o.second]? = some b ∧ o.first < o.second ∧
      (a.set.inter b.set).isEmpty = false ∧ o = ⟨key, o.first, o.second, a.set.inter b.set⟩ := by
  constructor
  · intro h
    obtain ⟨⟨a, i⟩, ha, h⟩ := List.mem_flatMap.1 h
    obtain ⟨⟨b, j⟩, hb, h⟩ := List.mem_filterMap.1 h
    rw [List.mem_zipIdx_iff_getElem?] at ha hb
    dsimp only at ha hb h
    by_cases hc : (decide (i < j) && !(a.set.inter b.set).isEmpty) = true
    · rw [if_pos hc] at h
      cases h
      rw [Bool.and_eq_true, decide_eq_true_iff, Bool.not_eq_true'] at hc
      exact ⟨a, b, ha, hb, hc.1, hc.2, rfl⟩
    · rw [if_neg hc] at h
      cases h
  · rintro ⟨a, b, ha, hb, hlt, hempty, heq⟩
    refine List.mem_flatMap.2 ⟨(a, o.first), List.mem_zipIdx_iff_getElem?.2 ha, ?_⟩
    refine List.mem_filterMap.2 ⟨(b, o.second), List.mem_zipIdx_iff_getElem?.2 hb, ?_⟩
    have hc : (decide (o.first < o.second) && !(a.set.inter b.set).isEmpty) = true := by
      rw [Bool.and_eq_true, decide_eq_true_iff, Bool.not_eq_true']
      exact ⟨hlt, hempty⟩
    dsimp only
    rw [if_pos hc, ← heq]

end Reports

namespace Grammar

variable {g : Grammar} {ds : List Declaration} {v : Vocabulary}

/-- The classes that a sequence can start with, as the analysis finds them. -/
def firstSet (g : Grammar) (ps : List Production) : TokenSet := ((FirstSets.ofGrammar g).ofSeq ps).set

/-- The analysis reports that the alternatives at places `i` and `j` of the choice overlap. -/
def Reports (g : Grammar) (key : DecisionKey) (i j : Nat) : Prop :=
  ∃ o ∈ g.overlaps (.ofGrammar g), o.key = key ∧ o.first = i ∧ o.second = j

theorem check_of_analyze {t : LookaheadTable} (h : g.analyze = .ok t) :
    g.check = .ok (.ofGrammar g) ∧ t = g.table (.ofGrammar g) := by
  cases hcheck : g.check with
  | error e =>
    rw [analyze_eq_error_iff.2 hcheck] at h
    cases h
  | ok f =>
    rw [analyze, hcheck] at h
    obtain ⟨rfl, -⟩ := Language.checked_eq_ok hcheck
    exact ⟨rfl, (Except.ok.inj h).symm⟩

/-- The records of the analysis are those of the overlaps. -/
theorem analysisLog_of_analyze {t : LookaheadTable} (h : g.analyze = .ok t) :
    g.analysisLog v = (g.overlaps (.ofGrammar g)).map (·.logRecord v) := by
  rw [analysisLog, (check_of_analyze h).1]

section Choice

variable {table : LookaheadTable} {r : Rule} {idx i j : Nat} {alternatives : List (List Production)}
  {a b : List Production}

/-- The lookahead of the alternatives of a choice is an entry of its own in the table. -/
theorem mem_decisions (hr : r ∈ g.rules)
    (hp : .choice idx alternatives ∈ Production.preorderSeq r.body) :
    (⟨r.name, .choice, idx⟩, alternatives.map (FirstSets.ofGrammar g).ofSeq) ∈
      g.rules.flatMap (FirstSets.ofGrammar g).decisionsOf :=
  List.mem_flatMap.2 ⟨r, hr, List.mem_filterMap.2 ⟨.choice idx alternatives, hp, rfl⟩⟩

theorem eq_of_mem_decisions (hg : g.analyze = .ok table) {key : DecisionKey}
    {branches : List Lookahead}
    (h : (key, branches) ∈ g.rules.flatMap (FirstSets.ofGrammar g).decisionsOf) :
    table.decision? key = some branches := by
  obtain ⟨hcheck, rfl⟩ := check_of_analyze hg
  obtain ⟨-, -, hoccs, -, -, -⟩ := Language.checked_eq_ok hcheck
  have hkeyed := keyed_decisions (.ofGrammar g)
  exact lookup_of_mem (hkeyed.nodup_flatMap g.distinct fun _ => nodup_sites hoccs) h

/-- The analysis reports two alternatives exactly if their first sets have a class in common. -/
theorem reports_iff (hg : g.analyze = .ok table) (hr : r ∈ g.rules)
    (hp : .choice idx alternatives ∈ Production.preorderSeq r.body)
    (ha : alternatives[i]? = some a) (hb : alternatives[j]? = some b) (hij : i < j) :
    g.Reports ⟨r.name, .choice, idx⟩ i j ↔ ∃ c, c ∈ g.firstSet a ∧ c ∈ g.firstSet b := by
  have hentry := mem_decisions hr hp
  have hplace {k : Nat} {ps : List Production} (h : alternatives[k]? = some ps) :
      (alternatives.map (FirstSets.ofGrammar g).ofSeq)[k]? =
        some ((FirstSets.ofGrammar g).ofSeq ps) := by
    rw [List.getElem?_map, h, Option.map_some]
  rw [← TokenSet.isEmpty_inter_iff]
  constructor
  · rintro ⟨o, ho, hkey, rfl, rfl⟩
    obtain ⟨⟨key, branches⟩, hmem, ho⟩ := List.mem_flatMap.1 ho
    dsimp only at ho
    by_cases hkind : key.kind = .choice
    · rw [if_pos hkind] at ho
      obtain ⟨s, t, hs, ht, -, hempty, heq⟩ := mem_overlapsOf_iff.1 ho
      -- the branches are those of the choice, whose key they have
      obtain rfl : key = ⟨r.name, .choice, idx⟩ := by
        rw [heq] at hkey
        exact hkey
      have hsame := (eq_of_mem_decisions hg hmem).symm.trans (eq_of_mem_decisions hg hentry)
      obtain rfl := Option.some.inj hsame
      rw [hplace ha] at hs
      rw [hplace hb] at ht
      cases hs
      cases ht
      exact hempty
    · rw [if_neg hkind] at ho
      cases ho
  · intro hempty
    refine ⟨⟨⟨r.name, .choice, idx⟩, i, j, (g.firstSet a).inter (g.firstSet b)⟩,
      List.mem_flatMap.2 ⟨_, hentry, ?_⟩, rfl, rfl, rfl⟩
    dsimp only
    rw [if_pos rfl]
    exact mem_overlapsOf_iff.2 ⟨_, _, hplace ha, hplace hb, hij, hempty, rfl⟩

/-- No alternative after one that admits the token is chosen. -/
theorem chosenBranch?_le {l : Language} {kind : TokenId} (ha : alternatives[i]? = some a)
    (hkind : (g.firstSet a).admits l.vocabulary kind = true) {k : Nat}
    (hk : l.chosenBranch? (alternatives.map (FirstSets.ofGrammar g).ofSeq) kind = some k) :
    k ≤ i := by
  obtain ⟨hlt, rfl⟩ := List.getElem?_eq_some_iff.1 ha
  have hlt' : i < (alternatives.map (FirstSets.ofGrammar g).ofSeq).length := by
    rwa [List.length_map]
  have hadmits : (alternatives.map (FirstSets.ofGrammar g).ofSeq)[i].set.admits l.vocabulary kind =
      true := by
    rw [List.getElem_map]
    exact hkind
  rw [Language.chosenBranch?] at hk
  cases hfind : (alternatives.map (FirstSets.ofGrammar g).ofSeq).findIdx?
      (·.set.admits l.vocabulary kind) with
  | none =>
    have hfalse := List.findIdx?_eq_none_iff.1 hfind _ (List.getElem_mem hlt')
    rw [hadmits] at hfalse
    cases hfalse
  | some k' =>
    rw [hfind] at hk
    obtain rfl : k' = k := Option.some.inj hk
    obtain ⟨_, _, hfirst⟩ := List.findIdx?_eq_some_iff_getElem.1 hfind
    exact Nat.not_lt.1 fun hik => hfirst i hik hadmits

/-- The analysis reports two alternatives of a choice exactly if their first sets have a class in
common. They admit a common token also if a class of the one set lies above a class of the other,
and such an overlap is not reported. What the first of them admits never leads to the second. -/
theorem reports_iff_contested (hv : Vocabulary.build ds = .ok v) (hg : g.analyze = .ok table)
    (hr : r ∈ g.rules) (hp : .choice idx alternatives ∈ Production.preorderSeq r.body)
    (ha : alternatives[i]? = some a) (hb : alternatives[j]? = some b) (hij : i < j) :
    g.analysisLog v = (g.overlaps (.ofGrammar g)).map (·.logRecord v) ∧
    (g.Reports ⟨r.name, .choice, idx⟩ i j ↔ ∃ c, c ∈ g.firstSet a ∧ c ∈ g.firstSet b) ∧
    ((g.firstSet a).Contested v (g.firstSet b) ↔
      (∃ c < v.size, c ∈ g.firstSet a ∧ c ∈ g.firstSet b) ∨
        (g.firstSet a).Crossed v (g.firstSet b)) ∧
    ((g.Reports ⟨r.name, .choice, idx⟩ i j ↔ (g.firstSet a).Contested v (g.firstSet b)) ↔
      (∃ c < v.size, c ∈ g.firstSet a ∧ c ∈ g.firstSet b) ∨
        ((g.firstSet a).Crossed v (g.firstSet b) ↔ ∃ c, c ∈ g.firstSet a ∧ c ∈ g.firstSet b)) ∧
    ∃ branches, table.decision? ⟨r.name, .choice, idx⟩ = some branches ∧
      ∀ l : Language, l.vocabulary = v → ∀ kind, (g.firstSet a).admits v kind = true →
        l.chosenBranch? branches kind ≠ some j := by
  have hreports := reports_iff hg hr hp ha hb hij
  have hcontested := TokenSet.contested_iff (s := g.firstSet a) (t := g.firstSet b) hv
  refine ⟨analysisLog_of_analyze hg, hreports, hcontested, ?_,
    _, eq_of_mem_decisions hg (mem_decisions hr hp), ?_⟩
  · rw [hreports, hcontested]
    by_cases hdeclared : ∃ c < v.size, c ∈ g.firstSet a ∧ c ∈ g.firstSet b
    · obtain ⟨c, -, hc⟩ := id hdeclared
      exact iff_of_true (iff_of_true ⟨c, hc⟩ (.inl hdeclared)) (.inl hdeclared)
    · rw [or_iff_right hdeclared, or_iff_right hdeclared]
      exact iff_comm
  · rintro l rfl kind hkind hj
    exact Nat.not_le.2 hij (chosenBranch?_le ha hkind hj)

/-- A sign and the category that it belongs to. -/
def signs : List Declaration := [.category "Operator", (Declaration.token "Plus" "\\+").under 0]

theorem exists_build_signs : ∃ v, Vocabulary.build signs = .ok v ∧ v.Mirrors signs := by
  have hok : (Vocabulary.build signs).isOk = true := by decide +kernel
  cases hv : Vocabulary.build signs with
  | error e =>
    rw [hv] at hok
    cases hok
  | ok v => exact ⟨v, rfl, Vocabulary.mirrors_of_build hv⟩

theorem exists_analyze {g : Grammar} (h : g.analyze.isOk = true) : ∃ t, g.analyze = .ok t := by
  cases ht : g.analyze with
  | error e =>
    rw [ht] at h
    cases h
  | ok t => exact ⟨t, rfl⟩

/-- A category, a class of the category, or the category again before the class. -/
def repetitive : Grammar :=
  .ofList [("r", [.choice 1 [[.terminal 0 1], [.terminal 1 1], [.terminal 0 2, .terminal 1 2]]])]

/-- The first and the last alternative start with the category, which is reported. -/
theorem reports_iff_contested_repetitive : ∃ v table, Vocabulary.build signs = .ok v ∧
    repetitive.analyze = .ok table ∧ repetitive.Reports ⟨"r", .choice, 1⟩ 0 2 ∧
    (repetitive.firstSet [.terminal 0 1]).Contested v
      (repetitive.firstSet [.terminal 0 2, .terminal 1 2]) := by
  obtain ⟨v, hv, hmirrors⟩ := exists_build_signs
  obtain ⟨table, hg⟩ := exists_analyze (g := repetitive) (by decide)
  obtain ⟨-, hreports, hcontested, -⟩ := reports_iff_contested hv hg
    (i := 0) (j := 2) (List.mem_singleton_self _) (List.mem_cons_self ..) rfl rfl (by decide)
  have hfirst : 0 ∈ repetitive.firstSet [.terminal 0 1] := TokenSet.contains_iff.1 (by decide)
  have hlast : 0 ∈ repetitive.firstSet [.terminal 0 2, .terminal 1 2] :=
    TokenSet.contains_iff.1 (by decide)
  have hdeclared : 0 < v.size := hmirrors.size_eq ▸ (by decide : 0 < signs.length)
  exact ⟨v, table, hv, hg, hreports.2 ⟨0, hfirst, hlast⟩,
    hcontested.2 (.inl ⟨0, hdeclared, hfirst, hlast⟩)⟩

/-- A category or a class of the category. -/
def shadowed : Grammar := .ofList [("r", [.choice 1 [[.terminal 0 1], [.terminal 1 1]]])]

/-- Both alternatives admit a token of the class, and nothing is reported. -/
theorem not_reports_shadowed : ∃ v table, Vocabulary.build signs = .ok v ∧
    shadowed.analyze = .ok table ∧
    (shadowed.firstSet [.terminal 0 1]).Contested v (shadowed.firstSet [.terminal 1 1]) ∧
    ¬shadowed.Reports ⟨"r", .choice, 1⟩ 0 1 ∧ shadowed.analysisLog v = [] := by
  obtain ⟨v, hv, hmirrors⟩ := exists_build_signs
  obtain ⟨table, hg⟩ := exists_analyze (g := shadowed) (by decide)
  have hnone : shadowed.overlaps (.ofGrammar shadowed) = [] := List.isEmpty_iff.1 (by decide)
  refine ⟨v, table, hv, hg, ?_, ?_, ?_⟩
  · have hpath : Relation.ReflTransGen (ChildOf signs) 1 0 := .single ⟨_, rfl, rfl⟩
    have hsize : v.size = 2 := hmirrors.size_eq
    have habove : v.isA 1 0 = true :=
      (hmirrors.isA_iff (Vocabulary.exists_build_iff.1 ⟨v, hv⟩) (by decide)).2 hpath
    refine TokenSet.Crossed.contested ⟨0, TokenSet.contains_iff.1 (by decide), 1,
      TokenSet.contains_iff.1 (by decide), ?_, ?_, by decide, .inr habove⟩
    · rw [hsize]
      exact Nat.zero_lt_two
    · rw [hsize]
      exact Nat.one_lt_two
  · rintro ⟨o, ho, -⟩
    rw [hnone] at ho
    cases ho
  · rw [analysisLog_of_analyze hg, hnone, List.map_nil]

end Choice

end Grammar

end TopDown
