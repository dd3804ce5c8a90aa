import TopDown.Proofs.Predictive
import TopDown.Proofs.Soundness

/-!
# Completeness of parsing

Every derivation from the start rule of an LL(1) grammar is read as it is, down to the nesting
limit. The derivation leads the run: what it derives next is what the parser predicts, and after a
repetition comes what the table says, so nothing is ever skipped. `Language.Reads` says what the
steps for a part of the derivation come to, whether there is room for it or not.
-/

namespace TopDown

theorem findIdx?_eq_some_of_unique {α : Type} {p : α → Bool} {xs : List α} {i : Nat} {x : α}
    (hx : xs[i]? = some x) (hp : p x = true)
    (hu : ∀ j y, xs[j]? = some y → p y = true → j = i) : xs.findIdx? p = some i := by
  cases h : xs.findIdx? p with
  | none =>
    have hfalse := List.findIdx?_eq_none_iff.1 h x (List.mem_of_getElem? hx)
    rw [hp] at hfalse
    cases hfalse
  | some j =>
    obtain ⟨hlt, hj, -⟩ := List.findIdx?_eq_some_iff_getElem.1 h
    rw [hu j xs[j] (List.getElem?_eq_getElem hlt) hj]

/-- At most one member of the list has the property. -/
theorem eq_of_pairwise_not {α : Type} {p : α → Prop} {xs : List α}
    (h : xs.Pairwise fun a b => p a → ¬p b) {i j : Nat} {a b : α} (ha : xs[i]? = some a)
    (hb : xs[j]? = some b) (hpa : p a) (hpb : p b) : i = j := by
  obtain ⟨hi, rfl⟩ := List.getElem?_eq_some_iff.1 ha
  obtain ⟨hj, rfl⟩ := List.getElem?_eq_some_iff.1 hb
  rw [List.pairwise_iff_getElem] at h
  rcases Nat.lt_trichotomy i j with hlt | heq | hgt
  · exact absurd hpb (h i j hi hj hlt hpa)
  · exact heq
  · exact absurd hpa (h j i hj hi hgt hpb)

namespace Language

variable {l : Language} {room : Nat} {stack : Stack} {s : ParseState} {steps : List Step}
  {step : Step} {trees : List Tree} {ws : List Token}

/-! ## What is predicted -/

section Choice

variable {alternatives : List (List Production)} {body : List Production} {i : Nat}
  {kind : TokenId}

/-- The only alternative that admits the token is taken. -/
theorem Outlined.chosenBranch?_of_admits (ho : l.Outlined)
    (hd : alternatives.Pairwise fun a b =>
      ∀ kind, l.grammar.Admits l.vocabulary a kind → ¬l.grammar.Admits l.vocabulary b kind)
    (hi : alternatives[i]? = some body) (ha : l.grammar.Admits l.vocabulary body kind) :
    l.chosenBranch? (alternatives.map l.first.ofSeq) kind = some i := by
  have hfind : (alternatives.map l.first.ofSeq).findIdx? (·.set.admits l.vocabulary kind) =
      some i := by
    rw [List.findIdx?_map]
    refine findIdx?_eq_some_of_unique hi (ho.admits_ofSeq.2 ha) ?_
    intro j other hj hother
    exact eq_of_pairwise_not (hd.imp fun h => h kind) hj hi (ho.admits_ofSeq.1 hother) ha
  rw [chosenBranch?, hfind]

/-- The only alternative that vanishes is taken if none admits the token. -/
theorem Outlined.chosenBranch?_of_vanishes (ho : l.Outlined)
    (hv : alternatives.Pairwise fun a b => l.grammar.Vanishes a → ¬l.grammar.Vanishes b)
    (hn : ∀ other ∈ alternatives, ¬l.grammar.Admits l.vocabulary other kind)
    (hi : alternatives[i]? = some body) (hb : l.grammar.Vanishes body) :
    l.chosenBranch? (alternatives.map l.first.ofSeq) kind = some i := by
  have hnone : (alternatives.map l.first.ofSeq).findIdx? (·.set.admits l.vocabulary kind) =
      none := by
    rw [List.findIdx?_eq_none_iff]
    intro x hx
    obtain ⟨other, hmem, rfl⟩ := List.mem_map.1 hx
    exact Bool.eq_false_iff.2 fun h => hn other hmem (ho.admits_ofSeq.1 h)
  have hfind : (alternatives.map l.first.ofSeq).findIdx? (·.nullable) = some i := by
    rw [List.findIdx?_map]
    refine findIdx?_eq_some_of_unique hi (nullable_ofSeq.2 hb) ?_
    intro j other hj hother
    exact eq_of_pairwise_not hv hj hi (nullable_ofSeq.1 hother) hb
  rw [chosenBranch?, hnone]
  exact hfind

/-- The alternative that comes next in a derivation is taken. -/
theorem Outlined.chosenBranch?_of_derives (ho : l.Outlined) {start : String}
    (hll : l.grammar.IsLL1 l.vocabulary start) {idx : Nat} {k : List Production} {us : List Token}
    (hup : l.grammar.Upcoming start (.choice idx alternatives :: k))
    (hi : alternatives[i]? = some body) (hbody : l.grammar.Derives l.vocabulary body us)
    (hk : l.grammar.Derives l.vocabulary k ws) (hrest : s.cursor.rest = us ++ ws) :
    l.chosenBranch? (alternatives.map l.first.ofSeq) (s.nextKind l.vocabulary) = some i := by
  by_cases hne : us = []
  · -- the next token follows the choice, so it begins no alternative
    subst hne
    obtain rfl : s.cursor.rest = ws := hrest
    have hv := hbody.vanishes rfl
    have hmem := List.mem_of_getElem? hi
    refine ho.chosenBranch?_of_vanishes (hll.vanishing _ _ _ hup) ?_ hi hv
    intro other hother ha
    exact hll.choice _ _ _ hup body hmem hv other hother _ ha hk.follows
  · exact ho.chosenBranch?_of_admits (hll.distinct _ _ _ hup) hi (hbody.admits_nextKind hne hrest)

end Choice

/-! ## Reading a part of a derivation -/

/-- The steps give the trees and leave the tokens, if there is room for the rules in the trees.
Otherwise they end at a rule that is nested too deep. In neither case is there a syntax error. -/
structure Reads (l : Language) (room : Nat) (stack : Stack) (steps : List Step) (s : ParseState)
    (trees : List Tree) (ws : List Token) : Prop where
  fits : Tree.depthSeq trees ≤ room →
    ∃ s', Runs l room stack steps s (.ok trees s') ∧ s'.cursor.rest = ws ∧ s'.errors = []
  tooDeep : room < Tree.depthSeq trees → ∃ rule s', Runs l room stack steps s
    (.error (.fatal (.recursionLimit rule l.config.maxDepth)) s') ∧ s'.errors = []

/-- Steps that enter no rule. -/
theorem Reads.of_run {s' : ParseState} (h : Runs l room stack steps s (.ok trees s'))
    (hdepth : Tree.depthSeq trees = 0) (hrest : s'.cursor.rest = ws) (hs : s'.errors = []) :
    l.Reads room stack steps s trees ws := by
  refine ⟨fun _ => ⟨s', h, hrest, hs⟩, fun hlt => ?_⟩
  rw [hdepth] at hlt
  exact absurd hlt (Nat.not_lt_zero _)

/-- A step that does steps and puts their trees into another form. -/
theorem Reads.wrap {f : List Tree → List Tree} (h : l.Reads room stack steps s trees ws)
    (hdepth : Tree.depthSeq (f trees) = Tree.depthSeq trees)
    (hrun : ∀ r, Runs l room stack steps s r → Runs l room stack [step] s (r.map f)) :
    l.Reads room stack [step] s (f trees) ws := by
  refine ⟨fun hle => ?_, fun hlt => ?_⟩
  · obtain ⟨s', hr, hrest, hs⟩ := h.fits (hdepth ▸ hle)
    exact ⟨s', hrun _ hr, hrest, hs⟩
  · obtain ⟨rule, s', hr, hs⟩ := h.tooDeep (hdepth ▸ hlt)
    exact ⟨rule, s', hrun _ hr, hs⟩

/-- One step after the other. -/
theorem Reads.cons {tree : Tree} {rest : List Step} {mid : List Token}
    (hhead : l.Reads room stack [step] s [tree] mid)
    (htail : ∀ s', s'.cursor.rest = mid → s'.errors = [] → l.Reads room stack rest s' trees ws) :
    l.Reads room stack (step :: rest) s (tree :: trees) ws := by
  have hdepth := Tree.depthSeq_singleton tree
  refine ⟨fun hle => ?_, fun hlt => ?_⟩
  · rw [Tree.depthSeq, Nat.max_le] at hle
    obtain ⟨s', hr, hmid, hs⟩ := hhead.fits (hdepth ▸ hle.1)
    obtain ⟨s'', hr', hrest, hs'⟩ := (htail s' hmid hs).fits hle.2
    exact ⟨s'', .cons hr hr', hrest, hs'⟩
  · by_cases hfirst : tree.depth ≤ room
    · obtain ⟨s', hr, hmid, hs⟩ := hhead.fits (hdepth ▸ hfirst)
      have hlater : room < Tree.depthSeq trees := by
        rw [Tree.depthSeq] at hlt
        omega
      obtain ⟨rule, s'', hr', hs'⟩ := (htail s' hmid hs).tooDeep hlater
      exact ⟨rule, s'', .cons hr hr', hs'⟩
    · obtain ⟨rule, s', hr, hs⟩ := hhead.tooDeep (hdepth ▸ Nat.lt_of_not_le hfirst)
      exact ⟨rule, s', .fails hr, hs⟩

/-- One more round of a repetition. -/
theorem Reads.round {idx : Nat} {branches : List Lookahead} {parts : List Tree}
    {more : List (List Tree)} {mid : List Token} (hb : l.branches stack .many idx = .ok branches)
    (hp : l.predicts branches s = true) (hbody : l.Reads room stack steps s parts mid)
    (hlt : mid.length < s.cursor.rest.length)
    (hagain : ∀ s', s'.cursor.rest = mid → s'.errors = [] →
      l.Reads room stack [.many idx steps] s' [.rounds more] ws) :
    l.Reads room stack [.many idx steps] s [.rounds (parts :: more)] ws := by
  have hdepth : Tree.depthSeq [.rounds (parts :: more)] =
      max (Tree.depthSeq parts) (Tree.depthSeq [.rounds more]) := by
    simp only [Tree.depthSeq_singleton, Tree.depth, Tree.depthRounds]
  refine ⟨fun hle => ?_, fun hgt => ?_⟩
  · rw [hdepth, Nat.max_le] at hle
    obtain ⟨s', hr, hmid, hs⟩ := hbody.fits hle.1
    obtain ⟨s'', hr', hrest, hs'⟩ := (hagain s' hmid hs).fits hle.2
    exact ⟨s'', .round hb hp hr (hmid ▸ hlt) hr', hrest, hs'⟩
  · by_cases hfirst : Tree.depthSeq parts ≤ room
    · obtain ⟨s', hr, hmid, hs⟩ := hbody.fits hfirst
      have hlater : room < Tree.depthSeq [.rounds more] := by
        rw [hdepth] at hgt
        omega
      obtain ⟨rule, s'', hr', hs'⟩ := (hagain s' hmid hs).tooDeep hlater
      exact ⟨rule, s'', .round hb hp hr (hmid ▸ hlt) hr', hs'⟩
    · obtain ⟨rule, s', hr, hs⟩ := hbody.tooDeep (Nat.lt_of_not_le hfirst)
      exact ⟨rule, s', .roundFails hb hp hr, hs⟩

/-- A token that is called for. -/
theorem reads_consume {token : TokenId} {idx : Nat} {t : Token}
    (ha : l.vocabulary.isA t.kind token = true) (hrest : s.cursor.rest = t :: ws)
    (hs : s.errors = []) : l.Reads room stack [.consume token idx] s [.token t] ws := by
  obtain ⟨⟨past, rest⟩, history⟩ := s
  obtain rfl : rest = t :: ws := hrest
  have hrun : Runs l room stack [.consume token idx] ⟨⟨past, t :: ws⟩, history⟩
      (Result.map (fun t => [.token t]) _) := .consume
  rw [consume_eq_ok rfl ha] at hrun
  refine .of_run hrun (Tree.depthSeq_singleton _) rfl ?_
  rw [← hs]
  exact ParseState.errors_note (s := ⟨⟨past, t :: ws⟩, history⟩) (e := .consumed past.length) rfl

/-- A rule that is called for. It takes one place in the room. -/
theorem reads_subrule {name : String} {idx : Nat} {r : RuleDef} {inner : Stack} {parts : List Tree}
    (hr : l.rule? name = some r)
    (hinner : inner = stack.push r.name ⟨stack.rule, .rule name, idx⟩ s.position)
    (hs : s.errors = [])
    (hbody : ∀ room, l.Reads room inner r.body (s.note (.entered inner)) parts ws) :
    l.Reads room stack [.subrule name idx] s [.node name parts] ws := by
  have hdepth : Tree.depthSeq [.node name parts] = Tree.depthSeq parts + 1 := by
    rw [Tree.depthSeq_singleton, Tree.depth]
  have hrule : inner.rule = name := by rw [hinner, Stack.rule_push, name_of_rule? hr]
  cases room with
  | zero =>
    refine ⟨fun hle => by omega, fun _ => ⟨r.name, _, .refused hr, ?_⟩⟩
    rw [ParseState.errors_note rfl, hs]
  | succ room =>
    refine ⟨fun hle => ?_, fun hlt => ?_⟩
    · obtain ⟨s', hrun, hrest, hs'⟩ := (hbody room).fits (by omega)
      have hnode := Runs.entered hr hinner hrun
      rw [leave, hrule] at hnode
      exact ⟨s', hnode, hrest, hs'⟩
    · obtain ⟨rule, s', hrun, hs'⟩ := (hbody room).tooDeep (by omega)
      exact ⟨rule, s', .entered hr hinner hrun, hs'⟩

/-! ## The steps of a part of a derivation -/

/-- What has to come after a repetition comes if `k` is left to read. -/
def Awaits (l : Language) (stack : Stack) (next : AfterRepetition) (k : List Production) : Prop :=
  ∀ expected, l.Ends stack next expected → ∀ s : ParseState,
    l.grammar.Derives l.vocabulary k s.cursor.rest →
      l.vocabulary.isA (s.nextKind l.vocabulary) expected = true

variable {tail : Lookahead} {next : AfterRepetition} {k : List Production}

/-- The steps that come next are what a repetition before them awaits. -/
theorem Awaits.prepend (h : l.Awaits stack next k)
    (hplain : Step.plainSeq steps = true) {rule : String} :
    l.Awaits stack (l.first.walkSeq rule tail next (Step.outlineSeq steps)).next
      (Step.outlineSeq steps ++ k) := by
  intro expected hend s hk
  rcases next_walkSeq_outlineSeq hplain hend with ⟨rfl, hend⟩ | ⟨idx, rest, rfl⟩
  · exact h expected hend s hk
  · generalize hus : s.cursor.rest = us at hk
    cases hk with
    | terminal ha _ =>
      rw [ParseState.nextKind_eq, hus]
      exact ha

/-- Nothing is skipped after a repetition if what has to come after it comes. -/
theorem Awaits.recoverInRepetition_eq_none (h : l.Awaits stack next k) {key : DecisionKey}
    {branches : List Lookahead} (hnext : l.table.afterRepetition? key = some next)
    (hk : l.grammar.Derives l.vocabulary k s.cursor.rest) :
    l.recoverInRepetition stack key branches s = none := by
  cases hr : l.recoverInRepetition stack key branches s with
  | none => rfl
  | some target =>
    obtain ⟨expected, idx, _, hend, -, hcan, -⟩ := recoverInRepetition_eq_some hr
    rw [canEndRepetition, h expected (ends_of_repetitionEnd? hnext hend) s hk] at hcan
    cases hcan

/-- The body of an option or a repetition derives a token. -/
theorem Outlined.ne_nil_of_derives (ho : l.Outlined) {rule : String} {idx : Nat}
    {body : List Production} {us : List Token}
    (h : l.grammar.Occurs rule (.option idx body) ∨ l.grammar.Occurs rule (.many idx body))
    (hd : l.grammar.Derives l.vocabulary body us) : us ≠ [] := by
  rintro rfl
  have hnull := nullable_ofSeq.2 (hd.vanishes rfl)
  rcases h with h | h
  · have hbody := ho.nullableBody? h
    rw [Grammar.nullableBody?, if_pos hnull] at hbody
    cases hbody
  · have hbody := ho.nullableBody? h
    rw [Grammar.nullableBody?, if_pos hnull] at hbody
    cases hbody

/-- Every part of a derivation from the start rule is read. What is left to read after it is derived
from `k`. -/
theorem reads_of_derivation (ho : l.Outlined) (hp : l.Plain) {start : String}
    (hll : l.grammar.IsLL1 l.vocabulary start) {ps : List Production} {us : List Token}
    (h : l.grammar.Derivation l.vocabulary ps trees us) (hout : Step.outlineSeq steps = ps)
    (hsteps : l.Prepared stack.rule tail next steps) (hup : l.grammar.Upcoming start (ps ++ k))
    (hk : l.grammar.Derives l.vocabulary k ws) (hrest : s.cursor.rest = us ++ ws)
    (hs : s.errors = []) (hawaits : l.Awaits stack next k) :
    l.Reads room stack steps s trees ws := by
  -- the derivation leads; `k` and `ws` grow by what is left to read after the part
  induction h generalizing room stack steps s tail next k ws with
  | nil =>
    obtain rfl := Step.eq_nil_of_outlineSeq hsteps.plain hout
    exact .of_run .nil rfl hrest hs
  | cons _ htail ihhead ihtail =>
    obtain ⟨step, rest, rfl, hstep, rfl⟩ := Step.eq_cons_of_outlineSeq hsteps.plain hout
    obtain ⟨hprep, hprep'⟩ := hsteps.cons
    have hk' := htail.derives.append hk
    refine Reads.cons (ihhead ?_ hprep hup hk' ?_ hs (hawaits.prepend hprep'.plain)) ?_
    · rw [Step.outlineSeq_singleton, hstep.outline_eq]
    · rw [hrest, List.append_assoc]
    · intro s' hrest' hs'
      exact ihtail rfl hprep' hup.drop hk hrest' hs' hawaits
  | terminal ha =>
    obtain ⟨step, rfl, hstep⟩ := Step.eq_singleton_of_outlineSeq hsteps.plain hout
    cases hstep
    exact reads_consume ha hrest hs
  | @nonTerminal name idx r parts us hr _ ih =>
    obtain ⟨step, rfl, hstep⟩ := Step.eq_singleton_of_outlineSeq hsteps.plain hout
    cases hstep
    obtain ⟨rd, hrd⟩ := hsteps.subrule ho
    have hbody : Step.outlineSeq rd.body = r.body := by
      rw [ho.rule?, hrd] at hr
      rw [← Option.some.inj hr]
      rfl
    have hname : (stack.push rd.name ⟨stack.rule, .rule name, idx⟩ s.position).rule = name := by
      rw [Stack.rule_push, name_of_rule? hrd]
    refine reads_subrule hrd rfl hs fun room => ?_
    refine ih hbody (hname ▸ ho.prepared hp hrd) (hup.nonTerminal hr) hk hrest ?_ ?_
    · rw [ParseState.errors_note rfl, hs]
    · -- only the start rule is left at the end of the input
      intro expected hend
      cases hend with
      | endOfRule hbelow => cases hbelow
  | leftOut =>
    obtain ⟨step, rfl, hstep⟩ := Step.eq_singleton_of_outlineSeq hsteps.plain hout
    cases hstep
    obtain rfl : s.cursor.rest = ws := hrest
    have hp : l.predicts [l.first.ofSeq _] s = false := Bool.eq_false_iff.2 fun hp =>
      hll.option _ _ _ hup _ (ho.predicts_iff.1 hp) hk.follows
    exact .of_run (.leftOut (hsteps.option ho).1 hp) (Tree.depthSeq_singleton _) rfl hs
  | taken hinner ih =>
    obtain ⟨step, rfl, hstep⟩ := Step.eq_singleton_of_outlineSeq hsteps.plain hout
    cases hstep
    obtain ⟨hb, hprep⟩ := hsteps.option ho
    have hne := ho.ne_nil_of_derives (.inl (hsteps.occurs (List.mem_singleton.2 rfl)))
      hinner.derives
    have hp := ho.predicts_iff.2 (hinner.derives.admits_nextKind hne hrest)
    refine (ih rfl hprep hup.option hk hrest hs hawaits).wrap ?_ fun _ => .taken hb hp
    rw [Tree.depthSeq_singleton, Tree.depth]
  | stopped =>
    obtain ⟨step, rfl, hstep⟩ := Step.eq_singleton_of_outlineSeq hsteps.plain hout
    cases hstep
    obtain ⟨hb, hnext⟩ := hsteps.many ho
    obtain rfl : s.cursor.rest = ws := hrest
    have hp : l.predicts [l.first.ofSeq _] s = false := Bool.eq_false_iff.2 fun hp =>
      hll.many _ _ _ hup _ (ho.predicts_iff.1 hp) hk.follows
    exact .of_run (.stopped hb hp (hawaits.recoverInRepetition_eq_none hnext hk))
      (Tree.depthSeq_singleton _) rfl hs
  | @round idx body parts more us us' hinner hagain ih ihagain =>
    obtain ⟨step, rfl, hstep⟩ := Step.eq_singleton_of_outlineSeq hsteps.plain hout
    cases hstep
    have hb := (hsteps.many ho).1
    have hne := ho.ne_nil_of_derives (.inr (hsteps.occurs (List.mem_singleton.2 rfl)))
      hinner.derives
    rw [List.append_assoc] at hrest
    have hp := ho.predicts_iff.2 (hinner.derives.admits_nextKind hne hrest)
    refine .round hb hp (ih rfl hsteps.round hup.many (hagain.derives.append hk) hrest hs ?_) ?_ ?_
    · intro expected hend
      cases hend
    · have hpos := List.length_pos_of_ne_nil hne
      have hlen : s.cursor.rest.length = us.length + (us' ++ ws).length := by
        rw [hrest, List.length_append]
      omega
    · intro s' hrest' hs'
      exact ihagain rfl hsteps hup hk hrest' hs' hawaits
  | @chosen idx i _ body parts us hi hinner ih =>
    obtain ⟨step, rfl, hstep⟩ := Step.eq_singleton_of_outlineSeq hsteps.plain hout
    cases hstep with
    | @choose _ label alternatives =>
      obtain ⟨hb, hprep⟩ := hsteps.choose ho
      have hmem := List.mem_of_getElem? hi
      have hc := ho.chosenBranch?_of_derives hll hup hi hinner.derives hk hrest
      rw [List.getElem?_map] at hi
      obtain ⟨steps, hsteps', rfl⟩ := Option.map_eq_some_iff.1 hi
      have hbody : l.Reads room stack steps s parts ws :=
        ih rfl (hprep steps (List.mem_of_getElem? hsteps')) (hup.choice hmem) hk hrest hs hawaits
      refine hbody.wrap ?_ fun _ => .chosen hb hc hsteps'
      rw [Tree.depthSeq_singleton, Tree.depth]

/-! ## Whole parses -/

/-- Nothing is left to read after the start rule. -/
theorem awaits_nil (r : RuleDef) : l.Awaits (startStack r) .endOfRule [] := by
  intro expected hend s hk
  cases hend
  generalize hus : s.cursor.rest = us at hk
  cases hk
  rw [ParseState.nextKind_eq, hus]
  exact Vocabulary.isA_eof_iff.2 rfl

/-- What the steps of the start rule come to is the outcome of the parse. -/
theorem Reads.parse {r : RuleDef} {start : String} {ts : List Token} (hr : l.rule? start = some r)
    (hd : l.config.maxDepth = room + 1)
    (h : l.Reads room (startStack r) r.body (startState r ts) trees []) :
    (Tree.depthSeq trees ≤ room → l.parse start ts = ⟨some (.node r.name trees), [], none⟩) ∧
    (room < Tree.depthSeq trees → ∃ rule,
      l.parse start ts = ⟨none, [], some (.recursionLimit rule l.config.maxDepth)⟩) := by
  refine ⟨fun hle => ?_, fun hlt => ?_⟩
  · obtain ⟨s', hrun, hrest, hs⟩ := h.fits hle
    have hnext : s'.cursor.next? = none := by rw [Cursor.next?, hrest]; rfl
    rw [parse_entered hr hd hrun]
    simp only [Result.map_ok, finish, hnext, hs]
  · obtain ⟨rule, s', hrun, hs⟩ := h.tooDeep hlt
    refine ⟨rule, ?_⟩
    rw [parse_entered hr hd hrun]
    simp only [Result.map_error, finish, hs]

/-- A derivation from the start rule is read by the steps of the rule. -/
theorem reads_start (ho : l.Outlined) (hp : l.Plain) {start : String}
    (hll : l.grammar.IsLL1 l.vocabulary start) {t : Tree} {ts : List Token}
    (h : l.grammar.Derivation l.vocabulary [.nonTerminal start 0] [t] ts) :
    ∃ r parts, l.rule? start = some r ∧ t = .node start parts ∧
      ∀ room, l.Reads room (startStack r) r.body (startState r ts) parts [] := by
  obtain ⟨rule, parts, hrule, hnode, hbody⟩ := h.of_nonTerminal rfl
  have hup : l.grammar.Upcoming start (rule.body ++ []) := .nonTerminal hrule .start
  rw [ho.rule?] at hrule
  obtain ⟨r, hr, rfl⟩ := Option.map_eq_some_iff.1 hrule
  have hname : (startStack r).rule = start := name_of_rule? hr
  refine ⟨r, parts, hr, List.head_eq_of_cons_eq hnode, fun room => ?_⟩
  exact reads_of_derivation ho hp hll hbody rfl (hname ▸ ho.prepared hp hr) hup .nil
    (List.append_nil ts).symm (ParseState.errors_note rfl) (awaits_nil r)

/-- An LL(1) grammar is unambiguous: with enough room, one run reads both derivations. -/
theorem derivation_unique (ho : l.Outlined) (hp : l.Plain) {start : String}
    (hll : l.grammar.IsLL1 l.vocabulary start) {t t' : Tree} {ts : List Token}
    (h : l.grammar.Derivation l.vocabulary [.nonTerminal start 0] [t] ts)
    (h' : l.grammar.Derivation l.vocabulary [.nonTerminal start 0] [t'] ts) : t' = t := by
  obtain ⟨r, parts, hr, rfl, hreads⟩ := reads_start ho hp hll h
  obtain ⟨r', parts', hr', rfl, hreads'⟩ := reads_start ho hp hll h'
  obtain rfl : r = r' := Option.some.inj (hr.symm.trans hr')
  obtain ⟨_, hrun, -⟩ := (hreads _).fits (Nat.le_max_left _ (Tree.depthSeq parts'))
  obtain ⟨_, hrun', -⟩ := (hreads' _).fits (Nat.le_max_right (Tree.depthSeq parts) _)
  have heq := hrun.eq.symm.trans hrun'.eq
  cases heq
  rfl

/-- A derivation from the start rule of an LL(1) grammar is what the parse of its tokens gives,
without an error, if its rules are not nested deeper than the limit. Otherwise the parse ends at the
limit, without an error before. -/
theorem parse_of_derivation (ho : l.Outlined) (hp : l.Plain) {start : String}
    (hll : l.grammar.IsLL1 l.vocabulary start) {t : Tree} {ts : List Token}
    (h : l.grammar.Derivation l.vocabulary [.nonTerminal start 0] [t] ts) :
    (t.depth ≤ l.config.maxDepth → l.parse start ts = ⟨some t, [], none⟩) ∧
    (l.config.maxDepth < t.depth → ∃ rule,
      l.parse start ts = ⟨none, [], some (.recursionLimit rule l.config.maxDepth)⟩) := by
  obtain ⟨r, parts, hr, rfl, hreads⟩ := reads_start ho hp hll h
  rw [Tree.depth]
  cases hd : l.config.maxDepth with
  | zero =>
    refine ⟨fun hle => by omega, fun _ => ⟨r.name, ?_⟩⟩
    rw [parse_refused hr hd, hd]
  | succ room =>
    have hparse := (hreads room).parse hr hd
    rw [hd, name_of_rule? hr] at hparse
    exact ⟨fun hle => hparse.1 (by omega), fun hlt => hparse.2 (by omega)⟩

/-- Tokens that a start rule of an LL(1) grammar derives have one derivation tree. Their parse gives
this tree without an error if its rules are not nested deeper than the limit, and otherwise ends at
the limit, without an error before. -/
theorem parse_of_derives {d : Draft} {l : Language} (hb : d.build = .ok l) (hp : d.Plain)
    {start : String} (hll : l.grammar.IsLL1 l.vocabulary start) {ts : List Token}
    (h : l.grammar.Derives l.vocabulary [.nonTerminal start 0] ts) :
    ∃ t, l.grammar.Derivation l.vocabulary [.nonTerminal start 0] [t] ts ∧
      (∀ t', l.grammar.Derivation l.vocabulary [.nonTerminal start 0] [t'] ts → t' = t) ∧
      (t.depth ≤ l.config.maxDepth → l.parse start ts = ⟨some t, [], none⟩) ∧
      (l.config.maxDepth < t.depth → ∃ rule,
        l.parse start ts = ⟨none, [], some (.recursionLimit rule l.config.maxDepth)⟩) := by
  obtain ⟨rfl, ho⟩ := outlined_of_build hb hp
  obtain ⟨trees, hd⟩ := h.exists_derivation
  obtain ⟨r, parts, -, rfl, -⟩ := hd.of_nonTerminal rfl
  exact ⟨_, hd, fun t' hd' => derivation_unique ho hp hll hd hd', parse_of_derivation ho hp hll hd⟩

/-- The calculator language reads `2*(3-4)`, whose rules are nested nine deep. -/
theorem parse_of_derives_calc :
    Calc.draft.build = .ok Calc.language ∧ Calc.draft.Plain ∧
    Calc.language.grammar.IsLL1 Calc.language.vocabulary "expression" ∧
    Calc.language.grammar.Derives Calc.language.vocabulary [.nonTerminal "expression" 0]
      (Calc.vocabulary.tokenize "2*(3-4)").1 ∧
    ∃ t, t.depth = 9 ∧ Calc.language.parse "expression" (Calc.vocabulary.tokenize "2*(3-4)").1 =
      ⟨some t, [], none⟩ := by
  have hok : (Calc.language.parse "expression"
      (Calc.vocabulary.tokenize "2*(3-4)").1).isOk = true := by decide +kernel
  have hdepth : (Calc.language.parse "expression"
      (Calc.vocabulary.tokenize "2*(3-4)").1).value.map Tree.depth = some 9 := by decide +kernel
  obtain ⟨-, ho⟩ := outlined_of_build Calc.build_draft Calc.plain_draft
  obtain ⟨t, hvalue, hd, -⟩ := ho.exists_derivation_of_isOk Calc.plain_draft hok
  rw [hvalue, Option.map_some, Option.some.injEq] at hdepth
  obtain ⟨t', -, hunique, hfits, -⟩ := parse_of_derives Calc.build_draft Calc.plain_draft
    Calc.isLL1 hd.derives
  obtain rfl := hunique t hd
  refine ⟨Calc.build_draft, Calc.plain_draft, Calc.isLL1, hd.derives, t, hdepth, hfits ?_⟩
  rw [hdepth]
  decide +kernel

end Language

end TopDown
