import TopDown.Proofs.Exactness
import TopDown.Proofs.WellFormed
import Mathlib.Data.List.Perm.Basic

/-!
# The order of declaration does not matter

The search for first sets and the search for cycles visit the rules in their order, and tables list
their entries in it. Still a language parses the same if its rules are declared in another order:
what the searches find is exact (`Lookahead.Exact`, `Grammar.WellFormed`), so it depends on nothing
but what each name stands for (`Grammar.SameRules`), and the engine does nothing with a table but
look up keys, which are distinct.
-/

namespace TopDown

theorem lookup_eq_some_iff {α β : Type} [BEq α] [LawfulBEq α] {entries : List (α × β)}
    (hn : (entries.map (·.1)).Nodup) {k : α} {b : β} :
    entries.lookup k = some b ↔ (k, b) ∈ entries := by
  refine ⟨fun h => ?_, lookup_of_mem hn⟩
  obtain ⟨before, after, rfl, -⟩ := List.lookup_eq_some_iff.1 h
  exact List.mem_append_right _ (List.mem_cons_self ..)

/-- Looking up a key among entries with distinct keys does not depend on their order. -/
theorem lookup_eq_of_perm {α β : Type} [BEq α] [LawfulBEq α] {entries entries' : List (α × β)}
    (h : entries'.Perm entries) (hn : (entries.map (·.1)).Nodup) (k : α) :
    entries'.lookup k = entries.lookup k := by
  have hn' : (entries'.map (·.1)).Nodup := (h.map _).nodup_iff.2 hn
  refine Option.ext fun b => ?_
  rw [lookup_eq_some_iff hn, lookup_eq_some_iff hn', h.mem_iff]

theorem find?_eq_some_iff_of_nodup {α : Type} {name : α → String} {xs : List α}
    (hn : (xs.map name).Nodup) {key : String} {x : α} :
    xs.find? (name · == key) = some x ↔ x ∈ xs ∧ name x = key := by
  constructor
  · intro h
    have hname := List.find?_some h
    exact ⟨List.mem_of_find?_eq_some h, by simpa using hname⟩
  · rintro ⟨hmem, rfl⟩
    have hsome : (xs.find? (name · == name x)).isSome := List.find?_isSome.2 ⟨x, hmem, by simp⟩
    obtain ⟨y, hy⟩ := Option.isSome_iff_exists.1 hsome
    have hname : name y = name x := by simpa using List.find?_some hy
    rw [hy, List.inj_on_of_nodup_map hn (List.mem_of_find?_eq_some hy) hmem hname]

/-- Finding an element by its name does not depend on the order if the names are distinct. -/
theorem find?_eq_of_perm {α : Type} {name : α → String} {xs xs' : List α} (h : xs'.Perm xs)
    (hn : (xs.map name).Nodup) (key : String) :
    xs'.find? (name · == key) = xs.find? (name · == key) := by
  have hn' : (xs'.map name).Nodup := (h.map name).nodup_iff.2 hn
  refine Option.ext fun x => ?_
  rw [find?_eq_some_iff_of_nodup hn, find?_eq_some_iff_of_nodup hn', h.mem_iff]

namespace Grammar

/-- Every name stands for the same rule in both grammars. -/
def SameRules (g' g : Grammar) : Prop := ∀ name, g'.rule? name = g.rule? name

variable {g g' : Grammar}

/-- Rules are known by their names, whatever their order. -/
theorem sameRules_of_perm (h : g'.rules.Perm g.rules) : g'.SameRules g :=
  find?_eq_of_perm h g.distinct

namespace SameRules

theorem symm (h : g'.SameRules g) : g.SameRules g' := fun name => (h name).symm

/-! ## What a grammar derives depends on what the names stand for -/

theorem vanishes (h : g'.SameRules g) {ps : List Production} (hv : g.Vanishes ps) :
    g'.Vanishes ps := by
  induction hv with
  | nil => exact .nil
  | nonTerminal hr _ _ ihbody ih => exact .nonTerminal ((h _).trans hr) ihbody ih
  | option _ ih => exact .option ih
  | many _ ih => exact .many ih
  | choice hmem _ _ ihbody ih => exact .choice hmem ihbody ih

theorem vanishes_iff (h : g'.SameRules g) {ps : List Production} :
    g'.Vanishes ps ↔ g.Vanishes ps :=
  ⟨h.symm.vanishes, h.vanishes⟩

theorem starts (h : g'.SameRules g) {ps : List Production} {c : TokenId} (hs : g.Starts ps c) :
    g'.Starts ps c := by
  induction hs with
  | terminal => exact .terminal
  | nonTerminal hr _ ih => exact .nonTerminal ((h _).trans hr) ih
  | option _ ih => exact .option ih
  | many _ ih => exact .many ih
  | choice hmem _ ih => exact .choice hmem ih
  | later hv _ ih => exact .later (h.vanishes hv) ih

theorem starts_iff (h : g'.SameRules g) {ps : List Production} {c : TokenId} :
    g'.Starts ps c ↔ g.Starts ps c :=
  ⟨h.symm.starts, h.starts⟩

theorem reaches (h : g'.SameRules g) {ps : List Production} {name : String}
    (hr : g.Reaches ps name) : g'.Reaches ps name := by
  induction hr with
  | nonTerminal => exact .nonTerminal
  | option _ ih => exact .option ih
  | many _ ih => exact .many ih
  | choice hmem _ ih => exact .choice hmem ih
  | later hv _ ih => exact .later (h.vanishes hv) ih

theorem invokes (h : g'.SameRules g) {outer inner : String} (hi : g.Invokes outer inner) :
    g'.Invokes outer inner := by
  obtain ⟨r, hr, hreach⟩ := hi
  exact ⟨r, (h outer).trans hr, h.reaches hreach⟩

theorem occurs (h : g'.SameRules g) {rule : String} {p : Production} (ho : g.Occurs rule p) :
    g'.Occurs rule p := by
  obtain ⟨r, hr, hmem⟩ := ho
  exact ⟨r, (h rule).trans hr, hmem⟩

theorem mem_rules (h : g'.SameRules g) {r : Rule} (hr : r ∈ g.rules) : r ∈ g'.rules :=
  (rule?_eq_some ((h r.name).trans (rule?_of_mem hr))).1

/-- A grammar is fit for prediction in any order of its rules. -/
theorem wellFormed (h : g'.SameRules g) (hg : g.WellFormed) : g'.WellFormed where
  closed rule target idx ho := by
    rw [declares, h target]
    exact hg.closed rule target idx (h.symm.occurs ho)
  distinguished r hr := hg.distinguished r (h.symm.mem_rules hr)
  acyclic name hcycle :=
    hg.acyclic name (hcycle.lift id fun _ _ hi => h.symm.invokes hi)
  consuming r hr := by
    obtain ⟨c, hc⟩ := hg.consuming r (h.symm.mem_rules hr)
    exact ⟨c, h.starts hc⟩
  advancing rule p body ho hp hv :=
    hg.advancing rule p body (h.symm.occurs ho) hp (h.vanishes_iff.1 hv)

theorem exact_iff (h : g'.SameRules g) {ps : List Production} {a : Lookahead} :
    a.Exact g' ps ↔ a.Exact g ps := by
  constructor
  · rintro ⟨hset, hnullable⟩
    refine ⟨fun c => (hset c).trans h.starts_iff, fun v => (hnullable v).trans ?_⟩
    rw [← Grammar.vanishes_iff, ← Grammar.vanishes_iff, h.vanishes_iff]
  · rintro ⟨hset, hnullable⟩
    refine ⟨fun c => (hset c).trans h.starts_iff.symm, fun v => (hnullable v).trans ?_⟩
    rw [← Grammar.vanishes_iff, ← Grammar.vanishes_iff, h.vanishes_iff]

end SameRules

end Grammar

namespace FirstSets

/-- Both find the same lookahead everywhere. -/
structure SameAs (f' f : FirstSets) : Prop where
  ofSeq : ∀ ps, f'.ofSeq ps = f.ofSeq ps
  ofRule : ∀ name, f'.ofRule name = f.ofRule name

/-- What the search finds is exact, so it is the same in any order of the rules. -/
theorem sameAs_of_sameRules {g g' : Grammar} (h : g'.SameRules g)
    (hleft : g.checkLeftRecursion g.nullableRules = .ok ())
    (hleft' : g'.checkLeftRecursion g'.nullableRules = .ok ()) :
    (ofGrammar g').SameAs (ofGrammar g) where
  ofSeq ps := (h.exact_iff.1 (exact_ofSeq hleft' ps)).eq (exact_ofSeq hleft ps)
  ofRule name := (h.exact_iff.1 (exact_ofRule hleft' name 0)).eq (exact_ofRule hleft name 0)

namespace SameAs

variable {f f' : FirstSets}

mutual

theorem walk (h : f'.SameAs f) (rule : String) (tail : Lookahead) (next : AfterRepetition) :
    ∀ p : Production, f'.walk rule tail next p = f.walk rule tail next p
  | .terminal token idx => rfl
  | .nonTerminal target idx => by simp only [FirstSets.walk, h.ofRule]
  | .option idx body => by simp only [FirstSets.walk, h.walkSeq rule _ _ body]
  | .many idx body => by simp only [FirstSets.walk, h.ofSeq, h.walkSeq rule _ _ body]
  | .choice idx alternatives => by simp only [FirstSets.walk, h.walkAlts rule _ _ alternatives]

theorem walkSeq (h : f'.SameAs f) (rule : String) (tail : Lookahead) (next : AfterRepetition) :
    ∀ ps : List Production, f'.walkSeq rule tail next ps = f.walkSeq rule tail next ps
  | [] => rfl
  | p :: rest => by
    simp only [FirstSets.walkSeq, h.walkSeq rule tail next rest, h.walk rule _ _ p]

theorem walkAlts (h : f'.SameAs f) (rule : String) (tail : Lookahead) (next : AfterRepetition) :
    ∀ alternatives : List (List Production),
      f'.walkAlts rule tail next alternatives = f.walkAlts rule tail next alternatives
  | [] => rfl
  | body :: rest => by
    simp only [FirstSets.walkAlts, h.walkSeq rule tail next body, h.walkAlts rule tail next rest]

end

theorem walkRule (h : f'.SameAs f) (r : Rule) : f'.walkRule r = f.walkRule r :=
  h.walkSeq r.name .empty .endOfRule r.body

theorem decisionsOf (h : f'.SameAs f) (r : Rule) : f'.decisionsOf r = f.decisionsOf r := by
  have hbranches : f'.branches? r.name = f.branches? r.name := by
    funext p
    cases p with
    | terminal | nonTerminal => rfl
    | option idx body | many idx body => simp only [branches?, h.ofSeq]
    | choice idx alternatives =>
      have hmap : alternatives.map f'.ofSeq = alternatives.map f.ofSeq :=
        List.map_congr_left fun body _ => h.ofSeq body
      simp only [branches?, hmap]
  rw [FirstSets.decisionsOf, FirstSets.decisionsOf, hbranches]

end SameAs

end FirstSets

/-- The same is found under every key that the engine looks up. -/
structure LookaheadTable.SameEntries (t' t : LookaheadTable) : Prop where
  decision? : ∀ key, t'.decision? key = t.decision? key
  follow? : ∀ site, t'.follow? site = t.follow? site
  afterRepetition? : ∀ key, t'.afterRepetition? key = t.afterRepetition? key

namespace Grammar

variable {g g' : Grammar}

/-- The tables of a grammar in two orders of its rules list the same entries. -/
theorem sameEntries_table (h : g'.rules.Perm g.rules) (hoccs : g.checkOccurrences = .ok ())
    {f f' : FirstSets} (hf : f'.SameAs f) : (g'.table f').SameEntries (g.table f) := by
  have hdecisions : f'.decisionsOf = f.decisionsOf := funext hf.decisionsOf
  have hwalk : f'.walkRule = f.walkRule := funext hf.walkRule
  have hsites : ∀ r ∈ g.rules, ((Production.preorderSeq r.body).map (·.site)).Nodup :=
    fun r hr => nodup_sites hoccs hr
  refine ⟨fun key => ?_, fun site => ?_, fun key => ?_⟩
  · have hn := (keyed_decisions f).nodup_flatMap g.distinct hsites
    simp only [LookaheadTable.decision?, table, hdecisions]
    exact lookup_eq_of_perm (h.flatMap_right _) hn key
  · have hn := (keyed_follows f).nodup_flatMap g.distinct hsites
    simp only [LookaheadTable.follow?, table, hwalk]
    exact lookup_eq_of_perm (h.flatMap_right _) hn site
  · have hn := (keyed_repetitions f).nodup_flatMap g.distinct hsites
    simp only [LookaheadTable.afterRepetition?, table, hwalk]
    exact lookup_eq_of_perm (h.flatMap_right _) hn key

/-- A grammar that the analysis accepts is accepted in any order of its rules, with a table that
holds the same. -/
theorem analyze_of_perm (h : g'.rules.Perm g.rules) {t : LookaheadTable} (hg : g.analyze = .ok t) :
    ∃ t', g'.analyze = .ok t' ∧ t'.SameEntries t := by
  cases hc : g.check with
  | error e =>
    rw [analyze_eq_error_iff.2 hc] at hg
    cases hg
  | ok f =>
    have hwell := (sameRules_of_perm h).wellFormed (wellFormed_of_check hc)
    cases hc' : g'.check with
    | error e => exact absurd hwell (refuted_of_check hc').not_wellFormed
    | ok f' =>
      obtain ⟨rfl, -, hoccs, hleft, -, -⟩ := Language.checked_eq_ok hc
      obtain ⟨rfl, -, -, hleft', -, -⟩ := Language.checked_eq_ok hc'
      have hf := FirstSets.sameAs_of_sameRules (sameRules_of_perm h) hleft hleft'
      rw [analyze, hc] at hg
      cases hg
      refine ⟨g'.table (.ofGrammar g'), ?_, sameEntries_table h hoccs hf⟩
      rw [analyze, hc']
      rfl

end Grammar

/-! ## Recording rules in another order -/

/-- The rule of a grammar is the recording of the rule of a draft. -/
def RuleDef.Recorded (r : RuleDef) (rule : Rule) : Prop :=
  rule.name = r.name ∧ r.record = .ok rule.body

namespace Draft

theorem recordRules_eq_ok_iff {rules : List RuleDef} {g g' : Grammar} :
    recordRules g rules = .ok g' ↔
      ∃ recorded, List.Forall₂ RuleDef.Recorded rules recorded ∧
        g'.rules = g.rules ++ recorded := by
  induction rules generalizing g with
  | nil =>
    rw [recordRules, Except.ok.injEq]
    constructor
    · rintro rfl
      exact ⟨[], .nil, (List.append_nil _).symm⟩
    · rintro ⟨recorded, hrec, hrules⟩
      cases hrec
      rw [List.append_nil] at hrules
      cases g
      cases g'
      cases hrules
      rfl
  | cons r rest ih =>
    rw [recordRules]
    constructor
    · intro h
      split at h
      · cases h
      · rename_i hd
        split at h
        · cases h
        · rename_i body hbody
          obtain ⟨recorded, hrec, hrules⟩ := ih.1 h
          rw [Grammar.rules_add (by simpa using hd), List.append_assoc] at hrules
          exact ⟨⟨r.name, body⟩ :: recorded, .cons ⟨rfl, hbody⟩ hrec, hrules⟩
    · rintro ⟨_, hrec, hrules⟩
      obtain _ | ⟨⟨hname, hbody⟩, hrec⟩ := hrec
      rename_i rule recorded
      -- the rules of a grammar have distinct names, so the name of the first is not taken yet
      have hd : g.declares r.name = false := by
        rw [← Bool.not_eq_true, Grammar.declares_iff, ← hname]
        intro hmem
        have hdistinct := g'.distinct
        rw [hrules, List.map_append, List.nodup_append] at hdistinct
        exact hdistinct.2.2 _ hmem _ (by simp) rfl
      rw [if_neg (by simp [hd]), hbody]
      refine ih.2 ⟨recorded, hrec, ?_⟩
      rw [Grammar.rules_add hd, ← hname, List.append_assoc, hrules]
      rfl

theorem nodup_names_of_record {d : Draft} {g : Grammar} (hg : d.record = .ok g) :
    (d.rules.map (·.name)).Nodup := by
  obtain ⟨recorded, hrec, hrules⟩ := recordRules_eq_ok_iff.1 hg
  have hnames : recorded.map (·.name) = d.rules.map (·.name) := by
    generalize d.rules = rules at hrec
    clear hrules
    induction hrec with
    | nil => rfl
    | cons h _ ih => rw [List.map_cons, List.map_cons, h.1, ih]
  have hg' : g.rules = recorded := hrules
  rw [← hnames, ← hg']
  exact g.distinct

/-- Rules that can be recorded can be recorded in any order, and the grammar has the same rules. -/
theorem record_of_perm {d : Draft} {rules : List RuleDef} (h : rules.Perm d.rules) {g : Grammar}
    (hg : d.record = .ok g) :
    ∃ g' : Grammar, ({ d with rules := rules } : Draft).record = .ok g' ∧
      g'.rules.Perm g.rules := by
  obtain ⟨recorded, hrec, hrules⟩ := recordRules_eq_ok_iff.1 hg
  obtain ⟨recorded', hrec', hperm⟩ := List.perm_comp_forall₂ h hrec
  have hg' : g.rules = recorded := hrules
  have hdistinct : (recorded'.map (·.name)).Nodup :=
    (hperm.map _).nodup_iff.2 (hg' ▸ g.distinct)
  exact ⟨⟨recorded', hdistinct⟩, recordRules_eq_ok_iff.2 ⟨recorded', hrec', rfl⟩, hg' ▸ hperm⟩

end Draft

/-! ## Languages that look up the same -/

namespace Language

/-- Everything that the engine takes from a language is the same in both. -/
structure SameAs (l' l : Language) : Prop where
  vocabulary : l'.vocabulary = l.vocabulary
  mayInsert : l'.mayInsert = l.mayInsert
  config : l'.config = l.config
  rule? : ∀ name, l'.rule? name = l.rule? name
  table : l'.table.SameEntries l.table

namespace SameAs

variable {l l' : Language} {room : Nat} {stack : Stack} {steps : List Step} {s : ParseState}

theorem frameFollow (h : l'.SameAs l) (frame : Frame) :
    l'.frameFollow frame = l.frameFollow frame := by
  simp only [Language.frameFollow, h.vocabulary, h.table.follow?]

theorem resyncSet (h : l'.SameAs l) (stack : Stack) : l'.resyncSet stack = l.resyncSet stack := by
  simp only [Language.resyncSet, h.frameFollow]

theorem resyncPoint (h : l'.SameAs l) (stack : Stack) (c : Cursor Token) :
    l'.resyncPoint stack c = l.resyncPoint stack c := by
  simp only [Language.resyncPoint, h.resyncSet, h.vocabulary]

theorem kindAt (h : l'.SameAs l) (c : Cursor Token) : l'.kindAt c = l.kindAt c := by
  simp only [Language.kindAt, h.vocabulary]

theorem mismatch (h : l'.SameAs l) (expected : TokenId) (s : ParseState) :
    l'.mismatch stack expected s = l.mismatch stack expected s := by
  simp only [Language.mismatch, h.vocabulary]

theorem canInsert (h : l'.SameAs l) (expected : TokenId) (idx : Nat) (s : ParseState) :
    l'.canInsert stack expected idx s = l.canInsert stack expected idx s := by
  simp only [Language.canInsert, h.vocabulary, h.mayInsert, h.table.follow?, h.resyncSet]

theorem second? (h : l'.SameAs l) (expected : TokenId) (c : Cursor Token) :
    l'.second? expected c = l.second? expected c := by
  simp only [Language.second?, h.vocabulary]

theorem recoverInRule (h : l'.SameAs l) (expected : TokenId) (idx : Nat) (s : ParseState) :
    l'.recoverInRule stack expected idx s = l.recoverInRule stack expected idx s := by
  simp only [Language.recoverInRule, h.config, h.second?, h.canInsert, h.mismatch]

theorem consume (h : l'.SameAs l) (expected : TokenId) (idx : Nat) (s : ParseState) :
    l'.consume stack expected idx s = l.consume stack expected idx s := by
  simp only [Language.consume, h.vocabulary, h.recoverInRule]

theorem resync (h : l'.SameAs l) (error : SyntaxError) (s : ParseState) :
    l'.resync stack error s = l.resync stack error s := by
  simp only [Language.resync, h.config, h.resyncPoint, h.kindAt, h.frameFollow, h.vocabulary]

theorem admitsAny (h : l'.SameAs l) (branches : List Lookahead) (kind : TokenId) :
    l'.admitsAny branches kind = l.admitsAny branches kind := by
  simp only [Language.admitsAny, h.vocabulary]

theorem predicts (h : l'.SameAs l) (branches : List Lookahead) (s : ParseState) :
    l'.predicts branches s = l.predicts branches s := by
  simp only [Language.predicts, h.admitsAny, h.vocabulary]

theorem branches (h : l'.SameAs l) (kind : DecisionKind) (idx : Nat) :
    l'.branches stack kind idx = l.branches stack kind idx := by
  simp only [Language.branches, h.table.decision?]

theorem chosenBranch? (h : l'.SameAs l) (branches : List Lookahead) (kind : TokenId) :
    l'.chosenBranch? branches kind = l.chosenBranch? branches kind := by
  simp only [Language.chosenBranch?, h.vocabulary]

theorem noViableAlternative (h : l'.SameAs l) (label : Option String) (branches : List Lookahead)
    (s : ParseState) : l'.noViableAlternative stack label branches s =
      l.noViableAlternative stack label branches s := by
  simp only [Language.noViableAlternative, h.vocabulary]

theorem repetitionEnd? (h : l'.SameAs l) (key : DecisionKey) :
    l'.repetitionEnd? stack key = l.repetitionEnd? stack key := by
  simp only [Language.repetitionEnd?, h.table.afterRepetition?, h.vocabulary]

theorem repetitionPoint? (h : l'.SameAs l) (branches : List Lookahead) (expected : TokenId)
    (s : ParseState) : l'.repetitionPoint? stack branches expected s =
      l.repetitionPoint? stack branches expected s := by
  simp only [Language.repetitionPoint?, h.kindAt, h.resyncPoint, h.admitsAny, h.vocabulary]

theorem canEndRepetition (h : l'.SameAs l) (expected : TokenId) (idx : Option Nat)
    (s : ParseState) : l'.canEndRepetition stack expected idx s =
      l.canEndRepetition stack expected idx s := by
  simp only [Language.canEndRepetition, Language.comesSecond, h.canInsert, h.vocabulary]

theorem recoverInRepetition (h : l'.SameAs l) (key : DecisionKey) (branches : List Lookahead)
    (s : ParseState) : l'.recoverInRepetition stack key branches s =
      l.recoverInRepetition stack key branches s := by
  simp only [Language.recoverInRepetition, h.repetitionEnd?, h.config, h.canEndRepetition,
    h.repetitionPoint?, h.mismatch, h.admitsAny, h.kindAt]

theorem leave (h : l'.SameAs l) (r : Result (List Tree)) : l'.leave stack r = l.leave stack r := by
  match r with
  | .ok parts s => rfl
  | .error (.syntaxError e) s => simp only [Language.leave, h.resync]
  | .error (.fatal e) s => rfl

/-- What is a run in one language is a run in the other. -/
theorem runs (h : l'.SameAs l) {r : Result (List Tree)} (hr : Runs l room stack steps s r) :
    Runs l' room stack steps s r := by
  induction hr with
  | nil => exact .nil
  | cons _ _ ihhead ihtail => exact .cons ihhead ihtail
  | fails _ ih => exact .fails ih
  | consume =>
    rw [← h.consume]
    exact .consume
  | undeclared hr => exact .undeclared ((h.rule? _).trans hr)
  | refused hr =>
    rw [← h.config]
    exact .refused ((h.rule? _).trans hr)
  | entered hr hinner _ ih =>
    rw [← h.leave]
    exact .entered ((h.rule? _).trans hr) hinner ih
  | noOption hb => exact .noOption (by rwa [h.branches])
  | leftOut hb hp => exact .leftOut (by rwa [h.branches]) (by rwa [h.predicts])
  | taken hb hp _ ih => exact .taken (by rwa [h.branches]) (by rwa [h.predicts]) ih
  | noMany hb => exact .noMany (by rwa [h.branches])
  | stopped hb hp hr =>
    exact .stopped (by rwa [h.branches]) (by rwa [h.predicts]) (by rwa [h.recoverInRepetition])
  | skipped hb hp hr =>
    exact .skipped (by rwa [h.branches]) (by rwa [h.predicts]) (by rwa [h.recoverInRepetition])
  | resumed hb hp hr _ ih =>
    exact .resumed (by rwa [h.branches]) (by rwa [h.predicts]) (by rwa [h.recoverInRepetition]) ih
  | round hb hp _ progress _ ih ihagain =>
    exact .round (by rwa [h.branches]) (by rwa [h.predicts]) ih progress ihagain
  | stalled hb hp _ stall ih =>
    exact .stalled (by rwa [h.branches]) (by rwa [h.predicts]) ih stall
  | roundFails hb hp _ ih => exact .roundFails (by rwa [h.branches]) (by rwa [h.predicts]) ih
  | noChoice hb => exact .noChoice (by rwa [h.branches])
  | unviable hb hc =>
    rw [← h.noViableAlternative]
    exact .unviable (by rwa [h.branches]) (by rwa [h.vocabulary, h.chosenBranch?])
  | chosen hb hc hi _ ih =>
    exact .chosen (by rwa [h.branches]) (by rwa [h.vocabulary, h.chosenBranch?]) hi ih
  | peek => exact .peek
  | errorCount => exact .errorCount
  | live _ ih => exact .live ih
  | recorded => exact .recorded
  | attempted _ ih => exact .attempted ih
  | abandoned _ ih => exact .abandoned ih
  | fail => exact .fail

/-- Both languages do the same on all tokens. -/
theorem run (h : l'.SameAs l) (start : String) (tokens : List Token) :
    l'.run start tokens = l.run start tokens := by
  have hrule := h.rule? start
  cases hr : l.rule? start with
  | none =>
    rw [hr] at hrule
    simp only [Language.run, hr, hrule]
  | some r =>
    rw [hr] at hrule
    cases hd : l.config.maxDepth with
    | zero => simp only [Language.run, hr, hrule, h.config, hd, invoke_zero]
    | succ room =>
      obtain ⟨result, hruns⟩ := exists_run l room (startStack r) r.body (startState r tokens)
      have hd' : l'.config.maxDepth = room + 1 := by rw [h.config, hd]
      rw [run_entered hr hd hruns, run_entered hrule hd' (h.runs hruns)]

end SameAs

/-- A language that builds does so with its rules declared in any other order, and then does the
same: every parse has the same outcome, and the same things happen in it. -/
theorem run_of_perm {d : Draft} {l : Language} (hb : d.build = .ok l) {rules : List RuleDef}
    (hperm : rules.Perm d.rules) :
    ∃ l', ({ d with rules := rules } : Draft).build = .ok l' ∧ ∀ start tokens,
      l'.parse start tokens = l.parse start tokens ∧ l'.run start tokens = l.run start tokens := by
  rw [Draft.build] at hb
  cases hg : d.record with
  | error e =>
    rw [hg] at hb
    cases hb
  | ok g =>
    cases ht : g.analyze with
    | error e =>
      simp only [hg, ht] at hb
      cases hb
    | ok t =>
      simp only [hg, ht, Except.ok.injEq] at hb
      subst hb
      obtain ⟨g', hg', hrules⟩ := Draft.record_of_perm hperm hg
      obtain ⟨t', ht', hentries⟩ := Grammar.analyze_of_perm hrules ht
      refine ⟨{ d with rules := rules, grammar := g', table := t' }, ?_, ?_⟩
      · rw [Draft.build, hg']
        simp only [ht']
      · have hsame : SameAs { d with rules := rules, grammar := g', table := t' }
            { d with grammar := g, table := t } :=
          ⟨rfl, rfl, rfl, find?_eq_of_perm hperm (Draft.nodup_names_of_record hg), hentries⟩
        intro start tokens
        have hrun := hsame.run start tokens
        exact ⟨congrArg Run.output hrun, hrun⟩

/-- The JSON language with its rules declared the other way round. -/
theorem run_of_perm_json :
    Json.draft.build = .ok Json.language ∧ Json.rules.reverse.Perm Json.draft.rules ∧
    ∃ l', ({ Json.draft with rules := Json.rules.reverse } : Draft).build = .ok l' ∧
      l'.parse "array" (Json.vocabulary.tokenize "[1 2, \x7b]").1 =
        Json.language.parse "array" (Json.vocabulary.tokenize "[1 2, \x7b]").1 := by
  have hperm : Json.rules.reverse.Perm Json.draft.rules := List.reverse_perm _
  obtain ⟨l', hb, hsame⟩ := run_of_perm Json.build_draft hperm
  exact ⟨Json.build_draft, hperm, l', hb, (hsame _ _).1⟩

end Language

end TopDown
