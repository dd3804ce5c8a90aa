import Mathlib.Order.WellFounded
import TopDown.Analysis.WellFormed
import TopDown.Proofs.Lookahead
import TopDown.Proofs.Nullable

/-!
# First sets

Every class in a computed first set can come first in what its rule derives, whatever the grammar:
`Grammar.starts_of_mem_first`. The converse needs that no rule comes to itself without consuming a
token. Then the search never meets a rule whose own search is under way, and every set it finds is
complete: `Grammar.mem_first` and `Grammar.mem_ofSeq`.

Both searches, for first sets and for left recursion, follow rules along a path. `Grammar.Path`
says that the room that is left for a path never runs out.
-/

namespace TopDown

/-- What a function of alternatives lists for one of them, it lists. -/
theorem subset_of_mem {α β : Type} {f : α → List β} {F : List α → List β}
    (hF : ∀ x xs, F (x :: xs) = f x ++ F xs) {x : α} {xs : List α} (h : x ∈ xs) : f x ⊆ F xs := by
  induction xs with
  | nil => cases h
  | cons y ys ih =>
    rw [hF]
    rcases List.mem_cons.1 h with rfl | h
    · exact List.subset_append_left _ _
    · exact List.Subset.trans (ih h) (List.subset_append_right _ _)

namespace Grammar

variable {g : Grammar}

/-! ## Symbols that can come first -/

/-- A token of the class can come first in what the symbol stands for. -/
def SymbolStarts (g : Grammar) : Symbol → TokenId → Prop
  | .token t, c => c = t
  | .rule name, c => ∃ r, g.rule? name = some r ∧ g.Starts r.body c

/-- The property holds of every sequence that begins with the symbol, and of a sequence if it holds
of what can come first in it. -/
structure FromFront (g : Grammar) (s : Symbol) (P : List Production → Prop) : Prop where
  terminal : ∀ {token idx ps}, s = .token token → P (.terminal token idx :: ps)
  nonTerminal : ∀ {name idx ps}, s = .rule name → P (.nonTerminal name idx :: ps)
  option : ∀ {idx body ps}, P body → P (.option idx body :: ps)
  many : ∀ {idx body ps}, P body → P (.many idx body :: ps)
  choice : ∀ {idx alternatives body ps}, body ∈ alternatives → P body →
    P (.choice idx alternatives :: ps)
  later : ∀ {p ps}, g.Vanishes [p] → P ps → P (p :: ps)

namespace FromFront

variable {s : Symbol} {P : List Production → Prop}

mutual

theorem of_mem_leading (hP : g.FromFront s P) : ∀ {p : Production} {ps : List Production},
    s ∈ p.leading g.nullableRules → P (p :: ps)
  | .terminal token idx, ps, h => by
    rw [Production.leading, List.mem_singleton] at h
    exact hP.terminal h
  | .nonTerminal name idx, ps, h => by
    rw [Production.leading, List.mem_singleton] at h
    exact hP.nonTerminal h
  | .option _ body, ps, h => by
    rw [Production.leading] at h
    exact hP.option (of_mem_leadingSeq hP h)
  | .many _ body, ps, h => by
    rw [Production.leading] at h
    exact hP.many (of_mem_leadingSeq hP h)
  | .choice _ alternatives, ps, h => by
    rw [Production.leading] at h
    obtain ⟨body, hmem, hbody⟩ := of_mem_leadingAny hP h
    exact hP.choice hmem hbody

theorem of_mem_leadingSeq (hP : g.FromFront s P) : ∀ {ps : List Production},
    s ∈ Production.leadingSeq g.nullableRules ps → P ps
  | [], h => by simp [Production.leadingSeq] at h
  | p :: rest, h => by
    rw [Production.leadingSeq, List.mem_append] at h
    rcases h with h | h
    · exact of_mem_leading hP h
    · split at h
      · rename_i hp
        exact hP.later (nullable_iff.1 hp) (of_mem_leadingSeq hP h)
      · cases h

theorem of_mem_leadingAny (hP : g.FromFront s P) : ∀ {alternatives : List (List Production)},
    s ∈ Production.leadingAny g.nullableRules alternatives → ∃ body ∈ alternatives, P body
  | [], h => by simp [Production.leadingAny] at h
  | body :: rest, h => by
    rw [Production.leadingAny, List.mem_append] at h
    rcases h with h | h
    · exact ⟨body, List.mem_cons_self .., of_mem_leadingSeq hP h⟩
    · obtain ⟨body', hmem, hbody⟩ := of_mem_leadingAny hP h
      exact ⟨body', List.mem_cons_of_mem _ hmem, hbody⟩

end

end FromFront

theorem fromFront_starts {s : Symbol} {c : TokenId} (hs : g.SymbolStarts s c) :
    g.FromFront s (g.Starts · c) where
  terminal := by
    rintro token idx ps rfl
    cases hs
    exact .terminal
  nonTerminal := by
    rintro name idx ps rfl
    obtain ⟨r, hr, hbody⟩ := hs
    exact .nonTerminal hr hbody
  option := .option
  many := .many
  choice := .choice
  later := .later

theorem leadingSeq_subset {rules : List String} {alternatives : List (List Production)}
    {body : List Production} (h : body ∈ alternatives) :
    Production.leadingSeq rules body ⊆ Production.leadingAny rules alternatives :=
  subset_of_mem (fun _ _ => by rw [Production.leadingAny]) h

theorem Starts.exists_leading {ps : List Production} {c : TokenId} (h : g.Starts ps c) :
    ∃ s ∈ Production.leadingSeq g.nullableRules ps, g.SymbolStarts s c := by
  induction h with
  | terminal => exact ⟨.token _, List.mem_append_left _ (List.mem_singleton.2 rfl), rfl⟩
  | nonTerminal hr hbody _ =>
    exact ⟨.rule _, List.mem_append_left _ (List.mem_singleton.2 rfl), _, hr, hbody⟩
  | option _ ih | many _ ih =>
    obtain ⟨s, hmem, hs⟩ := ih
    exact ⟨s, List.mem_append_left _ (by rwa [Production.leading]), hs⟩
  | choice h _ ih =>
    obtain ⟨s, hmem, hs⟩ := ih
    refine ⟨s, List.mem_append_left _ ?_, hs⟩
    rw [Production.leading]
    exact leadingSeq_subset h hmem
  | later hp _ ih =>
    obtain ⟨s, hmem, hs⟩ := ih
    refine ⟨s, ?_, hs⟩
    rw [Production.leadingSeq, if_pos (nullable_iff.2 hp)]
    exact List.mem_append_right _ hmem

/-- What can come first in a sequence is what can come first in one of its leading symbols. -/
theorem starts_iff {ps : List Production} {c : TokenId} :
    g.Starts ps c ↔ ∃ s ∈ Production.leadingSeq g.nullableRules ps, g.SymbolStarts s c := by
  refine ⟨Starts.exists_leading, ?_⟩
  rintro ⟨s, hmem, hs⟩
  exact (fromFront_starts hs).of_mem_leadingSeq hmem

/-! ## First sets hold nothing that cannot come first -/

/-- Every class in the sets can come first in its rule. -/
def SoundMemo (g : Grammar) (memo : FirstMemo) : Prop :=
  ∀ name, ∀ c ∈ (memo.lookup name).getD ∅, g.SymbolStarts (.rule name) c

theorem soundMemo_cons {memo : FirstMemo} {r : Rule} {name : String} {set : TokenSet}
    (hr : g.rule? name = some r) (hm : g.SoundMemo memo) (hset : ∀ c ∈ set, g.Starts r.body c) :
    g.SoundMemo ((name, set) :: memo) := by
  intro name' c hc
  rw [List.lookup_cons] at hc
  split at hc
  · rename_i heq
    obtain rfl : name' = name := by simpa using heq
    exact ⟨r, hr, hset c hc⟩
  · exact hm name' c hc

theorem sound_foldl_addFirst {visit : String → FirstMemo → FirstMemo} {body : List Production}
    (hvisit : ∀ name memo, g.SoundMemo memo → g.SoundMemo (visit name memo)) {symbols : List Symbol}
    (hs : symbols ⊆ Production.leadingSeq g.nullableRules body) {memo : FirstMemo} {set : TokenSet}
    (hm : g.SoundMemo memo) (hset : ∀ c ∈ set, g.Starts body c) :
    g.SoundMemo (symbols.foldl (addFirst visit) (memo, set)).1 ∧
      ∀ c ∈ (symbols.foldl (addFirst visit) (memo, set)).2, g.Starts body c := by
  induction symbols generalizing memo set with
  | nil => exact ⟨hm, hset⟩
  | cons s symbols ih =>
    rw [List.foldl_cons]
    have hfirst := hs (List.mem_cons_self ..)
    have hrest := List.Subset.trans (List.subset_cons_self s symbols) hs
    cases s with
    | token t =>
      refine ih hrest hm ?_
      intro c hc
      rcases TokenSet.mem_insert.1 hc with rfl | hc
      · exact starts_iff.2 ⟨.token c, hfirst, rfl⟩
      · exact hset c hc
    | rule name =>
      have hm' := hvisit name memo hm
      refine ih hrest hm' ?_
      intro c hc
      rcases TokenSet.mem_union.1 hc with hc | hc
      · exact hset c hc
      · exact starts_iff.2 ⟨.rule name, hfirst, hm' name c hc⟩

theorem sound_visitFirst {room : Nat} {path : List String} {name : String} {memo : FirstMemo}
    (hm : g.SoundMemo memo) : g.SoundMemo (g.visitFirst g.nullableRules room path name memo) := by
  induction room generalizing path name memo with
  | zero => exact hm
  | succ room ih =>
    rw [visitFirst]
    split
    · exact hm
    · split
      · exact hm
      · rename_i r hr
        obtain ⟨hm', hset⟩ := sound_foldl_addFirst (fun _ _ => ih)
          (List.Subset.refl (Production.leadingSeq g.nullableRules r.body)) hm
          (fun c hc => absurd hc TokenSet.not_mem_empty)
        exact soundMemo_cons hr hm' hset

theorem sound_ofGrammar (g : Grammar) : g.SoundMemo (FirstSets.ofGrammar g).sets := by
  show g.SoundMemo (g.rules.foldl (fun memo r => g.visitFirst g.nullableRules g.size [] r.name memo) [])
  refine List.foldlRecOn g.rules _ ?_ fun memo hm r _ => sound_visitFirst hm
  intro name c hc
  exact absurd hc TokenSet.not_mem_empty

/-- Every class in the first set of a rule can come first in the rule. -/
theorem starts_of_mem_first {name : String} {idx : Nat} {c : TokenId}
    (h : c ∈ (FirstSets.ofGrammar g).first name) : g.Starts [.nonTerminal name idx] c := by
  obtain ⟨r, hr, hbody⟩ := g.sound_ofGrammar name c h
  exact .nonTerminal hr hbody

/-! ## No rule comes to itself -/

/-- The first rule can be invoked in the second before the second consumes a token. -/
def Opens (g : Grammar) (inner outer : String) : Prop :=
  inner ∈ g.prefixRules g.nullableRules outer

theorem opens_iff {inner outer : String} : g.Opens inner outer ↔
    ∃ r, g.rule? outer = some r ∧ .rule inner ∈ Production.leadingSeq g.nullableRules r.body := by
  rw [Opens, prefixRules]
  cases g.rule? outer with
  | none => simp
  | some r =>
    simp only [List.mem_filterMap, Option.some.injEq, exists_eq_left']
    constructor
    · rintro ⟨s, hs, h⟩
      cases s with
      | token t => cases h
      | rule target =>
        obtain rfl : target = inner := Option.some.inj h
        exact hs
    · exact fun h => ⟨_, h, rfl⟩

/-- The path holds different rules of the grammar, and there is room for the others. -/
structure Path (g : Grammar) (path : List String) (room : Nat) : Prop where
  nodup : path.Nodup
  declared : ∀ name ∈ path, g.declares name = true
  room : path.length + room = g.size

theorem path_nil : g.Path [] g.size := ⟨.nil, by simp, by simp⟩

theorem Path.cons {path : List String} {room : Nat} {name : String} (h : g.Path path (room + 1))
    (hd : g.declares name = true) (hn : ¬name ∈ path) : g.Path (name :: path) room := by
  refine ⟨List.nodup_cons.2 ⟨hn, h.nodup⟩, ?_, ?_⟩
  · intro name' hmem
    rcases List.mem_cons.1 hmem with rfl | hmem
    · exact hd
    · exact h.declared name' hmem
  · have := h.room
    rw [List.length_cons]
    omega

/-- A path without room holds all rules. -/
theorem Path.mem {path : List String} {name : String} (h : g.Path path 0)
    (hd : g.declares name = true) : name ∈ path := by
  refine Decidable.byContradiction fun hn => ?_
  have hnodup : (name :: path).Nodup := List.nodup_cons.2 ⟨hn, h.nodup⟩
  have hsub : name :: path ⊆ g.rules.map (·.name) := by
    intro name' hmem
    rcases List.mem_cons.1 hmem with rfl | hmem
    · exact declares_iff.1 hd
    · exact declares_iff.1 (h.declared name' hmem)
  have hlen := hnodup.length_le_of_subset hsub
  have hroom := h.room
  rw [List.length_cons, List.length_map] at hlen
  rw [size] at hroom
  omega

/-- No rule that is not declared is opened by another. -/
theorem acc_of_undeclared {name : String} (h : g.rule? name = none) : Acc g.Opens name := by
  refine .intro name fun inner hi => ?_
  obtain ⟨r, hr, -⟩ := opens_iff.1 hi
  rw [h] at hr
  cases hr

theorem foldlM_acc {r : String → String → Prop}
    {f : List String → String → Except (List String) (List String)} {names : List String}
    (hf : ∀ name ∈ names, ∀ done done', (∀ n ∈ done, Acc r n) → f done name = .ok done' →
      Acc r name ∧ ∀ n ∈ done', Acc r n)
    {done done' : List String} (hdone : ∀ n ∈ done, Acc r n) (h : names.foldlM f done = .ok done') :
    (∀ name ∈ names, Acc r name) ∧ ∀ n ∈ done', Acc r n := by
  induction names generalizing done with
  | nil =>
    obtain rfl : done = done' := Except.ok.inj h
    exact ⟨by simp, hdone⟩
  | cons name names ih =>
    rw [List.foldlM_cons] at h
    cases hname : f done name with
    | error e =>
      rw [hname] at h
      cases h
    | ok mid =>
      rw [hname] at h
      obtain ⟨hacc, hmid⟩ := hf name (List.mem_cons_self ..) done mid hdone hname
      obtain ⟨hrest, hlast⟩ := ih (fun n hn => hf n (List.mem_cons_of_mem _ hn)) hmid h
      refine ⟨?_, hlast⟩
      intro n hn
      rcases List.mem_cons.1 hn with rfl | hn
      · exact hacc
      · exact hrest n hn

/-- The search for a cycle ends without one only at rules that do not lead to one. -/
theorem acc_of_findCycle {room : Nat} {path done done' : List String} {name : String}
    (hpath : g.Path path room) (hdone : ∀ n ∈ done, Acc g.Opens n)
    (h : findCycle (g.prefixRules g.nullableRules) room path done name = .ok done') :
    Acc g.Opens name ∧ ∀ n ∈ done', Acc g.Opens n := by
  induction room generalizing path done done' name with
  | zero =>
    rw [findCycle] at h
    split at h
    · cases h
    · rename_i hn
      rw [ite_self] at h
      obtain rfl : done = done' := Except.ok.inj h
      refine ⟨acc_of_undeclared ?_, hdone⟩
      -- all declared rules are on the path
      cases hr : g.rule? name with
      | none => rfl
      | some r => exact absurd (hpath.mem (by rw [declares, hr]; rfl)) (by simpa using hn)
  | succ room ih =>
    rw [findCycle] at h
    split at h
    · cases h
    · rename_i hn
      split at h
      · rename_i hmem
        obtain rfl : done = done' := Except.ok.inj h
        exact ⟨hdone name (by simpa using hmem), hdone⟩
      · split at h
        · rename_i mid hmid
          obtain rfl : name :: mid = done' := Except.ok.inj h
          have hfold := foldlM_acc (r := g.Opens) ?_ hdone hmid
          · have hacc : Acc g.Opens name := .intro name hfold.1
            refine ⟨hacc, ?_⟩
            intro n hn'
            rcases List.mem_cons.1 hn' with rfl | hn'
            · exact hacc
            · exact hfold.2 n hn'
          · intro inner hi d d' hd hd'
            obtain ⟨r, hr, -⟩ := opens_iff.1 hi
            exact ih (hpath.cons (by rw [declares, hr]; rfl) (by simpa using hn)) hd hd'
        · cases h

/-- In a grammar without left recursion no rule opens itself, not even by way of others. -/
theorem wellFounded_opens (h : g.checkLeftRecursion g.nullableRules = .ok ()) :
    WellFounded g.Opens := by
  rw [checkLeftRecursion] at h
  split at h
  · rename_i done hdone
    have hfold := foldlM_acc (r := g.Opens)
      (fun name _ d d' hd hd' => acc_of_findCycle path_nil hd hd') (by simp) hdone
    refine ⟨fun name => ?_⟩
    by_cases hd : g.declares name = true
    · exact hfold.1 name (declares_iff.1 hd)
    · exact acc_of_undeclared (by simpa [declares] using hd)
  · cases h

/-! ## First sets are complete -/

/-- The sets that are known hold every class that can come first in their rules. -/
def CompleteMemo (g : Grammar) (memo : FirstMemo) : Prop :=
  ∀ name set, memo.lookup name = some set → ∀ c, g.SymbolStarts (.rule name) c → c ∈ set

theorem CompleteMemo.mem {memo : FirstMemo} {name : String} {c : TokenId} (hm : g.CompleteMemo memo)
    (hk : g.declares name = true → (memo.lookup name).isSome = true)
    (hc : g.SymbolStarts (.rule name) c) : c ∈ (memo.lookup name).getD ∅ := by
  obtain ⟨r, hr, hbody⟩ := hc
  have hsome := hk (by rw [declares, hr]; rfl)
  obtain ⟨set, hset⟩ := Option.isSome_iff_exists.1 hsome
  rw [hset]
  exact hm name set hset c ⟨r, hr, hbody⟩

theorem completeMemo_cons {memo : FirstMemo} {r : Rule} {name : String} {set : TokenSet}
    (hr : g.rule? name = some r) (hm : g.CompleteMemo memo)
    (hset : ∀ c, g.Starts r.body c → c ∈ set) : g.CompleteMemo ((name, set) :: memo) := by
  intro name' set' hlookup c hc
  rw [List.lookup_cons] at hlookup
  split at hlookup
  · rename_i heq
    obtain rfl : name' = name := by simpa using heq
    obtain rfl := Option.some.inj hlookup
    obtain ⟨r', hr', hbody⟩ := hc
    rw [hr] at hr'
    cases hr'
    exact hset c hbody
  · exact hm name' set' hlookup c hc

/-- A search leaves complete sets and forgets none. -/
structure Search (g : Grammar) (memo memo' : FirstMemo) : Prop where
  complete : g.CompleteMemo memo'
  keeps : ∀ name, (memo.lookup name).isSome = true → (memo'.lookup name).isSome = true

theorem Search.trans {memo₁ memo₂ memo₃ : FirstMemo} (h : g.Search memo₁ memo₂)
    (h' : g.Search memo₂ memo₃) : g.Search memo₁ memo₃ :=
  ⟨h'.complete, fun name hk => h'.keeps name (h.keeps name hk)⟩

/-- The search finds the set of the rule, if there is such a rule. -/
def Finds (g : Grammar) (name : String) (memo memo' : FirstMemo) : Prop :=
  g.Search memo memo' ∧ (g.declares name = true → (memo'.lookup name).isSome = true)

theorem search_foldl_addFirst {visit : String → FirstMemo → FirstMemo} {symbols : List Symbol}
    (hvisit : ∀ name, .rule name ∈ symbols → ∀ memo, g.CompleteMemo memo →
      g.Finds name memo (visit name memo))
    {memo : FirstMemo} (set : TokenSet) (hm : g.CompleteMemo memo) :
    g.Search memo (symbols.foldl (addFirst visit) (memo, set)).1 ∧
      (∀ c ∈ set, c ∈ (symbols.foldl (addFirst visit) (memo, set)).2) ∧
      ∀ s ∈ symbols, ∀ c, g.SymbolStarts s c →
        c ∈ (symbols.foldl (addFirst visit) (memo, set)).2 := by
  induction symbols generalizing memo set with
  | nil => exact ⟨⟨hm, fun _ hk => hk⟩, fun _ hc => hc, by simp⟩
  | cons s symbols ih =>
    have hrest := fun name hn => hvisit name (List.mem_cons_of_mem _ hn)
    rw [List.foldl_cons]
    cases s with
    | token t =>
      obtain ⟨hsearch, hold, hnew⟩ := ih hrest (set.insert t) hm
      refine ⟨hsearch, fun c hc => hold c (TokenSet.mem_insert.2 (.inr hc)), ?_⟩
      intro s hs c hc
      rcases List.mem_cons.1 hs with rfl | hs
      · exact hold c (TokenSet.mem_insert.2 (.inl hc))
      · exact hnew s hs c hc
    | rule name =>
      obtain ⟨hfirst, hfound⟩ := hvisit name (List.mem_cons_self ..) memo hm
      obtain ⟨hsearch, hold, hnew⟩ := ih hrest
        (set.union (((visit name memo).lookup name).getD ∅)) hfirst.complete
      refine ⟨hfirst.trans hsearch, fun c hc => hold c (TokenSet.mem_union.2 (.inl hc)), ?_⟩
      intro s hs c hc
      rcases List.mem_cons.1 hs with rfl | hs
      · exact hold c (TokenSet.mem_union.2 (.inr (hfirst.complete.mem hfound hc)))
      · exact hnew s hs c hc

theorem not_mem_path (hwf : WellFounded g.Opens) {path : List String} {name : String}
    (hup : ∀ outer ∈ path, Relation.TransGen g.Opens name outer) : ¬name ∈ path :=
  fun hmem => hwf.transGen.irrefl.irrefl name (hup name hmem)

/-- The rules on the path are those whose search is under way. They are opened by way of the rule
that is searched now, so it is none of them. -/
theorem finds_visitFirst (hwf : WellFounded g.Opens) {room : Nat} {path : List String}
    (name : String) {memo : FirstMemo} (hpath : g.Path path room)
    (hup : ∀ outer ∈ path, Relation.TransGen g.Opens name outer) (hm : g.CompleteMemo memo) :
    g.Finds name memo (g.visitFirst g.nullableRules room path name memo) := by
  induction room generalizing path name memo with
  | zero => exact ⟨⟨hm, fun _ hk => hk⟩, fun hd => absurd (hpath.mem hd) (not_mem_path hwf hup)⟩
  | succ room ih =>
    have hn := not_mem_path hwf hup
    rw [visitFirst]
    split
    · rename_i hknown
      refine ⟨⟨hm, fun _ hk => hk⟩, fun _ => ?_⟩
      simpa [hn] using hknown
    · split
      · rename_i hr
        refine ⟨⟨hm, fun _ hk => hk⟩, fun hd => ?_⟩
        rw [declares, hr] at hd
        cases hd
      · rename_i r hr
        have hd : g.declares name = true := by rw [declares, hr]; rfl
        -- the rule opens the rules that its search calls for
        have hvisit : ∀ inner, .rule inner ∈ Production.leadingSeq g.nullableRules r.body →
            ∀ memo, g.CompleteMemo memo → g.Finds inner memo
              (g.visitFirst g.nullableRules room (name :: path) inner memo) := by
          intro inner hmem memo' hm'
          have hopens : g.Opens inner name := opens_iff.2 ⟨r, hr, hmem⟩
          refine ih inner (hpath.cons hd hn) ?_ hm'
          intro outer hout
          rcases List.mem_cons.1 hout with rfl | hout
          · exact .single hopens
          · exact .trans (.single hopens) (hup outer hout)
        obtain ⟨hsearch, -, hnew⟩ := search_foldl_addFirst hvisit ∅ hm
        have hset : ∀ c, g.Starts r.body c → c ∈
            ((Production.leadingSeq g.nullableRules r.body).foldl (addFirst
              (g.visitFirst g.nullableRules room (name :: path))) (memo, ∅)).2 := by
          intro c hc
          obtain ⟨s, hmem, hs⟩ := hc.exists_leading
          exact hnew s hmem c hs
        refine ⟨⟨completeMemo_cons hr hsearch.complete hset, fun name' hk => ?_⟩, fun _ => ?_⟩
        · rw [List.lookup_cons]
          split
          · rfl
          · exact hsearch.keeps name' hk
        · rw [List.lookup_cons_self]
          rfl

theorem search_rules (hwf : WellFounded g.Opens) (rules : List Rule) {memo : FirstMemo}
    (hm : g.CompleteMemo memo) :
    g.Search memo
        (rules.foldl (fun memo r => g.visitFirst g.nullableRules g.size [] r.name memo) memo) ∧
      ∀ r ∈ rules, g.declares r.name = true →
        ((rules.foldl (fun memo r => g.visitFirst g.nullableRules g.size [] r.name memo)
          memo).lookup r.name).isSome = true := by
  induction rules generalizing memo with
  | nil => exact ⟨⟨hm, fun _ hk => hk⟩, by simp⟩
  | cons r rules ih =>
    rw [List.foldl_cons]
    obtain ⟨hfirst, hfound⟩ := finds_visitFirst hwf r.name path_nil (by simp) hm
    obtain ⟨hsearch, hrest⟩ := ih hfirst.complete
    refine ⟨hfirst.trans hsearch, ?_⟩
    intro r' hr' hd
    rcases List.mem_cons.1 hr' with rfl | hr'
    · exact hsearch.keeps _ (hfound hd)
    · exact hrest r' hr' hd

/-- Without left recursion the first set of a rule holds what can come first in it. -/
theorem mem_first (h : g.checkLeftRecursion g.nullableRules = .ok ()) {name : String} {c : TokenId} :
    c ∈ (FirstSets.ofGrammar g).first name ↔ g.SymbolStarts (.rule name) c := by
  refine ⟨g.sound_ofGrammar name c, fun hc => ?_⟩
  have hempty : g.CompleteMemo [] := by
    intro name set hlookup
    cases hlookup
  obtain ⟨hsearch, hfound⟩ := search_rules (wellFounded_opens h) g.rules hempty
  refine hsearch.complete.mem (fun hd => ?_) hc
  obtain ⟨r, hr, rfl⟩ := List.mem_map.1 (declares_iff.1 hd)
  exact hfound r hr hd

/-- Without left recursion the lookahead of a sequence holds what can come first in it. -/
theorem mem_ofSeq (h : g.checkLeftRecursion g.nullableRules = .ok ()) {ps : List Production}
    {c : TokenId} : c ∈ ((FirstSets.ofGrammar g).ofSeq ps).set ↔ g.Starts ps c := by
  have hsymbol : ∀ s : Symbol, c ∈ (FirstSets.ofGrammar g).ofSymbol s ↔ g.SymbolStarts s c := by
    intro s
    cases s with
    | token t => exact TokenSet.mem_single
    | rule name => exact mem_first h
  rw [FirstSets.mem_ofSeq_iff, starts_iff]
  simp only [hsymbol]
  rfl

/-- The lookahead of a sequence is nullable exactly if the sequence vanishes. -/
theorem nullable_ofSeq {ps : List Production} :
    ((FirstSets.ofGrammar g).ofSeq ps).nullable = true ↔ g.Vanishes ps :=
  nullableSeq_iff

end Grammar

end TopDown
