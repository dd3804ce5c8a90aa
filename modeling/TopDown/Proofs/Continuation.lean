import Mathlib.Data.Set.Image
import TopDown.Proofs.Follow
import TopDown.Proofs.WellFormed

/-!
# What is left of a rule

From a production of a rule there are many ways to the end of the rule: a construct that holds the
production is left behind, but a repetition may do any number of rounds more. `Continuation` lists
what is left on each of the ways. The table has one entry for every place of a rule, and the entry
is exact about the ways from there: `Grammar.faithful_of_analyze`.

The walk goes from right to left and keeps no ways, only what they can start with and what is first
on all of them. `Situation` says that both are right for the ways of the sequence that is walked.
-/

namespace TopDown

/-- On some way to the end of the rule, `rest` is left after the production `p`. The production is
in the sequence `ps`, after which `k` is left. -/
inductive Continuation (p : Production) :
    List Production → List Production → List Production → Prop where
  | here {ps k : List Production} : Continuation p (p :: ps) k (ps ++ k)
  | later {q : Production} {ps k rest : List Production} (h : Continuation p ps k rest) :
      Continuation p (q :: ps) k rest
  | option {idx : Nat} {body ps k rest : List Production}
      (inner : Continuation p body (ps ++ k) rest) : Continuation p (.option idx body :: ps) k rest
  /-- The round that holds the production is followed by `n` others. -/
  | many {idx : Nat} {body ps k rest : List Production} (n : Nat)
      (inner : Continuation p body ((List.replicate n body).flatten ++ (ps ++ k)) rest) :
      Continuation p (.many idx body :: ps) k rest
  | choice {idx : Nat} {alternatives : List (List Production)} {body ps k rest : List Production}
      (h : body ∈ alternatives) (inner : Continuation p body (ps ++ k) rest) :
      Continuation p (.choice idx alternatives :: ps) k rest

namespace Production

theorem preorder_eq_cons (p : Production) : p.preorder = p :: p.preorder.tail := by
  cases p <;> rw [preorder, List.tail_cons]

theorem mem_preorder_self (p : Production) : p ∈ p.preorder := by
  rw [preorder_eq_cons]
  exact List.mem_cons_self ..

theorem preorderSeq_singleton (p : Production) : preorderSeq [p] = p.preorder := by
  rw [preorderSeq, preorderSeq, List.append_nil]

/-- The bodies or alternatives of a production. -/
def branches : Production → List (List Production)
  | .option _ body | .many _ body => [body]
  | .choice _ alternatives => alternatives
  | _ => []

end Production

section Ways

variable {p q : Production} {ps qs k rest body : List Production} {idx : Nat}
  {alternatives : List (List Production)} {ways : Set (List Production)}

theorem Continuation.mem (h : Continuation p ps k rest) : p ∈ Production.preorderSeq ps := by
  induction h with
  | here =>
    rw [Production.preorderSeq]
    exact List.mem_append_left _ (Production.mem_preorder_self p)
  | later _ ih =>
    rw [Production.preorderSeq]
    exact List.mem_append_right _ ih
  | option _ ih | many _ _ ih =>
    rw [Production.preorderSeq, Production.preorder]
    exact List.mem_append_left _ (List.mem_cons_of_mem _ ih)
  | choice h _ ih =>
    rw [Production.preorderSeq, Production.preorder]
    exact List.mem_append_left _ (List.mem_cons_of_mem _ (Production.preorderSeq_subset h ih))

/-! ## Where the production is -/

theorem continuation_cons_iff : Continuation p (q :: qs) k rest ↔
    Continuation p [q] (qs ++ k) rest ∨ Continuation p qs k rest := by
  constructor
  · intro h
    cases h with
    | here => exact .inl .here
    | later h => exact .inr h
    | option inner => exact .inl (.option inner)
    | many n inner => exact .inl (.many n inner)
    | choice h inner => exact .inl (.choice h inner)
  · rintro (h | h)
    · cases h with
      | here => exact .here
      | later h => cases h
      | option inner => exact .option inner
      | many n inner => exact .many n inner
      | choice h inner => exact .choice h inner
    · exact .later h

/-- A production that does not hold itself is left behind. -/
theorem continuation_self_iff (h : p ∉ p.preorder.tail) : Continuation p [p] k rest ↔ rest = k := by
  constructor
  · intro hc
    have hinner {body k' : List Production} (hb : Production.preorderSeq body ⊆ p.preorder.tail) :
        ¬Continuation p body k' rest := fun hc => h (hb hc.mem)
    cases hc with
    | here => rfl
    | later hc => cases hc
    | option hc | many _ hc => exact absurd hc (hinner (List.Subset.refl _))
    | choice hmem hc => exact absurd hc (hinner (Production.preorderSeq_subset hmem))
  · rintro rfl
    exact .here

theorem continuation_option_iff (h : p ≠ .option idx body) :
    Continuation p [.option idx body] k rest ↔ Continuation p body k rest := by
  constructor
  · intro hc
    cases hc with
    | here => exact absurd rfl h
    | later hc => cases hc
    | option hc => exact hc
  · intro hc
    exact .option hc

theorem continuation_many_iff (h : p ≠ .many idx body) : Continuation p [.many idx body] k rest ↔
    ∃ n, Continuation p body ((List.replicate n body).flatten ++ k) rest := by
  constructor
  · intro hc
    cases hc with
    | here => exact absurd rfl h
    | later hc => cases hc
    | many n hc => exact ⟨n, hc⟩
  · rintro ⟨n, hc⟩
    exact .many n hc

theorem continuation_choice_iff (h : p ≠ .choice idx alternatives) :
    Continuation p [.choice idx alternatives] k rest ↔
      ∃ body ∈ alternatives, Continuation p body k rest := by
  constructor
  · intro hc
    cases hc with
    | here => exact absurd rfl h
    | later hc => cases hc
    | choice hmem hc => exact ⟨_, hmem, hc⟩
  · rintro ⟨body, hmem, hc⟩
    exact .choice hmem hc

/-! ## All the ways -/

/-- The ways from the production, when these are the ways after the sequence that holds it. -/
def waysFrom (p : Production) (ps : List Production) (ways : Set (List Production)) :
    Set (List Production) :=
  {rest | ∃ k ∈ ways, Continuation p ps k rest}

/-- The ways from the production in whichever alternative holds it. -/
def waysFromAny (p : Production) (alternatives : List (List Production))
    (ways : Set (List Production)) : Set (List Production) :=
  {rest | ∃ body ∈ alternatives, rest ∈ waysFrom p body ways}

/-- The ways that first go through the sequence. -/
def waysThrough (ps : List Production) (ways : Set (List Production)) : Set (List Production) :=
  (ps ++ ·) '' ways

/-- The ways that first go through the body any number of times. -/
def waysAround (body : List Production) (ways : Set (List Production)) : Set (List Production) :=
  {rest | ∃ n, rest ∈ waysThrough (List.replicate n body).flatten ways}

theorem mem_waysFrom : rest ∈ waysFrom p ps ways ↔ ∃ k ∈ ways, Continuation p ps k rest := Iff.rfl

theorem mem_waysFromAny :
    rest ∈ waysFromAny p alternatives ways ↔ ∃ body ∈ alternatives, rest ∈ waysFrom p body ways :=
  Iff.rfl

theorem mem_waysAround_zero (h : k ∈ ways) : k ∈ waysAround body ways := ⟨0, k, h, rfl⟩

theorem mem_waysAround_one (h : k ∈ ways) : body ++ k ∈ waysAround body ways := by
  have hround : (List.replicate 1 body).flatten = body := by simp
  exact ⟨1, k, h, by rw [hround]⟩

theorem waysFrom_head (h : p ∉ Production.preorderSeq qs) :
    waysFrom p (q :: qs) ways = waysFrom p [q] (waysThrough qs ways) := by
  ext rest
  rw [mem_waysFrom, mem_waysFrom, waysThrough, Set.exists_mem_image]
  refine exists_congr fun k => and_congr_right fun _ => ?_
  rw [continuation_cons_iff, or_iff_left_iff_imp]
  exact fun hc => absurd hc.mem h

theorem waysFrom_tail (h : p ∉ q.preorder) : waysFrom p (q :: qs) ways = waysFrom p qs ways := by
  ext rest
  refine exists_congr fun k => and_congr_right fun _ => ?_
  rw [continuation_cons_iff, or_iff_right_iff_imp]
  exact fun hc => absurd (Production.preorderSeq_singleton q ▸ hc.mem) h

theorem waysFrom_self (h : p ∉ p.preorder.tail) : waysFrom p [p] ways = ways := by
  ext rest
  rw [mem_waysFrom]
  constructor
  · rintro ⟨k, hk, hc⟩
    rw [continuation_self_iff h] at hc
    exact hc ▸ hk
  · exact fun hk => ⟨rest, hk, .here⟩

theorem waysFrom_option (h : p ≠ .option idx body) :
    waysFrom p [.option idx body] ways = waysFrom p body ways := by
  ext rest
  exact exists_congr fun k => and_congr_right fun _ => continuation_option_iff h

theorem waysFrom_many (h : p ≠ .many idx body) :
    waysFrom p [.many idx body] ways = waysFrom p body (waysAround body ways) := by
  ext rest
  rw [mem_waysFrom, mem_waysFrom]
  constructor
  · rintro ⟨k, hk, hc⟩
    obtain ⟨n, hc⟩ := (continuation_many_iff h).1 hc
    exact ⟨_, ⟨n, k, hk, rfl⟩, hc⟩
  · rintro ⟨_, ⟨n, k, hk, rfl⟩, hc⟩
    exact ⟨k, hk, .many n hc⟩

theorem waysFrom_choice (h : p ≠ .choice idx alternatives) :
    waysFrom p [.choice idx alternatives] ways = waysFromAny p alternatives ways := by
  ext rest
  rw [mem_waysFrom, mem_waysFromAny]
  constructor
  · rintro ⟨k, hk, hc⟩
    obtain ⟨body, hmem, hc⟩ := (continuation_choice_iff h).1 hc
    exact ⟨body, hmem, k, hk, hc⟩
  · rintro ⟨body, hmem, k, hk, hc⟩
    exact ⟨k, hk, (continuation_choice_iff h).2 ⟨body, hmem, hc⟩⟩

theorem waysFromAny_head (h : p ∉ Production.preorderAlts alternatives) :
    waysFromAny p (body :: alternatives) ways = waysFrom p body ways := by
  ext rest
  rw [mem_waysFromAny, List.exists_mem_cons_iff, or_iff_left_iff_imp]
  rintro ⟨body', hmem, k, -, hc⟩
  exact absurd (Production.preorderSeq_subset hmem hc.mem) h

theorem waysFromAny_tail (h : p ∉ Production.preorderSeq body) :
    waysFromAny p (body :: alternatives) ways = waysFromAny p alternatives ways := by
  ext rest
  rw [mem_waysFromAny, mem_waysFromAny, List.exists_mem_cons_iff, or_iff_right_iff_imp]
  rintro ⟨k, -, hc⟩
  exact absurd hc.mem h

end Ways

/-! ## What is said of the ways -/

/-- The lookahead tells exactly what can come first on the ways, and whether there is a way on which
nothing has to come. -/
structure Lookahead.Covers (g : Grammar) (ways : Set (List Production)) (a : Lookahead) : Prop where
  set : ∀ c, c ∈ a.set ↔ ∃ rest ∈ ways, g.Starts rest c
  nullable : ∀ v, a.nullable = true ↔ ∃ rest ∈ ways, g.Derives v rest []

/-- A token is announced if the production right after is the call for it on every way, and the end
of the rule if nothing is left on any way. -/
structure AfterRepetition.Announces (ways : Set (List Production)) (a : AfterRepetition) :
    Prop where
  terminal : ∀ token idx, a = .terminal token idx ↔
    ∀ rest ∈ ways, ∃ after, rest = .terminal token idx :: after
  endOfRule : a = .endOfRule ↔ ∀ rest ∈ ways, rest = []

namespace Lookahead

variable {g : Grammar} {ways : Set (List Production)} {ps body : List Production}
  {tail a : Lookahead}

theorem Covers.nullable_iff (h : a.Covers g ways) :
    a.nullable = true ↔ ∃ rest ∈ ways, g.Vanishes rest := by
  rw [h.nullable ⟨[]⟩]
  exact exists_congr fun _ => and_congr_right fun _ => Grammar.vanishes_iff.symm

theorem covers_endOfRule : Lookahead.empty.Covers g {[]} where
  set c := by simp [Lookahead.empty]
  nullable v := by
    have hnil : g.Derives v [] [] := .nil
    simp [Lookahead.empty, hnil]

theorem Extends.covers (h : Extends g ps tail a) (htail : tail.Covers g ways)
    (hne : ways.Nonempty) : a.Covers g (waysThrough ps ways) where
  set c := by
    rw [h.set c, htail.set c, waysThrough, Set.exists_mem_image]
    simp only [Grammar.Starts.append_iff, and_or_left, exists_or]
    obtain ⟨k, hk⟩ := hne
    constructor
    · rintro (hs | ⟨hv, k', hk', hs⟩)
      · exact .inl ⟨k, hk, hs⟩
      · exact .inr ⟨k', hk', hv, hs⟩
    · rintro (⟨-, -, hs⟩ | ⟨k', hk', hv, hs⟩)
      · exact .inl hs
      · exact .inr ⟨hv, k', hk', hs⟩
  nullable v := by
    rw [h.nullable, htail.nullable_iff, waysThrough, Set.exists_mem_image]
    simp only [← Grammar.vanishes_iff, Grammar.Vanishes.append_iff]
    constructor
    · rintro ⟨hv, k, hk, hk'⟩
      exact ⟨k, hk, hv, hk'⟩
    · rintro ⟨k, hk, hv, hk'⟩
      exact ⟨hv, k, hk, hk'⟩

theorem starts_rounds {k : List Production} {c : TokenId} {n : Nat}
    (h : g.Starts ((List.replicate n body).flatten ++ k) c) : g.Starts body c ∨ g.Starts k c := by
  induction n with
  | zero => exact .inr h
  | succ n ih =>
    rw [List.replicate_succ, List.flatten_cons, List.append_assoc] at h
    rcases Grammar.Starts.append_iff.1 h with hs | ⟨-, hs⟩
    · exact .inl hs
    · exact ih hs

/-- No round or one round shows all that can come first on the ways around a repetition. -/
theorem Exact.covers_around (h : a.Exact g body) (htail : tail.Covers g ways)
    (hne : ways.Nonempty) :
    Covers g (waysAround body ways) ⟨a.set.union tail.set, tail.nullable⟩ where
  set c := by
    rw [TokenSet.mem_union, h.set c, htail.set c]
    constructor
    · rintro (hs | ⟨k, hk, hs⟩)
      · obtain ⟨k, hk⟩ := hne
        exact ⟨body ++ k, mem_waysAround_one hk, hs.append_left⟩
      · exact ⟨k, mem_waysAround_zero hk, hs⟩
    · rintro ⟨_, ⟨n, k, hk, rfl⟩, hs⟩
      exact (starts_rounds hs).imp_right fun hs => ⟨k, hk, hs⟩
  nullable v := by
    rw [htail.nullable v]
    constructor
    · rintro ⟨k, hk, hv⟩
      exact ⟨k, mem_waysAround_zero hk, hv⟩
    · rintro ⟨_, ⟨n, k, hk, rfl⟩, hv⟩
      rw [← Grammar.vanishes_iff] at hv
      exact ⟨k, hk, Grammar.vanishes_iff.1 (Grammar.Vanishes.append_iff.1 hv).2⟩

end Lookahead

/-! ## Along the walk -/

namespace Grammar

variable {g : Grammar} {ps qs body : List Production} {p q : Production} {idx : Nat}
  {occurrences occurrences' : List Production} {ways : Set (List Production)} {tail : Lookahead}
  {next : AfterRepetition}

/-- The walk comes to the productions from the right: `tail` and `next` tell of the ways after them.
Some way begins with a production other than these. -/
structure Situation (g : Grammar) (occurrences : List Production) (ways : Set (List Production))
    (tail : Lookahead) (next : AfterRepetition) : Prop where
  distinct : (occurrences.map (·.site)).Nodup
  advancing : ∀ p ∈ occurrences, ∀ body, p.repeated? = some body → ¬g.Vanishes body
  apart : ∃ rest ∈ ways, ∀ p ∈ rest.head?, p.site ∉ occurrences.map (·.site)
  covers : tail.Covers g ways
  announces : next.Announces ways

theorem Situation.nonempty (h : g.Situation occurrences ways tail next) : ways.Nonempty := by
  obtain ⟨rest, hrest, -⟩ := h.apart
  exact ⟨rest, hrest⟩

/-- Of fewer productions the same ways come after. -/
theorem Situation.sublist (h : g.Situation occurrences ways tail next)
    (hsub : occurrences'.Sublist occurrences) : g.Situation occurrences' ways tail next where
  distinct := h.distinct.sublist (hsub.map _)
  advancing p hp := h.advancing p (hsub.subset hp)
  apart := by
    obtain ⟨rest, hrest, hapart⟩ := h.apart
    exact ⟨rest, hrest, fun p hp hmem => hapart p hp ((hsub.map _).subset hmem)⟩
  covers := h.covers
  announces := h.announces

/-- Right after a sequence that begins with `q` comes `q`, on all ways. -/
theorem announces_cons (hne : ways.Nonempty) :
    q.afterRepetition.Announces (waysThrough (q :: qs) ways) where
  terminal token idx := by
    rw [waysThrough, Set.forall_mem_image]
    obtain ⟨k, hk⟩ := hne
    constructor
    · intro hq
      have hq : q = .terminal token idx := by
        cases q <;> simp_all [Production.afterRepetition]
      exact fun k' _ => ⟨qs ++ k', by rw [hq, List.cons_append]⟩
    · intro hall
      obtain ⟨after, hafter⟩ := hall hk
      cases hafter
      rfl
  endOfRule := by
    rw [waysThrough, Set.forall_mem_image]
    obtain ⟨k, hk⟩ := hne
    constructor
    · intro hq
      cases q <;> simp [Production.afterRepetition] at hq
    · intro hall
      cases hall hk

theorem next_walk {f : FirstSets} {rule : String} (p : Production) :
    (f.walk rule tail next p).next = p.afterRepetition := by
  cases p <;> rfl

/-- What the walk carries on to the first production of a sequence is right. -/
theorem Situation.head (hleft : g.checkLeftRecursion g.nullableRules = .ok ()) (rule : String)
    (h : g.Situation (Production.preorderSeq (q :: qs)) ways tail next) :
    g.Situation q.preorder (waysThrough qs ways)
      ((FirstSets.ofGrammar g).walkSeq rule tail next qs).lookahead
      ((FirstSets.ofGrammar g).walkSeq rule tail next qs).next := by
  have hdistinct := h.distinct
  rw [Production.preorderSeq, List.map_append, List.nodup_append] at hdistinct
  obtain ⟨hhead, -, hdisjoint⟩ := hdistinct
  have hcovers := (extends_walkSeq hleft rule tail next qs).covers h.covers h.nonempty
  have hadvancing : ∀ p ∈ q.preorder, ∀ body, p.repeated? = some body → ¬g.Vanishes body :=
    fun p hp => h.advancing p (List.mem_append_left _ hp)
  cases qs with
  | nil =>
    have hsame : waysThrough [] ways = ways := by simp [waysThrough]
    rw [hsame] at hcovers ⊢
    have hq : Production.preorderSeq [q] = q.preorder := Production.preorderSeq_singleton q
    exact ⟨hhead, hadvancing, hq ▸ h.apart, hcovers, h.announces⟩
  | cons q' qs =>
    refine ⟨hhead, hadvancing, ?_, hcovers, ?_⟩
    · obtain ⟨k, hk⟩ := h.nonempty
      refine ⟨q' :: qs ++ k, Set.mem_image_of_mem _ hk, ?_⟩
      intro p hp hmem
      cases hp
      refine hdisjoint _ hmem _ (List.mem_map_of_mem ?_) rfl
      exact List.mem_append_left _ (Production.mem_preorder_self q')
    · simp only [FirstSets.walkSeq, next_walk]
      exact announces_cons h.nonempty

/-- What the walk carries into the body of a repetition is right, and nothing is announced there. -/
theorem Situation.around (hleft : g.checkLeftRecursion g.nullableRules = .ok ())
    (h : g.Situation (Production.many idx body).preorder ways tail next) :
    g.Situation (Production.preorderSeq body) (waysAround body ways)
      ⟨((FirstSets.ofGrammar g).ofSeq body).set.union tail.set, tail.nullable⟩ .other := by
  have hinner : g.Situation (Production.preorderSeq body) ways tail next :=
    h.sublist (List.sublist_cons_self ..)
  have hbody : body ≠ [] := by
    rintro rfl
    exact h.advancing _ (Production.mem_preorder_self _) [] rfl .nil
  obtain ⟨k, hk, hapart⟩ := hinner.apart
  have hcovers := (FirstSets.exact_ofSeq hleft body).covers_around h.covers h.nonempty
  refine ⟨hinner.distinct, hinner.advancing, ⟨k, mem_waysAround_zero hk, hapart⟩, hcovers, ?_⟩
  obtain ⟨q, qs, rfl⟩ := List.exists_cons_of_ne_nil hbody
  -- the body comes again on one way and what follows the repetition on another, and the productions
  -- that these begin with are at different sites
  constructor
  · intro token idx
    simp only [reduceCtorEq, false_iff]
    intro hall
    obtain ⟨after, hafter⟩ := hall k (mem_waysAround_zero hk)
    obtain ⟨after', hafter'⟩ := hall _ (mem_waysAround_one hk)
    cases hafter'
    refine hapart (.terminal token idx) (by rw [hafter]; rfl) (List.mem_map_of_mem ?_)
    exact List.mem_append_left _ (Production.mem_preorder_self _)
  · simp only [reduceCtorEq, false_iff]
    intro hall
    cases hall _ (mem_waysAround_one hk)

/-- The walk tells of the ways from each production that can be asked for. -/
structure Tells (g : Grammar) (rule : String) (occurrences : List Production)
    (waysFrom : Production → Set (List Production)) (w : FollowWalk) : Prop where
  follow : ∀ p ∈ occurrences, ∀ site, p.callSite? rule = some site →
    ∃ a, (site, a) ∈ w.follows ∧ a.Covers g (waysFrom p)
  repetition : ∀ p ∈ occurrences, ∀ key, p.repetition? rule = some key →
    ∃ a, (key, a) ∈ w.repetitions ∧ a.Announces (waysFrom p)

section Tells

variable {rule : String} {from₁ from₂ : Production → Set (List Production)} {w w' : FollowWalk}

theorem Tells.mono (h : g.Tells rule occurrences from₁ w)
    (hways : ∀ p ∈ occurrences, from₂ p = from₁ p) (hf : w.follows ⊆ w'.follows)
    (hr : w.repetitions ⊆ w'.repetitions) : g.Tells rule occurrences from₂ w' where
  follow p hp site hsite := by
    obtain ⟨a, ha, hcovers⟩ := h.follow p hp site hsite
    exact ⟨a, hf ha, hways p hp ▸ hcovers⟩
  repetition p hp key hkey := by
    obtain ⟨a, ha, hann⟩ := h.repetition p hp key hkey
    exact ⟨a, hr ha, hways p hp ▸ hann⟩

theorem Tells.append (h : g.Tells rule occurrences from₁ w)
    (h' : g.Tells rule occurrences' from₁ w) :
    g.Tells rule (occurrences ++ occurrences') from₁ w where
  follow p hp := (List.mem_append.1 hp).elim (h.follow p) (h'.follow p)
  repetition p hp := (List.mem_append.1 hp).elim (h.repetition p) (h'.repetition p)

/-- The first of the productions is not among those inside it. -/
theorem Situation.not_inside (h : g.Situation q.preorder ways tail next) :
    q ∉ q.preorder.tail := by
  have hdistinct := h.distinct
  rw [Production.preorder_eq_cons, List.map_cons, List.nodup_cons] at hdistinct
  exact fun hmem => hdistinct.1 (List.mem_map_of_mem hmem)

/-- The productions of two parts of a sequence are not the same. -/
theorem Situation.disjoint (h : g.Situation (occurrences ++ occurrences') ways tail next)
    {p : Production} (hp : p ∈ occurrences) : p ∉ occurrences' := by
  have hdistinct := h.distinct
  rw [List.map_append, List.nodup_append] at hdistinct
  exact fun hp' => hdistinct.2.2 _ (List.mem_map_of_mem hp) _ (List.mem_map_of_mem hp') rfl

theorem tells_self {f : FirstSets} (h : g.Situation q.preorder ways tail next) :
    g.Tells rule [q] (fun p => waysFrom p [q] ways) (f.walk rule tail next q) where
  follow p hp site hsite := by
    rw [List.mem_singleton] at hp
    subst hp
    rw [waysFrom_self h.not_inside]
    cases p with
    | terminal | nonTerminal =>
      cases hsite
      exact ⟨tail, List.mem_singleton_self _, h.covers⟩
    | option | many | choice => cases hsite
  repetition p hp key hkey := by
    rw [List.mem_singleton] at hp
    subst hp
    rw [waysFrom_self h.not_inside]
    cases p with
    | many =>
      cases hkey
      exact ⟨next, List.mem_cons_self .., h.announces⟩
    | terminal | nonTerminal | option | choice => cases hkey

end Tells

mutual

/-- The walk tells of the ways from a production and from the productions inside it. -/
theorem tells_walk (hleft : g.checkLeftRecursion g.nullableRules = .ok ()) (rule : String)
    {ways : Set (List Production)} {tail : Lookahead} {next : AfterRepetition} :
    ∀ q : Production, g.Situation q.preorder ways tail next →
      g.Tells rule q.preorder (fun p => waysFrom p [q] ways)
        ((FirstSets.ofGrammar g).walk rule tail next q)
  | .terminal _ _, h | .nonTerminal _ _, h => tells_self h
  | .option idx body, h => by
    have hinner := tells_walkSeq hleft rule body (h.sublist (List.sublist_cons_self ..))
    refine (tells_self h).append (hinner.mono (fun p hp => ?_) (List.Subset.refl _)
      (List.Subset.refl _))
    refine waysFrom_option ?_
    rintro rfl
    exact h.not_inside hp
  | .many idx body, h => by
    have hinner := tells_walkSeq hleft rule body (h.around hleft)
    refine (tells_self h).append (hinner.mono (fun p hp => ?_) (List.Subset.refl _)
      (List.subset_cons_self ..))
    refine waysFrom_many ?_
    rintro rfl
    exact h.not_inside hp
  | .choice idx alternatives, h => by
    have hinner := tells_walkAlts hleft rule alternatives (h.sublist (List.sublist_cons_self ..))
    refine (tells_self h).append (hinner.mono (fun p hp => ?_) (List.Subset.refl _)
      (List.Subset.refl _))
    refine waysFrom_choice ?_
    rintro rfl
    exact h.not_inside hp

theorem tells_walkSeq (hleft : g.checkLeftRecursion g.nullableRules = .ok ()) (rule : String)
    {ways : Set (List Production)} {tail : Lookahead} {next : AfterRepetition} :
    ∀ ps : List Production, g.Situation (Production.preorderSeq ps) ways tail next →
      g.Tells rule (Production.preorderSeq ps) (fun p => waysFrom p ps ways)
        ((FirstSets.ofGrammar g).walkSeq rule tail next ps)
  | [], _ => ⟨nofun, nofun⟩
  | q :: qs, h => by
    have hhead := tells_walk hleft rule q (h.head hleft rule)
    have htail := tells_walkSeq hleft rule qs (h.sublist (List.sublist_append_right ..))
    have hdisjoint {p : Production} (hp : p ∈ q.preorder) : p ∉ Production.preorderSeq qs :=
      Situation.disjoint h hp
    refine (hhead.mono (fun p hp => ?_) ?_ ?_).append (htail.mono (fun p hp => ?_) ?_ ?_)
    · exact waysFrom_head fun hmem => hdisjoint hp hmem
    · exact List.subset_append_left _ _
    · exact List.subset_append_left _ _
    · exact waysFrom_tail fun hmem => hdisjoint hmem hp
    · exact List.subset_append_right _ _
    · exact List.subset_append_right _ _

theorem tells_walkAlts (hleft : g.checkLeftRecursion g.nullableRules = .ok ()) (rule : String)
    {ways : Set (List Production)} {tail : Lookahead} {next : AfterRepetition} :
    ∀ alternatives : List (List Production),
      g.Situation (Production.preorderAlts alternatives) ways tail next →
      g.Tells rule (Production.preorderAlts alternatives)
        (fun p => waysFromAny p alternatives ways)
        ((FirstSets.ofGrammar g).walkAlts rule tail next alternatives)
  | [], _ => ⟨nofun, nofun⟩
  | body :: alternatives, h => by
    have hhead := tells_walkSeq hleft rule body (h.sublist (List.sublist_append_left ..))
    have htail := tells_walkAlts hleft rule alternatives
      (h.sublist (List.sublist_append_right ..))
    have hdisjoint {p : Production} (hp : p ∈ Production.preorderSeq body) :
        p ∉ Production.preorderAlts alternatives := Situation.disjoint h hp
    refine (hhead.mono (fun p hp => ?_) ?_ ?_).append (htail.mono (fun p hp => ?_) ?_ ?_)
    · exact waysFromAny_head fun hmem => hdisjoint hp hmem
    · exact List.subset_append_left _ _
    · exact List.subset_append_left _ _
    · exact waysFromAny_tail fun hmem => hdisjoint hmem hp
    · exact List.subset_append_right _ _
    · exact List.subset_append_right _ _

end

/-! ## The table -/

/-- The entries are those of the productions that have a key, one for each, and every production
finds an entry that is right for it. -/
structure Tabulates {κ β : Type} [BEq κ] (g : Grammar) (key : String → Production → Option κ)
    (entries : List (κ × β)) (Right : Rule → Production → β → Prop) : Prop where
  keys : entries.map (·.1) =
    g.rules.flatMap fun r => (Production.preorderSeq r.body).filterMap (key r.name)
  nodup : (entries.map (·.1)).Nodup
  lookup : ∀ r ∈ g.rules, ∀ p ∈ Production.preorderSeq r.body, ∀ k, key r.name p = some k →
    ∃ b, entries.lookup k = some b ∧ Right r p b

theorem Keyed.tabulates {κ β : Type} [BEq κ] [LawfulBEq κ] {key : String → Production → Option κ}
    {entries : Rule → List (κ × β)} {Right : Rule → Production → β → Prop}
    (hk : Keyed key entries) (h : g.checkOccurrences = .ok ())
    (hright : ∀ r ∈ g.rules, ∀ p ∈ Production.preorderSeq r.body, ∀ k, key r.name p = some k →
      ∃ b, (k, b) ∈ entries r ∧ Right r p b) :
    g.Tabulates key (g.rules.flatMap entries) Right where
  keys := by
    rw [List.map_flatMap]
    simp only [hk.keys]
  nodup := hk.nodup_flatMap g.distinct fun _ => nodup_sites h
  lookup r hr p hp k hpk := by
    obtain ⟨b, hb, hright⟩ := hright r hr p hp k hpk
    exact ⟨b, hk.lookup h hr hb, hright⟩

theorem situation_body (hg : g.WellFormed) {r : Rule} (hr : r ∈ g.rules) :
    g.Situation (Production.preorderSeq r.body) {[]} .empty .endOfRule where
  distinct := hg.distinguished r hr
  advancing p hp _ hbody := hg.advancing _ _ _ (occurs_of_mem hr hp) hbody
  apart := ⟨[], rfl, nofun⟩
  covers := Lookahead.covers_endOfRule
  announces := by constructor <;> simp

end Grammar

/-- The ways from the production to the end of the rule. -/
def Rule.waysFrom (r : Rule) (p : Production) : Set (List Production) :=
  {rest | Continuation p r.body [] rest}

theorem Rule.waysFrom_eq (r : Rule) (p : Production) :
    r.waysFrom p = TopDown.waysFrom p r.body {[]} := by
  ext rest
  simp [Rule.waysFrom, mem_waysFrom]

/-- The table has one entry for every decision, every call site and every repetition, and each is
exact. The walk that finds what comes after a place agrees with the lookahead of sequences. -/
structure LookaheadTable.Faithful (g : Grammar) (t : LookaheadTable) : Prop where
  decisions : g.Tabulates Production.decisionKey? t.decisions fun _ p branches =>
    branches = p.branches.map (FirstSets.ofGrammar g).ofSeq
  follows : g.Tabulates Production.callSite? t.follows fun r p a => a.Covers g (r.waysFrom p)
  repetitions : g.Tabulates Production.repetition? t.repetitions fun r p a =>
    a.Announces (r.waysFrom p)
  walk : ∀ rule tail next ps, ((FirstSets.ofGrammar g).walkSeq rule tail next ps).lookahead =
    ((FirstSets.ofGrammar g).ofSeq ps).andThen tail

namespace Grammar

variable {g : Grammar}

theorem tells_walkRule (h : g.check = .ok (.ofGrammar g)) {r : Rule} (hr : r ∈ g.rules) :
    g.Tells r.name (Production.preorderSeq r.body) r.waysFrom
      ((FirstSets.ofGrammar g).walkRule r) := by
  obtain ⟨-, -, -, hleft, -, -⟩ := Language.checked_eq_ok h
  have htells := tells_walkSeq hleft r.name r.body (situation_body (wellFormed_of_check h) hr)
  exact htells.mono (fun p _ => r.waysFrom_eq p) (List.Subset.refl _) (List.Subset.refl _)

/-- The table of a grammar that the analysis accepts is complete and exact. -/
theorem faithful_of_analyze {t : LookaheadTable} (h : g.analyze = .ok t) : t.Faithful g := by
  have hcheck : g.check = .ok (.ofGrammar g) := by
    cases hc : g.check with
    | error e =>
      rw [analyze_eq_error_iff.2 hc] at h
      cases h
    | ok f => rw [(Language.checked_eq_ok hc).1]
  have htable : t = g.table (.ofGrammar g) := by
    rw [analyze, hcheck] at h
    cases h
    rfl
  obtain ⟨-, -, hoccs, -⟩ := Language.checked_eq_ok hcheck
  subst htable
  refine ⟨?_, ?_, ?_, FirstSets.lookahead_walkSeq _⟩
  · refine (keyed_decisions (.ofGrammar g)).tabulates hoccs ?_
    intro r _ p hp key hkey
    refine ⟨_, List.mem_filterMap.2 ⟨p, hp, ?_⟩, rfl⟩
    cases p <;> cases hkey <;> rfl
  · exact (keyed_follows (.ofGrammar g)).tabulates hoccs fun r hr =>
      (tells_walkRule hcheck hr).follow
  · exact (keyed_repetitions (.ofGrammar g)).tabulates hoccs fun r hr =>
      (tells_walkRule hcheck hr).repetition

/-- The table of the JSON language is complete and exact. After the members of an object and after
the items of an array comes the bracket that closes them. -/
theorem faithful_of_analyze_json :
    Json.language.grammar.analyze = .ok Json.language.table ∧
    Json.language.table.Faithful Json.language.grammar ∧
    Json.language.table.repetitions =
      [(⟨"object", .many, 1⟩, .terminal Json.rightCurly 1),
        (⟨"array", .many, 1⟩, .terminal Json.rightSquare 1)] := by
  have hjson : Json.language.grammar.analyze = .ok Json.language.table :=
    (Language.outlined_of_build Json.build_draft Json.plain_draft).2.analyze
  have hrepetitions : Json.language.table.repetitions =
      [(⟨"object", .many, 1⟩, .terminal Json.rightCurly 1),
        (⟨"array", .many, 1⟩, .terminal Json.rightSquare 1)] := by
    decide +kernel
  exact ⟨hjson, faithful_of_analyze hjson, hrepetitions⟩

end Grammar

end TopDown
