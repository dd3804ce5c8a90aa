import Mathlib.Data.List.Induction
import Mathlib.Order.Defs.Unbundled
import TopDown.Proofs.Completeness
import TopDown.Proofs.Predictive
import TopDown.Proofs.Scanning

/-!
# The hierarchy of token classes

`WellDeclared` says what declarations have to satisfy, and exactly then they make up a vocabulary.
In a vocabulary that was built, the ancestors of a class are found by going from parent to parent
(`Declaration.Ascent`), so a class is accepted for another exactly if that is reached in this way.
The stored table, into which every class copies the entry of its parent, holds the same ancestors:
`Vocabulary.getD_ancestorTable`.

Both properties of a vocabulary that the checks do not look at directly are found by going through
the declarations: upwards, since a parent has a smaller place than its children, and downwards from a
category to a class with a pattern, since every category has a child and the places are bounded.
-/

namespace TopDown

namespace Declaration

/-- The declaration at place `child` names `parent` as its parent. -/
def ChildOf (ds : List Declaration) (child parent : TokenId) : Prop :=
  ∃ d, ds[child]? = some d ∧ d.parent = some parent

/-- The places from `id` upwards: each is followed by its parent, and the last one has none. -/
inductive Ascent (ds : List Declaration) : TokenId → List TokenId → Prop where
  | root {id : TokenId} {d : Declaration} (h : ds[id]? = some d) (hp : d.parent = none) :
      Ascent ds id [id]
  | step {id parent : TokenId} {ids : List TokenId} (h : ChildOf ds id parent)
      (rest : Ascent ds parent ids) : Ascent ds id (id :: ids)

end Declaration

open Declaration

/-- The pattern is well formed where it is tied to its place, and the check for empty matches does
not refuse it. -/
def Compiles (pattern : String) : Prop :=
  (Regex.parse? ("^(?:" ++ pattern ++ ")")).isSome = true ∧
    (Regex.parse? pattern).bind (·.minLength?) ≠ some 0

/-- What declarations have to satisfy. -/
structure WellDeclared (ds : List Declaration) : Prop where
  distinct : (ds.map (·.name)).Nodup
  ordered : ∀ child parent, ChildOf ds child parent → parent < child
  inhabited : ∀ id d, ds[id]? = some d → d.pattern = none → ∃ child, ChildOf ds child id
  compiles : ∀ d ∈ ds, ∀ pattern, d.pattern = some pattern → Compiles pattern

section Checks

variable {d : Declaration} {ds all before : List Declaration} {c : TokenClass} {v : Vocabulary}

theorem Declaration.childOf_zero {parent : TokenId} :
    ChildOf (d :: ds) 0 parent ↔ d.parent = some parent := by
  simp [ChildOf]

theorem Declaration.exists_childOf_iff {parent : TokenId} :
    (∃ child, ChildOf ds child parent) ↔ ∃ d ∈ ds, d.parent = some parent := by
  constructor
  · rintro ⟨child, d, hd, hp⟩
    exact ⟨d, List.mem_of_getElem? hd, hp⟩
  · rintro ⟨d, hd, hp⟩
    obtain ⟨child, hchild⟩ := List.mem_iff_getElem?.1 hd
    exact ⟨child, d, hchild, hp⟩

namespace Vocabulary

/-! ## What the checks find -/

theorem checkDeclarations_eq_ok_iff : checkDeclarations before ds = .ok () ↔
    (∀ d ∈ ds, ∀ b ∈ before, b.name ≠ d.name) ∧ (ds.map (·.name)).Nodup ∧
      ∀ k parent, ChildOf ds k parent → parent < before.length + k := by
  induction ds generalizing before with
  | nil => simp [checkDeclarations, ChildOf]
  | cons d ds ih =>
    rw [checkDeclarations]
    by_cases hname : before.any (·.name == d.name) = true
    · rw [if_pos hname]
      refine iff_of_false (fun h => nomatch h) fun h => ?_
      obtain ⟨b, hb, heq⟩ := List.any_eq_true.1 hname
      exact h.1 d List.mem_cons_self b hb (eq_of_beq heq)
    rw [if_neg hname]
    by_cases hparent : d.parent.any (before.length ≤ ·) = true
    · rw [if_pos hparent]
      refine iff_of_false (fun h => nomatch h) fun h => ?_
      obtain ⟨parent, hp, hle⟩ := (Option.any_eq_true _ _).1 hparent
      have hlt := h.2.2 0 parent (childOf_zero.2 hp)
      exact absurd hlt (Nat.not_lt.2 (of_decide_eq_true hle))
    rw [if_neg hparent, ih]
    have hplace (k : Nat) : (d :: before).length + k = before.length + (k + 1) := by
      rw [List.length_cons, Nat.add_assoc, Nat.add_comm 1 k]
    simp only [hplace]
    constructor
    · rintro ⟨hnames, hdistinct, hplaces⟩
      have hd : ∀ b ∈ before, b.name ≠ d.name := by simpa using hname
      refine ⟨List.forall_mem_cons.2 ⟨hd, fun d' hd' b hb => ?_⟩,
        List.nodup_cons.2 ⟨fun hmem => ?_, hdistinct⟩, fun k parent hk => ?_⟩
      · exact hnames d' hd' b (List.mem_cons_of_mem d hb)
      · obtain ⟨d', hd', heq⟩ := List.mem_map.1 hmem
        exact hnames d' hd' d List.mem_cons_self heq.symm
      · cases k with
        | zero =>
          rw [childOf_zero.1 hk] at hparent
          simpa using hparent
        | succ k => exact hplaces k parent hk
    · rintro ⟨hnames, hdistinct, hplaces⟩
      rw [List.map_cons, List.nodup_cons] at hdistinct
      refine ⟨fun d' hd' => List.forall_mem_cons.2 ⟨fun heq => ?_, ?_⟩, hdistinct.2,
        fun k parent hk => ?_⟩
      · exact hdistinct.1 (heq ▸ List.mem_map_of_mem hd')
      · exact hnames d' (List.mem_cons_of_mem d hd')
      · exact hplaces (k + 1) parent hk

theorem checkCategories_eq_ok_iff {id : TokenId} : checkCategories all id ds = .ok () ↔
    ∀ k d, ds[k]? = some d → d.pattern = none → ∃ child, ChildOf all child (id + k) := by
  induction ds generalizing id with
  | nil => simp [checkCategories]
  | cons d ds ih =>
    have hchild : all.any (·.parent == some id) = true ↔ ∃ child, ChildOf all child id := by
      simp [exists_childOf_iff]
    have hplace (k : Nat) : id + 1 + k = id + (k + 1) := by rw [Nat.add_assoc, Nat.add_comm 1 k]
    rw [checkCategories]
    by_cases hd : (d.pattern.isNone && !all.any (·.parent == some id)) = true
    · rw [if_pos hd]
      rw [Bool.and_eq_true, Option.isNone_iff_eq_none, Bool.not_eq_true',
        ← Bool.not_eq_true, hchild] at hd
      exact iff_of_false (fun h => nomatch h) fun h => hd.2 (h 0 d rfl hd.1)
    · rw [if_neg hd, ih]
      simp only [hplace]
      constructor
      · intro h k d' hk hnone
        cases k with
        | zero =>
          cases hk
          rw [hnone] at hd
          refine hchild.1 ?_
          simpa using hd
        | succ k => exact h k d' hk hnone
      · exact fun h k d' hk hnone => h (k + 1) d' hk hnone

/-! ## What is built -/

theorem compile_eq_ok_iff {name pattern : String} {r : Regex} : compile name pattern = .ok r ↔
    Regex.parse? ("^(?:" ++ pattern ++ ")") = some r ∧
      (Regex.parse? pattern).bind (·.minLength?) ≠ some 0 := by
  rw [compile]
  cases Regex.parse? ("^(?:" ++ pattern ++ ")") with
  | none => simp
  | some r' =>
    by_cases h : (Regex.parse? pattern).bind (·.minLength?) = some 0
    · simp [h]
    · simp [h]

/-- The class is the one of the declaration. -/
structure Stands (d : Declaration) (c : TokenClass) : Prop where
  name : c.name = d.name
  parent : c.parent = d.parent
  skip : c.skip = d.skip
  pattern : Option.Rel (fun pattern r => compile d.name pattern = .ok r) d.pattern c.pattern

theorem stands_of_declare (h : declare d = .ok c) : Stands d c := by
  obtain ⟨name, pattern, parent, skip⟩ := d
  cases pattern with
  | none =>
    cases h
    exact ⟨rfl, rfl, rfl, .none⟩
  | some pattern =>
    rw [declare] at h
    dsimp only at h
    cases hr : compile name pattern with
    | error e =>
      rw [hr] at h
      cases h
    | ok r =>
      rw [hr] at h
      cases h
      exact ⟨rfl, rfl, rfl, .some hr⟩

/-- A declaration makes a class if its pattern, if there is one, compiles. -/
theorem exists_declare_iff : (∃ c, declare d = .ok c) ↔
    ∀ pattern, d.pattern = some pattern → Compiles pattern := by
  obtain ⟨name, pattern, parent, skip⟩ := d
  cases pattern with
  | none => exact iff_of_true ⟨_, rfl⟩ fun _ h => nomatch h
  | some pattern =>
    have hcompiles : Compiles pattern ↔ ∃ r, compile name pattern = .ok r := by
      simp only [Compiles, compile_eq_ok_iff, Option.isSome_iff_exists, exists_and_right]
    simp only [Option.some.injEq, forall_eq', hcompiles]
    constructor
    · rintro ⟨c, hc⟩
      have hp := (stands_of_declare hc).pattern
      generalize c.pattern = r? at hp
      cases hp with
      | some hr => exact ⟨_, hr⟩
    · rintro ⟨r, hr⟩
      refine ⟨⟨name, some r, parent, skip⟩, ?_⟩
      rw [declare]
      dsimp only
      rw [hr]

theorem mapM_eq_ok_iff {α β ε : Type} {f : α → Except ε β} {xs : List α} {ys : List β} :
    xs.mapM f = .ok ys ↔ List.Forall₂ (fun x y => f x = .ok y) xs ys := by
  induction xs generalizing ys with
  | nil =>
    rw [List.mapM_nil, List.forall₂_nil_left_iff]
    exact ⟨fun h => (Except.ok.inj h).symm, fun h => congrArg Except.ok h.symm⟩
  | cons x xs ih =>
    rw [List.mapM_cons, List.forall₂_cons_left_iff]
    cases f x with
    | error e => exact iff_of_false (fun h => nomatch h) fun ⟨_, _, h, _⟩ => nomatch h
    | ok y =>
      change ((xs.mapM f).bind fun ys => .ok (y :: ys)) = Except.ok ys ↔ _
      simp only [← ih]
      cases xs.mapM f with
      | error e => exact iff_of_false (fun h => nomatch h) fun ⟨_, _, _, h, _⟩ => nomatch h
      | ok ys' => simp [Except.bind, eq_comm]

theorem exists_forall₂_iff {α β : Type} {R : α → β → Prop} {xs : List α} :
    (∃ ys, List.Forall₂ R xs ys) ↔ ∀ x ∈ xs, ∃ y, R x y := by
  induction xs with
  | nil => exact iff_of_true ⟨[], .nil⟩ (List.forall_mem_nil _)
  | cons x xs ih =>
    rw [List.forall_mem_cons, ← ih]
    constructor
    · rintro ⟨_, h⟩
      cases h with
      | cons h hs => exact ⟨⟨_, h⟩, _, hs⟩
    · rintro ⟨⟨y, h⟩, ys, hs⟩
      exact ⟨y :: ys, .cons h hs⟩

theorem build_eq_ok_iff : build ds = .ok v ↔ checkDeclarations [] ds = .ok () ∧
    checkCategories ds 0 ds = .ok () ∧ List.Forall₂ (fun d c => declare d = .ok c) ds v.classes := by
  obtain ⟨classes⟩ := v
  rw [build, ← mapM_eq_ok_iff]
  cases checkDeclarations [] ds with
  | error e => exact iff_of_false (fun h => nomatch h) fun h => nomatch h.1
  | ok _ =>
    cases checkCategories ds 0 ds with
    | error e => exact iff_of_false (fun h => nomatch h) fun h => nomatch h.2.1
    | ok _ =>
      change ((ds.mapM declare).bind fun cs => .ok ⟨cs⟩) = Except.ok (Vocabulary.mk classes) ↔ _
      cases ds.mapM declare with
      | error e => exact iff_of_false (fun h => nomatch h) fun h => nomatch h.2.2
      | ok cs => simp [Except.bind]

/-- Declarations make up a vocabulary exactly if they satisfy what is asked of them. -/
theorem exists_build_iff : (∃ v, build ds = .ok v) ↔ WellDeclared ds := by
  have hclasses : (∃ v : Vocabulary, List.Forall₂ (fun d c => declare d = .ok c) ds v.classes) ↔
      ∀ d ∈ ds, ∀ pattern, d.pattern = some pattern → Compiles pattern := by
    simp only [← exists_declare_iff, ← exists_forall₂_iff]
    exact ⟨fun ⟨v, h⟩ => ⟨_, h⟩, fun ⟨cs, h⟩ => ⟨⟨cs⟩, h⟩⟩
  simp only [build_eq_ok_iff, exists_and_left, hclasses, checkDeclarations_eq_ok_iff,
    checkCategories_eq_ok_iff, List.length_nil, Nat.zero_add]
  constructor
  · rintro ⟨⟨-, hdistinct, hordered⟩, hinhabited, hcompiles⟩
    exact ⟨hdistinct, hordered, hinhabited, hcompiles⟩
  · rintro ⟨hdistinct, hordered, hinhabited, hcompiles⟩
    exact ⟨⟨fun d _ => List.forall_mem_nil _, hdistinct, hordered⟩, hinhabited, hcompiles⟩

end Vocabulary

end Checks

/-! ## Going upwards -/

section Upwards

variable {ds : List Declaration} {id parent : TokenId} {ids : List TokenId}

theorem Declaration.ChildOf.lt_length (h : ChildOf ds id parent) : id < ds.length := by
  obtain ⟨d, hd, -⟩ := h
  exact (List.getElem?_eq_some_iff.1 hd).1

theorem Declaration.ChildOf.unique {other : TokenId} (h : ChildOf ds id parent)
    (h' : ChildOf ds id other) : parent = other := by
  obtain ⟨d, hd, hp⟩ := h
  obtain ⟨d', hd', hp'⟩ := h'
  rw [hd] at hd'
  cases hd'
  exact Option.some.inj (hp.symm.trans hp')

/-- The places that are listed are those that can be reached from child to parent. -/
theorem Declaration.Ascent.mem_iff {x : TokenId} (h : Ascent ds id ids) :
    x ∈ ids ↔ Relation.ReflTransGen (ChildOf ds) id x := by
  induction h with
  | @root id d hd hp =>
    rw [List.mem_singleton, Relation.ReflTransGen.cases_head_iff]
    constructor
    · exact fun h => .inl h.symm
    · rintro (h | ⟨parent, ⟨d', hd', hp'⟩, -⟩)
      · exact h.symm
      · rw [hd] at hd'
        cases hd'
        rw [hp] at hp'
        cases hp'
  | @step id parent ids hchild _ ih =>
    rw [List.mem_cons, ih, eq_comm, Relation.ReflTransGen.cases_head_iff (a := id)]
    refine or_congr_right ⟨fun h => ⟨parent, hchild, h⟩, ?_⟩
    rintro ⟨other, hother, h⟩
    rwa [hchild.unique hother]

/-- The way up never goes through a place twice, since every step leads to a smaller one. -/
theorem Declaration.Ascent.decreasing (hw : ∀ child parent, ChildOf ds child parent → parent < child)
    (h : Ascent ds id ids) : (∀ x ∈ ids, x ≤ id) ∧ ids.Pairwise (· > ·) := by
  induction h with
  | root => exact ⟨List.forall_mem_singleton.2 (Nat.le_refl _), List.pairwise_singleton _ _⟩
  | step hchild _ ih =>
    have hlt := hw _ _ hchild
    have hbelow := fun x hx => Nat.lt_of_le_of_lt (ih.1 x hx) hlt
    exact ⟨List.forall_mem_cons.2 ⟨Nat.le_refl _, fun x hx => Nat.le_of_lt (hbelow x hx)⟩,
      List.pairwise_cons.2 ⟨hbelow, ih.2⟩⟩

end Upwards

namespace Vocabulary

section Chain

variable {v : Vocabulary} {id : TokenId} {c : TokenClass}

theorem chain_append {later earlier : List TokenClass} (h : id < earlier.length) :
    chain (later ++ earlier) id = chain earlier id := by
  induction later with
  | nil => rfl
  | cons c later ih =>
    have hne : id ≠ (later ++ earlier).length := by
      rw [List.length_append]
      exact Nat.ne_of_lt (Nat.lt_of_lt_of_le h (Nat.le_add_left _ _))
    rw [List.cons_append, chain, if_neg hne, ih]

theorem ancestors_eq_chain (h : id < v.size) : v.ancestors id = chain v.classes.reverse id :=
  if_neg (Nat.ne_of_lt h)

/-- The ancestors of a class are the class and the ancestors of its parent. -/
theorem ancestors_eq_cons (h : v.class? id = some c) (hp : ∀ parent ∈ c.parent, parent < id) :
    v.ancestors id = id :: c.parent.elim [] v.ancestors := by
  obtain ⟨hlt, hc⟩ := List.getElem?_eq_some_iff.1 h
  -- the classes from the last to the first
  have hclasses : v.classes.reverse =
      (v.classes.drop (id + 1)).reverse ++ c :: (v.classes.take id).reverse := by
    have hsplit : v.classes = v.classes.take id ++ c :: v.classes.drop (id + 1) := by
      rw [← hc, ← List.drop_eq_getElem_cons hlt, List.take_append_drop]
    rw [← List.singleton_append, ← List.append_assoc, ← List.reverse_cons, ← List.reverse_append,
      ← hsplit]
  have hlength : (v.classes.take id).reverse.length = id := by
    rw [List.length_reverse, List.length_take, Nat.min_eq_left (Nat.le_of_lt hlt)]
  have hself : id < (c :: (v.classes.take id).reverse).length := by
    rw [List.length_cons, hlength]
    exact Nat.lt_succ_self id
  have hchain : v.ancestors id = id :: c.parent.elim [] (chain (v.classes.take id).reverse) := by
    rw [ancestors_eq_chain hlt, hclasses, chain_append hself, chain, if_pos hlength.symm]
  rw [hchain]
  cases hparent : c.parent with
  | none => rfl
  | some parent =>
    have hbefore : parent < id := hp parent hparent
    have hrest : parent < (v.classes.take id).reverse.length := hbefore.trans_eq hlength.symm
    have hsame : v.ancestors parent = chain (v.classes.take id).reverse parent := by
      rw [ancestors_eq_chain (Nat.lt_trans hbefore hlt), hclasses, ← List.singleton_append,
        ← List.append_assoc, chain_append hrest]
    rw [Option.elim_some, Option.elim_some, hsame]

end Chain

/-! ## The stored table -/

theorem getD_concat {α : Type} (table : List (List α)) (entry : List α) (i : Nat) :
    (table ++ [entry])[i]?.getD [] = if i = table.length then entry else table[i]?.getD [] := by
  rcases Nat.lt_trichotomy i table.length with hlt | rfl | hgt
  · rw [if_neg (Nat.ne_of_lt hlt), List.getElem?_append_left hlt]
  · rw [if_pos rfl, List.getElem?_concat_length, Option.getD_some]
  · have hpast : (table ++ [entry]).length ≤ i := by
      rw [List.length_append]
      exact hgt
    rw [if_neg (Nat.ne_of_gt hgt), List.getElem?_eq_none hpast,
      List.getElem?_eq_none (Nat.le_of_lt hgt)]

theorem length_foldl_addAncestors (classes : List TokenClass) :
    (classes.foldl addAncestors []).length = classes.length := by
  induction classes using List.reverseRecOn with
  | nil => rfl
  | append_singleton classes c ih =>
    rw [List.foldl_concat, addAncestors, List.length_append, List.length_append, ih]
    rfl

/-- Copying the entry of the parent comes to the same as going upwards from class to class. -/
theorem getD_foldl_addAncestors (classes : List TokenClass) (id : TokenId) :
    (classes.foldl addAncestors [])[id]?.getD [] = chain classes.reverse id := by
  induction classes using List.reverseRecOn generalizing id with
  | nil => rfl
  | append_singleton classes c ih =>
    rw [List.foldl_concat, addAncestors, getD_concat, length_foldl_addAncestors,
      List.reverse_concat, chain, List.length_reverse]
    by_cases hid : id = classes.length
    · rw [if_pos hid, if_pos hid, hid]
      cases c.parent with
      | none => rfl
      | some parent => rw [Option.elim_some, Option.elim_some, ih]
    · rw [if_neg hid, if_neg hid, ih]

/-- The stored table holds the ancestors of every class, and for a place outside the vocabulary it
has no entry. -/
theorem getD_ancestorTable (v : Vocabulary) (id : TokenId) :
    v.ancestorTable[id]?.getD [] = v.ancestors id := by
  have hlength : (v.classes.foldl addAncestors []).length = v.eof :=
    length_foldl_addAncestors v.classes
  rw [ancestorTable, getD_concat, hlength, getD_foldl_addAncestors, ancestors]
  by_cases hid : id = v.eof
  · rw [if_pos hid, if_pos hid, hid]
  · rw [if_neg hid, if_neg hid]

/-! ## Vocabularies of declarations -/

/-- The classes of the vocabulary are those of the declarations, in their order. -/
def Mirrors (v : Vocabulary) (ds : List Declaration) : Prop := List.Forall₂ Stands ds v.classes

theorem mirrors_of_build {ds : List Declaration} {v : Vocabulary} (h : build ds = .ok v) :
    v.Mirrors ds := (build_eq_ok_iff.1 h).2.2.imp fun _ _ => stands_of_declare

section Mirrors

variable {ds : List Declaration} {v : Vocabulary} {id : TokenId} {d : Declaration}

theorem Mirrors.size_eq (h : v.Mirrors ds) : v.size = ds.length := h.length_eq.symm

theorem Mirrors.exists_class (h : v.Mirrors ds) (hd : ds[id]? = some d) :
    ∃ c, v.class? id = some c ∧ Stands d c := by
  obtain ⟨hlt, rfl⟩ := List.getElem?_eq_some_iff.1 hd
  have hlt' : id < v.classes.length := h.length_eq ▸ hlt
  exact ⟨v.classes[id], List.getElem?_eq_getElem hlt', h.get hlt hlt'⟩

theorem Mirrors.isAbstract_iff (h : v.Mirrors ds) (hd : ds[id]? = some d) :
    v.isAbstract id = true ↔ d.pattern = none := by
  obtain ⟨c, hc, hstands⟩ := h.exists_class hd
  have hp := hstands.pattern
  rw [isAbstract, hc, Option.any_some, TokenClass.isAbstract, Option.isNone_iff_eq_none]
  generalize c.pattern = r?, d.pattern = pattern? at hp
  cases hp with
  | none => exact iff_of_true rfl rfl
  | some => exact iff_of_false (fun h => nomatch h) fun h => nomatch h

/-- The ancestors of a class are listed from child to parent. -/
theorem Mirrors.ascent (h : v.Mirrors ds) (hw : WellDeclared ds) (hid : id < ds.length) :
    Ascent ds id (v.ancestors id) := by
  induction id using Nat.strongRecOn with
  | ind id ih =>
    have hd := List.getElem?_eq_getElem hid
    obtain ⟨c, hc, hstands⟩ := h.exists_class hd
    have hbefore : ∀ parent ∈ c.parent, parent < id := fun parent hp =>
      hw.ordered id parent ⟨_, hd, hstands.parent ▸ hp⟩
    rw [ancestors_eq_cons hc hbefore, hstands.parent]
    cases hp : ds[id].parent with
    | none => exact .root hd hp
    | some parent =>
      have hlt : parent < id := hw.ordered id parent ⟨_, hd, hp⟩
      exact .step ⟨_, hd, hp⟩ (ih parent hlt (Nat.lt_trans hlt hid))

theorem Mirrors.isA_iff (h : v.Mirrors ds) (hw : WellDeclared ds) (hid : id < ds.length)
    {expected : TokenId} :
    v.isA id expected = true ↔ Relation.ReflTransGen (ChildOf ds) id expected := by
  rw [isA, List.contains_iff_mem, (h.ascent hw hid).mem_iff]

theorem Mirrors.le_of_isA (h : v.Mirrors ds) (hw : WellDeclared ds) (hid : id < ds.length)
    {expected : TokenId} (ha : v.isA id expected = true) : expected ≤ id :=
  ((h.ascent hw hid).decreasing hw.ordered).1 expected (List.contains_iff_mem.1 ha)

/-- The end of the input and places outside the vocabulary are related to no class. -/
theorem Mirrors.isA_undeclared_iff (h : v.Mirrors ds) (hw : WellDeclared ds)
    {expected : TokenId} (hout : ds.length ≤ id ∨ ds.length ≤ expected) :
    v.isA id expected = true ↔ id = v.eof ∧ expected = v.eof := by
  have heof : v.eof = ds.length := h.size_eq
  rcases Nat.lt_trichotomy id v.eof with hlt | rfl | hlt
  · have hid : id < ds.length := heof ▸ hlt
    refine iff_of_false (fun ha => ?_) fun heq => Nat.ne_of_lt hlt heq.1
    have hle := Nat.lt_of_le_of_lt (h.le_of_isA hw hid ha) hid
    rcases hout with hout | hout
    · exact Nat.not_lt.2 hout hid
    · exact Nat.not_lt.2 hout hle
  · rw [isA_eof_iff, and_iff_right rfl]
  · rw [isA, ancestors_eq_nil hlt, List.contains_nil]
    exact iff_of_false Bool.false_ne_true fun heq => Nat.ne_of_gt hlt heq.1

theorem Mirrors.names (h : v.Mirrors ds) : v.classes.map (·.name) = ds.map (·.name) := by
  rw [← List.forall₂_eq_eq_eq, List.forall₂_map_left_iff, List.forall₂_map_right_iff]
  exact (List.Forall₂.imp (fun _ _ hstands => hstands.name) h).flip

/-- A class is found by its name. -/
theorem Mirrors.id?_name (h : v.Mirrors ds) (hw : WellDeclared ds) (hid : id < ds.length) :
    v.id? (v.name id) = some id := by
  obtain ⟨c, hc, -⟩ := h.exists_class (List.getElem?_eq_getElem hid)
  have hsize : v.eof = ds.length := h.size_eq
  have hname : v.name id = c.name := by
    rw [name, if_neg (Nat.ne_of_lt (hid.trans_eq hsize.symm)), hc]
    rfl
  rw [hname, id?]
  refine findIdx?_eq_some_of_unique hc (beq_self_eq_true _) fun j c' hc' heq => ?_
  have hdistinct : (v.classes.map (·.name)).Nodup := h.names ▸ hw.distinct
  have hlt : j < (v.classes.map (·.name)).length := by
    rw [List.length_map]
    exact (List.getElem?_eq_some_iff.1 hc').1
  refine (List.getElem?_inj hlt hdistinct).1 ?_
  have hc : v.classes[id]? = some c := hc
  rw [List.getElem?_map, List.getElem?_map, hc, hc', Option.map_some, Option.map_some,
    eq_of_beq heq]

/-- Below every category there is a class with a pattern. The search goes from a category to one of
its children, which has a greater place. -/
theorem Mirrors.exists_concrete (h : v.Mirrors ds) (hw : WellDeclared ds)
    (hid : v.isAbstract id = true) :
    ∃ kind < ds.length, v.isA kind id = true ∧ v.isAbstract kind = false := by
  induction hn : ds.length - id using Nat.strongRecOn generalizing id with
  | ind n ih =>
    obtain ⟨c, hc, -⟩ := (Option.any_eq_true _ _).1 hid
    have hlt : id < ds.length := h.size_eq ▸ (List.getElem?_eq_some_iff.1 hc).1
    have hd := List.getElem?_eq_getElem hlt
    obtain ⟨child, hchild⟩ := hw.inhabited id _ hd ((h.isAbstract_iff hd).1 hid)
    have hbefore := hw.ordered child id hchild
    have hchildlt := hchild.lt_length
    cases habstract : v.isAbstract child with
    | false => exact ⟨child, hchildlt, (h.isA_iff hw hchildlt).2 (.single hchild), habstract⟩
    | true =>
      have hless : ds.length - child < n := hn ▸ Nat.sub_lt_sub_left hlt hbefore
      obtain ⟨kind, hkind, ha, hconcrete⟩ := ih _ hless habstract rfl
      refine ⟨kind, hkind, ?_, hconcrete⟩
      exact (h.isA_iff hw hkind).2 (((h.isA_iff hw hkind).1 ha).tail hchild)

/-- Being accepted for another class is a partial order of the declared classes. -/
theorem Mirrors.isPartialOrder (h : v.Mirrors ds) (hw : WellDeclared ds) :
    IsPartialOrder (Fin ds.length) fun a b => v.isA a b = true where
  refl a := (h.isA_iff hw a.isLt).2 .refl
  trans a b _ hab hbc :=
    (h.isA_iff hw a.isLt).2 (((h.isA_iff hw a.isLt).1 hab).trans ((h.isA_iff hw b.isLt).1 hbc))
  antisymm a b hab hba :=
    Fin.ext (Nat.le_antisymm (h.le_of_isA hw b.isLt hba) (h.le_of_isA hw a.isLt hab))

end Mirrors

/-- The hierarchy of the classes is the one that is declared. -/
structure Arranged (v : Vocabulary) (ds : List Declaration) : Prop where
  classes : v.Mirrors ds
  isA_iff : ∀ a b, a < ds.length → b < ds.length →
    (v.isA a b = true ↔ Relation.ReflTransGen (ChildOf ds) a b)
  order : IsPartialOrder (Fin ds.length) fun a b => v.isA a b = true
  le_of_isA : ∀ a b, a < ds.length → v.isA a b = true → b ≤ a
  ancestors : ∀ id < ds.length, Ascent ds id (v.ancestors id) ∧ (v.ancestors id).Nodup
  /-- The table that is stored with the vocabulary holds these ancestors. -/
  stored : ∀ id, v.ancestorTable[id]?.getD [] = v.ancestors id
  /-- The end of the input and places outside the vocabulary are related to no class. -/
  undeclared : ∀ a b, ds.length ≤ a ∨ ds.length ≤ b →
    (v.isA a b = true ↔ a = v.eof ∧ b = v.eof)
  id?_name : ∀ id < ds.length, v.id? (v.name id) = some id
  /-- The categories are the classes that are declared without a pattern. -/
  isAbstract_iff : ∀ id d, ds[id]? = some d → (v.isAbstract id = true ↔ d.pattern = none)
  concrete : ∀ id, v.isAbstract id = true →
    ∃ kind < ds.length, v.isA kind id = true ∧ v.isAbstract kind = false

theorem Mirrors.arranged {v : Vocabulary} {ds : List Declaration} (h : v.Mirrors ds)
    (hw : WellDeclared ds) : v.Arranged ds where
  classes := h
  isA_iff _ _ ha _ := h.isA_iff hw ha
  order := h.isPartialOrder hw
  le_of_isA _ _ ha := h.le_of_isA hw ha
  ancestors _ hid :=
    ⟨h.ascent hw hid, ((h.ascent hw hid).decreasing hw.ordered).2.imp Nat.ne_of_gt⟩
  stored := v.getD_ancestorTable
  undeclared _ _ := h.isA_undeclared_iff hw
  id?_name _ := h.id?_name hw
  isAbstract_iff _ _ := h.isAbstract_iff
  concrete _ := h.exists_concrete hw

/-- Declarations make up a vocabulary exactly if their names differ, every parent comes before its
children, every category has a child and every pattern compiles. Then a class is accepted for
another exactly if that can be reached from parent to parent, which is a partial order of the
declared classes, and below every category there is a class with a pattern. -/
theorem arranged_of_build (ds : List Declaration) :
    ((build ds).isOk = true ↔ WellDeclared ds) ∧ ∀ v, build ds = .ok v → v.Arranged ds := by
  refine ⟨?_, fun v hv => (mirrors_of_build hv).arranged (exists_build_iff.1 ⟨v, hv⟩)⟩
  rw [← exists_build_iff]
  cases build ds with
  | ok v => exact iff_of_true rfl ⟨v, rfl⟩
  | error e => exact iff_of_false Bool.false_ne_true fun ⟨_, h⟩ => nomatch h

/-- Operators of which those of one kind are a category of their own. -/
def operators : List Declaration := [
  .category "Operator",
  (Declaration.category "AdditionOperator").under 0,
  (Declaration.token "Plus" "\\+").under 1,
  (Declaration.token "Minus" "-").under 1,
  (Declaration.token "Not" "!").under 0]

/-- A sign is accepted for the category two steps above it. -/
theorem arranged_of_build_operators : WellDeclared operators ∧
    ∃ v, build operators = .ok v ∧ v.Arranged operators ∧ v.isA 2 0 = true := by
  obtain ⟨hwell, harranged⟩ := arranged_of_build operators
  have hok : (build operators).isOk = true := by decide +kernel
  refine ⟨hwell.1 hok, ?_⟩
  cases hv : build operators with
  | error e =>
    rw [hv] at hok
    cases hok
  | ok v =>
    have hpath : Relation.ReflTransGen (ChildOf operators) 2 0 :=
      .tail (.single ⟨_, rfl, rfl⟩) ⟨_, rfl, rfl⟩
    have hv := harranged v hv
    exact ⟨v, rfl, hv, (hv.isA_iff 2 0 (by decide) (by decide)).2 hpath⟩

end Vocabulary

end TopDown
