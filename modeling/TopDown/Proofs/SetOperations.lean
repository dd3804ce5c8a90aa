import Mathlib.Data.Finset.Sort
import TopDown.Proofs.Exactness
import TopDown.TokenSet.Bits

/-!
# Operations on sets of token classes

Sets are made by steps that work on named sets: a new set, a set with one member, one more member,
the union with another set, the members of two sets. The same steps can be taken with any kind of
sets, also with the finite sets of mathematics (`SetKind.finset`), which say what is to come out.

A kind of sets is exact (`SetKind.Exact`) if after any steps it shows what the finite set is that
the same steps make. Sets of token classes are, kept as increasing lists or as bits, whatever the
capacities that the steps lead to. What is asked of a kind for this is `SetKind.Lawful`: the
operations are described by membership, and all that is shown depends on the list of the members.
-/

namespace TopDown

/-! ## Sets kept as bits -/

namespace TokenBits

variable {s t : TokenBits} {x y : TokenId} {n : Nat} {ids : List TokenId}

theorem ids_eq (s : TokenBits) : s.ids = s.bits.findIdxs id := by
  rw [List.findIdxs_eq_filterMap_zipIdx, ids]
  refine List.filterMap_congr fun ⟨bit, t⟩ _ => ?_
  cases bit <;> rfl

theorem mem_ids : x ∈ s.ids ↔ s.contains x = true := by
  rw [ids_eq, List.mem_findIdxs_iff_exists_getElem_pos, contains]
  by_cases hx : x < s.bits.length
  · simp [hx]
  · simp [hx]

theorem pairwise_ids (s : TokenBits) : s.ids.Pairwise (· < ·) := by
  rw [ids_eq]
  exact List.pairwise_findIdxs

theorem size_eq (s : TokenBits) : s.size = s.ids.length := by
  rw [ids_eq, List.length_findIdxs, size, List.count]
  refine List.countP_congr fun bit _ => ?_
  simp

theorem isEmpty_iff : s.isEmpty = true ↔ s.ids = [] := by
  rw [ids_eq, List.findIdxs_eq_nil_iff, isEmpty]
  constructor
  · intro h bit hbit
    cases bit with
    | false => rfl
    | true => simp [hbit] at h
  · intro h
    have hnone : true ∉ s.bits := fun htrue => Bool.noConfusion (h true htrue)
    simp [hnone]

theorem beq_iff : (s == t) = true ↔ s.ids = t.ids := beq_iff_eq (α := List TokenId)

theorem lt_capacity (h : s.contains x = true) : x < s.capacity := by
  by_contra hx
  have hle : s.bits.length ≤ x := Nat.le_of_not_lt hx
  simp [contains, hle] at h

@[simp] theorem capacity_reserve : (s.reserve n).capacity = max s.capacity n := by
  simp only [reserve, capacity, List.length_append, List.length_replicate]
  omega

@[simp] theorem contains_reserve : (s.reserve n).contains x = s.contains x := by
  simp only [reserve, contains, capacity]
  by_cases hx : x < s.bits.length
  · rw [List.getElem?_append_left hx]
  · have hle := Nat.le_of_not_lt hx
    rw [List.getElem?_append_right hle, List.getElem?_eq_none hle, List.getElem?_replicate]
    split <;> rfl

@[simp] theorem capacity_mark : (s.mark y).capacity = s.capacity := by simp [mark, capacity]

theorem contains_mark (hy : y < s.capacity) :
    (s.mark y).contains x = true ↔ x = y ∨ s.contains x = true := by
  have hy : y < s.bits.length := hy
  simp only [mark, contains, List.getElem?_set, hy]
  by_cases hx : y = x
  · simp [hx]
  · simp [hx, Ne.symm hx]

theorem contains_insertNew :
    (s.insertNew y).2.contains x = true ↔ x = y ∨ s.contains x = true := by
  -- Room is made first, so the bit is there to be set.
  have hy : y < (s.reserve (y + 1)).capacity := by
    rw [capacity_reserve]
    exact lt_max_of_lt_right y.lt_succ_self
  simp only [insertNew]
  rw [contains_mark hy, contains_reserve]

theorem insertNew_fst : (s.insertNew y).1 = !s.contains y := by
  simp only [insertNew, contains_reserve]

theorem not_contains_empty (x : TokenId) : ¬(∅ : TokenBits).contains x = true :=
  Bool.false_ne_true

theorem contains_single : (single y).contains x = true ↔ x = y := by
  have hempty : ¬empty.contains x = true := not_contains_empty x
  rw [single, contains_insertNew, or_iff_left hempty]

/-- Bits are set one after the other, and none of them is behind the last one. -/
theorem contains_foldl_mark (h : ∀ y ∈ ids, y < s.capacity) :
    (ids.foldl mark s).contains x = true ↔ s.contains x = true ∨ x ∈ ids := by
  induction ids generalizing s with
  | nil => simp
  | cons y ids ih =>
    obtain ⟨hy, hrest⟩ := List.forall_mem_cons.1 h
    have hmark : ∀ z ∈ ids, z < (s.mark y).capacity := fun z hz => by
      rw [capacity_mark]
      exact hrest z hz
    rw [List.foldl_cons, ih hmark, contains_mark hy, List.mem_cons]
    tauto

theorem contains_union :
    (s.union t).contains x = true ↔ s.contains x = true ∨ t.contains x = true := by
  have hroom : ∀ y ∈ t.ids, y < (s.reserve t.capacity).capacity := fun y hy => by
    rw [capacity_reserve]
    exact lt_max_of_lt_right (lt_capacity (mem_ids.1 hy))
  rw [union, contains_foldl_mark hroom, contains_reserve, mem_ids]

theorem contains_foldl_insertNew :
    (ids.foldl (fun set id => (set.insertNew id).2) s).contains x = true ↔
      s.contains x = true ∨ x ∈ ids := by
  induction ids generalizing s with
  | nil => simp
  | cons y ids ih =>
    rw [List.foldl_cons, ih, contains_insertNew, List.mem_cons]
    tauto

theorem contains_inter :
    (s.inter t).contains x = true ↔ s.contains x = true ∧ t.contains x = true := by
  rw [inter, contains_foldl_insertNew, or_iff_right (not_contains_empty x), List.mem_filter,
    mem_ids]

theorem mem_toTokenSet : x ∈ s.toTokenSet ↔ s.contains x = true := by
  rw [toTokenSet, TokenSet.mem_foldl_insert, or_iff_right TokenSet.not_mem_empty, mem_ids]

end TokenBits

/-! ## Kinds of sets -/

/-- A kind of sets of token classes: how sets are made and what they show. -/
structure SetKind (α : Type) where
  empty : α
  single : TokenId → α
  /-- The set with one more member, and whether it was not a member before. -/
  insertNew : α → TokenId → Bool × α
  union : α → α → α
  inter : α → α → α
  contains : α → TokenId → Bool
  size : α → Nat
  isEmpty : α → Bool
  ids : α → List TokenId
  /-- Whether two sets count as equal. -/
  same : α → α → Bool

/-- A step that makes a set. -/
inductive SetStep where
  /-- The named set becomes empty. -/
  | new (name : String)
  /-- The named set gets the class as its only member. -/
  | single (name : String) (t : TokenId)
  /-- The named set gets one more member. -/
  | insert (name : String) (t : TokenId)
  /-- The named set gets the members of the other one too. -/
  | union (name other : String)
  /-- The named set gets the members that both of the others have. -/
  | inter (name left right : String)

namespace SetKind

/-- The named sets after one more step. -/
def step {α : Type} (k : SetKind α) (sets : String → α) : SetStep → String → α
  | .new name => Function.update sets name k.empty
  | .single name t => Function.update sets name (k.single t)
  | .insert name t => Function.update sets name (k.insertNew (sets name) t).2
  | .union name other => Function.update sets name (k.union (sets name) (sets other))
  | .inter name left right => Function.update sets name (k.inter (sets left) (sets right))

/-- The named sets after the steps. All are empty at first. -/
def run {α : Type} (k : SetKind α) (steps : List SetStep) : String → α :=
  steps.foldl k.step fun _ => k.empty

/-- The finite sets of mathematics. -/
def finset : SetKind (Finset TokenId) where
  empty := ∅
  single t := {t}
  insertNew m t := (decide (t ∉ m), insert t m)
  union m m' := m ∪ m'
  inter m m' := m ∩ m'
  contains m t := decide (t ∈ m)
  size m := m.card
  isEmpty m := decide (m = ∅)
  ids m := m.sort (· ≤ ·)
  same m m' := decide (m = m')

section

variable {α β : Type} {k : SetKind α} {k' : SetKind β}

/-- The set shows what the finite set `m` is. -/
structure Shows (k : SetKind α) (s : α) (m : Finset TokenId) : Prop where
  contains : ∀ t, k.contains s t = true ↔ t ∈ m
  size : k.size s = m.card
  isEmpty : k.isEmpty s = true ↔ m = ∅
  ids : k.ids s = m.sort (· ≤ ·)
  increasing : (k.ids s).Pairwise (· < ·)
  /-- A class is reported as new exactly if it is no member yet. -/
  insertNew : ∀ t, (k.insertNew s t).1 = true ↔ t ∉ m

/-- After any steps, every set shows the finite set that the steps make, and two sets are the same
exactly if they contain the same classes. -/
structure Exact (k : SetKind α) : Prop where
  shows : ∀ steps name, k.Shows (k.run steps name) (finset.run steps name)
  same_iff : ∀ steps name steps' name',
    k.same (k.run steps name) (k.run steps' name') = true ↔
      ∀ t, k.contains (k.run steps name) t = true ↔ k.contains (k.run steps' name') t = true

/-- The operations are described by membership, and what a set shows by the increasing list of its
members. -/
structure Lawful (k : SetKind α) : Prop where
  mem_ids : ∀ s t, t ∈ k.ids s ↔ k.contains s t = true
  increasing : ∀ s, (k.ids s).Pairwise (· < ·)
  size_eq : ∀ s, k.size s = (k.ids s).length
  isEmpty_iff : ∀ s, k.isEmpty s = true ↔ k.ids s = []
  same_iff : ∀ s s', k.same s s' = true ↔ k.ids s = k.ids s'
  contains_empty : ∀ x, ¬k.contains k.empty x = true
  contains_single : ∀ t x, k.contains (k.single t) x = true ↔ x = t
  insertNew_fst : ∀ s t, (k.insertNew s t).1 = !k.contains s t
  contains_insertNew : ∀ s t x,
    k.contains (k.insertNew s t).2 x = true ↔ x = t ∨ k.contains s x = true
  contains_union : ∀ s s' x,
    k.contains (k.union s s') x = true ↔ k.contains s x = true ∨ k.contains s' x = true
  contains_inter : ∀ s s' x,
    k.contains (k.inter s s') x = true ↔ k.contains s x = true ∧ k.contains s' x = true

/-- Sets of the same name have the same members. -/
def Alike (k : SetKind α) (k' : SetKind β) (sets : String → α) (sets' : String → β) : Prop :=
  ∀ name x, k.contains (sets name) x = true ↔ k'.contains (sets' name) x = true

theorem Alike.update {sets : String → α} {sets' : String → β} (h : Alike k k' sets sets')
    (name : String) {s : α} {s' : β}
    (hs : ∀ x, k.contains s x = true ↔ k'.contains s' x = true) :
    Alike k k' (Function.update sets name s) (Function.update sets' name s') := by
  intro name' x
  by_cases hname : name' = name
  · subst hname
    rw [Function.update_self, Function.update_self]
    exact hs x
  · rw [Function.update_of_ne hname, Function.update_of_ne hname]
    exact h name' x

theorem Lawful.alike_step (hk : k.Lawful) (hk' : k'.Lawful) {sets : String → α}
    {sets' : String → β} (h : Alike k k' sets sets') (a : SetStep) :
    Alike k k' (k.step sets a) (k'.step sets' a) := by
  cases a with
  | new name =>
    exact h.update name fun x => iff_of_false (hk.contains_empty x) (hk'.contains_empty x)
  | single name t => exact h.update name fun x => by rw [hk.contains_single, hk'.contains_single]
  | insert name t =>
    exact h.update name fun x => by rw [hk.contains_insertNew, hk'.contains_insertNew, h name x]
  | union name other =>
    exact h.update name fun x => by
      rw [hk.contains_union, hk'.contains_union, h name x, h other x]
  | inter name left right =>
    exact h.update name fun x => by
      rw [hk.contains_inter, hk'.contains_inter, h left x, h right x]

theorem Lawful.alike_run (hk : k.Lawful) (hk' : k'.Lawful) (steps : List SetStep) :
    Alike k k' (k.run steps) (k'.run steps) := by
  -- The sets at hand change with every step, so the induction is for any of them.
  suffices hfold : ∀ sets sets', Alike k k' sets sets' →
      Alike k k' (steps.foldl k.step sets) (steps.foldl k'.step sets') from
    hfold _ _ fun _ x => iff_of_false (hk.contains_empty x) (hk'.contains_empty x)
  induction steps with
  | nil => exact fun _ _ h => h
  | cons a steps ih => exact fun _ _ h => ih _ _ (hk.alike_step hk' h a)

theorem lawful_finset : finset.Lawful where
  mem_ids m t := by simp [finset]
  increasing m := by
    have hle : (m.sort (· ≤ ·)).Pairwise (· ≤ ·) := m.pairwise_sort _
    have hne : (m.sort (· ≤ ·)).Pairwise (· ≠ ·) := m.sort_nodup _
    exact (hle.and hne).imp fun h => Nat.lt_of_le_of_ne h.1 h.2
  size_eq m := (m.length_sort _).symm
  isEmpty_iff m := by
    show decide (m = ∅) = true ↔ m.sort (· ≤ ·) = []
    rw [decide_eq_true_iff, ← List.length_eq_zero_iff, Finset.length_sort, Finset.card_eq_zero]
  same_iff m m' := by
    show decide (m = m') = true ↔ m.sort (· ≤ ·) = m'.sort (· ≤ ·)
    rw [decide_eq_true_iff]
    constructor
    · intro h
      rw [h]
    · intro h
      rw [← m.sort_toFinset (· ≤ ·), h, Finset.sort_toFinset]
  contains_empty x := by simp [finset]
  contains_single t x := by simp [finset]
  insertNew_fst m t := by simp [finset]
  contains_insertNew m t x := by simp [finset]
  contains_union m m' x := by simp [finset]
  contains_inter m m' x := by simp [finset]

/-- What a set shows is fixed by its members. -/
theorem Lawful.shows (hk : k.Lawful) {s : α} {m : Finset TokenId}
    (h : ∀ x, k.contains s x = true ↔ x ∈ m) : k.Shows s m := by
  have hinc := hk.increasing s
  have hm : (k.ids s).toFinset = m := by
    ext x
    rw [List.mem_toFinset, hk.mem_ids, h]
  have hnodup : (k.ids s).Nodup := hinc.imp Nat.ne_of_lt
  refine ⟨h, ?_, ?_, ?_, hinc, ?_⟩
  · rw [hk.size_eq, ← hm, List.toFinset_card_of_nodup hnodup]
  · rw [hk.isEmpty_iff, ← hm, List.toFinset_eq_empty_iff]
  · rw [← hm, (List.toFinset_sort _ hnodup).2 (hinc.imp Nat.le_of_lt)]
  · intro t
    rw [hk.insertNew_fst, Bool.not_eq_true', ← h, Bool.not_eq_true]

/-- Sets that are compared by their members are the same if the members are. -/
theorem Lawful.same_iff_contains (hk : k.Lawful) {s s' : α} :
    k.same s s' = true ↔ ∀ t, k.contains s t = true ↔ k.contains s' t = true := by
  rw [hk.same_iff]
  constructor
  · intro h t
    rw [← hk.mem_ids, ← hk.mem_ids, h]
  · intro h
    refine (hk.increasing s).eq_of_mem_iff (hk.increasing s') fun t => ?_
    rw [hk.mem_ids, hk.mem_ids, h]

theorem Lawful.exact (hk : k.Lawful) : k.Exact where
  shows steps name := by
    refine hk.shows fun x => (hk.alike_run lawful_finset steps name x).trans ?_
    exact decide_eq_true_iff
  same_iff _ _ _ _ := hk.same_iff_contains

end

end SetKind

/-! ## The kinds of sets of token classes -/

/-- The sets kept as bits. -/
def TokenBits.kind : SetKind TokenBits where
  empty := ∅
  single := single
  insertNew := insertNew
  union := union
  inter := inter
  contains := contains
  size := size
  isEmpty := isEmpty
  ids := ids
  same s t := s == t

theorem TokenBits.lawful_kind : kind.Lawful where
  mem_ids _ _ := mem_ids
  increasing := pairwise_ids
  size_eq := size_eq
  isEmpty_iff _ := isEmpty_iff
  same_iff _ _ := beq_iff
  contains_empty := not_contains_empty
  contains_single _ _ := contains_single
  insertNew_fst _ _ := insertNew_fst
  contains_insertNew _ _ _ := contains_insertNew
  contains_union _ _ _ := contains_union
  contains_inter _ _ _ := contains_inter

/-- The sets kept as increasing lists. -/
def TokenSet.kind : SetKind TokenSet where
  empty := ∅
  single := single
  insertNew := insertNew
  union := union
  inter := inter
  contains := contains
  size := size
  isEmpty := isEmpty
  ids := ids
  same s t := s == t

theorem TokenSet.lawful_kind : kind.Lawful where
  mem_ids _ _ := contains_iff.symm
  increasing := increasing
  size_eq _ := rfl
  isEmpty_iff _ := List.isEmpty_iff
  same_iff s t := by
    show (s == t) = true ↔ s.ids = t.ids
    rw [beq_iff_eq]
    constructor
    · intro h
      rw [h]
    · intro h
      exact eq_of_mem_iff fun x => by rw [mem_def, mem_def, h]
  contains_empty x := by
    show ¬(∅ : TokenSet).contains x = true
    rw [contains_iff]
    exact not_mem_empty
  contains_single t x := contains_iff.trans mem_single
  insertNew_fst _ _ := rfl
  contains_insertNew s t x := by
    show (s.insert t).contains x = true ↔ x = t ∨ s.contains x = true
    rw [contains_iff, contains_iff, mem_insert]
  contains_union s t x := by
    show (s.union t).contains x = true ↔ s.contains x = true ∨ t.contains x = true
    rw [contains_iff, contains_iff, contains_iff, mem_union]
  contains_inter s t x := by
    show (s.inter t).contains x = true ↔ s.contains x = true ∧ t.contains x = true
    rw [contains_iff, contains_iff, contains_iff, mem_inter]

/-- After any steps, sets of token classes show the finite sets that the same steps make: what they
contain, how many members they have, whether they are empty, their members in increasing order and
which classes are new to them; and sets are the same exactly if they contain the same classes. So it
is for the sets kept as bits, of any capacity, and for the sets that these stand for. -/
theorem TokenBits.exact_sets : TokenBits.kind.Exact ∧ TokenSet.kind.Exact ∧
    ∀ steps name, (TokenBits.kind.run steps name).toTokenSet = TokenSet.kind.run steps name := by
  refine ⟨lawful_kind.exact, TokenSet.lawful_kind.exact, fun steps name => ?_⟩
  refine TokenSet.eq_of_mem_iff fun x => ?_
  rw [mem_toTokenSet, ← TokenSet.contains_iff]
  exact lawful_kind.alike_run TokenSet.lawful_kind steps name x

/-- Capacity makes no difference. -/
example : ((TokenBits.single 1).reserve 70).capacity = 70 ∧ (TokenBits.single 1).capacity = 2 ∧
    ((TokenBits.single 1).reserve 70 == .single 1) = true := by decide

end TopDown
