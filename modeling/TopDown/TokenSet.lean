import TopDown.Vocabulary

/-!
# Sets of token classes

A set of token classes is the increasing list of its members, so two sets with the same members are
equal. The end of the input is a member like any other, and so is a place outside the vocabulary.

The operations are described by membership: `TokenSet.mem_insert`, `TokenSet.mem_union` and
`TokenSet.mem_inter`.
-/

namespace TopDown

/-- A set of token classes. -/
structure TokenSet where
  /-- The members in increasing order. -/
  ids : List TokenId
  /-- Each member is listed once and in order. -/
  increasing : ids.Pairwise (· < ·)
deriving DecidableEq

namespace TokenSet

/-- The set without members. -/
def empty : TokenSet := ⟨[], .nil⟩

instance : EmptyCollection TokenSet := ⟨empty⟩

instance : Inhabited TokenSet := ⟨∅⟩

instance : Membership TokenId TokenSet := ⟨fun s t => t ∈ s.ids⟩

/-- Whether the class is in the set. -/
def contains (s : TokenSet) (t : TokenId) : Bool := s.ids.contains t

/-- The increasing list with one more member. -/
def insertId (t : TokenId) : List TokenId → List TokenId
  | [] => [t]
  | x :: rest =>
    if t < x then t :: x :: rest else if t = x then x :: rest else x :: insertId t rest

theorem mem_insertId {t x : TokenId} {ids : List TokenId} :
    x ∈ insertId t ids ↔ x = t ∨ x ∈ ids := by
  fun_induction insertId t ids with
  | case1 => simp
  | case2 y rest _ => simp
  | case3 rest _ => simp
  | case4 y rest _ _ ih => simp [ih, or_left_comm]

theorem pairwise_insertId {t : TokenId} {ids : List TokenId} (h : ids.Pairwise (· < ·)) :
    (insertId t ids).Pairwise (· < ·) := by
  fun_induction insertId t ids with
  | case1 => simp
  | case2 y rest hlt =>
    refine .cons ?_ h
    intro z hz
    rcases List.mem_cons.1 hz with rfl | hz
    · exact hlt
    · exact Nat.lt_trans hlt (List.rel_of_pairwise_cons h hz)
  | case3 rest _ => exact h
  | case4 y rest hlt hne ih =>
    refine .cons ?_ (ih h.of_cons)
    intro z hz
    rcases mem_insertId.1 hz with rfl | hz
    · exact Nat.lt_of_le_of_ne (Nat.le_of_not_lt hlt) (Ne.symm hne)
    · exact List.rel_of_pairwise_cons h hz

/-- The set with one more member. -/
def insert (s : TokenSet) (t : TokenId) : TokenSet :=
  ⟨insertId t s.ids, pairwise_insertId s.increasing⟩

/-- The set with one more member, and whether it was not a member before. -/
def insertNew (s : TokenSet) (t : TokenId) : Bool × TokenSet := (!s.contains t, s.insert t)

/-- The set with one member. -/
def single (t : TokenId) : TokenSet := ⟨[t], by simp⟩

/-- The members of either set. -/
def union (s t : TokenSet) : TokenSet := t.ids.foldl insert s

/-- The members of both sets. -/
def inter (s t : TokenSet) : TokenSet :=
  ⟨s.ids.filter t.contains, s.increasing.filter _⟩

/-- Whether the set has no member. -/
def isEmpty (s : TokenSet) : Bool := s.ids.isEmpty

/-- The number of members. -/
def size (s : TokenSet) : Nat := s.ids.length

/-- Whether a token of class `kind` is accepted where one of the members is expected. -/
def admits (s : TokenSet) (v : Vocabulary) (kind : TokenId) : Bool :=
  (v.ancestors kind).any s.contains

/-- The names of the members in their order. -/
def names (s : TokenSet) (v : Vocabulary) : List String := s.ids.map v.name

/-- The members between braces. -/
def render (s : TokenSet) : String :=
  "\x7b" ++ ", ".intercalate (s.ids.map toString) ++ "\x7d"

theorem mem_def {s : TokenSet} {t : TokenId} : t ∈ s ↔ t ∈ s.ids := .rfl

@[simp] theorem contains_iff {s : TokenSet} {t : TokenId} : s.contains t = true ↔ t ∈ s := by
  simp [contains, mem_def]

@[simp] theorem not_mem_empty {t : TokenId} : ¬t ∈ (∅ : TokenSet) := by
  simp [mem_def, EmptyCollection.emptyCollection, empty]

@[simp] theorem mem_single {t x : TokenId} : x ∈ single t ↔ x = t := by simp [mem_def, single]

@[simp] theorem mem_insert {s : TokenSet} {t x : TokenId} : x ∈ s.insert t ↔ x = t ∨ x ∈ s :=
  mem_insertId

@[simp] theorem mem_inter {s t : TokenSet} {x : TokenId} : x ∈ s.inter t ↔ x ∈ s ∧ x ∈ t := by
  simp [mem_def, inter, contains]

theorem mem_foldl_insert {ids : List TokenId} {s : TokenSet} {x : TokenId} :
    x ∈ ids.foldl insert s ↔ x ∈ s ∨ x ∈ ids := by
  induction ids generalizing s with
  | nil => simp
  | cons t ids ih => simp only [List.foldl_cons, ih, mem_insert, List.mem_cons]; grind

@[simp] theorem mem_union {s t : TokenSet} {x : TokenId} : x ∈ s.union t ↔ x ∈ s ∨ x ∈ t :=
  mem_foldl_insert

end TokenSet

end TopDown
