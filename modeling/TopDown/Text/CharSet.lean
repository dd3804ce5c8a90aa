/-!
# Sets of characters

A set of characters is a list of intervals of scalar values, in any order. The operations keep the
intervals non-empty and free of overlaps and of surrogates, so a set is empty exactly if it has no
interval and holds one character exactly if it has one interval of one value.

All operations rest on one: taking an interval away.
-/

namespace TopDown

/-- A set of characters, as intervals of scalar values with both ends included. -/
structure CharSet where
  /-- The intervals, none empty and no two overlapping. -/
  ranges : List (Nat × Nat)
deriving DecidableEq

namespace CharSet

/-- Whether the character is in one of the intervals. -/
def contains (s : CharSet) (c : Char) : Bool :=
  s.ranges.any fun (lo, hi) => lo ≤ c.toNat && c.toNat ≤ hi

/-- The set without any character. -/
def empty : CharSet := ⟨[]⟩

/-- What is left of the interval from `lo` to `hi` without the values from `lo'` to `hi'`. -/
def cut (lo' hi' : Nat) : Nat × Nat → List (Nat × Nat)
  | (lo, hi) =>
    if hi < lo' || hi' < lo then [(lo, hi)]
    else
      (if lo < lo' then [(lo, lo' - 1)] else []) ++ (if hi' < hi then [(hi' + 1, hi)] else [])

/-- The characters of `s` that are not in `t`. -/
def diff (s t : CharSet) : CharSet :=
  ⟨t.ranges.foldl (fun left (lo, hi) => left.flatMap (cut lo hi)) s.ranges⟩

/-- The characters of both sets. -/
def inter (s t : CharSet) : CharSet := s.diff (s.diff t)

/-- The characters of either set. -/
def union (s t : CharSet) : CharSet := ⟨s.ranges ++ (t.diff s).ranges⟩

/-- The characters of exactly one of the sets. -/
def symmDiff (s t : CharSet) : CharSet := ⟨(s.diff t).ranges ++ (t.diff s).ranges⟩

/-- Every character: all scalar values. -/
def all : CharSet := ⟨[(0, 0xD7FF), (0xE000, 0x10FFFF)]⟩

/-- The characters that are not in the set. -/
def compl (s : CharSet) : CharSet := all.diff s

/-- One character. -/
def single (c : Char) : CharSet := ⟨[(c.toNat, c.toNat)]⟩

/-- The characters of the list, in which each stands once. -/
def ofList (cs : List Char) : CharSet := ⟨cs.map fun c => (c.toNat, c.toNat)⟩

/-- The characters from `first` to `last`, both included. -/
def range (first last : Char) : CharSet :=
  if last < first then empty else inter all ⟨[(first.toNat, last.toNat)]⟩

/-- The union of the given sets. -/
def unionAll (sets : List CharSet) : CharSet := sets.foldl union empty

/-- Whether no character is in the set. -/
def isEmpty (s : CharSet) : Bool := s.ranges.isEmpty

/-- Whether exactly one character is in the set. -/
def isSingle (s : CharSet) : Bool :=
  match s.ranges with
  | [(lo, hi)] => lo == hi
  | _ => false

/-! ## Membership -/

variable {s t : CharSet} {c : Char}

theorem contains_iff : s.contains c = true ↔ ∃ r ∈ s.ranges, r.1 ≤ c.toNat ∧ c.toNat ≤ r.2 := by
  simp [contains]

theorem contains_ofList {cs : List Char} : (ofList cs).contains c = true ↔ c ∈ cs := by
  rw [contains_iff, ofList]
  constructor
  · rintro ⟨r, hr, hlo, hhi⟩
    obtain ⟨x, hx, rfl⟩ := List.mem_map.1 hr
    have heq : x = c := Char.toNat_inj.1 (Nat.le_antisymm hlo hhi)
    exact heq ▸ hx
  · exact fun h => ⟨_, List.mem_map_of_mem h, Nat.le_refl _, Nat.le_refl _⟩

theorem exists_mem_cut_iff {lo hi n : Nat} {r : Nat × Nat} :
    (∃ p ∈ cut lo hi r, p.1 ≤ n ∧ n ≤ p.2) ↔ (r.1 ≤ n ∧ n ≤ r.2) ∧ ¬(lo ≤ n ∧ n ≤ hi) := by
  obtain ⟨first, last⟩ := r
  rw [cut]
  split
  · rename_i happart
    simp only [Bool.or_eq_true, decide_eq_true_eq] at happart
    simp only [List.mem_singleton, exists_eq_left]
    omega
  · rename_i hmeet
    simp only [Bool.or_eq_true, decide_eq_true_eq, not_or, Nat.not_lt] at hmeet
    by_cases hbefore : first < lo <;> by_cases hafter : hi < last <;>
      simp [hbefore, hafter] <;> omega

@[simp] theorem contains_diff : (s.diff t).contains c = (s.contains c && !t.contains c) := by
  obtain ⟨ranges⟩ := s
  obtain ⟨cuts⟩ := t
  induction cuts generalizing ranges with
  | nil => simp [diff, contains]
  | cons r cuts ih =>
    have hstep : diff ⟨ranges⟩ ⟨r :: cuts⟩ = diff ⟨ranges.flatMap (cut r.1 r.2)⟩ ⟨cuts⟩ := rfl
    rw [hstep, ih, Bool.eq_iff_iff]
    have hcut : contains ⟨ranges.flatMap (cut r.1 r.2)⟩ c = true ↔
        contains ⟨ranges⟩ c = true ∧ ¬(r.1 ≤ c.toNat ∧ c.toNat ≤ r.2) := by
      simp only [contains_iff, List.mem_flatMap]
      constructor
      · rintro ⟨p, ⟨r', hr', hp⟩, hin⟩
        have h := exists_mem_cut_iff.1 ⟨p, hp, hin⟩
        exact ⟨⟨r', hr', h.1⟩, h.2⟩
      · rintro ⟨⟨r', hr', hin⟩, hout⟩
        obtain ⟨p, hp, hin'⟩ := exists_mem_cut_iff.2 ⟨hin, hout⟩
        exact ⟨p, ⟨r', hr', hp⟩, hin'⟩
    simp only [Bool.and_eq_true, hcut, Bool.not_eq_true', ← Bool.not_eq_true, contains_iff,
      List.mem_cons, exists_eq_or_imp, not_or, and_assoc]

@[simp] theorem contains_inter : (s.inter t).contains c = (s.contains c && t.contains c) := by
  rw [inter, contains_diff, contains_diff]
  cases s.contains c <;> cases t.contains c <;> rfl

@[simp] theorem contains_union : (s.union t).contains c = (s.contains c || t.contains c) := by
  have happend : (s.union t).contains c = (s.contains c || (t.diff s).contains c) :=
    List.any_append
  rw [happend, contains_diff]
  cases s.contains c <;> cases t.contains c <;> rfl

end CharSet

end TopDown
