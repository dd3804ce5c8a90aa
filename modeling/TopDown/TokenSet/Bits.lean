import TopDown.TokenSet

/-!
# Sets of token classes kept as bits

A set of token classes can be kept as one bit for each class, up to some capacity. The capacity is
what the insertions and unions so far have asked for, so sets with the same members may have
different capacities. That is not to be seen from outside: sets are compared by their members, and
`TokenBits.toTokenSet` is the set that the bits stand for.
-/

namespace TopDown

/-- A set of token classes kept as bits. -/
structure TokenBits where
  /-- Whether each class is a member, by its place. Classes behind the last bit are no members. -/
  bits : List Bool

namespace TokenBits

/-- The set without members and without capacity. -/
def empty : TokenBits := ⟨[]⟩

instance : EmptyCollection TokenBits := ⟨empty⟩

instance : Inhabited TokenBits := ⟨∅⟩

/-- The number of classes that there are bits for. -/
def capacity (s : TokenBits) : Nat := s.bits.length

/-- Whether the class is in the set. -/
def contains (s : TokenBits) (t : TokenId) : Bool := s.bits[t]?.getD false

/-- The set with bits for `n` classes or more. -/
def reserve (s : TokenBits) (n : Nat) : TokenBits :=
  ⟨s.bits ++ List.replicate (n - s.capacity) false⟩

/-- The set with the bit of the class set, if there is one. -/
def mark (s : TokenBits) (t : TokenId) : TokenBits := ⟨s.bits.set t true⟩

/-- The set with one more member, and whether it was not a member before. -/
def insertNew (s : TokenBits) (t : TokenId) : Bool × TokenBits :=
  let s := s.reserve (t + 1)
  (!s.contains t, s.mark t)

/-- The set with one member. -/
def single (t : TokenId) : TokenBits := (empty.insertNew t).2

/-- The members in increasing order. -/
def ids (s : TokenBits) : List TokenId :=
  s.bits.zipIdx.filterMap fun (bit, t) => if bit then some t else none

/-- The members of either set. -/
def union (s t : TokenBits) : TokenBits := t.ids.foldl mark (s.reserve t.capacity)

/-- The members of both sets. -/
def inter (s t : TokenBits) : TokenBits :=
  (s.ids.filter t.contains).foldl (fun set id => (set.insertNew id).2) ∅

/-- Whether the set has no member. -/
def isEmpty (s : TokenBits) : Bool := !s.bits.contains true

/-- The number of members. -/
def size (s : TokenBits) : Nat := s.bits.count true

/-- Sets are compared by their members. -/
instance : BEq TokenBits := ⟨fun s t => s.ids == t.ids⟩

/-- The set that the bits stand for. -/
def toTokenSet (s : TokenBits) : TokenSet := s.ids.foldl .insert ∅

end TokenBits

end TopDown
