import TopDown.Proofs.Segmentation
import TopDown.Proofs.Veil

/-!
# What the lexer makes of a text that is known

`Regex.Takes` says that the preferred way to match an expression at the beginning of a text passes
just the given part of it. A greedy expression stops where it cannot go on, so besides what is
passed, this depends on the next character only: `Regex.shuns` computes whether an expression has no
match before a character, or at the end of the text.

`Vocabulary.scan` lists the tokens of a text whose lexing leaves no error. One token at a time comes
off its beginning (`Vocabulary.scan_token`), or a stretch that is dropped.
-/

namespace TopDown

namespace CharSet

/-- Whether all characters of the set satisfy the predicate. -/
def every (s : CharSet) (p : Char → Bool) : Bool :=
  s.ranges.all fun (lo, hi) => (List.range' lo (hi + 1 - lo)).all fun n => p (Char.ofNat n)

theorem of_every {s : CharSet} {p : Char → Bool} {c : Char} (h : s.every p = true)
    (hc : s.contains c = true) : p c = true := by
  obtain ⟨⟨lo, hi⟩, hmem, hc⟩ := List.any_eq_true.1 hc
  rw [Bool.and_eq_true, decide_eq_true_eq, decide_eq_true_eq] at hc
  have hrange := List.all_eq_true.1 h _ hmem
  have hp := List.all_eq_true.1 hrange c.toNat (List.mem_range'_1.2 (by omega))
  rwa [Char.ofNat_toNat] at hp

end CharSet

namespace Regex

/-! ## Before a given character -/

/-- Whether all ways to match before the given character, or at the end of the text, are empty. -/
def idles (next : Option Char) : Regex → Bool
  | .empty | .assertion _ => true
  | .chars set => !next.any set.contains
  | .seq first second | .alt first second => first.idles next && second.idles next
  | .repeat body _ _ _ | .group body => body.idles next

/-- Whether there is no way to match before the given character, or at the end of the text. -/
def shuns (next : Option Char) : Regex → Bool
  | .empty | .assertion _ => false
  | .chars set => !next.any set.contains
  | .seq first second => first.shuns next || first.idles next && second.shuns next
  | .alt first second => first.shuns next && second.shuns next
  | .repeat body least _ _ => 0 < least && body.shuns next
  | .group body => body.shuns next

/-- What comes after an expression that matched the empty text is matched at the same place. -/
def Idle (m : Matcher) (c : Cursor Char) : Prop := ∀ k stop, m c k = some stop → k c = some stop

section Idle

variable {body : Matcher} {greedy : Bool} {c : Cursor Char}

theorem Idle.exactly (h : Idle body c) (n : Nat) : Idle (exactly body n) c := by
  induction n with
  | zero => exact fun k stop hm => hm
  | succ n ih => exact fun k stop hm => ih k stop (h _ stop hm)

theorem Idle.atMost (h : Idle body c) (n : Nat) : Idle (atMost body greedy n) c := by
  induction n with
  | zero => exact fun k stop hm => hm
  | succ n ih =>
    intro k stop hm
    rcases prefer_eq_some hm with hm | hk
    · exact ih k stop (h _ stop hm)
    · exact hk

theorem Idle.onceOrMore (h : Idle body c) : Idle (onceOrMore body greedy) c := by
  intro k stop hm
  have hk := h _ stop hm
  rw [if_neg (Nat.lt_irrefl _)] at hk
  exact hk

theorem Idle.atLeast (h : Idle body c) (n : Nat) : Idle (atLeast body greedy n) c := by
  intro k stop hm
  cases n with
  | zero =>
    rw [Regex.atLeast] at hm
    rcases prefer_eq_some hm with hm | hk
    · exact h.onceOrMore k stop hm
    · exact hk
  | succ n => exact h.onceOrMore k stop (h.exactly n _ stop hm)

end Idle

variable {r s body : Regex} {set : CharSet} {w w' rest past : List Char}

theorem run_chars_eq_none (h : (!rest.head?.any set.contains) = true)
    (k : Cursor Char → Outcome) : (chars set).run ⟨past, rest⟩ k = none := by
  cases rest with
  | nil => rfl
  | cons x rest =>
    rw [List.head?_cons, Option.any_some, Bool.not_eq_true'] at h
    rw [run, h]
    rfl

theorem idle_of_idles (h : r.idles rest.head? = true) : Idle r.run ⟨past, rest⟩ := by
  induction r with
  | empty => exact fun k stop hm => hm
  | chars set =>
    intro k stop hm
    rw [run_chars_eq_none h] at hm
    cases hm
  | assertion a =>
    intro k stop hm
    rw [run] at hm
    by_cases ha : a.holds ⟨past, rest⟩ = true
    · rw [if_pos ha] at hm
      exact hm
    · rw [if_neg ha] at hm
      cases hm
  | seq first second ih₁ ih₂ =>
    rw [idles, Bool.and_eq_true] at h
    exact fun k stop hm => ih₂ h.2 k stop (ih₁ h.1 _ stop hm)
  | alt first second ih₁ ih₂ =>
    rw [idles, Bool.and_eq_true] at h
    intro k stop hm
    rcases orElse_eq_some hm with hm | hm
    · exact ih₁ h.1 k stop hm
    · exact ih₂ h.2 k stop hm
  | «repeat» body least most greedy ih =>
    have hbody := ih h
    cases most with
    | none => exact hbody.atLeast least
    | some most => exact fun k stop hm => hbody.atMost _ k stop (hbody.exactly least _ stop hm)
  | group body ih => exact ih h

/-- No way to match the expression at the beginning of the text leads anywhere. -/
def Refuses (r : Regex) (rest : List Char) : Prop := ∀ past k, r.run ⟨past, rest⟩ k = none

theorem refuses_of_shuns (h : r.shuns rest.head? = true) : r.Refuses rest := by
  intro past k
  induction r generalizing k with
  | empty | assertion => cases h
  | chars set => exact run_chars_eq_none h k
  | seq first second ih₁ ih₂ =>
    rw [shuns, Bool.or_eq_true, Bool.and_eq_true] at h
    rcases h with h | ⟨hidle, h⟩
    · exact ih₁ h _
    · -- `first` can only stay where it is, and there `second` has no match
      cases hm : (seq first second).run ⟨past, rest⟩ k with
      | none => rfl
      | some stop =>
        have hm := idle_of_idles hidle _ stop hm
        rw [ih₂ h] at hm
        cases hm
  | alt first second ih₁ ih₂ =>
    rw [shuns, Bool.and_eq_true] at h
    rw [run, ih₁ h.1, ih₂ h.2]
    rfl
  | «repeat» body least most greedy ih =>
    rw [shuns, Bool.and_eq_true, decide_eq_true_eq] at h
    obtain ⟨n, rfl⟩ := Nat.exists_eq_succ_of_ne_zero (Nat.pos_iff_ne_zero.1 h.1)
    have hbody := ih h.2
    cases most with
    | some most =>
      rw [run, exactly]
      exact hbody _
    | none =>
      rw [run, atLeast]
      cases n with
      | zero =>
        rw [exactly, onceOrMore]
        exact hbody _
      | succ n =>
        rw [exactly]
        exact hbody _
  | group body ih => exact ih h k

/-! ## What is passed -/

/-- If the search goes through after `w` has been passed, it goes through there. -/
def Takes (r : Regex) (w rest : List Char) : Prop :=
  ∀ past k stop, k ⟨w.reverse ++ past, rest⟩ = some stop → r.run ⟨past, w ++ rest⟩ k = some stop

theorem takes_chars {x : Char} (h : set.contains x = true) : (chars set).Takes [x] rest := by
  intro past k stop hk
  rw [List.singleton_append, run, if_pos h]
  exact hk

theorem Takes.seq (h : r.Takes w (w' ++ rest)) (h' : s.Takes w' rest) :
    (seq r s).Takes (w ++ w') rest := by
  intro past k stop hk
  rw [List.reverse_append, List.append_assoc] at hk
  rw [List.append_assoc, run]
  exact h past _ stop (h' _ k stop hk)

theorem Takes.left (h : r.Takes w rest) : (alt r s).Takes w rest := by
  intro past k stop hk
  rw [run, h past k stop hk]
  rfl

theorem Takes.right (hr : r.Refuses (w ++ rest)) (h : s.Takes w rest) : (alt r s).Takes w rest := by
  intro past k stop hk
  rw [run, hr past k]
  exact h past k stop hk

/-- An optional part that is there is taken. -/
theorem Takes.present (h : r.Takes w rest) : (r.repeat 0 (some 1) true).Takes w rest := by
  intro past k stop hk
  have hm : r.run ⟨past, w ++ rest⟩ (fun c => atMost r.run true 0 c k) = some stop :=
    h past _ stop hk
  rw [run, exactly, atMost, prefer, if_pos rfl, hm]
  rfl

theorem Refuses.absent (h : r.Refuses rest) : (r.repeat 0 (some 1) true).Takes [] rest := by
  intro past k stop hk
  rw [run, exactly, atMost, prefer, if_pos rfl, List.nil_append, h past]
  exact hk

/-- `w` is passed in turns of the body, none of them empty, and there is no further turn. -/
inductive Turns (body : Regex) (rest : List Char) : List Char → Prop where
  | stop (h : body.Refuses rest) : Turns body rest []
  | turn {w w' : List Char} (hne : w ≠ []) (h : body.Takes w (w' ++ rest))
      (more : Turns body rest w') : Turns body rest (w ++ w')

/-- Passing a part of the text that is not empty leaves less of it. -/
theorem length_lt_append (hne : w ≠ []) : rest.length < (w ++ rest).length := by
  have hpos := List.length_pos_iff.2 hne
  rw [List.length_append]
  omega

theorem Turns.refuses_of_nil (h : Turns body rest w) (hw : w = []) : body.Refuses rest := by
  cases h with
  | stop h => exact h
  | turn hne => exact absurd (List.append_eq_nil_iff.1 hw).1 hne

theorem Turns.turns (h : Turns body rest w) {past : List Char} {k : Cursor Char → Outcome}
    {stop : Cursor Char} (hk : k ⟨w.reverse ++ past, rest⟩ = some stop) :
    turns body.run true ⟨past, w ++ rest⟩ k = some stop := by
  induction h generalizing past with
  | stop h =>
    rw [Regex.turns, prefer, if_pos rfl, List.nil_append, h past]
    exact hk
  | @turn w w' hne h more ih =>
    rw [List.reverse_append, List.append_assoc] at hk
    -- the search asks of every turn that it passes something
    have hlt : (w' ++ rest).length < (w ++ (w' ++ rest)).length := length_lt_append hne
    rw [Regex.turns, prefer, if_pos rfl, List.append_assoc, h past _ stop]
    · rfl
    · exact (dif_pos hlt).trans (ih hk)

theorem Turns.onceOrMore (h : Turns body rest w) (hne : w ≠ []) {past : List Char}
    {k : Cursor Char → Outcome} {stop : Cursor Char}
    (hk : k ⟨w.reverse ++ past, rest⟩ = some stop) :
    onceOrMore body.run true ⟨past, w ++ rest⟩ k = some stop := by
  cases h with
  | stop => exact absurd rfl hne
  | @turn w w' hne' h more =>
    rw [List.reverse_append, List.append_assoc] at hk
    have hlt : (w' ++ rest).length < (w ++ (w' ++ rest)).length := length_lt_append hne'
    rw [Regex.onceOrMore, List.append_assoc]
    exact h past _ stop ((if_pos hlt).trans (more.turns hk))

theorem Turns.star (h : Turns body rest w) : (body.repeat 0 none true).Takes w rest := by
  intro past k stop hk
  rw [run, atLeast, prefer, if_pos rfl]
  by_cases hne : w = []
  · subst hne
    rw [List.nil_append, Regex.onceOrMore, h.refuses_of_nil rfl past]
    exact hk
  · rw [h.onceOrMore hne hk]
    rfl

theorem Turns.plus (h : Turns body rest w) (hne : w ≠ []) :
    (body.repeat 1 none true).Takes w rest := by
  intro past k stop hk
  rw [run, atLeast, exactly]
  exact h.onceOrMore hne hk

theorem turns_chars (hw : ∀ x ∈ w, set.contains x = true)
    (hrest : (chars set).shuns rest.head? = true) : Turns (chars set) rest w := by
  induction w with
  | nil => exact .stop (refuses_of_shuns hrest)
  | cons x w ih =>
    have hx : (chars set).Takes [x] (w ++ rest) := takes_chars (hw x List.mem_cons_self)
    exact .turn (List.cons_ne_nil x []) hx (ih fun y hy => hw y (List.mem_cons_of_mem x hy))

/-- A run of characters of the set is taken up to its end. -/
theorem takes_run {x : Char} (hx : set.contains x = true) (text : List Char) :
    ((chars set).repeat 1 none true).Takes (x :: text.takeWhile set.contains)
      (text.dropWhile set.contains) := by
  have hall : ∀ y ∈ x :: text.takeWhile set.contains, set.contains y = true :=
    List.forall_mem_cons.2 ⟨hx, List.all_eq_true.1 List.all_takeWhile⟩
  have hrest : (chars set).shuns (text.dropWhile set.contains).head? = true := by
    have hnext := List.head?_dropWhile_not set.contains text
    rw [shuns]
    cases h : (text.dropWhile set.contains).head? with
    | none => rfl
    | some y =>
      rw [h] at hnext
      rw [Option.any_some, hnext]
      rfl
  exact (turns_chars hall hrest).plus (List.cons_ne_nil x _)

/-- As many characters as are asked for are taken. -/
theorem takes_count (hw : ∀ x ∈ w, set.contains x = true) :
    ((chars set).repeat w.length (some w.length) true).Takes w rest := by
  intro past k stop hk
  have hexactly : exactly (chars set).run w.length ⟨past, w ++ rest⟩ k = some stop := by
    induction w generalizing past with
    | nil => exact hk
    | cons x w ih =>
      rw [List.reverse_cons, List.append_assoc] at hk
      rw [List.length_cons, exactly, List.cons_append, run, if_pos (hw x List.mem_cons_self)]
      exact ih (fun y hy => hw y (List.mem_cons_of_mem x hy)) _ hk
  rw [run, Nat.sub_self]
  exact hexactly

end Regex

/-! ## The first class that takes -/

/-- A token of the class with the text, at no particular place. -/
def Token.spelled (kind : TokenId) (text : List Char) : Token :=
  ⟨kind, String.ofList text, 0, 0, false⟩

/-- The tokens of segments without their offsets, if there is no run where no class matches. -/
def Segment.tokens? : List Segment → Option (List Token)
  | [] => some []
  | .matched kind skip text :: rest =>
    if skip then tokens? rest else (tokens? rest).map (.spelled kind text :: ·)
  | .unmatched _ :: _ => none

namespace Vocabulary

variable {v : Vocabulary}

/-- The tokens of a text without their offsets, if lexing it leaves no error. -/
def scan (v : Vocabulary) (text : List Char) : Option (List Token) :=
  Segment.tokens? (v.segments text)

theorem ofSegments_of_tokens? {segs : List Segment} {ts : List Token}
    (h : Segment.tokens? segs = some ts) (offset : Nat) :
    ∃ us : List Token, LexItem.ofSegments offset segs = us.map .token ∧
      us.map Veil.offsets.token = ts := by
  induction segs generalizing offset ts with
  | nil =>
    cases h
    exact ⟨[], rfl, rfl⟩
  | cons seg segs ih =>
    cases seg with
    | unmatched => cases h
    | matched kind skip text =>
      cases skip with
      | true => exact ih h _
      | false =>
        obtain ⟨rest, hrest, rfl⟩ := Option.map_eq_some_iff.1 h
        obtain ⟨us, hitems, hus⟩ := ih hrest (offset + byteLength text)
        refine ⟨⟨kind, String.ofList text, offset, offset + byteLength text, false⟩ :: us, ?_, ?_⟩
        · rw [LexItem.ofSegments, hitems]
          rfl
        · rw [List.map_cons, hus]
          rfl

/-- The lexer finds the tokens, whatever their offsets, and no error. -/
theorem tokenize_of_scan {text : String} {ts : List Token} (h : v.scan text.toList = some ts) :
    (v.tokenize text).2 = [] ∧ (v.tokenize text).1.map Veil.offsets.token = ts := by
  obtain ⟨us, hitems, hus⟩ := ofSegments_of_tokens? h 0
  have hlex : v.lex text = us.map .token := hitems
  have htokens : (v.tokenize text).1 = us := by
    rw [tokenize, hlex, List.filterMap_map]
    exact List.filterMap_some
  refine ⟨?_, htokens ▸ hus⟩
  rw [tokenize, hlex]
  refine List.filterMap_eq_nil_iff.2 fun item hitem => ?_
  obtain ⟨t, -, rfl⟩ := List.mem_map.1 hitem
  rfl

theorem mem_chain {classes : List TokenClass} {id : TokenId} (h : id < classes.length) :
    id ∈ chain classes id := by
  induction classes with
  | nil => exact absurd h (Nat.not_lt_zero id)
  | cons c earlier ih =>
    rw [chain]
    by_cases hlast : id = earlier.length
    · rw [if_pos hlast]
      exact List.mem_cons_self
    · rw [List.length_cons] at h
      rw [if_neg hlast]
      exact ih (Nat.lt_of_le_of_ne (Nat.le_of_lt_succ h) hlast)

/-- A token is accepted where its class is asked for. -/
theorem isA_self {id : TokenId} {c : TokenClass} (h : v.class? id = some c) :
    v.isA id id = true := by
  obtain ⟨hlt, -⟩ := List.getElem?_eq_some_iff.1 h
  rw [isA, ancestors, List.contains_iff_mem]
  by_cases heof : id = v.eof
  · rw [if_pos heof]
    exact List.mem_singleton_self id
  · rw [if_neg heof]
    exact mem_chain (by rwa [List.length_reverse])

/-- No class before the given one has a match before the character, or at the end of the text. -/
def reserves (v : Vocabulary) (id : TokenId) (next : Option Char) : Bool :=
  (v.classes.take id).all fun c => c.pattern.all (·.shuns next)

/-- What the class has to match after the condition that ties it to its place, and whether its
tokens are dropped. -/
def anchored? (v : Vocabulary) (id : TokenId) : Option (Regex × Bool) :=
  (v.class? id).bind fun c =>
    match c.pattern with
    | some (.seq (.assertion .textStart) r) => some (r, c.skip)
    | _ => none

/-- What the classes match after the condition that ties each to its place, and whether their tokens
are dropped, in the order of the classes. A category matches nothing. -/
def Lists (v : Vocabulary) (es : List (Option (Regex × Bool))) : Prop :=
  v.classes.map (fun c => (c.pattern, c.skip)) =
    es.map fun e => (e.map fun p => .seq (.assertion .textStart) p.1, e.any (·.2))

instance (v : Vocabulary) (es : List (Option (Regex × Bool))) : Decidable (v.Lists es) :=
  inferInstanceAs (Decidable (_ = _))

section Lists

variable {es : List (Option (Regex × Bool))} {id : TokenId} {p : Regex × Bool}

theorem Lists.anchored? (h : v.Lists es) (hid : es[id]? = some (some p)) :
    v.anchored? id = some p := by
  have hclass := congrArg (·[id]?) h
  simp only [List.getElem?_map, hid, Option.map_some, Option.any_some,
    Option.map_eq_some_iff, Prod.mk.injEq] at hclass
  obtain ⟨c, hc, hpattern, hskip⟩ := hclass
  rw [Vocabulary.anchored?, class?, hc, Option.bind_some, hpattern, hskip]

theorem Lists.reserves (h : v.Lists es) (id : TokenId) (next : Option Char) :
    v.reserves id next = (es.take id).all fun e => e.all (·.1.shuns next) := by
  have hpatterns : v.reserves id next =
      ((v.classes.map fun c => (c.pattern, c.skip)).take id).all
        fun q => q.1.all (·.shuns next) := by
    rw [← List.map_take, List.all_map]
    rfl
  rw [hpatterns, h, ← List.map_take, List.all_map]
  refine congrArg (List.all _) (funext fun e => ?_)
  cases e <;> rfl

/-- The characters are given with the classes that can begin with them, and no class before such a
class begins with one of its characters. -/
theorem Lists.reserves_of_mem (h : v.Lists es) {leading : List (TokenId × List Char)}
    (hall : ∀ q ∈ leading, q.2.all (fun c =>
      (es.take q.1).all fun e => e.all (·.1.shuns (some c))) = true)
    {cs : List Char} {c : Char} (hid : (id, cs) ∈ leading) (hc : c ∈ cs) :
    v.reserves id (some c) = true := by
  rw [h.reserves]
  exact List.all_eq_true.1 (hall _ hid) c hc

end Lists

section Class

variable {id : TokenId} {r : Regex} {skip : Bool} {w rest : List Char}

theorem class?_of_anchored? (h : v.anchored? id = some (r, skip)) :
    ∃ c, v.class? id = some c ∧ c.pattern = some (.seq (.assertion .textStart) r) ∧
      c.skip = skip := by
  obtain ⟨c, hc, h⟩ := Option.bind_eq_some_iff.1 h
  refine ⟨c, hc, ?_⟩
  split at h
  · rename_i r' hp
    cases h
    exact ⟨hp, rfl⟩
  · cases h

/-- The class takes the beginning of the text if no class before it can. -/
theorem segments_of_takes (hc : v.anchored? id = some (r, skip)) (hne : w ≠ [])
    (hbefore : v.reserves id (w ++ rest).head? = true) (h : r.Takes w rest) :
    v.segments (w ++ rest) = .matched id skip w :: v.segments rest := by
  obtain ⟨c, hclass, hp, rfl⟩ := class?_of_anchored? hc
  have hstop : (Regex.seq (.assertion .textStart) r).matchHere? (.ofList (w ++ rest)) =
      some ⟨w.reverse ++ [], rest⟩ := h [] some _ rfl
  have hlength : (⟨w.reverse ++ [], rest⟩ : Cursor Char).position = w.length := by
    rw [Cursor.position, List.append_nil, List.length_reverse]
  have hpos : 0 < (⟨w.reverse ++ [], rest⟩ : Cursor Char).position :=
    hlength ▸ List.length_pos_iff.2 hne
  have hfirst : v.firstLexeme? (w ++ rest) = some ⟨id, c.skip, _, hpos⟩ := by
    refine findSome?_zipIdx_eq_some.2 ⟨id, c, hclass, ?_, ?_⟩
    · change lexeme? (w ++ rest) c (0 + id) = _
      rw [Nat.zero_add, lexeme?, hp, Option.bind_some, hstop]
      exact dif_pos hpos
    · intro j hj c' hc'
      have hmem : c' ∈ v.classes.take id := by
        refine List.mem_iff_getElem?.2 ⟨j, ?_⟩
        rw [List.getElem?_take_of_lt hj]
        exact hc'
      have hshuns := List.all_eq_true.1 hbefore c' hmem
      change lexeme? (w ++ rest) c' (0 + j) = none
      rw [lexeme?]
      cases hp' : c'.pattern with
      | none => rfl
      | some r' =>
        rw [hp', Option.all_some] at hshuns
        have hnone : r'.matchHere? (.ofList (w ++ rest)) = none :=
          Regex.refuses_of_shuns hshuns [] some
        rw [Option.bind_some, hnone]
  rw [segments_matched hfirst]
  simp only [hlength, List.take_left, List.drop_left]

end Class

/-! ## A part of a text -/

/-- If what comes after it is as the condition says, the lexer makes tokens of `w` as if it stood
alone. -/
def Cuts (v : Vocabulary) (after : List Char → Prop) (w : List Char) (ts : List Token) : Prop :=
  ∀ rest, after rest → v.scan (w ++ rest) = (v.scan rest).map (ts ++ ·)

section Cuts

variable {after after' : List Char → Prop} {w w' : List Char} {ts us : List Token}

theorem cuts_nil (v : Vocabulary) (after : List Char → Prop) : v.Cuts after [] [] :=
  fun _ _ => (congrFun Option.map_id _).symm

theorem Cuts.append (h : v.Cuts after w ts) (h' : v.Cuts after' w' us)
    (hafter : ∀ rest, after' rest → after (w' ++ rest)) : v.Cuts after' (w ++ w') (ts ++ us) := by
  intro rest hrest
  rw [List.append_assoc, h _ (hafter rest hrest), h' rest hrest, Option.map_map]
  refine congrArg (Option.map · _) (funext fun rest => ?_)
  exact (List.append_assoc ts us rest).symm

theorem Cuts.scan (h : v.Cuts after w ts) (hend : after []) : v.scan w = some ts := by
  have hscan := h [] hend
  rw [List.append_nil] at hscan
  rw [hscan, Vocabulary.scan, segments, Segment.tokens?, Option.map_some, List.append_nil]

variable {id : TokenId} {r : Regex} {set : CharSet}

/-- A token comes off the beginning of the text. -/
theorem cuts_token (hc : v.anchored? id = some (r, false)) (hne : w ≠ [])
    (hbefore : v.reserves id w.head? = true) (h : ∀ rest, after rest → r.Takes w rest) :
    v.Cuts after w [.spelled id w] := by
  intro rest hrest
  have hhead : (w ++ rest).head? = w.head? := by
    obtain ⟨x, w, rfl⟩ := List.exists_cons_of_ne_nil hne
    rfl
  have hsegments := segments_of_takes hc hne (hhead ▸ hbefore) (h rest hrest)
  rw [Vocabulary.scan, hsegments, Segment.tokens?, if_neg Bool.false_ne_true]
  rfl

/-- A run of characters that are dropped is cut off as a whole. -/
theorem segments_run (hc : v.anchored? id = some ((Regex.chars set).repeat 1 none true, true))
    (hbefore : set.every (fun x => v.reserves id (some x)) = true) {x : Char}
    (hx : set.contains x = true) (text : List Char) : v.segments (x :: text) =
      .matched id true (x :: text.takeWhile set.contains) ::
        v.segments (text.dropWhile set.contains) := by
  have hreserves := CharSet.of_every hbefore hx
  have hsegments :=
    segments_of_takes hc (List.cons_ne_nil x _) hreserves (Regex.takes_run hx text)
  rwa [List.cons_append, List.takeWhile_append_dropWhile] at hsegments

/-- Such a run comes off the beginning of the text and leaves no token. -/
theorem scan_dropWhile (hc : v.anchored? id = some ((Regex.chars set).repeat 1 none true, true))
    (hbefore : set.every (fun x => v.reserves id (some x)) = true) (text : List Char) :
    v.scan (text.dropWhile set.contains) = v.scan text := by
  cases text with
  | nil => rfl
  | cons x text =>
    cases hx : set.contains x with
    | false => rw [List.dropWhile_cons_of_neg (Bool.eq_false_iff.1 hx)]
    | true =>
      rw [List.dropWhile_cons_of_pos hx, Vocabulary.scan, Vocabulary.scan,
        segments_run hc hbefore hx, Segment.tokens?, if_pos rfl]

/-- Characters that are dropped leave no token, whatever comes after them. -/
theorem cuts_dropped (hc : v.anchored? id = some ((Regex.chars set).repeat 1 none true, true))
    (hbefore : set.every (fun x => v.reserves id (some x)) = true)
    (hw : ∀ x ∈ w, set.contains x = true) : v.Cuts after w [] := by
  intro rest _
  rw [← scan_dropWhile hc hbefore, List.dropWhile_append_of_pos hw, scan_dropWhile hc hbefore]
  exact (congrFun Option.map_id _).symm

end Cuts

end Vocabulary

end TopDown
