import TopDown.Proofs.Barrier
import TopDown.Proofs.Reading

/-!
# White space between the segments of a text

`Respaced` says that a text is another one, given by its segments, with other white space: the runs
that the lexer drops are replaced, and further runs stand at boundaries. Classes are tried against
all that lies ahead, so a change far behind a place could change what is found at it. It does not for
a class that is `TokenClass.Steady`: where it has no match, none appears, and a match stays as it is.
If all classes of a vocabulary are, the segments that are not dropped stay the same
(`Vocabulary.solid_segments_of_respaced`).

Character by character, other white space lies ahead as `Spread` says.
-/

namespace TopDown

/-- A run of white space. -/
structure Gap (w : List Char) : Prop where
  ne_nil : w ≠ []
  blank : ∀ c ∈ w, isBlank c = true

instance (w : List Char) : Decidable (Gap w) :=
  decidable_of_iff (w ≠ [] ∧ w.all isBlank = true)
    ⟨fun h => ⟨h.1, List.all_eq_true.1 h.2⟩, fun h => ⟨h.1, List.all_eq_true.2 h.2⟩⟩

/-- Whether the lexer drops the segment. -/
def Segment.dropped : Segment → Bool
  | .matched _ skip _ => skip
  | .unmatched _ => false

/-- The text has the segments with other white space. -/
inductive Respaced : List Segment → List Char → Prop where
  | done : Respaced [] []
  /-- A run is put in at a boundary. -/
  | insert {w text : List Char} {segs : List Segment} (hw : Gap w) (rest : Respaced segs text) :
      Respaced segs (w ++ text)
  /-- A token or a run where no class matches stays as it is. -/
  | keep {seg : Segment} {text : List Char} {segs : List Segment} (hseg : seg.dropped = false)
      (rest : Respaced segs text) : Respaced (seg :: segs) (seg.text ++ text)
  /-- A run takes the place of another that is dropped. -/
  | replace {seg : Segment} {w text : List Char} {segs : List Segment} (hseg : seg.dropped = true)
      (hw : Gap w) (rest : Respaced segs text) : Respaced (seg :: segs) (w ++ text)

/-! ## Character by character -/

/-- Every character of white space in the second text stands for a run in the first, which may be
empty, and every other character for itself. -/
inductive Spread : List Char → List Char → Prop where
  | nil : Spread [] []
  | keep (x : Char) {u u' : List Char} (h : Spread u u') : Spread (x :: u) (x :: u')
  | blank {w u u' : List Char} {y : Char} (hw : ∀ c ∈ w, isBlank c = true) (hy : isBlank y = true)
      (h : Spread u u') : Spread (w ++ u) (y :: u')

namespace Spread

variable {u u' w w' : List Char} {x : Char}

theorem insert (hw : ∀ c ∈ w, isBlank c = true) (h : Spread u u') : Spread u (w ++ u') := by
  induction w with
  | nil => exact h
  | cons y w ih =>
    obtain ⟨hy, hw⟩ := List.forall_mem_cons.1 hw
    exact .blank (List.forall_mem_nil _) hy (ih hw)

theorem replace (hw : ∀ c ∈ w, isBlank c = true) (hw' : Gap w') (h : Spread u u') :
    Spread (w ++ u) (w' ++ u') := by
  obtain ⟨y, w', rfl⟩ := List.exists_cons_of_ne_nil hw'.ne_nil
  obtain ⟨hy, hw'⟩ := List.forall_mem_cons.1 hw'.blank
  exact .blank hw hy (h.insert hw')

theorem append (w : List Char) (h : Spread u u') : Spread (w ++ u) (w ++ u') := by
  induction w with
  | nil => exact h
  | cons x w ih => exact .keep x ih

theorem of_cons (h : Spread u (x :: u')) (hx : isBlank x = false) :
    ∃ v, u = x :: v ∧ Spread v u' := by
  cases h with
  | keep _ h => exact ⟨_, rfl, h⟩
  | blank _ hy =>
    rw [hx] at hy
    cases hy

/-- Text without white space stays as it is. -/
theorem of_append (h : Spread u (w ++ u')) (hw : ∀ x ∈ w, isBlank x = false) :
    ∃ v, u = w ++ v ∧ Spread v u' := by
  induction w generalizing u with
  | nil => exact ⟨u, rfl, h⟩
  | cons x w ih =>
    obtain ⟨hx, hw⟩ := List.forall_mem_cons.1 hw
    obtain ⟨v, rfl, h'⟩ := of_cons h hx
    obtain ⟨v, rfl, h''⟩ := ih h' hw
    exact ⟨v, rfl, h''⟩

theorem of_blank (h : Spread u (x :: u')) (hx : isBlank x = true) :
    ∃ w v, u = w ++ v ∧ (∀ c ∈ w, isBlank c = true) ∧ Spread v u' := by
  cases h with
  | keep _ h => exact ⟨[x], _, rfl, List.forall_mem_singleton.2 hx, h⟩
  | blank hw _ h => exact ⟨_, _, rfl, hw, h⟩

end Spread

/-! ## Expressions -/

namespace Regex

/-- What the expression finds does not change with the white space that lies ahead. -/
structure Steady (r : Regex) : Prop where
  lost : ∀ {u u'}, Spread u u' → r.matchHere? (.ofList u) = none →
    r.matchHere? (.ofList u') = none
  kept : ∀ {w u u'}, Spread u u' → r.matchHere? (.ofList (w ++ u)) = some ⟨w.reverse, u⟩ →
    r.matchHere? (.ofList (w ++ u')) = some ⟨w.reverse, u'⟩

theorem idles_none (r : Regex) : r.idles none = true := by
  induction r with
  | empty | chars | assertion => rfl
  | seq _ _ ih ih' | alt _ _ ih ih' => rw [idles, ih, ih', Bool.and_self]
  | «repeat» _ _ _ _ ih | group _ ih => exact ih

/-- An expression that cannot pass white space is steady: it looks no further than up to the first
white space, and no text is changed up to there. -/
theorem steady_of_idles {r : Regex} (hfree : r.unconditional = true)
    (hblank : CharSet.blank.every (fun x => r.idles (some x)) = true) : r.Steady := by
  have hsplit (u' : List Char) : ∃ a y, u' = a ++ y ∧ (∀ x ∈ a, isBlank x = false) ∧
      r.idles y.head? = true := by
    refine ⟨u'.takeWhile (!isBlank ·), u'.dropWhile (!isBlank ·),
      List.takeWhile_append_dropWhile.symm, ?_, ?_⟩
    · intro x hx
      exact Bool.not_eq_true' _ ▸ List.all_eq_true.1 List.all_takeWhile x hx
    · have hnext := List.head?_dropWhile_not (!isBlank ·) u'
      cases h : (u'.dropWhile (!isBlank ·)).head? with
      | none => exact idles_none r
      | some y =>
        rw [h] at hnext
        exact CharSet.of_every hblank (Bool.not_eq_false' _ ▸ hnext)
  constructor
  · intro u u' h hnone
    obtain ⟨a, y, rfl, ha, hy⟩ := hsplit u'
    obtain ⟨x, rfl, -⟩ := h.of_append ha
    exact (keeps_matchHere? hfree hy a).lost hnone
  · intro w u u' h hm
    obtain ⟨a, y, rfl, ha, hy⟩ := hsplit u'
    obtain ⟨x, rfl, -⟩ := h.of_append ha
    have hkeeps := keeps_matchHere? (x := x) hfree hy (w ++ a)
    rw [List.append_assoc, List.append_assoc] at hkeeps
    exact hkeeps.kept w.reverse a hm

/-- An expression that matches all of whatever it stands for is steady if other white space leaves
what it stands for. -/
theorem steady_of_takes {r : Regex} (htakes : ∀ {w}, r.Spells w → ∀ rest, r.Takes w rest)
    (hspread : ∀ {w u rest}, r.Spells w → Spread u (w ++ rest) →
      ∃ w' rest', r.Spells w' ∧ u = w' ++ rest') : r.Steady := by
  constructor
  · intro u u' h hnone
    cases hm : r.matchHere? (.ofList u') with
    | none => rfl
    | some stop =>
      obtain ⟨w, rest, rfl, hw, -⟩ := spells_of_matchHere? hm
      obtain ⟨w', rest', hw', rfl⟩ := hspread hw h
      have hmatch : r.matchHere? (.ofList (w' ++ rest')) = _ := htakes hw' rest' [] some _ rfl
      rw [hmatch] at hnone
      cases hnone
  · intro w u u' h hm
    obtain ⟨w₁, rest, htext, hw, hstop⟩ := spells_of_matchHere? hm
    obtain ⟨hpast, rfl⟩ := Cursor.mk.inj hstop
    obtain rfl := List.append_cancel_right htext
    have hmatch : r.matchHere? (.ofList (w ++ u')) = some ⟨w.reverse ++ [], u'⟩ :=
      htakes hw u' [] some _ rfl
    rwa [List.append_nil] at hmatch

end Regex

/-! ## Classes -/

namespace TokenClass

/-- What is found of the class does not change with the white space that lies ahead, after the first
character. If its tokens are dropped, they are white space. -/
structure Steady (c : TokenClass) : Prop where
  lost : ∀ {x u u'}, Spread u u' → c.Begins (.ofList (x :: u')) → c.Begins (.ofList (x :: u))
  kept : ∀ {w u u'}, c.skip = false → Spread u u' → c.Matches (.ofList w) (.ofList u) →
    c.Matches (.ofList w) (.ofList u')
  gap : ∀ {w u}, c.skip = true → c.Matches (.ofList w) (.ofList u) → Gap w

/-- The expression of the class is tied to the place where the match is to begin. -/
def Anchored (c : TokenClass) (r : Regex) : Prop :=
  c.pattern = some (.seq (.assertion .textStart) r)

variable {c : TokenClass} {r : Regex} {text w rest : List Char}

theorem Anchored.matches_iff (h : c.Anchored r) : c.Matches (.ofList w) (.ofList rest) ↔
    w ≠ [] ∧ r.matchHere? (.ofList (w ++ rest)) = some ⟨w.reverse, rest⟩ := by
  have htext : (String.ofList w ++ String.ofList rest).toList = w ++ rest := by
    rw [← String.ofList_append, String.toList_ofList]
  have hmatch : (Regex.seq (.assertion .textStart) r).matchHere? (.ofList (w ++ rest)) =
      r.matchHere? (.ofList (w ++ rest)) := rfl
  rw [Matches, htext, String.length_ofList, ne_eq, String.ofList_eq_empty_iff]
  refine and_congr_right fun _ => ⟨?_, ?_⟩
  · rintro ⟨r', hp, hfind⟩
    obtain rfl := Option.some.inj (hp.symm.trans h)
    obtain ⟨stop, hstop, hlength⟩ := Regex.find?_eq_some_zero.1 hfind
    rw [hmatch] at hstop
    obtain ⟨w', rest', hsame, -, rfl⟩ := Regex.spells_of_matchHere? hstop
    rw [List.append_nil] at hlength hstop
    obtain ⟨rfl, rfl⟩ := List.append_inj hsame (hlength.symm.trans List.length_reverse)
    exact hstop
  · intro hstop
    refine ⟨_, h, Regex.find?_eq_some_zero.2 ⟨_, hmatch.trans hstop, ?_⟩⟩
    exact List.length_reverse

theorem begins_ofList_iff : c.Begins (.ofList text) ↔
    ∃ w rest, text = w ++ rest ∧ c.Matches (.ofList w) (.ofList rest) := by
  constructor
  · rintro ⟨t, after, htext, hm⟩
    refine ⟨t.toList, after.toList, ?_, ?_⟩
    · rw [← String.toList_append, ← htext, String.toList_ofList]
    · rwa [String.ofList_toList, String.ofList_toList]
  · rintro ⟨w, rest, rfl, hm⟩
    exact ⟨_, _, String.ofList_append, hm⟩

theorem Anchored.spells (h : c.Anchored r) (hm : c.Matches (.ofList w) (.ofList rest)) :
    r.Spells w := by
  obtain ⟨w', rest', htext, hw, hstop⟩ := Regex.spells_of_matchHere? (h.matches_iff.1 hm).2
  obtain ⟨hpast, -⟩ := Cursor.mk.inj hstop
  rw [List.append_nil, List.reverse_inj] at hpast
  rwa [hpast]

/-- A category. -/
theorem steady_of_pattern_none (h : c.pattern = none) : c.Steady := by
  have hnone {t after : String} (hm : c.Matches t after) : False := by
    obtain ⟨-, r, hp, -⟩ := hm
    rw [h] at hp
    cases hp
  constructor
  · rintro x u u' - ⟨t, after, -, hm⟩
    exact (hnone hm).elim
  · exact fun _ _ hm => (hnone hm).elim
  · exact fun _ hm => (hnone hm).elim

theorem Anchored.steady (h : c.Anchored r) (hr : r.Steady) (hs : c.skip = false) : c.Steady := by
  constructor
  · intro x u u' hspread hbegins
    obtain ⟨w', rest', htext', hm'⟩ := begins_ofList_iff.1 hbegins
    obtain ⟨hne', hstop'⟩ := h.matches_iff.1 hm'
    rw [← htext'] at hstop'
    cases hstop : r.matchHere? (.ofList (x :: u)) with
    | none =>
      rw [hr.lost (hspread.keep x) hstop] at hstop'
      cases hstop'
    | some stop =>
      obtain ⟨w, rest, htext, -, rfl⟩ := Regex.spells_of_matchHere? hstop
      rw [List.append_nil] at hstop
      -- if the expression passes nothing in one of the texts, it passes nothing in the other
      have hne : w ≠ [] := by
        rintro rfl
        obtain rfl : x :: u = rest := htext
        have hkept := hr.kept (w := []) (hspread.keep x) hstop
        rw [List.nil_append, hstop'] at hkept
        obtain ⟨hpast, -⟩ := Cursor.mk.inj (Option.some.inj hkept)
        exact hne' (List.reverse_eq_nil_iff.1 hpast)
      rw [htext] at hstop
      exact begins_ofList_iff.2 ⟨w, rest, htext, h.matches_iff.2 ⟨hne, hstop⟩⟩
  · intro w u u' _ hspread hm
    obtain ⟨hne, hstop⟩ := h.matches_iff.1 hm
    exact h.matches_iff.2 ⟨hne, hr.kept hspread hstop⟩
  · intro w u hs'
    rw [hs] at hs'
    cases hs'

/-- White space. -/
theorem Anchored.steady_of_skip (h : c.Anchored (.repeat (.chars .blank) 1 none true))
    (hs : c.skip = true) : c.Steady := by
  constructor
  · intro x u u' _ hbegins
    obtain ⟨w, rest, htext, hm⟩ := begins_ofList_iff.1 hbegins
    obtain ⟨y, w, rfl⟩ := List.exists_cons_of_ne_nil (h.matches_iff.1 hm).1
    obtain ⟨rfl, -⟩ := List.cons.inj htext
    have hx := (Regex.spells_repeat_chars_iff.1 (h.spells hm)).1 x List.mem_cons_self
    have hstop : (Regex.repeat (.chars .blank) 1 none true).matchHere? _ = _ :=
      Regex.takes_run hx u [] some _ rfl
    rw [List.append_nil] at hstop
    refine begins_ofList_iff.2 ⟨_, _, ?_, h.matches_iff.2 ⟨List.cons_ne_nil _ _, hstop⟩⟩
    rw [List.cons_append, List.takeWhile_append_dropWhile]
  · intro w u u' hs'
    rw [hs] at hs'
    cases hs'
  · intro w u _ hm
    exact ⟨(h.matches_iff.1 hm).1, (Regex.spells_repeat_chars_iff.1 (h.spells hm)).1⟩

end TokenClass

/-! ## Vocabularies -/

namespace Segment

/-- The segments that are not dropped. -/
def solid (segs : List Segment) : List Segment := segs.filter (!·.dropped)

theorem solid_cons_of_dropped {seg : Segment} (h : seg.dropped = true) (segs : List Segment) :
    solid (seg :: segs) = solid segs := by
  rw [solid, List.filter_cons_of_neg (by simp [h]), solid]

theorem solid_cons_of_not_dropped {seg : Segment} (h : seg.dropped = false) (segs : List Segment) :
    solid (seg :: segs) = seg :: solid segs := by
  rw [solid, List.filter_cons_of_pos (by simp [h]), solid]

end Segment

namespace Vocabulary

/-- All classes are steady, and one takes white space and drops it. -/
structure Spaced (v : Vocabulary) : Prop where
  steady : ∀ c ∈ v.classes, c.Steady
  gap : ∃ id, v.anchored? id = some (.repeat (.chars .blank) 1 none true, true) ∧
    CharSet.blank.every (fun x => v.reserves id (some x)) = true

variable {v : Vocabulary} {c : TokenClass} {id : TokenId} {text text' w u u' : List Char}
  {seg : Segment} {segs : List Segment} {x : Char}

/-- The classes are steady if every expression is, but for those that take white space. -/
theorem Lists.steady {es : List (Option (Regex × Bool))} (h : v.Lists es)
    (hall : ∀ e ∈ es, e = none ∨ e = some (.repeat (.chars .blank) 1 none true, true) ∨
      ∃ r, e = some (r, false) ∧ r.Steady) :
    ∀ c ∈ v.classes, c.Steady := by
  intro c hc
  have hmem : (c.pattern, c.skip) ∈ v.classes.map fun c => (c.pattern, c.skip) :=
    List.mem_map_of_mem hc
  rw [h] at hmem
  obtain ⟨e, he, hsame⟩ := List.mem_map.1 hmem
  obtain ⟨hpattern, hskip⟩ := Prod.mk.inj hsame
  rcases hall e he with rfl | rfl | ⟨r, rfl, hr⟩
  · exact TokenClass.steady_of_pattern_none hpattern.symm
  · exact TokenClass.Anchored.steady_of_skip hpattern.symm hskip.symm
  · exact TokenClass.Anchored.steady hpattern.symm hr hskip.symm

/-- A match that makes a token stays. -/
theorem FirstMatch.spread (hv : v.Spaced) (hs : c.skip = false) (hspread : Spread u u')
    (h : v.FirstMatch c id (.ofList w) (.ofList u)) : v.FirstMatch c id (.ofList w) (.ofList u') where
  declared := h.declared
  matched := (hv.steady c (List.mem_of_getElem? h.declared)).kept hs hspread h.matched
  first := by
    intro j hj c' hc' hbegins
    refine h.first j hj c' hc' ?_
    have hne : w ≠ [] := fun h0 => h.matched.1 (String.ofList_eq_empty_iff.2 h0)
    obtain ⟨x, w, rfl⟩ := List.exists_cons_of_ne_nil hne
    rw [← String.ofList_append] at hbegins ⊢
    exact (hv.steady c' (List.mem_of_getElem? hc')).lost (hspread.append w) hbegins

namespace Spaced

/-- No match appears, unless the first character is other white space. -/
theorem barren (hv : v.Spaced) (hspread : Spread u u') (h : v.Barren (.ofList (x :: u))) :
    v.Barren (.ofList (x :: u')) :=
  fun c hc hbegins => h c hc ((hv.steady c hc).lost hspread hbegins)

theorem segments_blank (hv : v.Spaced) (hx : isBlank x = true) (text : List Char) :
    ∃ id w, v.segments (x :: text) = .matched id true w :: v.segments (text.dropWhile isBlank) := by
  obtain ⟨id, hid, hbefore⟩ := hv.gap
  exact ⟨id, _, segments_run hid hbefore hx text⟩

theorem not_barren (hv : v.Spaced) (hw : Gap w) (text : List Char) :
    ¬v.Barren (.ofList (w ++ text)) := by
  obtain ⟨x, w, rfl⟩ := List.exists_cons_of_ne_nil hw.ne_nil
  obtain ⟨hx, -⟩ := List.forall_mem_cons.1 hw.blank
  obtain ⟨id, w', hsegs⟩ := hv.segments_blank hx (w ++ text)
  intro hbarren
  have hnone : v.firstLexeme? (x :: (w ++ text)) = none := firstLexeme?_eq_none.2 hbarren
  rw [segments, hnone] at hsegs
  cases hsegs

theorem solid_dropWhile (hv : v.Spaced) (text : List Char) :
    Segment.solid (v.segments (text.dropWhile isBlank)) = Segment.solid (v.segments text) := by
  cases text with
  | nil => rfl
  | cons x text =>
    cases hx : isBlank x with
    | false => rw [List.dropWhile_cons_of_neg (Bool.eq_false_iff.1 hx)]
    | true =>
      obtain ⟨id, w, hsegs⟩ := hv.segments_blank hx text
      rw [List.dropWhile_cons_of_pos hx, hsegs, Segment.solid_cons_of_dropped rfl]

/-- White space at the beginning of a text makes no difference. -/
theorem solid_append (hv : v.Spaced) (hw : Gap w) (text : List Char) :
    Segment.solid (v.segments (w ++ text)) = Segment.solid (v.segments text) := by
  rw [← hv.solid_dropWhile, List.dropWhile_append_of_pos hw.blank, hv.solid_dropWhile]

end Spaced

end Vocabulary

namespace Respaced

open Vocabulary

variable {v : Vocabulary} {text text' : List Char} {segs : List Segment}

theorem spread (hv : v.Spaced) (h : Respaced segs text') (hsegs : v.segments text = segs) :
    Spread text text' := by
  induction h generalizing text with
  | done =>
    have htext := v.flatMap_text_segments text
    rw [hsegs] at htext
    rw [← htext]
    exact .nil
  | insert hw _ ih => exact (ih hsegs).insert hw.blank
  | @keep seg _ _ _ _ ih =>
    obtain ⟨rest, rfl, hrest⟩ := segments_eq_cons hsegs
    exact (ih hrest).append seg.text
  | @replace seg _ _ _ hseg hw _ ih =>
    cases seg with
    | unmatched => cases hseg
    | matched kind skip w =>
      obtain ⟨c, rest, rfl, hrest, hfirst, hskip⟩ := segments_eq_matched hsegs
      have hsteady := hv.steady c (List.mem_of_getElem? hfirst.declared)
      have hgap := hsteady.gap (hskip.trans hseg) hfirst.matched
      exact (ih hrest).replace hgap.blank hw

/-- A text that does not begin with a run where no class matches does not begin with one after its
white space was changed. -/
theorem eq_nil_or_not_barren (hv : v.Spaced) (h : Respaced segs text')
    (hsegs : v.segments text = segs) (hmax : text = [] ∨ ¬v.Barren (.ofList text)) :
    text' = [] ∨ ¬v.Barren (.ofList text') := by
  cases h with
  | done => exact .inl rfl
  | insert hw => exact .inr (hv.not_barren hw _)
  | @keep seg _ _ hseg rest =>
    cases seg with
    | matched kind skip w =>
      obtain ⟨c, u, rfl, hu, hfirst, hskip⟩ := segments_eq_matched hsegs
      have hfirst' := hfirst.spread hv (hskip.trans hseg) (rest.spread hv hu)
      refine .inr fun hbarren => hbarren c (List.mem_of_getElem? hfirst.declared) ?_
      exact ⟨_, _, String.ofList_append, hfirst'.matched⟩
    | unmatched w =>
      obtain ⟨u, rfl, -, hne, hrun, -⟩ := segments_eq_unmatched hsegs
      rcases hmax with hnil | hmax
      · exact absurd (List.append_eq_nil_iff.1 hnil).1 hne
      · exact absurd (hrun [] w rfl hne) hmax
  | replace _ hw => exact .inr (hv.not_barren hw _)

/-- The segments that are not dropped are the same with other white space. -/
theorem solid (hv : v.Spaced) (h : Respaced segs text') (hsegs : v.segments text = segs) :
    Segment.solid (v.segments text') = Segment.solid segs := by
  induction h generalizing text with
  | done => rw [segments]
  | insert hw _ ih => rw [hv.solid_append hw, ih hsegs]
  | @keep seg text' _ hseg rest ih =>
    suffices hkept : v.segments (seg.text ++ text') = seg :: v.segments text' by
      obtain ⟨u, -, hu⟩ := segments_eq_cons hsegs
      rw [hkept, Segment.solid_cons_of_not_dropped hseg, Segment.solid_cons_of_not_dropped hseg,
        ih hu]
    cases seg with
    | matched kind skip w =>
      obtain ⟨c, u, rfl, hu, hfirst, rfl⟩ := segments_eq_matched hsegs
      have hfirst' := (hfirst.spread hv hseg (rest.spread hv hu)).segments_eq
      rwa [String.toList_append, String.toList_ofList, String.toList_ofList] at hfirst'
    | unmatched w =>
      obtain ⟨u, rfl, hu, hne, hrun, hmax⟩ := segments_eq_unmatched hsegs
      have hspread := rest.spread hv hu
      refine segments_unmatched hne ?_ (rest.eq_nil_or_not_barren hv hu hmax)
      intro a b hab hb
      obtain ⟨x, b, rfl⟩ := List.exists_cons_of_ne_nil hb
      exact hv.barren (hspread.append b) (hrun a (x :: b) hab hb)
  | replace hseg hw _ ih =>
    obtain ⟨u, -, hu⟩ := segments_eq_cons hsegs
    rw [hv.solid_append hw, ih hu, Segment.solid_cons_of_dropped hseg]

end Respaced

/-! ## Samples -/

namespace Segment

/-- The token of the segment, at no particular place. -/
def token? : Segment → Option Token
  | .matched kind _ text => some (.spelled kind text)
  | .unmatched _ => none

/-- The text of the lexical error of the segment. -/
def errorText? : Segment → Option String
  | .matched .. => none
  | .unmatched text => some (String.ofList text)

end Segment

/-- Which tokens and errors there are, up to their places, is known from the segments that are not
dropped. -/
theorem Vocabulary.tokenize_eq_solid (v : Vocabulary) (text : String) :
    let segs := Segment.solid (v.segments text.toList)
    (v.tokenize text).1.map Veil.offsets.token = segs.filterMap Segment.token? ∧
      (v.tokenize text).2.map (·.text) = segs.filterMap Segment.errorText? := by
  rw [tokenize, lex]
  generalize v.segments text.toList = segs
  generalize 0 = offset
  induction segs generalizing offset with
  | nil => exact ⟨rfl, rfl⟩
  | cons seg segs ih =>
    cases seg with
    | unmatched run =>
      obtain ⟨htokens, herrors⟩ := ih (offset + byteLength run)
      exact ⟨htokens, congrArg (String.ofList run :: ·) herrors⟩
    | matched kind skip w =>
      obtain ⟨htokens, herrors⟩ := ih (offset + byteLength w)
      cases skip with
      | true => exact ⟨htokens, herrors⟩
      | false => exact ⟨congrArg (Token.spelled kind w :: ·) htokens, herrors⟩

variable {α : Type}

/-- The outcomes differ at most in where something is, and in the records left on the way. -/
structure SampleOutcome.Alike (o o' : SampleOutcome α) : Prop where
  lexErrors : o.lexErrors.map (·.text) = o'.lexErrors.map (·.text)
  value : o.output.value = o'.output.value
  errors : o.output.errors.map Veil.offsets.syntaxError =
    o'.output.errors.map Veil.offsets.syntaxError
  fatal : o.output.fatal.map Veil.offsets.fatalError = o'.output.fatal.map Veil.offsets.fatalError

/-- A sample whose values do not depend on places comes to the same with other white space. -/
theorem Sample.alike_of_respaced {s : Sample α} (hm : s.meaning.Ignores Veil.offsets)
    (hv : s.language.vocabulary.Spaced) {text text' : String}
    (h : Respaced (s.language.vocabulary.segments text.toList) text'.toList) (rule : String) :
    (s.runRule rule text).Alike (s.runRule rule text') := by
  obtain ⟨htokens, herrors⟩ := s.language.vocabulary.tokenize_eq_solid text
  obtain ⟨htokens', herrors'⟩ := s.language.vocabulary.tokenize_eq_solid text'
  rw [h.solid hv rfl] at htokens' herrors'
  have hrun := Language.run_veil s.language rule (htokens.trans htokens'.symm)
  obtain ⟨hvalue, hsyntax, hfatal⟩ := ParseOutput.mk.inj (congrArg Language.Run.output hrun)
  have heval (o : Option Tree) : o.map s.meaning.eval =
      (o.map Veil.offsets.tree).map s.meaning.eval := by
    rw [Option.map_map]
    exact congrArg (Option.map · o) (funext fun t => (Semantics.eval_veil hm t).symm)
  refine ⟨herrors.trans herrors'.symm, ?_, hsyntax, hfatal⟩
  exact (heval _).trans ((congrArg (Option.map s.meaning.eval) hvalue).trans (heval _).symm)

end TopDown
