import TopDown.Proofs.Calc.Evaluation
import TopDown.Proofs.Json.Acceptance
import TopDown.Proofs.Spacing

/-!
# White space does not change what the samples make of a text

All classes of both sample languages are steady. Most of them cannot pass white space. A string can,
but only as characters that stand for themselves, so a text is the beginning of a string or not
whatever white space stands where there is some already, or at a boundary
(`Json.steady_stringRegex`). The result for both languages is
`Sample.runRule_alike`.
-/

namespace TopDown

/-! ## Strings -/

namespace Json

variable {p u u' : List Char}

/-- A piece of a string is one character of white space or has none. -/
theorem blank_or_solid_of_spells_piece (h : stringPiece.Spells p) :
    (∃ x, isBlank x = true ∧ p = [x]) ∨ ∀ x ∈ p, isBlank x = false := by
  cases h with
  | left h =>
    cases h with
    | @chars _ x hx =>
      cases hblank : isBlank x with
      | true => exact .inl ⟨x, hblank, rfl⟩
      | false => exact .inr (List.forall_mem_singleton.2 hblank)
  | right h =>
    have hidles : CharSet.blank.every (fun x =>
        (Regex.seq (.chars (.single '\\')) escapeRegex).idles (some x)) = true := by
      decide
    refine .inr fun x hmem => Bool.eq_false_iff.2 fun hblank => ?_
    exact h.not_mem (CharSet.of_every hidles hblank) hmem

/-- White space within pieces of a string can be any other. -/
theorem exists_pieces_of_spread {ps : List (List Char)} (hall : ∀ p ∈ ps, stringPiece.Spells p)
    (h : Spread u (ps.flatten ++ u')) : ∃ qs : List (List Char), ∃ v,
      (∀ q ∈ qs, stringPiece.Spells q) ∧ u = qs.flatten ++ v ∧ Spread v u' := by
  induction ps generalizing u with
  | nil => exact ⟨[], u, List.forall_mem_nil _, rfl, h⟩
  | cons p ps ih =>
    obtain ⟨hp, hps⟩ := List.forall_mem_cons.1 hall
    rw [List.flatten_cons, List.append_assoc] at h
    rcases blank_or_solid_of_spells_piece hp with ⟨x, hx, rfl⟩ | hsolid
    · obtain ⟨w, v, rfl, hw, hv⟩ := h.of_blank hx
      obtain ⟨qs, v, hqs, rfl, hrest⟩ := ih hps hv
      have hplain : CharSet.blank.every plainChars.contains = true := by decide
      refine ⟨w.map ([·]) ++ qs, v, List.forall_mem_append.2 ⟨?_, hqs⟩, ?_, hrest⟩
      · refine List.forall_mem_map.2 fun y hy => .left (.chars ?_)
        exact CharSet.of_every hplain (hw y hy)
      · rw [List.flatten_append, List.append_assoc, ← List.flatMap_def, List.flatMap_singleton']
    · obtain ⟨v, rfl, hv⟩ := h.of_append hsolid
      obtain ⟨qs, v, hqs, rfl, hrest⟩ := ih hps hv
      exact ⟨p :: qs, v, List.forall_mem_cons.2 ⟨hp, hqs⟩, (List.append_assoc ..).symm, hrest⟩

/-- A string begins at a place or not, whatever white space stands in it. -/
theorem steady_stringRegex : stringRegex.Steady := by
  have hquote : isBlank '"' = false := by decide
  refine Regex.steady_of_takes takes_of_spells_string fun hw h => ?_
  obtain ⟨ps, hall, rfl⟩ := spells_stringRegex_iff.1 hw
  rw [List.cons_append, List.append_assoc] at h
  obtain ⟨v, rfl, hbody⟩ := h.of_cons hquote
  obtain ⟨qs, v, hqs, rfl, hend⟩ := exists_pieces_of_spread hall hbody
  obtain ⟨v, rfl, -⟩ := hend.of_cons hquote
  refine ⟨_, v, spells_stringRegex_iff.2 ⟨qs, hqs, rfl⟩, ?_⟩
  rw [List.cons_append, List.append_assoc]
  rfl

end Json

/-! ## The vocabularies -/

/-- Whether there is an expression, it cannot pass white space, and what it matches is kept. -/
def avoidsBlank (e : Option (Regex × Bool)) : Bool :=
  e.any fun p => !p.2 && p.1.unconditional && CharSet.blank.every (fun x => p.1.idles (some x))

theorem exists_steady_of_avoidsBlank {e : Option (Regex × Bool)} (h : avoidsBlank e = true) :
    ∃ r, e = some (r, false) ∧ r.Steady := by
  obtain _ | ⟨r, skip⟩ := e
  · cases h
  rw [avoidsBlank, Option.any_some, Bool.and_eq_true, Bool.and_eq_true, Bool.not_eq_true'] at h
  obtain ⟨⟨hskip, hr⟩, hblank⟩ := h
  obtain rfl : skip = false := hskip
  exact ⟨r, rfl, Regex.steady_of_idles hr hblank⟩

theorem Json.spaced : vocabulary.Spaced where
  steady := by
    have hall : ∀ e ∈ expressions, e = some (stringRegex, false) ∨
        e = some (.repeat (.chars .blank) 1 none true, true) ∨ avoidsBlank e = true := by
      decide
    refine lists_expressions.steady fun e he => ?_
    rcases hall e he with rfl | rfl | h
    · exact .inr (.inr ⟨_, rfl, steady_stringRegex⟩)
    · exact .inr (.inl rfl)
    · exact .inr (.inr (exists_steady_of_avoidsBlank h))
  gap := ⟨11, lists_expressions.anchored? rfl, reserves_blank⟩

theorem Calc.spaced : vocabulary.Spaced where
  steady := by
    have hall : ∀ e ∈ expressions, e = none ∨
        e = some (.repeat (.chars .blank) 1 none true, true) ∨ avoidsBlank e = true := by
      decide
    refine lists_expressions.steady fun e he => ?_
    rcases hall e he with h | h | h
    · exact .inl h
    · exact .inr (.inl h)
    · exact .inr (.inr (exists_steady_of_avoidsBlank h))
  gap := ⟨9, lists_expressions.anchored? rfl, reserves_blank⟩

/-! ## The samples -/

/-- White space between the items of a text does not change what a sample makes of it, whether the
text is well formed or not. Other white space where the lexer drops some, or further white space at
boundaries, changes no value, no text of a lexical error and no error of the parse but for its
span. -/
theorem Sample.runRule_alike {text text' : String} (rule : String) :
    (Respaced (Json.vocabulary.segments text.toList) text'.toList →
      (Json.sample.runRule rule text).Alike (Json.sample.runRule rule text')) ∧
    (Respaced (Calc.vocabulary.segments text.toList) text'.toList →
      (Calc.sample.runRule rule text).Alike (Calc.sample.runRule rule text')) := by
  rw [← Json.language_vocabulary, ← Calc.language_vocabulary]
  refine ⟨fun h => ?_, fun h => ?_⟩
  · exact Sample.alike_of_respaced Json.meaning_ignores (Json.language_vocabulary ▸ Json.spaced) h rule
  · exact Sample.alike_of_respaced Calc.meaning_ignores (Calc.language_vocabulary ▸ Calc.spaced) h rule

/-- Texts with runs where no class matches, in which a string is not closed and brackets are left
open: white space is put in at boundaries, and the white space that was there is replaced. -/
theorem Sample.runRule_alike_malformed :
    let member := "\x7b\"a b\":1e \"c"
    let member' := "\t\x7b \"a b\":1 e\u2003\"c\n"
    let product := "2 *(3-x"
    let product' := "2\n\n* (3 -x"
    (Respaced (Json.vocabulary.segments member.toList) member'.toList ∧
      Respaced (Calc.vocabulary.segments product.toList) product'.toList) ∧
    (Json.sample.runRule "object" member).Alike (Json.sample.runRule "object" member') ∧
    (Calc.sample.runRule "expression" product).Alike (Calc.sample.runRule "expression" product') := by
  intro member member' product product'
  have hspace : Gap [' '] := by decide
  have htab : Gap ['\t'] := by decide
  have hem : Gap ['\u2003'] := by decide
  have hline : Gap ['\n'] := by decide
  have hlines : Gap ['\n', '\n'] := by decide
  have hmember : Respaced (Json.vocabulary.segments member.toList) member'.toList := by
    have hsegs : Json.vocabulary.segments member.toList = [
        .matched Json.leftCurly false ['\x7b'],
        .matched Json.stringLiteral false ['"', 'a', ' ', 'b', '"'],
        .matched Json.colon false [':'], .matched Json.numberLiteral false ['1'], .unmatched ['e'],
        .matched 11 true [' '], .unmatched ['"', 'c']] := by
      decide +kernel
    have htext : member'.toList = ['\t'] ++ (['\x7b'] ++ ([' '] ++ (['"', 'a', ' ', 'b', '"'] ++
        ([':'] ++ (['1'] ++ ([' '] ++ (['e'] ++ (['\u2003'] ++ (['"', 'c'] ++
          (['\n'] ++ [])))))))))) := by
      decide +kernel
    rw [hsegs, htext]
    exact .insert htab <| .keep rfl <| .insert hspace <| .keep rfl <| .keep rfl <| .keep rfl <|
      .insert hspace <| .keep rfl <| .replace rfl hem <| .keep rfl <| .insert hline .done
  have hproduct : Respaced (Calc.vocabulary.segments product.toList) product'.toList := by
    have hsegs : Calc.vocabulary.segments product.toList = [
        .matched Calc.numberLiteral false ['2'], .matched 9 true [' '],
        .matched Calc.times false ['*'], .matched Calc.leftParenthesis false ['('],
        .matched Calc.numberLiteral false ['3'], .matched Calc.minus false ['-'],
        .unmatched ['x']] := by
      decide +kernel
    have htext : product'.toList = ['2'] ++ (['\n', '\n'] ++ (['*'] ++ ([' '] ++ (['('] ++
        (['3'] ++ ([' '] ++ (['-'] ++ (['x'] ++ [])))))))) := by
      decide +kernel
    rw [hsegs, htext]
    exact .keep rfl <| .replace rfl hlines <| .keep rfl <| .insert hspace <| .keep rfl <|
      .keep rfl <| .insert hspace <| .keep rfl <| .keep rfl .done
  exact ⟨⟨hmember, hproduct⟩, (Sample.runRule_alike "object").1 hmember,
    (Sample.runRule_alike "expression").2 hproduct⟩

end TopDown
