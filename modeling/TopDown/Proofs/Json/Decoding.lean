import TopDown.Proofs.Json.Text
import Mathlib.Data.List.Induction

/-!
# What literals and members denote

The escapes of a string are decoded to the characters that the grammar gives them
(`Json.unescape_of_stringText`), and putting members into an object one after the other leaves one
of each name, the last in the place of the first (`Json.merge_eq`).
-/

namespace TopDown.Json

/-! ## Escapes -/

theorem HexDigit.value? {c : Char} {n : Nat} (h : HexDigit c n) : hexValue? c = some n := by
  obtain ⟨hn, h⟩ := h
  have hlower : ∀ n < 16, hexValue? (Nat.digitChar n) = some n := by decide
  have hupper : ∀ n < 16, hexValue? (Nat.digitChar n).toUpper = some n := by decide
  rcases h with rfl | rfl
  · exact hlower n hn
  · exact hupper n hn

theorem UnitText.lt {w : List Char} {n : Nat} (h : UnitText w n) : n < 0x10000 := by
  obtain ⟨a, b, c, d, i, j, k, l, -, ⟨hi, -⟩, ⟨hj, -⟩, ⟨hk, -⟩, ⟨hl, -⟩, rfl⟩ := h
  omega

theorem UnitText.unit? {w : List Char} {n : Nat} (h : UnitText w n) : unit? w = some n := by
  obtain ⟨a, b, c, d, i, j, k, l, rfl, ha, hb, hc, hd, rfl⟩ := h
  have hplus : a ≠ '+' := by
    rintro rfl
    cases ha.value?
  rw [Json.unit?]
  · simp [hexDigitsValue?, ha.value?, hb.value?, hc.value?, hd.value?]
  · rintro rest heq
    exact hplus (List.cons.inj heq).1

theorem UnitText.readUnit {w : List Char} {n : Nat} (h : UnitText w n) (rest : List Char) :
    readUnit (w ++ rest) = (some n, rest) := by
  have hlength : ¬(w ++ rest).length < 4 := by
    rw [List.length_append, h.length]
    omega
  rw [Json.readUnit, if_neg hlength, ← h.length, List.take_left, List.drop_left, h.unit?]

theorem scalar_eq {n : Nat} (h : n.isValidChar) : scalar n = Char.ofNat n := by
  rw [scalar, dif_pos h, Char.ofNat, dif_pos h]

theorem UnitText.readScalar {w : List Char} {n : Nat} (h : UnitText w n)
    (hn : n < 0xD800 ∨ 0xDFFF < n) (rest : List Char) :
    readScalar (w ++ rest) = (Char.ofNat n, rest) := by
  have hvalid : n.isValidChar := by
    have := h.lt
    rcases hn with hn | hn
    · exact .inl hn
    · exact .inr ⟨hn, by omega⟩
  have hhigh : ¬(0xD800 ≤ n ∧ n ≤ 0xDBFF) := by omega
  rw [Json.readScalar, h.readUnit]
  dsimp only
  rw [if_neg hhigh, scalar_eq hvalid]

theorem readScalar_pair {w w' : List Char} {high low : Nat} (h : UnitText w high)
    (hhigh : 0xD800 ≤ high ∧ high ≤ 0xDBFF) (h' : UnitText w' low)
    (hlow : 0xDC00 ≤ low ∧ low ≤ 0xDFFF) (rest : List Char) :
    readScalar (w ++ '\\' :: 'u' :: (w' ++ rest)) =
      (Char.ofNat (0x10000 + (high - 0xD800) * 0x400 + (low - 0xDC00)), rest) := by
  have hvalid : (0x10000 + (high - 0xD800) * 0x400 + (low - 0xDC00)).isValidChar :=
    .inr ⟨by omega, by omega⟩
  rw [Json.readScalar, h.readUnit]
  dsimp only
  rw [if_pos hhigh]
  simp only [h'.readUnit, if_pos hlow, scalar_eq hvalid]

theorem decode_plain {c : Char} (h : c ≠ '\\') (rest : List Char) :
    decode (c :: rest) = c :: decode rest := by
  rw [decode]
  · rintro rfl
    exact absurd rfl h
  · rintro rest rfl
    exact absurd rfl h
  · rintro x rest rfl
    exact absurd rfl h

theorem decode_short {x : Char} (h : x ≠ 'u') (rest : List Char) :
    decode ('\\' :: x :: rest) = escaped x :: decode rest := by
  rw [decode]
  rintro rfl
  exact absurd rfl h

theorem CharText.decode {w : List Char} {c : Char} (h : CharText w c) (rest : List Char) :
    decode (w ++ rest) = c :: decode rest := by
  cases h with
  | plain hc hquote hslash => exact decode_plain hslash rest
  | @short x c h =>
    have hletter : ∀ e ∈ shortEscapes, e.1 ≠ 'u' ∧ escaped e.1 = e.2 := by decide
    obtain ⟨hx, hc⟩ := hletter _ h
    exact (decode_short hx rest).trans (congrArg (· :: Json.decode rest) hc)
  | unit h hn =>
    rw [List.cons_append, List.cons_append, Json.decode, h.readScalar hn]
  | @pair w w' high low h hhigh h' hlow =>
    have happend : '\\' :: 'u' :: (w ++ '\\' :: 'u' :: w') ++ rest =
        '\\' :: 'u' :: (w ++ '\\' :: 'u' :: (w' ++ rest)) := by
      rw [List.cons_append, List.cons_append, List.append_assoc, List.cons_append, List.cons_append]
    rw [happend, Json.decode, readScalar_pair h hhigh h' hlow]

theorem CharsText.decode {w cs : List Char} (h : CharsText w cs) : decode w = cs := by
  induction h with
  | nil => rw [Json.decode]
  | cons h rest ih => rw [h.decode, ih]

theorem inner_quoted (body : List Char) : inner ('"' :: (body ++ ['"'])) = body := by
  rw [inner, List.getLast?_append, List.dropLast_concat]
  rfl

/-- The literal of a string stands for the string. -/
theorem unescape_of_stringText {w : List Char} {s : String} (h : StringText w s) :
    unescape (String.ofList w) = s := by
  obtain ⟨body, hbody, rfl⟩ := h
  rw [unescape, String.toList_ofList, inner_quoted, hbody.decode, String.ofList_toList]

/-! ## Members -/

/-- The value that a function gives to each key, under the keys in their order. -/
theorem putMember_map {f : String → Value} {key : String} {value : Value} {keys : List String}
    (hkeys : keys.Nodup) :
    putMember key value (keys.map fun k => (k, f k)) =
      (if key ∈ keys then keys else keys ++ [key]).map fun k =>
        (k, if k = key then value else f k) := by
  induction keys with
  | nil => simp [putMember]
  | cons k keys ih =>
    obtain ⟨hk, hkeys⟩ := List.nodup_cons.1 hkeys
    rw [List.map_cons, putMember]
    by_cases heq : k = key
    · subst heq
      rw [if_pos rfl, if_pos List.mem_cons_self, List.map_cons, if_pos rfl]
      refine congrArg (_ :: ·) (List.map_congr_left fun x hx => ?_)
      rw [if_neg (fun h : x = k => hk (h ▸ hx))]
    · rw [if_neg heq, ih hkeys]
      by_cases hmem : key ∈ keys
      · rw [if_pos hmem, if_pos (List.mem_cons_of_mem k hmem), List.map_cons, if_neg heq]
      · have hmem' : key ∉ k :: keys := fun h =>
          (List.mem_cons.1 h).elim (fun h => heq h.symm) hmem
        rw [if_neg hmem, if_neg hmem', List.cons_append, List.map_cons, if_neg heq]

theorem eraseDups_concat (keys : List String) (key : String) : (keys ++ [key]).eraseDups =
    if key ∈ keys.eraseDups then keys.eraseDups else keys.eraseDups ++ [key] := by
  rw [List.eraseDups_append]
  by_cases h : key ∈ keys
  · rw [if_pos (List.mem_eraseDups.2 h), List.removeAll, List.filter_cons_of_neg (by simpa using h)]
    exact List.append_nil _
  · rw [if_neg fun h' => h (List.mem_eraseDups.1 h'), List.removeAll,
      List.filter_cons_of_pos (by simpa using h)]
    rfl

theorem nodup_eraseDups (keys : List String) : keys.eraseDups.Nodup := by
  induction keys using List.reverseRecOn with
  | nil => exact List.nodup_nil
  | append_singleton keys key ih =>
    rw [eraseDups_concat]
    by_cases h : key ∈ keys.eraseDups
    · rw [if_pos h]
      exact ih
    · rw [if_neg h]
      exact List.nodup_append.2 ⟨ih, List.pairwise_singleton _ key, fun k hk k' hkey heq =>
        h (List.mem_singleton.1 hkey ▸ heq ▸ hk)⟩

theorem lastWins_concat (ms : List (String × Value)) (key : String) (value : Value) :
    lastWins (ms ++ [(key, value)]) = putMember key value (lastWins ms) := by
  rw [lastWins, lastWins, putMember_map (nodup_eraseDups _), List.map_append, List.map_singleton,
    eraseDups_concat, List.reverse_concat]
  refine List.map_congr_left fun k _ => congrArg (Prod.mk k) ?_
  rw [List.lookup_cons]
  by_cases h : k = key
  · rw [if_pos h, beq_iff_eq.2 h]
    rfl
  · rw [if_neg h, beq_eq_false_iff_ne.2 h]

/-- Putting members in one after the other keeps the last of each name. -/
theorem foldl_putMember (ms : List (String × Value)) :
    ms.foldl (fun members (key, value) => putMember key value members) [] = lastWins ms := by
  induction ms using List.reverseRecOn with
  | nil => rfl
  | append_singleton ms m ih =>
    obtain ⟨key, value⟩ := m
    rw [List.foldl_append, ih, lastWins_concat]
    rfl

theorem merge_eq (ms : List (String × Value)) :
    Value.merge (ms.map fun m => .object [m]) = .object (lastWins ms) := by
  have hmembers : (ms.map fun m => Value.object [m]).flatMap Value.members = ms := by
    rw [List.flatMap_map]
    exact List.flatMap_singleton' ms
  rw [Value.merge, hmembers, foldl_putMember]

end TopDown.Json
