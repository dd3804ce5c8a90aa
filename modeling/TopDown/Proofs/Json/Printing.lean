import TopDown.Proofs.Json.Acceptance
import TopDown.Proofs.Json.Numerals

/-!
# What is printed is read back

The text of a value is a JSON text that denotes the value (`Json.valueText_render`), so it is
accepted with this value (`Json.runRule_render`). Escaping, the pattern of strings and unescaping
have to agree for that on every character: `Json.charText_escapeChar`.

Two things are asked of a value besides its depth. Its objects have no two members with the same
name, as in a map, and its numbers are finite ones that are read back from their texts.
-/

namespace TopDown.Json

namespace Value

mutual

/-- How deep the rules are nested that read the value. -/
def depth : Value → Nat
  | .array items => 2 + depthItems items
  | .object members => 2 + depthMembers members
  | _ => 1

/-- The deepest of the items. -/
def depthItems : List Value → Nat
  | [] => 0
  | v :: rest => max v.depth (depthItems rest)

/-- The deepest of the members, each of which is a rule of its own. -/
def depthMembers : List (String × Value) → Nat
  | [] => 0
  | (_, v) :: rest => max (v.depth + 1) (depthMembers rest)

end

mutual

/-- The numbers in the value. -/
def numbers : Value → List Float
  | .number x => [x]
  | .array items => numbersItems items
  | .object members => numbersMembers members
  | _ => []

/-- The numbers in the items. -/
def numbersItems : List Value → List Float
  | [] => []
  | v :: rest => v.numbers ++ numbersItems rest

/-- The numbers in the members. -/
def numbersMembers : List (String × Value) → List Float
  | [] => []
  | (_, v) :: rest => v.numbers ++ numbersMembers rest

end

mutual

/-- No object in the value has two members with the same name. -/
def Distinct : Value → Prop
  | .array items => DistinctItems items
  | .object members => (members.map Prod.fst).Nodup ∧ DistinctMembers members
  | _ => True

/-- No object in the items has two members with the same name. -/
def DistinctItems : List Value → Prop
  | [] => True
  | v :: rest => v.Distinct ∧ DistinctItems rest

/-- No object in the members has two members with the same name. -/
def DistinctMembers : List (String × Value) → Prop
  | [] => True
  | (_, v) :: rest => v.Distinct ∧ DistinctMembers rest

end

end Value

/-! ## Strings -/

/-- Every character is escaped to what the grammar lets stand for it. -/
theorem charText_escapeChar (c : Char) : CharText (escapeChar c) c := by
  unfold escapeChar
  split
  · exact .short (by decide)
  · exact .short (by decide)
  · exact .short (by decide)
  · exact .short (by decide)
  · exact .short (by decide)
  · rename_i hquote hslash hfeed hreturn htab
    by_cases hcontrol : c.toNat < 0x20
    · -- the two digits that are computed come after two zeros
      have hdigits : ∀ n < 0x20,
          twoHexDigits n = [Nat.digitChar (n / 16), Nat.digitChar (n % 16)] := by decide
      rw [if_pos hcontrol, hdigits _ hcontrol]
      have hunit : UnitText ['0', '0', Nat.digitChar (c.toNat / 16), Nat.digitChar (c.toNat % 16)]
          c.toNat := by
        refine ⟨_, _, _, _, 0, 0, _, _, rfl, ⟨by decide, .inl rfl⟩, ⟨by decide, .inl rfl⟩,
          ⟨?_, .inl rfl⟩, ⟨?_, .inl rfl⟩, ?_⟩
        all_goals omega
      have hchar := CharText.unit hunit (.inl (by omega))
      rw [Char.ofNat_toNat] at hchar
      exact hchar
    · rw [if_neg hcontrol]
      exact .plain (Nat.le_of_not_lt hcontrol) hquote hslash

theorem charsText_escape (cs : List Char) : CharsText (cs.flatMap escapeChar) cs := by
  induction cs with
  | nil => exact .nil
  | cons c cs ih =>
    rw [List.flatMap_cons]
    exact .cons (charText_escapeChar c) ih

/-- The literal of a string is a text of the string. -/
theorem stringText_escape (s : String) : StringText (escape s).toList s := by
  have htext : (escape s).toList = '"' :: (s.toList.flatMap escapeChar ++ ['"']) := by
    simp only [escape, String.toList_append, String.toList_ofList]
    rfl
  rw [htext]
  exact ⟨_, charsText_escape s.toList, rfl⟩

/-! ## Members -/

theorem putMember_of_not_mem {key : String} {value : Value} {ms : List (String × Value)}
    (h : key ∉ ms.map Prod.fst) : putMember key value ms = ms ++ [(key, value)] := by
  induction ms with
  | nil => rfl
  | cons m ms ih =>
    rw [List.map_cons, List.mem_cons, not_or] at h
    rw [putMember, if_neg fun heq => h.1 heq.symm, ih h.2, List.cons_append]

/-- Members with different names are all kept. -/
theorem lastWins_of_nodup {ms : List (String × Value)} (h : (ms.map Prod.fst).Nodup) :
    lastWins ms = ms := by
  induction ms using List.reverseRecOn with
  | nil => rfl
  | append_singleton ms m ih =>
    obtain ⟨key, value⟩ := m
    rw [List.map_append, List.nodup_append] at h
    obtain ⟨hms, -, hkey⟩ := h
    have hnot : key ∉ ms.map Prod.fst :=
      fun hmem => hkey key hmem key (List.mem_singleton_self key) rfl
    rw [lastWins_concat, ih hms, putMember_of_not_mem hnot]

/-! ## Values -/

/-- The item of an array that a value is printed as. -/
def Value.printed (v : Value) : Item := ⟨v.render.toList, v, v.depth⟩

/-- The member of an object that a name and a value are printed as. -/
def printedMember (m : String × Value) : Member :=
  ⟨(escape m.1).toList, m.1, [':'], m.2.printed⟩

theorem stringText_printedMember (m : String × Value) :
    StringText (printedMember m).nameText (printedMember m).name := by
  simp only [printedMember]
  exact stringText_escape m.1

theorem joined_renderItems (items : List Value) :
    Joined (Mark ',') ((items.map Value.printed).map (·.text))
      (Value.renderItems items).toList := by
  induction items with
  | nil => exact .none
  | cons v items ih =>
    cases items with
    | nil => exact .one _
    | cons v' items =>
      rw [Value.renderItems, String.toList_append, String.toList_append]
      · exact .more (mark_self ',') ih
      · exact fun h => nomatch h

theorem joined_renderMembers (members : List (String × Value)) :
    Joined (Mark ',') ((members.map printedMember).map (·.text))
      (Value.renderMembers members).toList := by
  induction members with
  | nil => exact .none
  | cons m members ih =>
    obtain ⟨key, v⟩ := m
    have htext : (escape key ++ ":" ++ v.render).toList = (printedMember (key, v)).text := by
      simp only [String.toList_append, List.append_assoc, Member.text, printedMember, Value.printed]
      rfl
    cases members with
    | nil =>
      rw [Value.renderMembers, htext]
      exact .one _
    | cons m' members =>
      rw [Value.renderMembers, String.toList_append, String.toList_append, htext]
      · exact .more (mark_self ',') ih
      · exact fun h => nomatch h

theorem deepest_printed (items : List Value) :
    deepest ((items.map Value.printed).map (·.depth)) = Value.depthItems items := by
  induction items with
  | nil => rfl
  | cons v items ih => exact congrArg (max v.depth) ih

theorem deepest_printedMember (members : List (String × Value)) :
    deepest ((members.map printedMember).map (·.item.depth + 1)) = Value.depthMembers members := by
  induction members with
  | nil => rfl
  | cons m members ih => exact congrArg (max (m.2.depth + 1)) ih

/-- The number is finite and is read back from its text. -/
def Restored (x : Float) : Prop := x.isFinite = true ∧ Decimal.parse? (Decimal.render x) = some x

theorem valueText_number {x : Float} (h : Restored x) :
    ValueText (Decimal.render x).toList (.number x) 1 := by
  have hnumber := numberText_render h.1
  have hvalue : hnumber.value = x := by
    have hparse := hnumber.parse?
    rw [String.ofList_toList, h.2] at hparse
    exact (Option.some.inj hparse).symm
  have htext := ValueText.number hnumber
  rwa [hvalue] at htext

theorem valueText_array {items : List Value}
    (h : ∀ v ∈ items, ValueText v.render.toList v v.depth) :
    ValueText (Value.array items).render.toList (.array items) (Value.array items).depth := by
  have hitems : ∀ i ∈ items.map Value.printed, ValueText i.text i.value i.depth :=
    List.forall_mem_map.2 h
  have htext := ValueText.array (mark_self '[') (mark_self ']') hitems (joined_renderItems items)
  have hvalues : (items.map Value.printed).map (·.value) = items := by
    rw [List.map_map]
    exact List.map_id items
  rw [hvalues, deepest_printed] at htext
  rw [Value.render, Value.depth, String.toList_append, String.toList_append]
  exact htext

theorem valueText_object {members : List (String × Value)} (hd : (members.map Prod.fst).Nodup)
    (h : ∀ m ∈ members, ValueText m.2.render.toList m.2 m.2.depth) :
    ValueText (Value.object members).render.toList (.object members)
      (Value.object members).depth := by
  have hnames : ∀ m ∈ members.map printedMember, StringText m.nameText m.name :=
    List.forall_mem_map.2 fun m _ => stringText_printedMember m
  have hcolons : ∀ m ∈ members.map printedMember, Mark ':' m.colon :=
    List.forall_mem_map.2 fun _ _ => mark_self ':'
  have hitems : ∀ m ∈ members.map printedMember,
      ValueText m.item.text m.item.value m.item.depth := List.forall_mem_map.2 h
  have htext := ValueText.object (mark_self '\x7b') (mark_self '\x7d') hnames hcolons hitems
    (joined_renderMembers members)
  have hmembers : (members.map printedMember).map (fun m => (m.name, m.item.value)) = members := by
    rw [List.map_map]
    exact List.map_id members
  rw [hmembers, lastWins_of_nodup hd, deepest_printedMember] at htext
  rw [Value.render, Value.depth, String.toList_append, String.toList_append]
  exact htext

mutual

/-- The text of a value denotes the value. -/
theorem valueText_render (v : Value) (hd : v.Distinct) (hn : ∀ x ∈ v.numbers, Restored x) :
    ValueText v.render.toList v v.depth := by
  cases v with
  | null => exact .null
  | bool b =>
    cases b with
    | true => exact .true
    | false => exact .false
  | number x => exact valueText_number (hn x (List.mem_singleton_self x))
  | string s => exact .string (stringText_escape s)
  | array items => exact valueText_array (valueText_items items hd hn)
  | object members => exact valueText_object hd.1 (valueText_members members hd.2 hn)

theorem valueText_items (items : List Value) (hd : Value.DistinctItems items)
    (hn : ∀ x ∈ Value.numbersItems items, Restored x) :
    ∀ v ∈ items, ValueText v.render.toList v v.depth := by
  cases items with
  | nil => exact fun _ h => nomatch h
  | cons v items =>
    refine List.forall_mem_cons.2 ⟨?_, ?_⟩
    · exact valueText_render v hd.1 fun x hx => hn x (List.mem_append_left _ hx)
    · exact valueText_items items hd.2 fun x hx => hn x (List.mem_append_right _ hx)

theorem valueText_members (members : List (String × Value)) (hd : Value.DistinctMembers members)
    (hn : ∀ x ∈ Value.numbersMembers members, Restored x) :
    ∀ m ∈ members, ValueText m.2.render.toList m.2 m.2.depth := by
  cases members with
  | nil => exact fun _ h => nomatch h
  | cons m members =>
    obtain ⟨key, v⟩ := m
    refine List.forall_mem_cons.2 ⟨?_, ?_⟩
    · exact valueText_render v hd.1 fun x hx => hn x (List.mem_append_left _ hx)
    · exact valueText_members members hd.2 fun x hx => hn x (List.mem_append_right _ hx)

end

/-- Every value whose rules are not nested deeper than the limit is read back from its text, with
its members in their order. -/
theorem runRule_render {v : Value} (hd : v.Distinct) (hfinite : ∀ x ∈ v.numbers, x.isFinite = true)
    (hparse : ∀ x ∈ v.numbers, Decimal.parse? (Decimal.render x) = some x)
    (hdepth : v.depth ≤ 128) : (sample.runRule "value" v.render).lexErrors = [] ∧
      (sample.runRule "value" v.render).output = ⟨some v, [], none⟩ := by
  have htext := valueText_render v hd fun x hx => ⟨hfinite x hx, hparse x hx⟩
  exact (htext.reads 0).runRule build_draft plain_draft isLL1 meaning_ignores apart_nil hdepth

/-- A name with a quote, a backslash, a line feed, a control character and a letter beyond ASCII,
and a negative zero. -/
theorem runRule_render_nested :
    let v := Value.object [("\"\\\n\x01é", .array [.number (-0.0), .number 0.1]), ("k", .object [])]
    v.render = "\x7b\"\\\"\\\\\\n\\u0001é\":[-0,0.1],\"k\":\x7b\x7d\x7d" ∧
    (v.Distinct ∧ (∀ x ∈ v.numbers, x.isFinite = true) ∧
      (∀ x ∈ v.numbers, Decimal.parse? (Decimal.render x) = some x) ∧ v.depth ≤ 128) ∧
    (sample.runRule "value" v.render).lexErrors = [] ∧
      (sample.runRule "value" v.render).output = ⟨some v, [], none⟩ := by
  intro v
  have hd : v.Distinct := by
    simp [v, Value.Distinct, Value.DistinctItems, Value.DistinctMembers]
  have hfinite : ∀ x ∈ v.numbers, x.isFinite = true := by decide +kernel
  have hparse : ∀ x ∈ v.numbers, Decimal.parse? (Decimal.render x) = some x := by decide +kernel
  have hdepth : v.depth ≤ 128 := by decide
  exact ⟨by decide +kernel, ⟨hd, hfinite, hparse, hdepth⟩, runRule_render hd hfinite hparse hdepth⟩

end TopDown.Json
