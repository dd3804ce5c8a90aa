import TopDown.Proofs.Json.Decoding
import TopDown.Proofs.Json.Lexing
import TopDown.Proofs.Reading

/-!
# Every JSON text is accepted with its value

The parts of a JSON text are read as what the rules of the language derive, by induction on the text
of the value (`Json.ValueText.reads`). So a whole text comes to the value that it denotes, without
an error, unless its rules are nested too deep (`Json.runRule_of_document`).
-/

namespace TopDown.Json

/-! ## The rules of the language -/

theorem language_vocabulary : sample.language.vocabulary = vocabulary :=
  congrArg Draft.vocabulary (Language.outlined_of_build build_draft plain_draft).1

theorem rule?_eq (name : String) : sample.language.grammar.rule? name =
    (rules.find? (·.name == name)).map RuleDef.outline :=
  Language.rule?_of_build build_draft plain_draft name

/-- The alternatives of the rule for values. -/
def alternatives : List (List Production) := [
  [.terminal stringLiteral 1], [.terminal numberLiteral 1], [.nonTerminal "object" 1],
  [.nonTerminal "array" 1], [.terminal trueToken 1], [.terminal falseToken 1],
  [.terminal nullToken 1]]

/-- The productions for further items. -/
def furtherItems (rule : String) : List Production :=
  [.many 1 [.terminal comma 1, .nonTerminal rule 2]]

/-- The productions for items between two marks. -/
def commaItems (before after : TokenId) (rule : String) : List Production :=
  [.terminal before 1, .option 1 (.nonTerminal rule 1 :: furtherItems rule), .terminal after 1]

theorem rule?_value :
    sample.language.grammar.rule? "value" = some ⟨"value", [.choice 1 alternatives]⟩ :=
  rule?_eq "value"

theorem rule?_array :
    sample.language.grammar.rule? "array" =
      some ⟨"array", commaItems leftSquare rightSquare "value"⟩ :=
  rule?_eq "array"

theorem rule?_object :
    sample.language.grammar.rule? "object" =
      some ⟨"object", commaItems leftCurly rightCurly "objectItem"⟩ :=
  rule?_eq "object"

theorem rule?_objectItem : sample.language.grammar.rule? "objectItem" = some ⟨"objectItem",
    [.terminal stringLiteral 1, .terminal colon 1, .nonTerminal "value" 1]⟩ :=
  rule?_eq "objectItem"

/-- One token, as the rules ask for it. -/
theorem reads_token {after : List Char → Prop} {id : TokenId} {idx : Nat} {w : List Char}
    {p : Regex × Bool} (hid : expressions[id]? = some (some p))
    (h : vocabulary.Cuts after w [.spelled id w]) :
    sample.Reads after [.terminal id idx] w 0 [.token (.spelled id w)] := by
  obtain ⟨c, hclass, -⟩ := Vocabulary.class?_of_anchored? (lists_expressions.anchored? hid)
  have hself := Vocabulary.isA_self hclass
  rw [← language_vocabulary] at hself h
  exact .terminal hself h

theorem Leaf.tokens_veil (v : Veil) (leaves : List (Leaf Value)) :
    Leaf.tokens (leaves.map (·.veil v)) = (Leaf.tokens leaves).map v.token := by
  induction leaves with
  | nil => rfl
  | cons leaf leaves ih =>
    cases leaf with
    | token t => exact congrArg (v.token t :: ·) ih
    | value a => exact ih

/-- Where the tokens are does not matter. -/
theorem meaning_ignores : sample.meaning.Ignores Veil.offsets := by
  intro name leaves
  change ruleValue name (leaves.map (·.veil Veil.offsets)) = ruleValue name leaves
  have hvalues := Leaf.values_veil Veil.offsets leaves
  unfold ruleValue
  split
  · rw [hvalues]
  · have htext : (Leaf.tokens (leaves.map (·.veil Veil.offsets))).head?.elim "" (·.text) =
        (Leaf.tokens leaves).head?.elim "" (·.text) := by
      rw [Leaf.tokens_veil]
      cases Leaf.tokens leaves <;> rfl
    dsimp only
    rw [hvalues, htext]
  · rw [hvalues]
  · cases leaves with
    | nil => rfl
    | cons leaf leaves => cases leaf <;> rfl

/-! ## Marks -/

theorem Blank.apart {w rest : List Char} (h : Blank w) (hrest : Apart rest) :
    Apart (w ++ rest) := by
  cases w with
  | nil => exact hrest
  | cons c w =>
    rintro _ ⟨⟩
    have hclosing : [' ', '\t', '\n', '\r'].all (· ∈ closing) = true := by decide
    exact of_decide_eq_true (List.all_eq_true.1 hclosing c (h c List.mem_cons_self))

theorem Blank.dropped {after : List Char → Prop} {w : List Char} (h : Blank w) :
    sample.language.vocabulary.Cuts after w [] := by
  rw [language_vocabulary]
  exact h.cuts

theorem mark_self (c : Char) : Mark c [c] := ⟨[], [], by decide, by decide, rfl⟩

theorem Mark.apart {c : Char} {w : List Char} (h : Mark c w) (hc : c ∈ closing) (rest : List Char) :
    Apart (w ++ rest) := by
  obtain ⟨a, b, ha, hb, rfl⟩ := h
  rw [List.append_assoc]
  refine ha.apart ?_
  rintro _ ⟨⟩
  exact hc

theorem Mark.reads {after : List Char → Prop} {c : Char} {w : List Char} {id : TokenId} {idx : Nat}
    (h : Mark c w) (hid : expressions[id]? = some (some (word [c], false))) (hlead : (id, [c]) ∈ leading) :
    sample.Reads after [.terminal id idx] w 0 [.token (.spelled id [c])] := by
  obtain ⟨a, b, ha, hb, rfl⟩ := h
  have hchar : sample.Reads (fun _ => True) [.terminal id idx] [c] 0 [.token (.spelled id [c])] :=
    reads_token hid (cuts_word hid hlead)
  exact (hchar.dropped_after hb.dropped fun _ _ => trivial).dropped_before ha.dropped

/-! ## Lists with commas -/

section CommaList

variable {rule : String}

/-- What is needed of an item to be read. -/
def Item.Reads (rule : String) (i : Item) : Prop :=
  ∀ idx, sample.Reads Apart [.nonTerminal rule idx] i.text i.depth [.value i.value]

theorem reads_furtherItems {items : List Item} {i : Item} {w : List Char}
    (hi : ∀ j ∈ i :: items, j.Reads rule)
    (hj : Joined (Mark ',') ((i :: items).map (·.text)) w) :
    ∃ t leaves, w = i.text ++ t ∧ (∀ rest, Apart rest → Apart (t ++ rest)) ∧
      Leaf.values leaves = items.map (·.value) ∧
      sample.Reads Apart (furtherItems rule) t (deepest (items.map (·.depth))) leaves := by
  induction items generalizing i w with
  | nil =>
    cases hj
    exact ⟨[], [], (List.append_nil _).symm, fun _ hrest => hrest, rfl, .stopped _ _⟩
  | cons j items ih =>
    cases hj with
    -- what comes after the item begins with the comma, so no number goes on with it
    | @more _ s _ _ text hs hj =>
      obtain ⟨t, leaves, rfl, ht, hvalues, hreads⟩ :=
        ih (fun k hk => hi k (List.mem_cons_of_mem i hk)) hj
      have hcomma : sample.Reads (fun _ => True) [.terminal comma 1] s 0
          [.token (.spelled comma [','])] := hs.reads rfl (by decide)
      have hitem := hi j (List.mem_cons_of_mem i List.mem_cons_self) 2
      have hround := (hcomma.append hitem fun _ _ => trivial).round hreads ht
      rw [Nat.zero_max] at hround
      refine ⟨s ++ j.text ++ t, _, ?_, fun rest _ => ?_, ?_, hround⟩
      · rw [List.append_assoc, List.append_assoc]
      · rw [List.append_assoc, List.append_assoc]
        exact hs.apart (by decide) _
      · exact congrArg (j.value :: ·) hvalues

/-- Items between two marks, with commas between them. -/
theorem reads_commaList {items : List Item} {before after : TokenId} {first w last : List Char}
    {t u : Token} (hi : ∀ i ∈ items, i.Reads rule)
    (hj : Joined (Mark ',') (items.map (·.text)) w)
    (hfirst : sample.Reads (fun _ => True) [.terminal before 1] first 0 [.token t])
    (hlast : sample.Reads Apart [.terminal after 1] last 0 [.token u])
    (happart : ∀ rest, Apart (last ++ rest)) :
    ∃ leaves, Leaf.values leaves = items.map (·.value) ∧
      sample.Reads Apart (commaItems before after rule) (first ++ w ++ last)
        (deepest (items.map (·.depth))) leaves := by
  have hinner : ∃ leaves, Leaf.values leaves = items.map (·.value) ∧
      sample.Reads Apart [.option 1 (.nonTerminal rule 1 :: furtherItems rule)] w
        (deepest (items.map (·.depth))) leaves := by
    cases items with
    | nil =>
      cases hj
      exact ⟨[], rfl, .leftOut _ _⟩
    | cons i items =>
      obtain ⟨t, leaves, rfl, ht, hvalues, hreads⟩ := reads_furtherItems hi hj
      have hitem := hi i List.mem_cons_self 1
      refine ⟨_, ?_, (hitem.append hreads ht).taken⟩
      exact congrArg (i.value :: ·) hvalues
  obtain ⟨leaves, hvalues, hreads⟩ := hinner
  have hall := (hfirst.append hreads fun _ _ => trivial).append hlast fun rest _ => happart rest
  rw [Nat.zero_max, Nat.max_zero] at hall
  refine ⟨_, ?_, hall⟩
  rw [Leaf.values_append, Leaf.values_append, hvalues]
  exact List.append_nil _

end CommaList

/-! ## Values -/

section Values

variable {w : List Char} {v : Value} {d : Nat}

/-- An alternative of the rule for values. -/
theorem reads_value {i : Nat} {leaf : Leaf Value} {p : Production}
    (hi : alternatives[i]? = some [p])
    (hv : ruleValue "value" [leaf] = v) (h : sample.Reads Apart [p] w d [leaf]) (idx : Nat) :
    sample.Reads Apart [.nonTerminal "value" idx] w (d + 1) [.value v] := by
  subst hv
  exact .nonTerminal rule?_value (.chosen hi h)

/-- A value that is one token. -/
theorem reads_scalar {i : Nat} {id : TokenId} {p : Regex × Bool}
    (hi : alternatives[i]? = some [.terminal id 1])
    (hid : expressions[id]? = some (some p)) (hv : tokenValue (.spelled id w) = v)
    (h : vocabulary.Cuts Apart w [.spelled id w]) (idx : Nat) :
    sample.Reads Apart [.nonTerminal "value" idx] w 1 [.value v] := by
  have hvalue : ruleValue "value" [.token (.spelled id w)] = v := hv
  exact reads_value hi hvalue (reads_token hid h) idx

theorem StringText.tokenValue {s : String} (h : StringText w s) :
    tokenValue (.spelled stringLiteral w) = .string s :=
  congrArg Value.string (unescape_of_stringText h)

theorem NumberText.tokenValue (h : NumberText w) :
    tokenValue (.spelled numberLiteral w) = .number h.value := by
  have hvalue : (Decimal.parse? (String.ofList w)).getD 0.0 = h.value := by
    rw [h.parse?]
    rfl
  exact congrArg Value.number hvalue

theorem reads_array {items : List Item} {first last : List Char} (hf : Mark '[' first)
    (hl : Mark ']' last) (hi : ∀ i ∈ items, i.Reads "value")
    (hj : Joined (Mark ',') (items.map (·.text)) w) (idx : Nat) :
    sample.Reads Apart [.nonTerminal "value" idx] (first ++ w ++ last)
      (2 + deepest (items.map (·.depth))) [.value (.array (items.map (·.value)))] := by
  have hopen : sample.Reads (fun _ => True) [.terminal leftSquare 1] first 0
      [.token (.spelled leftSquare ['['])] := hf.reads rfl (by decide)
  have hclose : sample.Reads Apart [.terminal rightSquare 1] last 0
      [.token (.spelled rightSquare [']'])] := hl.reads rfl (by decide)
  obtain ⟨leaves, hvalues, hreads⟩ :=
    reads_commaList hi hj hopen hclose fun rest => hl.apart (by decide) rest
  have harray : sample.Reads Apart [.nonTerminal "array" 1] (first ++ w ++ last)
      (deepest (items.map (·.depth)) + 1) [.value (.array (Leaf.values leaves))] :=
    .nonTerminal rule?_array hreads
  rw [hvalues] at harray
  have hvalue := reads_value (i := 3) rfl rfl harray idx
  rw [Nat.add_comm 2]
  exact hvalue

/-- The item that a member of an object is read as. -/
def Member.read (m : Member) : Item := ⟨m.text, .object [(m.name, m.item.value)], m.item.depth + 1⟩

theorem Member.reads {m : Member} (hn : StringText m.nameText m.name) (hc : Mark ':' m.colon)
    (hi : m.item.Reads "value") : m.read.Reads "objectItem" := by
  intro idx
  have hname : sample.Reads (fun _ => True) [.terminal stringLiteral 1] m.nameText 0
      [.token (.spelled stringLiteral m.nameText)] := reads_token rfl hn.cuts
  have hcolon : sample.Reads (fun _ => True) [.terminal Json.colon 1] m.colon 0
      [.token (.spelled Json.colon [':'])] := hc.reads rfl (by decide)
  have hbody := hname.append (hcolon.append (hi 1) fun _ _ => trivial) fun _ _ => trivial
  rw [Nat.zero_max, Nat.zero_max] at hbody
  have hvalue : ruleValue "objectItem" [.token (.spelled stringLiteral m.nameText),
      .token (.spelled Json.colon [':']), .value m.item.value] =
      .object [(unescape (String.ofList m.nameText), m.item.value)] := rfl
  rw [unescape_of_stringText hn] at hvalue
  rw [read, ← hvalue]
  exact .nonTerminal rule?_objectItem hbody

theorem reads_object {members : List Member} {first last : List Char} (hf : Mark '\x7b' first)
    (hl : Mark '\x7d' last) (hm : ∀ m ∈ members, m.read.Reads "objectItem")
    (hj : Joined (Mark ',') (members.map (·.text)) w) (idx : Nat) :
    sample.Reads Apart [.nonTerminal "value" idx] (first ++ w ++ last)
      (2 + deepest (members.map (·.item.depth + 1)))
      [.value (.object (lastWins (members.map fun m => (m.name, m.item.value))))] := by
  have hopen : sample.Reads (fun _ => True) [.terminal leftCurly 1] first 0
      [.token (.spelled leftCurly ['\x7b'])] := hf.reads rfl (by decide)
  have hclose : sample.Reads Apart [.terminal rightCurly 1] last 0
      [.token (.spelled rightCurly ['\x7d'])] := hl.reads rfl (by decide)
  have hitems : ∀ i ∈ members.map Member.read, i.Reads "objectItem" := by
    simpa only [List.forall_mem_map] using hm
  have hjoined : Joined (Mark ',') ((members.map Member.read).map (·.text)) w := by
    rw [List.map_map]
    exact hj
  obtain ⟨leaves, hvalues, hreads⟩ :=
    reads_commaList hitems hjoined hopen hclose fun rest => hl.apart (by decide) rest
  have hobject : sample.Reads Apart [.nonTerminal "object" 1] (first ++ w ++ last)
      (deepest ((members.map Member.read).map (·.depth)) + 1)
      [.value (.merge (Leaf.values leaves))] :=
    .nonTerminal rule?_object hreads
  have hmerge := merge_eq (members.map fun m => (m.name, m.item.value))
  rw [List.map_map] at hvalues hobject hmerge
  have hsame : Leaf.values leaves =
      members.map ((fun m => .object [m]) ∘ fun m => (m.name, m.item.value)) := hvalues
  rw [hsame, hmerge] at hobject
  have hvalue := reads_value (i := 2) rfl rfl hobject idx
  rw [Nat.add_comm 2]
  exact hvalue

/-- The text of a value is read as the value, whatever may come after it. -/
theorem ValueText.reads (h : ValueText w v d) (idx : Nat) :
    sample.Reads Apart [.nonTerminal "value" idx] w d [.value v] := by
  induction h generalizing idx with
  | null => exact reads_scalar (i := 6) rfl rfl rfl (cuts_word rfl (by decide)) idx
  | true => exact reads_scalar (i := 4) rfl rfl rfl (cuts_word rfl (by decide)) idx
  | false => exact reads_scalar (i := 5) rfl rfl rfl (cuts_word rfl (by decide)) idx
  | number h => exact reads_scalar (i := 1) rfl rfl h.tokenValue h.cuts idx
  | string h => exact reads_scalar (i := 0) rfl rfl h.tokenValue h.cuts idx
  | array hf hl hi hj ih => exact reads_array hf hl ih hj idx
  | object hf hl hn hc hi hj ih =>
    exact reads_object hf hl (fun m hm => Member.reads (hn m hm) (hc m hm) (ih m hm)) hj idx

end Values

/-! ## Whole texts -/

/-- Every JSON text whose rules are not nested deeper than the limit is lexed and parsed without an
error, and its value is what the text denotes. -/
theorem runRule_of_document {text : String} {v : Value} {d : Nat} (h : Document text v d)
    (hd : d ≤ 128) : (sample.runRule "value" text).lexErrors = [] ∧
      (sample.runRule "value" text).output = ⟨some v, [], none⟩ := by
  obtain ⟨a, w, b, ha, hw, hb, htext⟩ := h
  have hreads : sample.Reads Apart [.nonTerminal "value" 0] text.toList d [.value v] := by
    rw [htext]
    exact ((hw.reads 0).dropped_after hb.dropped fun rest hrest => hb.apart hrest).dropped_before
      ha.dropped
  exact hreads.runRule build_draft plain_draft isLL1 meaning_ignores apart_nil hd

/-- White space, an exponent, a name written in two ways and the escapes of a surrogate pair. The
second value of the name is the one that counts. -/
theorem runRule_of_document_nested :
    let text := " [ -2.5e1 , \x7b\"k\":true,\"\\u006B\" : \"\\uD83D\\ude00\\n\"\x7d ]\n"
    let v := Value.array [.number (-25.0), .object [("k", .string "😀\n")]]
    (Document text v 6 ∧ 6 ≤ 128) ∧ (sample.runRule "value" text).lexErrors = [] ∧
      (sample.runRule "value" text).output = ⟨some v, [], none⟩ := by
  intro text v
  have hnumber : NumberText "-2.5e1".toList :=
    .intro (.inr rfl) (.other (c := '2') (w := []) rfl (by decide) (List.forall_mem_nil _))
      (.present (w := ['5']) (by decide)) (.present (w := ['1']) (.inl rfl) (.inl rfl) (by decide))
  have hvalue : hnumber.value = -25.0 := by
    have hparse : Decimal.parse? (String.ofList "-2.5e1".toList) = some (-25.0) := by
      decide +kernel
    exact Option.some.inj (hnumber.parse?.symm.trans hparse)
  have hplain : StringText "\"k\"".toList "k" :=
    ⟨['k'], .cons (.plain (by decide) (by decide) (by decide)) .nil, rfl⟩
  have hunit : StringText "\"\\u006B\"".toList "k" := by
    have hk : UnitText "006B".toList 0x6B := ⟨_, _, _, _, 0, 0, 6, 11, rfl, by decide⟩
    exact ⟨"\\u006B".toList, .cons (.unit hk (by decide)) .nil, by decide⟩
  have hpair : StringText "\"\\uD83D\\ude00\\n\"".toList "😀\n" := by
    have hhigh : UnitText "D83D".toList 0xD83D := ⟨_, _, _, _, 13, 8, 3, 13, rfl, by decide⟩
    have hlow : UnitText "de00".toList 0xDE00 := ⟨_, _, _, _, 13, 14, 0, 0, rfl, by decide⟩
    refine ⟨"\\uD83D\\ude00\\n".toList, ?_, by decide⟩
    exact .cons (.pair hhigh (by decide) hlow (by decide)) (.cons (.short (by decide)) .nil)
  have hobject : ValueText "\x7b\"k\":true,\"\\u006B\" : \"\\uD83D\\ude00\\n\"\x7d ".toList
      (.object [("k", .string "😀\n")]) 4 := by
    let members : List Member := [
      ⟨"\"k\"".toList, "k", [':'], ⟨"true".toList, .bool true, 1⟩⟩,
      ⟨"\"\\u006B\"".toList, "k", [' ', ':', ' '],
        ⟨"\"\\uD83D\\ude00\\n\"".toList, .string "😀\n", 1⟩⟩]
    have hnames : ∀ m ∈ members, StringText m.nameText m.name :=
      List.forall_mem_cons.2 ⟨hplain, List.forall_mem_singleton.2 hunit⟩
    have hcolon : Mark ':' [' ', ':', ' '] := ⟨[' '], [' '], by decide, by decide, rfl⟩
    have hcolons : ∀ m ∈ members, Mark ':' m.colon :=
      List.forall_mem_cons.2 ⟨mark_self ':', List.forall_mem_singleton.2 hcolon⟩
    have hvalues : ∀ m ∈ members, ValueText m.item.text m.item.value m.item.depth :=
      List.forall_mem_cons.2 ⟨.true, List.forall_mem_singleton.2 (.string hpair)⟩
    have hlast : Mark '\x7d' ['\x7d', ' '] := ⟨[], [' '], by decide, by decide, rfl⟩
    exact .object (mark_self '\x7b') hlast hnames hcolons hvalues (.more (mark_self ',') (.one _))
  have harray : ValueText "[ -2.5e1 , \x7b\"k\":true,\"\\u006B\" : \"\\uD83D\\ude00\\n\"\x7d ]".toList
      v 6 := by
    let items : List Item := [⟨"-2.5e1".toList, .number (-25.0), 1⟩,
      ⟨"\x7b\"k\":true,\"\\u006B\" : \"\\uD83D\\ude00\\n\"\x7d ".toList,
        .object [("k", .string "😀\n")], 4⟩]
    have hvalues : ∀ i ∈ items, ValueText i.text i.value i.depth :=
      List.forall_mem_cons.2 ⟨hvalue ▸ .number hnumber, List.forall_mem_singleton.2 hobject⟩
    have hfirst : Mark '[' ['[', ' '] := ⟨[], [' '], by decide, by decide, rfl⟩
    have hcomma : Mark ',' [' ', ',', ' '] := ⟨[' '], [' '], by decide, by decide, rfl⟩
    exact .array hfirst (mark_self ']') hvalues (.more hcomma (.one _))
  have hdocument : Document text v 6 :=
    ⟨[' '], _, ['\n'], by decide, harray, by decide, by decide⟩
  exact ⟨⟨hdocument, by decide⟩, runRule_of_document hdocument (by decide)⟩

end TopDown.Json
