import TopDown.Proofs.Calc.Text
import TopDown.Proofs.Json.Lexing
import TopDown.Proofs.Reading

/-!
# Arithmetic texts evaluate as they are meant

The parts of an arithmetic text are read as what the rules of the calculator derive, by induction on
how the text is written (`Calc.Written.readsAt`). An operation on the left of another is read last,
as one more round of the repetition that its left operand is read as, so operators group to the left
(`Calc.Chained.another`). Every level of parentheses takes five rules, and four more stand around the
whole.
-/

namespace TopDown.Calc

/-! ## The lexer -/

/-- What the classes match and whether they are dropped, in the order of the vocabulary. -/
def expressions : List (Option (Regex × Bool)) := [
  none,
  some (Json.word ['+'], false),
  some (Json.word ['-'], false),
  none,
  some (Json.word ['*'], false),
  some (Json.word ['/'], false),
  some (Json.word ['('], false),
  some (Json.word [')'], false),
  some (Json.wholeRegex, false),
  some (.repeat (.chars .blank) 1 none true, true)]

theorem lists_expressions : vocabulary.Lists expressions := by
  decide +kernel

example : expressions[numberLiteral]? = some (some (Json.wholeRegex, false)) := by decide +kernel

/-- The characters that each class but white space can begin with. -/
def leading : List (TokenId × List Char) := [
  (plus, ['+']), (minus, ['-']), (times, ['*']), (divide, ['/']), (leftParenthesis, ['(']),
  (rightParenthesis, [')']), (numberLiteral, "0123456789".toList)]

theorem reserves_of_leading {id : TokenId} {cs : List Char} {c : Char} (h : (id, cs) ∈ leading)
    (hc : c ∈ cs) : vocabulary.reserves id (some c) = true :=
  lists_expressions.reserves_of_mem (by decide) h hc

/-- What the rules ask for, after the class of a token that is accepted there. -/
def accepted : List (TokenId × TokenId) := [
  (plus, additionOperator), (minus, additionOperator), (times, multiplicationOperator),
  (divide, multiplicationOperator), (leftParenthesis, leftParenthesis),
  (rightParenthesis, rightParenthesis), (numberLiteral, numberLiteral)]

theorem isA_of_accepted {id token : TokenId} (h : (id, token) ∈ accepted) :
    vocabulary.isA id token = true := by
  have hall : ∀ p ∈ accepted, vocabulary.isA p.1 p.2 = true := by decide +kernel
  exact hall _ h

theorem reserves_blank : CharSet.blank.every (fun x => vocabulary.reserves 9 (some x)) = true := by
  simp only [lists_expressions.reserves]
  decide

/-- No number goes on with the text. -/
def Apart (rest : List Char) : Prop := (Regex.chars .digit).shuns rest.head? = true

theorem apart_nil : Apart [] := rfl

section Cuts

variable {after : List Char → Prop} {w rest : List Char}

theorem Spaces.apart (h : Spaces w) (hrest : Apart rest) : Apart (w ++ rest) := by
  cases w with
  | nil => exact hrest
  | cons c w =>
    have hall : CharSet.blank.every (fun x => (Regex.chars .digit).shuns (some x)) = true := by
      decide
    exact CharSet.of_every hall (h c List.mem_cons_self)

theorem Spaces.cuts (h : Spaces w) : vocabulary.Cuts after w [] :=
  Vocabulary.cuts_dropped (lists_expressions.anchored? rfl) reserves_blank h

/-- A class that is one character. -/
theorem cuts_sign {id : TokenId} {c : Char}
    (hid : expressions[id]? = some (some (Json.word [c], false)))
    (hlead : (id, [c]) ∈ leading) : vocabulary.Cuts after [c] [.spelled id [c]] :=
  Vocabulary.cuts_token (lists_expressions.anchored? hid) (List.cons_ne_nil c [])
    (reserves_of_leading hlead List.mem_cons_self) fun rest _ => Json.takes_word [c] rest

theorem cuts_number (h : Json.WholeText w) :
    vocabulary.Cuts Apart w [.spelled numberLiteral w] := by
  have hbefore : vocabulary.reserves numberLiteral w.head? = true := by
    obtain ⟨c, w, rfl⟩ := List.exists_cons_of_ne_nil h.digits.1
    have hlead : (numberLiteral, "0123456789".toList) ∈ leading := by decide
    exact reserves_of_leading hlead (Json.mem_of_isDigit (h.digits.2 c List.mem_cons_self))
  exact Vocabulary.cuts_token (lists_expressions.anchored? rfl) h.digits.1 hbefore
    fun rest hrest => h.takes hrest

end Cuts

/-! ## The rules -/

theorem language_vocabulary : sample.language.vocabulary = vocabulary :=
  congrArg Draft.vocabulary (Language.outlined_of_build build_draft plain_draft).1

theorem rule?_eq (name : String) : sample.language.grammar.rule? name =
    (rules.find? (·.name == name)).map RuleDef.outline :=
  Language.rule?_of_build build_draft plain_draft name

/-- The productions for further operands. -/
def further (operator : TokenId) (operand : String) : List Production :=
  [.many 1 [.terminal operator 1, .nonTerminal operand 2]]

/-- Where the tokens are does not matter. -/
theorem meaning_ignores : sample.meaning.Ignores Veil.offsets := by
  have hchain : ∀ (leaves : List (Leaf Float)) (x : Float),
      chainValue x (leaves.map (·.veil Veil.offsets)) = chainValue x leaves := by
    intro leaves x
    fun_induction chainValue x leaves with
    | case1 x op y rest ih => exact ih
    | case2 leaves x hne =>
      cases leaves with
      | nil => rfl
      | cons first rest =>
        cases first with
        | value => rfl
        | token op =>
          cases rest with
          | nil => rfl
          | cons second rest =>
            cases second with
            | token => rfl
            | value y => exact absurd rfl (hne op y rest)
  intro name leaves
  change ruleValue name (leaves.map (·.veil Veil.offsets)) = ruleValue name leaves
  unfold ruleValue
  split
  · rw [Leaf.values_veil]
  · cases leaves with
    | nil => rfl
    | cons first rest =>
      cases first with
      | token t => rfl
      | value x => exact hchain rest x

theorem spaces_dropped {after : List Char → Prop} {w : List Char} (h : Spaces w) :
    sample.language.vocabulary.Cuts after w [] := by
  rw [language_vocabulary]
  exact h.cuts

/-- One token, where its class or the category of its class is asked for. -/
theorem reads_token {after : List Char → Prop} {id token : TokenId} {idx : Nat} {w : List Char}
    (hid : (id, token) ∈ accepted) (h : vocabulary.Cuts after w [.spelled id w]) :
    sample.Reads after [.terminal token idx] w 0 [.token (.spelled id w)] := by
  have hisA := isA_of_accepted hid
  rw [← language_vocabulary] at hisA h
  exact .terminal hisA h

/-! ## Operators and operands in turn -/

/-- An operator and the operand on its right. -/
def pair (item : Token × Float) : List (Leaf Float) := [.token item.1, .value item.2]

theorem chainValue_pairs (x : Float) (items : List (Token × Float)) :
    chainValue x (items.flatMap pair) =
      items.foldl (fun x item => apply item.1.kind x item.2) x := by
  induction items generalizing x with
  | nil => rfl
  | cons item items ih => exact ih _

/-- The text is operands with operators between them, and `v` is what they come to from left to
right. -/
def Chained (operator : TokenId) (operand : String) (w : List Char) (d : Nat) (v : Float) : Prop :=
  ∃ w₁ w₂ d₁ d₂ x, ∃ items : List (Token × Float), w = w₁ ++ w₂ ∧ d = max d₁ d₂ ∧
    sample.Reads Apart [.nonTerminal operand 1] w₁ d₁ [.value x] ∧
    sample.Reads Apart (further operator operand) w₂ d₂ (items.flatMap pair) ∧
    (∀ rest, Apart rest → Apart (w₂ ++ rest)) ∧ chainValue x (items.flatMap pair) = v

namespace Chained

variable {operator : TokenId} {operand name : String} {w s w' : List Char} {d d' : Nat}
  {x y : Float} {t : Token}

theorem one (h : sample.Reads Apart [.nonTerminal operand 1] w d [.value x]) :
    Chained operator operand w d x :=
  ⟨w, [], d, 0, x, [], (List.append_nil w).symm, (Nat.max_zero d).symm, h, .stopped _ _,
    fun _ hrest => hrest, rfl⟩

/-- One more operator and operand come last, so the operation is the last to be done. -/
theorem another (h : Chained operator operand w d x)
    (hs : sample.Reads (fun _ => True) [.terminal operator 1] s 0 [.token t])
    (hapart : ∀ rest, Apart (s ++ rest))
    (hy : sample.Reads Apart [.nonTerminal operand 2] w' d' [.value y]) :
    Chained operator operand (w ++ (s ++ w')) (max d d') (apply t.kind x y) := by
  obtain ⟨w₁, w₂, d₁, d₂, x₀, items, rfl, rfl, hfirst, hmore, hafter, rfl⟩ := h
  have hround := hs.append hy fun _ _ => trivial
  rw [Nat.zero_max] at hround
  have hall := hmore.another hround fun rest _ => by
    rw [List.append_assoc]
    exact hapart _
  refine ⟨w₁, w₂ ++ (s ++ w'), d₁, max d₂ d', x₀, items ++ [(t, y)], ?_, ?_, hfirst, ?_, ?_, ?_⟩
  · rw [List.append_assoc]
  · rw [Nat.max_assoc]
  · rw [List.flatMap_append]
    exact hall
  · intro rest _
    rw [List.append_assoc, List.append_assoc]
    exact hafter _ (hapart _)
  · rw [chainValue_pairs, chainValue_pairs, List.foldl_append]
    rfl

/-- The rule for such a text. -/
theorem reads (h : Chained operator operand w d x)
    (hr : sample.language.grammar.rule? name =
      some ⟨name, .nonTerminal operand 1 :: further operator operand⟩)
    (hname : name ≠ "parenthesisExpression") (idx : Nat) :
    sample.Reads Apart [.nonTerminal name idx] w (d + 1) [.value x] := by
  obtain ⟨w₁, w₂, d₁, d₂, x₀, items, rfl, rfl, hfirst, hmore, hafter, rfl⟩ := h
  have hvalue : ruleValue name (.value x₀ :: items.flatMap pair) =
      chainValue x₀ (items.flatMap pair) := by
    rw [ruleValue, if_neg hname]
  rw [← hvalue]
  exact .nonTerminal hr (hfirst.append hmore hafter)

end Chained

/-! ## The levels of the grammar -/

namespace Operation

/-- The class of the sign. -/
def kind : Operation → TokenId
  | add => plus
  | sub => minus
  | mul => times
  | div => divide

/-- The category that the rules ask for. -/
def category : Operation → TokenId
  | add | sub => additionOperator
  | mul | div => multiplicationOperator

/-- The rule of the operands. -/
def operand : Operation → String
  | add | sub => "multiplicationExpression"
  | mul | div => "atomicExpression"

theorem apply_kind (op : Operation) (x y : Float) : Calc.apply op.kind x y = op.apply x y := by
  cases op <;> rfl

theorem reads (op : Operation) {a b : List Char} (ha : Spaces a) (hb : Spaces b) :
    sample.Reads (fun _ => True) [.terminal op.category 1] (a ++ op.sign :: b) 0
      [.token (.spelled op.kind [op.sign])] := by
  have haccepted : (op.kind, op.category) ∈ accepted := by
    cases op <;> decide
  have hcuts : vocabulary.Cuts (fun _ => True) [op.sign] [.spelled op.kind [op.sign]] := by
    cases op <;> exact cuts_sign rfl (by decide)
  have hsign : sample.Reads (fun _ => True) [.terminal op.category 1] [op.sign] 0
      [.token (.spelled op.kind [op.sign])] := reads_token haccepted hcuts
  exact (hsign.dropped_after (spaces_dropped hb) fun _ _ => trivial).dropped_before
    (spaces_dropped ha)

theorem apart (op : Operation) {a b : List Char} (ha : Spaces a) (rest : List Char) :
    Apart (a ++ op.sign :: b ++ rest) := by
  have hsign : Apart (op.sign :: (b ++ rest)) := by
    cases op <;> exact rfl
  rw [List.append_assoc]
  exact ha.apart hsign

end Operation

variable {e left right : Expr} {w w' : List Char} {level m n : Nat}

/-- How the tree is read where something is expected that binds at least as tightly as `level`. -/
def ReadsAt (e : Expr) (w : List Char) (n : Nat) : (level : Nat) → Prop
  | 0 => Chained additionOperator "multiplicationExpression" w (2 + 5 * n) e.value
  | 1 => Chained multiplicationOperator "atomicExpression" w (1 + 5 * n) e.value
  | _ + 2 => ∀ idx,
    sample.Reads Apart [.nonTerminal "atomicExpression" idx] w (1 + 5 * n) [.value e.value]

theorem readsAt_iff (op : Operation) : ReadsAt e w n op.level ↔
    Chained op.category op.operand w (2 - op.level + 5 * n) e.value := by
  cases op <;> exact .rfl

/-- What binds more tightly than an operation can be an operand of it. -/
theorem ReadsAt.operand (op : Operation) (h : ReadsAt e w n (op.level + 1)) (idx : Nat) :
    sample.Reads Apart [.nonTerminal op.operand idx] w (2 - op.level + 5 * n) [.value e.value] := by
  have hproduct : ReadsAt e w n 1 →
      sample.Reads Apart [.nonTerminal "multiplicationExpression" idx] w (2 + 5 * n)
        [.value e.value] := by
    intro h
    have hreads := Chained.reads h (rule?_eq "multiplicationExpression") (by decide) idx
    rwa [Nat.add_right_comm] at hreads
  cases op with
  | add | sub => exact hproduct h
  | mul | div => exact h idx

theorem ReadsAt.lower (h : ReadsAt e w n (level + 1)) : ReadsAt e w n level :=
  match level with
  | 0 => .one (ReadsAt.operand .add h 1)
  | 1 => .one (ReadsAt.operand .mul h 1)
  | _ + 2 => h

/-- What binds tightly enough stands where less is asked for. -/
theorem ReadsAt.mono {level' : Nat} (h : ReadsAt e w n level') (hle : level ≤ level') :
    ReadsAt e w n level := by
  induction hle with
  | refl => exact h
  | step _ ih => exact ih h.lower

theorem readsAt_number (h : Json.WholeText w) : ReadsAt (.number h) w 0 level := by
  have hatomic : ReadsAt (.number h) w 0 (level + 2) := by
    intro idx
    have htoken : sample.Reads Apart [.terminal numberLiteral 1] w 0
        [.token (.spelled numberLiteral w)] := reads_token (by decide) (cuts_number h)
    have hvalue : ruleValue "atomicExpression" [.token (.spelled numberLiteral w)] =
        (Expr.number h).value := by
      show (Decimal.parse? (String.ofList w)).getD 0.0 = h.numberText.value
      rw [h.numberText.parse?]
      rfl
    rw [← hvalue]
    exact .nonTerminal (rule?_eq "atomicExpression") (.chosen (i := 1) rfl htoken)
  exact hatomic.mono (Nat.le_add_right level 2)

/-- The rule for whole expressions. -/
theorem ReadsAt.expression (h : ReadsAt e w n 0) (idx : Nat) :
    sample.Reads Apart [.nonTerminal "expression" idx] w (4 + 5 * n) [.value e.value] := by
  have haddition := Chained.reads h (rule?_eq "additionExpression") (by decide) 1
  have hdepth : 2 + 5 * n + 1 + 1 = 4 + 5 * n := by omega
  rw [← hdepth]
  exact haddition.nonTerminal (rule?_eq "expression")

theorem ReadsAt.parentheses {a b : List Char} (ha : Spaces a) (hb : Spaces b)
    (h : ReadsAt e w n 0) : ReadsAt e ('(' :: (a ++ (w ++ (b ++ [')'])))) (n + 1) level := by
  have hatomic : ReadsAt e ('(' :: (a ++ (w ++ (b ++ [')'])))) (n + 1) (level + 2) := by
    intro idx
    have hleft : sample.Reads (fun _ => True) [.terminal leftParenthesis 1] ['('] 0
        [.token (.spelled leftParenthesis ['('])] :=
      reads_token (by decide) (cuts_sign rfl (by decide))
    have hright : sample.Reads Apart [.terminal rightParenthesis 1] [')'] 0
        [.token (.spelled rightParenthesis [')'])] :=
      reads_token (by decide) (cuts_sign rfl (by decide))
    have hspaces : sample.language.vocabulary.Cuts (fun _ => True) a [] := spaces_dropped ha
    have hopen := hleft.dropped_after hspaces fun _ _ => trivial
    have hclose := hright.dropped_before (spaces_dropped hb)
    have hinner := (h.expression 1).append hclose fun rest _ => by
      rw [List.append_assoc]
      exact hb.apart rfl
    have hall := hopen.append hinner fun _ _ => trivial
    rw [Nat.max_zero, Nat.zero_max] at hall
    have hparenthesis : sample.Reads Apart [.nonTerminal "parenthesisExpression" 1] _ _ _ :=
      hall.nonTerminal (rule?_eq "parenthesisExpression")
    have hdepth : 4 + 5 * n + 1 + 1 = 1 + 5 * (n + 1) := by omega
    rw [← hdepth]
    exact .nonTerminal (rule?_eq "atomicExpression") (.chosen (i := 0) rfl hparenthesis)
  exact hatomic.mono (Nat.le_add_right level 2)

theorem ReadsAt.binary {op : Operation} {a b : List Char} (hl : ReadsAt left w m op.level)
    (ha : Spaces a) (hb : Spaces b) (hr : ReadsAt right w' n (op.level + 1)) :
    ReadsAt (.binary op left right) (w ++ (a ++ op.sign :: (b ++ w'))) (max m n) op.level := by
  have hchain := ((readsAt_iff op).1 hl).another (op.reads ha hb) (op.apart ha) (hr.operand op 2)
  have hdepth : max (2 - op.level + 5 * m) (2 - op.level + 5 * n) =
      2 - op.level + 5 * max m n := by omega
  have hvalue : Calc.apply (Token.spelled op.kind [op.sign]).kind left.value right.value =
      (Expr.binary op left right).value := op.apply_kind _ _
  rw [hdepth, hvalue, List.append_assoc, List.cons_append] at hchain
  exact (readsAt_iff op).2 hchain

/-- However a tree is written, it is read as itself. -/
theorem Written.readsAt (h : Written level e w n) : ReadsAt e w n level := by
  induction h with
  | number h => exact readsAt_number h
  | parentheses ha _ hb ih => exact ih.parentheses ha hb
  | binary hlevel _ ha hb _ ihl ihr => exact (ihl.binary ha hb ihr).mono hlevel

/-! ## Whole texts -/

/-- The calculator evaluates with the usual precedence, and operators group to the left. Every text
of a syntax tree, with any white space and any parentheses that leave the tree as it is, nested at
most 24 deep, is lexed and parsed without an error, and it comes to the value of the tree. -/
theorem run_of_document {text : String} {e : Expr} {n : Nat} (h : Document text e n) (hn : n ≤ 24) :
    (sample.run text).lexErrors = [] ∧ (sample.run text).output = ⟨some e.value, [], none⟩ := by
  obtain ⟨a, w, b, ha, hw, hb, htext⟩ := h
  have hreads : sample.Reads Apart [.nonTerminal "expression" 0] text.toList (4 + 5 * n)
      [.value e.value] := by
    rw [htext]
    have hbefore := (hw.readsAt.expression 0).dropped_after (spaces_dropped hb)
      fun rest hrest => hb.apart hrest
    exact hbefore.dropped_before (spaces_dropped ha)
  have hdepth : 4 + 5 * n ≤ sample.language.config.maxDepth := by
    show 4 + 5 * n ≤ 128
    omega
  exact hreads.runRule build_draft plain_draft isLL1 meaning_ignores apart_nil hdepth

/-- Operators that group to the left, parentheses that are needed and some that are not. -/
theorem run_of_document_nested :
    let text := " 20 / ( (1 + 2 * 3)-4 -(1) )\n"
    let one : Expr := .number (.other (c := '1') (w := []) rfl (by decide) fun _ h => nomatch h)
    let two : Expr := .number (.other (c := '2') (w := []) rfl (by decide) fun _ h => nomatch h)
    let three : Expr := .number (.other (c := '3') (w := []) rfl (by decide) fun _ h => nomatch h)
    let four : Expr := .number (.other (c := '4') (w := []) rfl (by decide) fun _ h => nomatch h)
    let twenty : Expr := .number (.other (c := '2') (w := ['0']) rfl (by decide)
      (List.forall_mem_singleton.2 rfl))
    let difference : Expr :=
      .binary .sub (.binary .sub (.binary .add one (.binary .mul two three)) four) one
    let e : Expr := .binary .div twenty difference
    (Document text e 2 ∧ 2 ≤ 24) ∧ (sample.run text).lexErrors = [] ∧
      (sample.run text).output = ⟨some e.value, [], none⟩ := by
  intro text one two three four twenty difference e
  have hproduct : Written 1 (.binary .mul two three) "2 * 3".toList 0 :=
    .binary (a := [' ']) (b := [' ']) (Nat.le_refl 1) (.number _) (by decide) (by decide) (.number _)
  have hsum : Written 0 (.binary .add one (.binary .mul two three)) "1 + 2 * 3".toList 0 :=
    .binary (a := [' ']) (b := [' ']) (Nat.le_refl 0) (.number _) (by decide) (by decide) hproduct
  have hfour : Written 0 (.binary .sub (.binary .add one (.binary .mul two three)) four)
      "(1 + 2 * 3)-4".toList 1 :=
    .binary (a := []) (b := []) (Nat.le_refl 0)
      (.parentheses (a := []) (b := []) (by decide) hsum (by decide)) (by decide) (by decide)
      (.number _)
  have hone : Written 1 one "(1)".toList 1 :=
    .parentheses (a := []) (b := []) (by decide) (.number _) (by decide)
  have hdifference : Written 0 difference "(1 + 2 * 3)-4 -(1)".toList 1 :=
    @Written.binary 0 1 1 .sub _ _ _ [' '] [] _ (Nat.le_refl 0) hfour (by decide) (by decide) hone
  have hwhole : Written 0 e "20 / ( (1 + 2 * 3)-4 -(1) )".toList 2 :=
    .binary (a := [' ']) (b := [' ']) (Nat.zero_le 1) (.number _) (by decide)
      (by decide) (.parentheses (a := [' ']) (b := [' ']) (by decide) hdifference (by decide))
  have hdocument : Document text e 2 := ⟨[' '], _, ['\n'], by decide, hwhole, by decide, by decide⟩
  exact ⟨⟨hdocument, by decide⟩, run_of_document hdocument (by decide)⟩

end TopDown.Calc
