import ExprLang.Proofs.Grammar.Parentheses
import ExprLang.Proofs.Parser.Earliest

/-!
# A refusal says where and why

* `endLineOf` : the line of the end of a list of tokens;
* `Grammar.Explains` : what each kind of refusal says about the tokens taken and those left;
* `Stuck.explains`, `StuckStatement.explains`, `StuckProgram.explains` : what was read before decides how many
  parentheses are open, and which is the last one;
* `parse_and_parseProgram_explain` : every refusal of a statement or a program is explained so.
-/

namespace ExprLang

/-- The line of the end of the tokens: that of the first end mark, or of the last token if there is none, or the first
line if there is no token. -/
def endLineOf (tokens : List Token) : Nat :=
  match tokens.find? Token.isEnd, tokens.getLast? with
  | some z, _ => z.line
  | none, some t => t.line
  | none, none => 1

theorem endLine_ofTokens_eq_endLineOf (tokens : List Token) :
    (Parser.ofTokens tokens).endLine = endLineOf tokens := by
  rw [Parser.endLine_ofTokens]
  unfold endLineOf
  cases tokens.find? Token.isEnd <;> cases tokens.getLast? <;> rfl

namespace Grammar

/-- `Explains endLine taken statement rest d` : after the tokens `taken`, the last of which are the tokens `statement`
of the statement being read, the refusal `d` tells why the tokens `rest` do not go on. -/
inductive Explains (endLine : Nat) (taken statement : List Token) : List Token → Diagnostic → Prop
  | unexpected {t rest} : Explains endLine taken statement (t :: rest) t.unexpected
  | numeral {t rest} (kind : t.kind = .integerLiteral) (value : Numeral.int64? t.text = none) :
      Explains endLine taken statement (t :: rest) (.atToken (.invalidNumeral t.text) t)
  | tooDeep {t rest} (opening : t.isOperator "(" = true) (full : (openParentheses statement).length = maxNesting) :
      Explains endLine taken statement (t :: rest) t.tooDeep
  | ended : Explains endLine taken statement [] ⟨.unexpectedEnd operandNames, endLine, none⟩
  | unmatched {o rest} (last : (openParentheses taken).head? = some o)
      (next : ∀ t ∈ rest.head?, t.isOperator ")" = false) :
      Explains endLine taken statement rest o.unmatched
  | target {start e rest n} (first : statement.head? = some start) (equals : e.isOperator "=" = true)
      (reads : parse statement = .ok n) :
      Explains endLine taken statement (e :: rest) (.atToken (.malformedTarget n.text) start)

section

variable {endLine : Nat} {ts us rest : List Token} {d : Diagnostic}

/-- What comes before a statement leaves no parenthesis open, and so explains nothing. -/
theorem Explains.prepend (h : Explains endLine us us rest d)
    (before : openParentheses (ts ++ us) = openParentheses us) : Explains endLine (ts ++ us) us rest d := by
  cases h with
  | unexpected => exact .unexpected
  | numeral kind value => exact .numeral kind value
  | tooDeep opening full => exact .tooDeep opening full
  | ended => exact .ended
  | unmatched last next => exact .unmatched (before ▸ last) next
  | target first equals reads => exact .target first equals reads

/-- The depth is the number of parentheses that are open, which grows by one where a group begins. -/
theorem Stuck.explains {level : Level} {depth : Nat} (h : Stuck endLine level depth ts rest d) (front : List Token)
    (hfront : (openParentheses front).length = depth) (hdepth : depth ≤ maxNesting) :
    Explains endLine (front ++ ts) (front ++ ts) rest d := by
  induction h generalizing front with
  | ended => exact .ended
  | numeral kind value => exact .numeral kind value
  | tooDeep full opening =>
    rw [List.append_nil]
    exact .tooDeep opening (hfront.trans (Nat.le_antisymm hdepth full))
  | noFactor => exact .unexpected
  | @group depth o _ _ _ room opening _ ih =>
    have hopened : (openParentheses (front ++ [o])).length = depth + 1 := by
      rw [openParentheses_concat, openAfter_opening opening, List.length_cons, hfront]
    rw [List.append_cons]
    exact ih _ hopened room
  | @unclosed _ o _ _ _ _ opening inner stop =>
    refine .unmatched ?_ fun t ht => (stop t ht).1
    rw [List.append_cons, inner.openParentheses_append, openParentheses_concat, openAfter_opening opening]
    rfl
  | factor _ ih | term _ ih => exact ih front hfront hdepth
  | product left _ spelling _ _ ih =>
    have plain := Token.isPlain_of_symbol (BinOp.symbol_of_multiplicative? _ _ spelling)
    rw [List.append_cons, ← List.append_assoc, ← List.append_assoc]
    refine ih _ ?_ hdepth
    rw [openParentheses_concat, plain.openAfter_eq, left.openParentheses_append, hfront]
  | sum left _ spelling _ _ ih =>
    have plain := Token.isPlain_of_symbol (BinOp.symbol_of_additive? _ _ spelling)
    rw [List.append_cons, ← List.append_assoc, ← List.append_assoc]
    refine ih _ ?_ hdepth
    rw [openParentheses_concat, plain.openAfter_eq, left.openParentheses_append, hfront]

theorem StuckStatement.explains (h : StuckStatement endLine us rest d) : Explains endLine us us rest d := by
  cases h with
  | expression value => exact value.explains [] rfl (Nat.zero_le _)
  | @assignment t e _ _ _ kind equals _ value =>
    have hname : t.IsPlain := Token.isPlain_of_kind (by rw [kind]; decide)
    have hfront : openParentheses [t, e] = [] := by
      rw [openParentheses, List.foldl_cons, List.foldl_cons, List.foldl_nil, hname.openAfter_eq,
        (Token.isPlain_of_equalsSign equals).openAfter_eq]
    exact value.explains [t, e] (by rw [hfront]; rfl) (Nat.zero_le _)
  | target value equals => exact .target rfl equals (Statement.expression value).parse_eq

theorem StuckSole.explains (h : StuckSole endLine us rest d) : Explains endLine us us rest d := by
  cases h with
  | statement stuck => exact stuck.explains
  | left => exact .unexpected

/-- The statements before the one that is being read are a program of their own. -/
theorem StuckProgram.explains (h : StuckProgram endLine ts rest d) :
    ∃ before us, ts = before ++ us ∧ (∃ p, parseProgram before = .ok p) ∧ Below before (us ++ rest) ∧
      Explains endLine ts us rest d := by
  cases h with
  | @statement before us _ _ _ hbefore below _ stuck =>
    have explains := stuck.explains.prepend (hbefore.openParentheses_append us)
    exact ⟨before, us, rfl, ⟨_, hbefore.parseProgram_eq⟩, below, explains⟩
  | @left before us t rest _ _ hbefore below ends =>
    obtain ⟨v, vs, rfl⟩ := List.exists_cons_of_ne_nil ends.statement.ne_nil
    exact ⟨before, v :: vs, rfl, ⟨_, hbefore.parseProgram_eq⟩, below.of_head? fun w hw => hw, .unexpected⟩

end

end Grammar

open Grammar (Explains Below)

/-- A refusal explains why the tokens left do not go on with those taken. In a program, the tokens taken are some
statements, and those of the statement that is being read, which begins below them. -/
theorem parse_and_parseProgram_explain (tokens : List Token) (d : Diagnostic) :
    (parse tokens = .error d →
      Explains (endLineOf tokens) ((liveTokens tokens).take (Rule.soleStatement.taken tokens))
        ((liveTokens tokens).take (Rule.soleStatement.taken tokens))
        ((liveTokens tokens).drop (Rule.soleStatement.taken tokens)) d) ∧
    (parseProgram tokens = .error d →
      ∃ before statement, (liveTokens tokens).take (Rule.program.taken tokens) = before ++ statement ∧
        (∃ p, parseProgram before = .ok p) ∧
        Below before (statement ++ (liveTokens tokens).drop (Rule.program.taken tokens)) ∧
        Explains (endLineOf tokens) ((liveTokens tokens).take (Rule.program.taken tokens)) statement
          ((liveTokens tokens).drop (Rule.program.taken tokens)) d) := by
  constructor
  · intro h
    obtain ⟨ts, rest, hlive, htaken, stuck⟩ := Rule.stuck_of_error (fun _ => Rule.breaks_soleStatement) h
    rw [hlive, htaken, List.take_left, List.drop_left, ← endLine_ofTokens_eq_endLineOf]
    exact stuck.explains
  · intro h
    obtain ⟨ts, rest, hlive, htaken, stuck⟩ := Rule.stuck_of_error (fun _ => Rule.breaks_program) h
    rw [hlive, htaken, List.take_left, List.drop_left, ← endLine_ofTokens_eq_endLineOf]
    exact stuck.explains

/-- A parenthesis that is not closed, and an equals sign after an expression. -/
theorem explain_unclosed_and_target :
    (parse (tokenize "x = (1 2") = .error ⟨.unmatchedParenthesis "(", 1, some 4⟩ ∧
      Explains 1 ((liveTokens (tokenize "x = (1 2")).take 4) ((liveTokens (tokenize "x = (1 2")).take 4)
        ((liveTokens (tokenize "x = (1 2")).drop 4) ⟨.unmatchedParenthesis "(", 1, some 4⟩) ∧
    parseProgram (tokenize "x = 1\ny + 2 = 3") = .error ⟨.malformedTarget "(y + 2)", 2, some 0⟩ ∧
      ∃ before statement, (liveTokens (tokenize "x = 1\ny + 2 = 3")).take 6 = before ++ statement ∧
        (∃ p, parseProgram before = .ok p) ∧
        Below before (statement ++ (liveTokens (tokenize "x = 1\ny + 2 = 3")).drop 6) ∧
        Explains 2 ((liveTokens (tokenize "x = 1\ny + 2 = 3")).take 6) statement
          ((liveTokens (tokenize "x = 1\ny + 2 = 3")).drop 6) ⟨.malformedTarget "(y + 2)", 2, some 0⟩ := by
  have hsole : parse (tokenize "x = (1 2") = .error ⟨.unmatchedParenthesis "(", 1, some 4⟩ := by decide +kernel
  have hprogram : parseProgram (tokenize "x = 1\ny + 2 = 3") = .error ⟨.malformedTarget "(y + 2)", 2, some 0⟩ := by
    decide +kernel
  have htaken : Rule.soleStatement.taken (tokenize "x = (1 2") = 4 := by decide +kernel
  have htaken' : Rule.program.taken (tokenize "x = 1\ny + 2 = 3") = 6 := by decide +kernel
  have hend : endLineOf (tokenize "x = (1 2") = 1 := by decide +kernel
  have hend' : endLineOf (tokenize "x = 1\ny + 2 = 3") = 2 := by decide +kernel
  have explains := (parse_and_parseProgram_explain _ _).1 hsole
  have explains' := (parse_and_parseProgram_explain _ _).2 hprogram
  rw [htaken, hend] at explains
  rw [htaken', hend'] at explains'
  exact ⟨⟨hsole, explains⟩, hprogram, explains'⟩

end ExprLang
