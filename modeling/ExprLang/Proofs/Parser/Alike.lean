import ExprLang.Proofs.Parser.Run

/-!
# Parsers that see the same

What a rule does depends on the tokens ahead, on the line of the end, on the line of the token taken last, and on the
depth. Two parsers in which these are the same are alike, whatever else stands in their tokens: every rule gives the
same for both, and leaves alike parsers behind.

* `Parser.Alike` : parsers that see the same; `Alike.line`, `Alike.after` and others : they answer alike;
* `Rule.Respects` : a rule that does the same for alike parsers, `Respects.run_cases`; `Respects.bind`, `respects_get` :
  how such rules are put together;
* `Rule.respects_factorAt`, `Rule.respects_statement`, `Rule.respects_program` : the rules of the grammar respect it;
* `Rule.Respects.onTokens` : what is read from tokens that look alike.
-/

namespace ExprLang

namespace Parser

/-- Whether the parsers see the same of their tokens, and have the same behind them. -/
structure Alike (p p' : Parser) : Prop where
  ahead : p'.ahead = p.ahead
  endLine : p'.endLine = p.endLine
  lastLine : p'.lastLine = p.lastLine
  depth : p'.depth = p.depth

namespace Alike

variable {p p' : Parser} (h : p.Alike p')
include h

theorem peek (n : Nat) : p'.peek n = p.peek n := by rw [Parser.peek, h.ahead]; rfl

theorem current : p'.current = p.current := h.peek 0

theorem line : p'.line = p.line := by
  cases hp : p.ahead with
  | nil => rw [line_of_nil hp, line_of_nil (h.ahead.trans hp), h.endLine]
  | cons t rest => rw [line_of_cons hp, line_of_cons (h.ahead.trans hp)]

theorem continues (t : Token) : p'.continues t = p.continues t := by
  rw [Parser.continues, h.depth, h.lastLine]
  rfl

theorem endOfInput (expected : String) : p'.endOfInput expected = p.endOfInput expected := by
  rw [Parser.endOfInput, h.line]
  rfl

theorem operator? (lookup : String → Option BinOp) : p'.operator? lookup = p.operator? lookup := by
  simp only [Parser.operator?, h.current, h.continues]

theorem startsAssignment : p'.startsAssignment = p.startsAssignment := by
  simp only [Parser.startsAssignment, h.peek]

theorem levels : p'.levels = p.levels := by rw [Parser.levels, h.depth]; rfl

theorem missing (text : String) : Rule.missing p' text = Rule.missing p text := by
  simp only [Rule.missing, h.current, h.endOfInput]

theorem after {t : Token} {rest : List Token} (hp : p.ahead = t :: rest) : (p.after t).Alike (p'.after t) where
  ahead := by rw [ahead_after hp, ahead_after (h.ahead.trans hp)]
  endLine := by rw [endLine_after hp, endLine_after (h.ahead.trans hp), h.endLine]
  lastLine := rfl
  depth := h.depth

theorem opened : p.opened.Alike p'.opened := ⟨h.ahead, h.endLine, h.lastLine, congrArg (· + 1) h.depth⟩

theorem closed : p.closed.Alike p'.closed := ⟨h.ahead, h.endLine, h.lastLine, congrArg (· - 1) h.depth⟩

end Alike

end Parser

namespace Rule

variable {α β : Type}

/-- Whether the results are the same, with alike parsers left behind. -/
inductive SameResult : EStateM.Result Diagnostic Parser α → EStateM.Result Diagnostic Parser α → Prop
  | ok (a : α) {q q' : Parser} (left : q.Alike q') : SameResult (.ok a q) (.ok a q')
  | error (d : Diagnostic) {q q' : Parser} (left : q.Alike q') : SameResult (.error d q) (.error d q')

/-- Whether the rule does the same for alike parsers. -/
def Respects (rule : Rule α) : Prop := ∀ ⦃p p' : Parser⦄, p.Alike p' → SameResult (rule.run p) (rule.run p')

theorem Respects.run_cases {rule : Rule α} (respects : rule.Respects) {p p' : Parser} (h : p.Alike p') :
    (∃ a q q', rule.run p = .ok a q ∧ rule.run p' = .ok a q' ∧ q.Alike q') ∨
      ∃ d q q', rule.run p = .error d q ∧ rule.run p' = .error d q' ∧ q.Alike q' := by
  have hresult := respects h
  generalize rule.run p = result at hresult
  generalize rule.run p' = result' at hresult
  cases hresult with
  | ok a left => exact Or.inl ⟨a, _, _, rfl, rfl, left⟩
  | error d left => exact Or.inr ⟨d, _, _, rfl, rfl, left⟩

/-! ## How rules are put together -/

theorem respects_pure (a : α) : (pure a : Rule α).Respects := fun _ _ h => .ok a h

theorem respects_throw (d : Diagnostic) : (throw d : Rule α).Respects := fun _ _ h => .error d h

theorem Respects.bind {x : Rule α} {f : α → Rule β} (hx : x.Respects) (hf : ∀ a, (f a).Respects) :
    (x >>= f).Respects := by
  intro p p' h
  rcases hx.run_cases h with ⟨a, q, q', hq, hq', left⟩ | ⟨d, q, q', hq, hq', left⟩
  · rw [run_bind_ok _ _ _ _ _ hq, run_bind_ok _ _ _ _ _ hq']
    exact hf a left
  · rw [run_bind_error _ _ _ _ _ hq, run_bind_error _ _ _ _ _ hq']
    exact .error d left

theorem Respects.discard {x : Rule α} (hx : x.Respects) : (discard x : Rule Unit).Respects :=
  hx.bind fun _ => respects_pure ()

/-- A rule may ask its parser for what alike parsers answer alike. -/
theorem respects_get {f : Parser → Rule α} (same : ∀ p p', p.Alike p' → f p' = f p) (respects : ∀ p, (f p).Respects) :
    (get >>= f : Rule α).Respects := by
  intro p p' h
  rw [run_bind_ok _ _ p p p (EStateM.run_get p), run_bind_ok _ _ p' p' p' (EStateM.run_get p'), same p p' h]
  exact respects p h

theorem respects_modify {f : Parser → Parser} (hf : ∀ p p', p.Alike p' → (f p).Alike (f p')) :
    (modify f : Rule Unit).Respects :=
  fun p p' h => .ok () (hf p p' h)

theorem respects_endOfInput (expected : String) : (get >>= fun p => throw (p.endOfInput expected) : Rule α).Respects :=
  respects_get (fun _ _ h => by rw [h.endOfInput]) fun _ => respects_throw _

theorem respects_advance : advance.Respects := by
  intro p p' h
  cases hp : p.ahead with
  | nil =>
    show SameResult (advance p) (advance p')
    simp only [advance, h.current, Parser.current_of_nil hp]
    exact .ok none h
  | cons t rest =>
    rw [run_advance p t rest hp, run_advance p' t rest (h.ahead.trans hp)]
    exact .ok (some t) (h.after hp)

theorem respects_expectOperator (text : String) (refusal : Option Diagnostic) :
    (expectOperator text refusal).Respects := by
  intro p p' h
  show SameResult (expectOperator text refusal p) (expectOperator text refusal p')
  cases hp : p.ahead with
  | nil =>
    simp only [expectOperator, h.current, h.missing, Parser.current_of_nil hp]
    exact .error _ h
  | cons t rest =>
    simp only [expectOperator, h.current, h.missing, Parser.current_of_cons hp]
    split
    · exact .ok t (h.after hp)
    · exact .error _ h

/-! ## Expressions -/

section chain

variable {lookup : String → Option BinOp} {operand : Rule Node} (respects : operand.Respects)
include respects

theorem respects_chainFrom (bound : Nat) (left : Node) : (chainFrom lookup operand bound left).Respects := by
  induction bound generalizing left with
  | zero => exact respects_pure left
  | succ bound ih =>
    refine respects_get (fun p p' h => by rw [h.operator?]) fun p => ?_
    cases p.operator? lookup with
    | none => exact respects_pure left
    | some op => exact respects_advance.discard.bind fun _ => respects.bind fun right => ih (.binary op left right)

theorem respects_chain : (chain lookup operand).Respects :=
  respects.bind fun left =>
    respects_get (fun p p' h => by rw [h.ahead]) fun _ => respects_chainFrom respects _ left

end chain

theorem respects_expressionWith {factor : Rule Node} (respects : factor.Respects) : (expressionWith factor).Respects :=
  respects_chain (respects_chain respects)

theorem respects_group {inner : Rule Node} (respects : inner.Respects) (start : Token) :
    (group inner start).Respects :=
  respects_advance.discard.bind fun _ => (respects_modify fun _ _ h => h.opened).bind fun _ =>
    respects.bind fun value => (respects_modify fun _ _ h => h.closed).bind fun _ =>
      (respects_expectOperator ")" _).discard.bind fun _ => respects_pure value

theorem respects_factorWith {parenthesis : Token → Rule Node} (respects : ∀ t, (parenthesis t).Respects) :
    (factorWith parenthesis).Respects := by
  refine respects_get (fun p p' h => by rw [h.current]) fun p => ?_
  cases p.current with
  | none => exact respects_endOfInput operandNames
  | some t =>
    dsimp only
    split
    · split
      · exact respects_advance.discard.bind fun _ => respects_pure _
      · exact respects_throw _
    · exact respects_advance.discard.bind fun _ => respects_pure _
    · split
      · exact respects t
      · exact respects_throw _
    · exact respects_throw _

theorem respects_factorAt (levels : Nat) : (factorAt levels).Respects := by
  induction levels with
  | zero => exact respects_factorWith fun t => respects_throw t.tooDeep
  | succ levels ih => exact respects_factorWith (respects_group (respects_expressionWith ih))

theorem respects_factor : factor.Respects :=
  respects_get (fun p p' h => by rw [h.levels]) fun p => respects_factorAt p.levels

theorem respects_term : term.Respects :=
  respects_get (fun p p' h => by rw [h.levels]) fun p => respects_chain (respects_factorAt p.levels)

theorem respects_expression : expression.Respects :=
  respects_get (fun p p' h => by rw [h.levels]) fun p => respects_expressionWith (respects_factorAt p.levels)

/-! ## Statements -/

theorem respects_assignment : assignment.Respects := by
  refine respects_get (fun p p' h => by rw [h.current]) fun p => ?_
  cases p.current with
  | none => exact respects_endOfInput "a variable name"
  | some name =>
    dsimp only
    split
    · refine respects_advance.discard.bind fun _ => respects_get (fun p p' h => by rw [h.current]) fun p => ?_
      cases p.current with
      | none => exact respects_endOfInput "`=` after variable name"
      | some t =>
        exact (respects_expectOperator "=" _).discard.bind fun _ =>
          respects_expression.bind fun value => respects_pure _
    · exact respects_throw _

theorem respects_statement : statement.Respects := by
  refine respects_get (fun p p' h => by rw [h.current]) fun p => ?_
  cases p.current with
  | none => exact respects_endOfInput operandNames
  | some start =>
    refine respects_get (fun p p' h => by rw [h.startsAssignment]) fun p => ?_
    cases p.startsAssignment with
    | true => exact respects_assignment
    | false =>
      refine respects_expression.bind fun value => respects_get (fun p p' h => ?_) fun p => ?_
      · simp only [h.current, h.continues]
      · cases p.current with
        | none => exact respects_pure value
        | some t =>
          dsimp only
          split
          · exact respects_throw _
          · exact respects_pure value

theorem respects_soleStatement : soleStatement.Respects := by
  refine respects_statement.bind fun node => respects_get (fun p p' h => by rw [h.current]) fun p => ?_
  cases p.current with
  | none => exact respects_pure node
  | some t => exact respects_throw t.unexpected

theorem respects_furtherStatements (bound : Nat) : (furtherStatements bound).Respects := by
  induction bound with
  | zero => exact respects_pure []
  | succ bound ih =>
    refine respects_get (fun p p' h => by simp only [h.current, h.continues]) fun p => ?_
    cases p.current with
    | none => exact respects_pure []
    | some t =>
      dsimp only
      split
      · exact respects_throw t.unexpected
      · exact respects_statement.bind fun node => ih.bind fun nodes => respects_pure (node :: nodes)

theorem respects_program : program.Respects := by
  refine respects_get (fun p p' h => by rw [h.current]) fun p => ?_
  cases p.current with
  | none => exact respects_pure ({} : Program)
  | some _ =>
    refine respects_statement.bind fun node => respects_get (fun p p' h => by rw [h.ahead]) fun p => ?_
    exact (respects_furtherStatements p.ahead.length).bind fun nodes => respects_pure (⟨node :: nodes⟩ : Program)

/-! ## Tokens -/

theorem Respects.onTokens {rule : Rule α} (respects : rule.Respects) {tokens tokens' : List Token}
    (h : (Parser.ofTokens tokens).Alike (.ofTokens tokens')) : rule.onTokens tokens' = rule.onTokens tokens := by
  rcases respects.run_cases h with ⟨a, q, q', hq, hq', -⟩ | ⟨d, q, q', hq, hq', -⟩ <;>
    rw [Rule.onTokens, Rule.onTokens, hq, hq']

end Rule

end ExprLang
