import ExprLang.Proofs.Grammar.Parentheses
import ExprLang.Proofs.Parser.Refusal
import ExprLang.Token.Scan

/-!
# What a parser keeps track of

A parser may be used in any order, and also after a failure. It always stands in its tokens, knows the line of the
token before it, and has no more than `maxNesting` parentheses open. A rule that fails inside parentheses leaves them
open, but for the one that it blames for not being closed.

* `Parser.Reaches` : a parser after some of the tokens that lie ahead of another one;
* `Rule.Settles` : where a rule ends, and at which depth; `Settles.bind`, `settles_chainFrom`, `settles_group` : the
  ways in which rules are put together; `GrammarRule.settles` : every rule of the grammar;
* `Operation`, `Parser.performAll` : any use of a parser; `reaches_perform` : what one operation does;
* `Accounted.performAll`, `endLine_performAll` : what any number of operations preserves;
* `operations_account` : the account of a parser after any use, and of the rules that start there.
-/

namespace ExprLang

/-- How many parentheses a refusal counts as closed although they are not: the one that it says is never closed. -/
def Cause.writtenOff : Cause → Nat
  | .unmatchedParenthesis _ => 1
  | _ => 0

/-! ## Places -/

namespace Parser

/-- Whether the parser `q` stands after the tokens `ts`, which lie ahead of the parser `p`. Nothing is said about
the depth. -/
structure Reaches (p : Parser) (ts : List Token) (q : Parser) : Prop where
  tokens : q.tokens = p.tokens
  place : q.place = p.place + ts.length
  ahead : p.ahead = ts ++ q.ahead
  lastLine : q.lastLine = (ts.getLast?.map (·.line)).or p.lastLine
  endLine : q.endLine = p.endLine

namespace Reaches

variable {p q r : Parser} {ts us : List Token}

theorem refl (p : Parser) : p.Reaches [] p := ⟨rfl, rfl, rfl, rfl, rfl⟩

theorem trans (h : p.Reaches ts q) (h' : q.Reaches us r) : p.Reaches (ts ++ us) r where
  tokens := h'.tokens.trans h.tokens
  place := by rw [h'.place, h.place, List.length_append, Nat.add_assoc]
  ahead := by rw [h.ahead, h'.ahead, List.append_assoc]
  lastLine := by rw [h'.lastLine, h.lastLine, List.getLast?_append, Option.map_or, Option.or_assoc]
  endLine := h'.endLine.trans h.endLine

theorem after {t : Token} {rest : List Token} (hp : p.ahead = t :: rest) : p.Reaches [t] (p.after t) :=
  ⟨rfl, rfl, by rw [hp, ahead_after hp, List.singleton_append], rfl, endLine_after hp⟩

theorem opened {t : Token} {rest : List Token} (hp : p.ahead = t :: rest) : p.Reaches [t] (p.after t).opened :=
  ⟨rfl, rfl, (Reaches.after hp).ahead, rfl, endLine_after hp⟩

theorem closed (h : p.Reaches ts q) : p.Reaches ts q.closed := ⟨h.tokens, h.place, h.ahead, h.lastLine, h.endLine⟩

end Reaches

end Parser

namespace Rule

variable {α β : Type} {least levels : Nat} {p : Parser}

/-- What is known about the end of a rule that starts at the parser `p`. A success has taken `least` tokens or more,
among them as many opening as closing parentheses, and leaves the depth as it was. A failure leaves the depth raised by
the parentheses that it has opened and not closed, `levels` of them at most, less the one that it writes off. -/
def Settles (least levels : Nat) (p : Parser) : EStateM.Result Diagnostic Parser α → Prop
  | .ok _ q => ∃ ts, p.Reaches ts q ∧ least ≤ ts.length ∧ q.depth = p.depth ∧ openings ts = closings ts
  | .error d q => ∃ ts, p.Reaches ts q ∧ q.depth + (closings ts + d.cause.writtenOff) = p.depth + openings ts ∧
      q.depth ≤ p.depth + levels

theorem settles_ok (a : α) : Settles 0 levels p (.ok a p) := ⟨[], .refl p, Nat.le_refl _, rfl, rfl⟩

theorem settles_error {d : Diagnostic} (h : d.cause.writtenOff = 0) :
    Settles least levels p (.error d p : EStateM.Result Diagnostic Parser α) :=
  ⟨[], .refl p, by rw [h]; rfl, Nat.le_add_right _ _⟩

/-- A token in front that is no parenthesis changes nothing but the number of tokens taken. -/
theorem Settles.after {t : Token} {rest : List Token} {result : EStateM.Result Diagnostic Parser α}
    (hp : p.ahead = t :: rest) (plain : t.IsPlain) (h : Settles least levels (p.after t) result) :
    Settles (least + 1) levels p result := by
  cases result with
  | ok a q =>
    obtain ⟨ts, hq, hleast, hdepth, hbalance⟩ := h
    refine ⟨t :: ts, (Parser.Reaches.after hp).trans hq, Nat.succ_le_succ hleast, hdepth, ?_⟩
    rw [plain.openings_cons, plain.closings_cons, hbalance]
  | error d q =>
    obtain ⟨ts, hq, hdepth, hlevels⟩ := h
    refine ⟨t :: ts, (Parser.Reaches.after hp).trans hq, ?_, hlevels⟩
    rw [plain.openings_cons, plain.closings_cons, hdepth]
    rfl

theorem Settles.mono {least' : Nat} {result : EStateM.Result Diagnostic Parser α} (h : Settles least levels p result)
    (hle : least' ≤ least) : Settles least' levels p result := by
  cases result with
  | ok a q =>
    obtain ⟨ts, hq, hleast, hdepth, hbalance⟩ := h
    exact ⟨ts, hq, Nat.le_trans hle hleast, hdepth, hbalance⟩
  | error d q => exact h

theorem Settles.bind {x : Rule α} {f : α → Rule β} (hx : Settles least levels p (x.run p))
    (hf : ∀ a q, q.depth = p.depth → Settles 0 levels q ((f a).run q)) : Settles least levels p ((x >>= f).run p) := by
  cases hrun : x.run p with
  | error d q =>
    rw [run_bind_error _ _ _ _ _ hrun]
    rw [hrun] at hx
    exact hx
  | ok a q =>
    rw [run_bind_ok _ _ _ _ _ hrun]
    rw [hrun] at hx
    obtain ⟨ts, hq, hleast, hdepth, hbalance⟩ := hx
    have hnext := hf a q hdepth
    cases hrun' : (f a).run q with
    | ok b r =>
      rw [hrun'] at hnext
      obtain ⟨us, hr, -, hdepth', hbalance'⟩ := hnext
      refine ⟨ts ++ us, hq.trans hr, ?_, hdepth'.trans hdepth, ?_⟩
      · rw [List.length_append]
        omega
      · rw [openings_append, closings_append, hbalance, hbalance']
    | error d r =>
      rw [hrun'] at hnext
      obtain ⟨us, hr, hdepth', hlevels⟩ := hnext
      refine ⟨ts ++ us, hq.trans hr, ?_, by omega⟩
      rw [openings_append, closings_append]
      omega

/-! ## Expressions -/

section chain

variable {lookup : String → Option BinOp} {operand : Rule Node}

theorem settles_chainFrom (symbol : ∀ text op, lookup text = some op → op.symbol = text) {depth : Nat}
    (operand_settles : ∀ q : Parser, q.depth = depth → Settles 1 levels q (operand.run q)) (bound : Nat) (left : Node)
    (p : Parser) (hd : p.depth = depth) : Settles 0 levels p ((chainFrom lookup operand bound left).run p) := by
  induction bound generalizing left p with
  | zero => exact settles_ok left
  | succ bound ih =>
    cases hop : p.operator? lookup with
    | none =>
      rw [run_chainFrom_of_none _ _ _ _ _ hop]
      exact settles_ok left
    | some op =>
      obtain ⟨o, rest, hp, -, -, spelling⟩ := Parser.operator?_eq_some p lookup op hop
      rw [run_chainFrom_succ _ _ _ _ _ _ _ _ hop hp]
      have hright := (operand_settles (p.after o) hd).bind fun right q hq =>
        ih (.binary op left right) q (hq.trans hd)
      exact (hright.after hp (Token.isPlain_of_symbol (symbol _ _ spelling))).mono (Nat.zero_le _)

theorem settles_chain (symbol : ∀ text op, lookup text = some op → op.symbol = text) {depth : Nat}
    (operand_settles : ∀ q : Parser, q.depth = depth → Settles 1 levels q (operand.run q)) (p : Parser)
    (hd : p.depth = depth) : Settles 1 levels p ((chain lookup operand).run p) := by
  rw [chain_eq]
  exact (operand_settles p hd).bind fun left q hq =>
    settles_chainFrom symbol operand_settles q.ahead.length left q (hq.trans hd)

end chain

theorem settles_factorWith (parenthesis : Token → Rule Node) (p : Parser)
    (group_settles : ∀ o rest, p.ahead = o :: rest → o.isOperator "(" = true →
      Settles 1 levels p ((parenthesis o).run p)) : Settles 1 levels p ((factorWith parenthesis).run p) := by
  cases hrun : (factorWith parenthesis).run p with
  | ok n q =>
    obtain ⟨t, rest, hp, ⟨i, kind, -, -, rfl⟩ | ⟨kind, -, rfl⟩ | ⟨opening, hgroup⟩⟩ :=
      run_factorWith_eq_ok _ _ _ _ hrun
    · exact (settles_ok n).after hp (Token.isPlain_of_kind (by rw [kind]; decide))
    · exact (settles_ok n).after hp (Token.isPlain_of_kind (by rw [kind]; decide))
    · rw [← hgroup]
      exact group_settles t rest hp opening
  | error d q =>
    rcases run_factorWith_eq_error _ _ _ _ hrun with
      ⟨-, rfl, rfl⟩ | ⟨t, rest, hp, ⟨-, -, rfl, rfl⟩ | ⟨opening, hgroup⟩ | ⟨-, -, -, rfl, rfl⟩⟩
    · exact settles_error rfl
    · exact settles_error rfl
    · rw [← hgroup]
      exact group_settles t rest hp opening
    · exact settles_error rfl

/-- The depth is lowered again before the closing parenthesis is looked for, also if that is missing. -/
theorem settles_group (inner : Rule Node) (p : Parser) (o : Token) (rest : List Token) (hp : p.ahead = o :: rest)
    (opening : o.isOperator "(" = true)
    (inner_settles : Settles 1 levels (p.after o).opened (inner.run (p.after o).opened)) :
    Settles 1 (levels + 1) p ((group inner o).run p) := by
  have hopened := Parser.Reaches.opened hp
  have hdepth : (p.after o).opened.depth = p.depth + 1 := rfl
  rw [run_group inner p o rest hp]
  cases hrun : inner.run (p.after o).opened with
  | error d q =>
    rw [run_bind_error _ _ _ _ _ hrun]
    rw [hrun] at inner_settles
    obtain ⟨ts, hq, hd, hlevels⟩ := inner_settles
    refine ⟨o :: ts, hopened.trans hq, ?_, by omega⟩
    rw [openings_cons_of_opening opening, closings_cons_of_opening opening]
    omega
  | ok n q =>
    rw [run_bind_ok _ _ _ _ _ hrun]
    rw [hrun] at inner_settles
    obtain ⟨ts, hq, -, hd, hbalance⟩ := inner_settles
    have hclosed : q.closed.depth = p.depth := by
      show q.depth - 1 = _
      omega
    by_cases hclosing : ∃ c rest', q.ahead = c :: rest' ∧ c.isOperator ")" = true
    · obtain ⟨c, rest', hc, closing⟩ := hclosing
      rw [run_close o c n q rest' hc closing]
      refine ⟨o :: ts ++ [c], (hopened.trans hq).closed.trans (.after hc), by simp, hclosed, ?_⟩
      rw [openings_append, closings_append, openings_cons_of_opening opening, closings_cons_of_opening opening,
        openings_singleton_of_closing closing, closings_singleton_of_closing closing]
      omega
    · rw [run_close_error o n q fun t ht => Bool.eq_false_iff.2 fun closing =>
        hclosing ⟨t, _, (List.cons_head?_tail ht).symm, closing⟩]
      refine ⟨o :: ts, (hopened.trans hq).closed, ?_, by omega⟩
      have hwritten : o.unmatched.cause.writtenOff = 1 := rfl
      rw [openings_cons_of_opening opening, closings_cons_of_opening opening, hwritten]
      omega

theorem settles_expressionWith {factor : Rule Node} {depth : Nat}
    (factor_settles : ∀ q : Parser, q.depth = depth → Settles 1 levels q (factor.run q)) (p : Parser)
    (hd : p.depth = depth) : Settles 1 levels p ((expressionWith factor).run p) :=
  settles_chain BinOp.symbol_of_additive?
    (fun q hq => settles_chain BinOp.symbol_of_multiplicative? factor_settles q hq) p hd

theorem settles_factorAt (levels : Nat) (p : Parser) : Settles 1 levels p ((factorAt levels).run p) := by
  induction levels generalizing p with
  | zero => exact settles_factorWith _ p fun o rest hp opening => settles_error rfl
  | succ levels ih =>
    exact settles_factorWith _ p fun o rest hp opening =>
      settles_group _ p o rest hp opening (settles_expressionWith (fun q _ => ih q) _ rfl)

theorem settles_expression (p : Parser) : Settles 1 p.levels p (expression.run p) := by
  rw [run_expression]
  exact settles_expressionWith (fun q _ => settles_factorAt p.levels q) p rfl

theorem settles_term (p : Parser) : Settles 1 p.levels p (term.run p) :=
  settles_chain BinOp.symbol_of_multiplicative? (fun q _ => settles_factorAt p.levels q) p rfl

theorem settles_factor (p : Parser) : Settles 1 p.levels p (factor.run p) := settles_factorAt p.levels p

/-! ## Statements -/

theorem run_assignment_end (p : Parser) (hp : p.ahead = []) :
    assignment.run p = .error (p.endOfInput "a variable name") p := by
  have hc : p.current = none := Parser.current_of_nil hp
  rw [assignment, run_bind_ok _ _ p p p (EStateM.run_get p)]
  simp only [hc]
  rfl

theorem run_assignment_noName (p : Parser) (t : Token) (rest : List Token) (hp : p.ahead = t :: rest)
    (kind : t.kind ≠ .identifier) :
    assignment.run p = .error (.atToken (.malformedTarget t.describe) t) p := by
  have hc : p.current = some t := Parser.current_of_cons hp
  rw [assignment, run_bind_ok _ _ p p p (EStateM.run_get p)]
  simp only [hc, kind, if_false]
  rfl

/-- After the name an assignment fails if no equals sign is next, and stays there. -/
theorem run_assignment_noEqualsSign (p : Parser) (t : Token) (rest : List Token) (hp : p.ahead = t :: rest)
    (kind : t.kind = .identifier) (h : ∀ e ∈ rest.head?, e.isOperator "=" = false) :
    ∃ d : Diagnostic, d.cause.writtenOff = 0 ∧ assignment.run p = .error d (p.after t) := by
  have hc : p.current = some t := Parser.current_of_cons hp
  rw [assignment, run_bind_ok _ _ p p p (EStateM.run_get p)]
  simp only [hc, kind, if_true]
  rw [run_bind_ok _ _ p _ () (run_discard _ _ _ _ (run_advance p t _ hp)),
    run_bind_ok _ _ _ _ _ (EStateM.run_get (p.after t))]
  cases rest with
  | nil =>
    simp only [Parser.current_of_nil (Parser.ahead_after hp)]
    exact ⟨(p.after t).endOfInput "`=` after variable name", rfl, rfl⟩
  | cons e rest =>
    have hnext := Parser.ahead_after hp
    have he := run_expectOperator_error "=" e.noEqualsSign (p.after t) (by rwa [hnext])
    simp only [Parser.current_of_cons hnext]
    exact ⟨e.noEqualsSign, rfl, run_bind_error _ _ _ _ _ (run_discard_error _ _ _ _ he)⟩

theorem settles_assignment (p : Parser) : Settles 1 p.levels p (assignment.run p) := by
  cases hp : p.ahead with
  | nil =>
    rw [run_assignment_end p hp]
    exact settles_error rfl
  | cons name rest =>
    by_cases kind : name.kind = .identifier
    swap
    · rw [run_assignment_noName p name rest hp kind]
      exact settles_error rfl
    have plain : name.IsPlain := Token.isPlain_of_kind (by rw [kind]; decide)
    by_cases equals : ∃ e rest', rest = e :: rest' ∧ e.isOperator "=" = true
    · obtain ⟨e, rest, rfl, equals⟩ := equals
      let p₁ := p.after name
      have hp₁ : p₁.ahead = e :: rest := Parser.ahead_after hp
      have hvalue : Settles 1 p.levels (p₁.after e) _ :=
        (settles_expression (p₁.after e)).bind fun value q _ => settles_ok (Node.assign name.text value)
      rw [run_assignment p name e rest hp kind equals]
      exact ((hvalue.after hp₁ (Token.isPlain_of_equalsSign equals)).after hp plain).mono (by omega)
    · obtain ⟨d, hd, hrun⟩ := run_assignment_noEqualsSign p name rest hp kind fun t ht =>
        Bool.eq_false_iff.2 fun htext => equals ⟨t, _, (List.cons_head?_tail ht).symm, htext⟩
      have hfail : Settles 0 p.levels (p.after name) (.error d (p.after name) : EStateM.Result _ _ Node) :=
        settles_error hd
      rw [hrun]
      exact hfail.after hp plain

theorem settles_settle (start : Token) (value : Node) (p : Parser) :
    Settles 0 levels p ((settle start value).run p) := by
  cases hrun : (settle start value).run p with
  | ok n q =>
    obtain ⟨rfl, rfl, -⟩ := run_settle_eq_ok _ _ _ _ _ hrun
    exact settles_ok n
  | error d q =>
    obtain ⟨-, -, -, -, -, rfl, rfl⟩ := run_settle_eq_error _ _ _ _ _ hrun
    exact settles_error rfl

theorem settles_statement (p : Parser) : Settles 1 p.levels p (statement.run p) := by
  cases hp : p.ahead with
  | nil =>
    rw [run_statement_end p hp]
    exact settles_expression p
  | cons start rest =>
    cases hs : p.startsAssignment with
    | true =>
      rw [run_statement_of_assignment p hs]
      exact settles_assignment p
    | false =>
      rw [run_statement_of_expression p start rest hp hs]
      exact (settles_expression p).bind fun value q _ => settles_settle start value q

/-- A refused operator leaves the parser as it is. -/
theorem eq_of_run_expectOperator_error {text : String} {refusal : Option Diagnostic} {d : Diagnostic} {q : Parser}
    (h : (expectOperator text refusal).run p = .error d q) : q = p := by
  change expectOperator text refusal p = _ at h
  unfold expectOperator at h
  split at h
  · split at h <;> cases h
    rfl
  · cases h
    rfl

end Rule

/-! ## Operations -/

/-- The rules of the grammar. -/
inductive GrammarRule where
  | factor
  | term
  | expression
  | assignment
  | statement

def GrammarRule.rule : GrammarRule → Rule Node
  | factor => Rule.factor
  | term => Rule.term
  | expression => Rule.expression
  | assignment => Rule.assignment
  | statement => Rule.statement

theorem GrammarRule.settles (r : GrammarRule) (p : Parser) : Rule.Settles 1 p.levels p (r.rule.run p) := by
  cases r with
  | factor => exact Rule.settles_factor p
  | term => exact Rule.settles_term p
  | expression => exact Rule.settles_expression p
  | assignment => exact Rule.settles_assignment p
  | statement => exact Rule.settles_statement p

/-- What can be done with a parser. -/
inductive Operation where
  | advance
  | expect (text : String) (refusal : Option Diagnostic)
  | read (rule : GrammarRule)

namespace Parser

variable {tokens : List Token} {p : Parser}

/-- The parser that a rule leaves behind, also if it fails. -/
def leftBy {α : Type} (p : Parser) (rule : Rule α) : Parser :=
  match rule.run p with
  | .ok _ q => q
  | .error _ q => q

def perform (p : Parser) : Operation → Parser
  | .advance => p.leftBy Rule.advance
  | .expect text refusal => p.leftBy (Rule.expectOperator text refusal)
  | .read r => p.leftBy r.rule

def performAll (p : Parser) (operations : List Operation) : Parser := operations.foldl perform p

/-- Whether the parser stands in the tokens, before their end mark, knows the line of the token before it, and has no
more parentheses open than may nest. -/
def Accounted (tokens : List Token) (p : Parser) : Prop :=
  p.tokens = tokens ∧ (∃ taken, liveTokens tokens = taken ++ p.ahead ∧ p.place = taken.length ∧
    p.lastLine = taken.getLast?.map (·.line)) ∧ p.depth ≤ maxNesting

theorem accounted_ofTokens (tokens : List Token) : Accounted tokens (.ofTokens tokens) :=
  ⟨rfl, ⟨[], rfl, rfl, rfl⟩, Nat.zero_le _⟩

theorem Accounted.reaches {ts : List Token} {q : Parser} (h : Accounted tokens p) (hq : p.Reaches ts q)
    (depth : q.depth ≤ maxNesting) : Accounted tokens q := by
  obtain ⟨htokens, ⟨taken, hlive, hplace, hline⟩, -⟩ := h
  refine ⟨hq.tokens.trans htokens, ⟨taken ++ ts, by rw [hlive, hq.ahead, List.append_assoc], ?_, ?_⟩, depth⟩
  · rw [hq.place, hplace, List.length_append]
  · rw [hq.lastLine, hline, List.getLast?_append, Option.map_or]

/-- Whatever a rule does, it leaves the parser further ahead. -/
theorem reaches_leftBy {α : Type} {least levels : Nat} {rule : Rule α}
    (settles : Rule.Settles least levels p (rule.run p)) :
    ∃ ts, p.Reaches ts (p.leftBy rule) ∧ (p.leftBy rule).depth ≤ p.depth + levels := by
  unfold leftBy
  cases hrun : rule.run p with
  | ok a q =>
    rw [hrun] at settles
    obtain ⟨ts, hq, -, hdepth, -⟩ := settles
    exact ⟨ts, hq, hdepth ▸ Nat.le_add_right _ _⟩
  | error d q =>
    rw [hrun] at settles
    obtain ⟨ts, hq, -, hdepth⟩ := settles
    exact ⟨ts, hq, hdepth⟩

theorem reaches_perform (p : Parser) (operation : Operation) :
    ∃ ts, p.Reaches ts (p.perform operation) ∧ (p.perform operation).depth ≤ p.depth + p.levels := by
  cases operation with
  | advance =>
    rw [perform, leftBy]
    cases hp : p.ahead with
    | nil =>
      have hrun : Rule.advance.run p = .ok none p := by
        show Rule.advance p = _
        simp only [Rule.advance, Parser.current_of_nil hp]
      rw [hrun]
      exact ⟨[], .refl p, Nat.le_add_right _ _⟩
    | cons t rest =>
      rw [Rule.run_advance p t rest hp]
      exact ⟨[t], .after hp, Nat.le_add_right _ _⟩
  | expect text refusal =>
    rw [perform, leftBy]
    cases hrun : (Rule.expectOperator text refusal).run p with
    | ok t q =>
      obtain ⟨rest, hp, -, rfl⟩ := Rule.run_expectOperator_eq_ok _ _ _ _ _ hrun
      exact ⟨[t], .after hp, Nat.le_add_right _ _⟩
    | error d q =>
      rw [Rule.eq_of_run_expectOperator_error hrun]
      exact ⟨[], .refl p, Nat.le_add_right _ _⟩
  | read r => exact reaches_leftBy (r.settles p)

theorem Accounted.perform (h : Accounted tokens p) (operation : Operation) :
    Accounted tokens (p.perform operation) := by
  obtain ⟨ts, hq, hdepth⟩ := p.reaches_perform operation
  refine h.reaches hq (Nat.le_trans hdepth ?_)
  have := h.2.2
  simp only [levels]
  omega

theorem Accounted.performAll (h : Accounted tokens p) (operations : List Operation) :
    Accounted tokens (p.performAll operations) := by
  induction operations generalizing p with
  | nil => exact h
  | cons operation operations ih => exact ih (h.perform operation)

/-- Where the end is does not change. -/
theorem endLine_performAll (p : Parser) (operations : List Operation) :
    (p.performAll operations).endLine = p.endLine := by
  induction operations generalizing p with
  | nil => rfl
  | cons operation operations ih =>
    obtain ⟨ts, hq, -⟩ := p.reaches_perform operation
    exact (ih (p.perform operation)).trans hq.endLine

end Parser

/-- However a parser has been used before, it stands before the end mark of its tokens, knows the line of the token
before it, and has at most `maxNesting` parentheses open. A rule of the grammar that reads on there gives no token
back. If it succeeds, it takes a token, takes as many opening as closing parentheses, and leaves the depth as it was.
If it fails, the depth grows by the parentheses that were opened and not closed, less one if the failure is that a
parenthesis is not closed. An operator that is refused leaves the parser as it was. -/
theorem operations_account (tokens : List Token) (operations : List Operation) (p : Parser)
    (hp : p = (Parser.ofTokens tokens).performAll operations) :
    (p.tokens = tokens ∧ (∃ taken, liveTokens tokens = taken ++ p.ahead ∧ p.place = taken.length ∧
      p.lastLine = taken.getLast?.map (·.line)) ∧ p.depth ≤ maxNesting) ∧
    (∀ (r : GrammarRule) n q, r.rule.run p = .ok n q →
      ∃ ts, p.ahead = ts ++ q.ahead ∧ q.place = p.place + ts.length ∧ ts ≠ [] ∧ q.depth = p.depth ∧
        openings ts = closings ts) ∧
    (∀ (r : GrammarRule) d q, r.rule.run p = .error d q →
      ∃ ts, p.ahead = ts ++ q.ahead ∧ q.place = p.place + ts.length ∧
        (q.depth : Int) - p.depth = openings ts - closings ts - d.cause.writtenOff) ∧
    ∀ text refusal d q, (Rule.expectOperator text refusal).run p = .error d q → q = p := by
  subst hp
  refine ⟨(Parser.accounted_ofTokens tokens).performAll operations, fun r n q hrun => ?_, fun r d q hrun => ?_,
    fun text refusal d q hrun => Rule.eq_of_run_expectOperator_error hrun⟩
  · have settles := r.settles ((Parser.ofTokens tokens).performAll operations)
    rw [hrun] at settles
    obtain ⟨ts, hq, hleast, hdepth, hbalance⟩ := settles
    exact ⟨ts, hq.ahead, hq.place, List.ne_nil_of_length_pos hleast, hdepth, hbalance⟩
  · have settles := r.settles ((Parser.ofTokens tokens).performAll operations)
    rw [hrun] at settles
    obtain ⟨ts, hq, hdepth, -⟩ := settles
    exact ⟨ts, hq.ahead, hq.place, by omega⟩

/-- After a failure that has written off the inner one of two parentheses, a name is read, an assignment fails, and a
closing parenthesis is refused. -/
theorem account_after_unclosed :
    ∃ p, p = (Parser.ofTokens (tokenize "((1 x) 2")).performAll [.read .statement] ∧ p.depth = 1 ∧
      (∃ taken, liveTokens (tokenize "((1 x) 2") = taken ++ p.ahead ∧ p.place = taken.length ∧
        p.lastLine = taken.getLast?.map (·.line)) ∧
      (∃ n q ts, GrammarRule.factor.rule.run p = .ok n q ∧ p.ahead = ts ++ q.ahead ∧ q.place = p.place + ts.length ∧
        ts ≠ [] ∧ q.depth = p.depth ∧ openings ts = closings ts) ∧
      (∃ d q ts, GrammarRule.assignment.rule.run p = .error d q ∧ p.ahead = ts ++ q.ahead ∧
        q.place = p.place + ts.length ∧ (q.depth : Int) - p.depth = openings ts - closings ts - d.cause.writtenOff) ∧
      ∃ d q, (Rule.expectOperator ")" none).run p = .error d q ∧ q = p := by
  let x : Token := ⟨⟨1, 4⟩, .identifier, "x"⟩
  let close : Token := ⟨⟨1, 5⟩, .operator, ")"⟩
  let tokens : List Token := [⟨⟨1, 0⟩, .operator, "("⟩, ⟨⟨1, 1⟩, .operator, "("⟩, ⟨⟨1, 2⟩, .integerLiteral, "1"⟩,
    x, close, ⟨⟨1, 7⟩, .integerLiteral, "2"⟩, ⟨⟨1, 8⟩, .endOfFile, "EOF"⟩]
  have htokens : tokenize "((1 x) 2" = tokens := by decide +kernel
  let p : Parser := ⟨tokens, 3, some 1, 1⟩
  have hp : p = (Parser.ofTokens tokens).performAll [.read .statement] := rfl
  have hread : GrammarRule.factor.rule.run p = .ok (.var "x") (p.after x) := rfl
  have hassign : GrammarRule.assignment.rule.run p =
      .error (.atToken (.refusedToken ")" "expected `=` after variable name") close) (p.after x) := rfl
  have hexpect : (Rule.expectOperator ")" none).run p = .error x.unexpected p := rfl
  rw [htokens]
  obtain ⟨⟨-, hplace, -⟩, hok, herror, hrefused⟩ := operations_account _ _ _ hp
  obtain ⟨ts, hts⟩ := hok .factor _ _ hread
  obtain ⟨us, hus⟩ := herror .assignment _ _ hassign
  exact ⟨_, hp, rfl, hplace, ⟨_, _, ts, hread, hts⟩, ⟨_, _, us, hassign, hus⟩, _, _, hexpect,
    hrefused _ _ _ _ hexpect⟩

end ExprLang
