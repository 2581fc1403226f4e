import ExprLang.Proofs.Parser.Refusal

/-!
# Parentheses that nest too deep

* `Grammar.Overflows` : tokens at whose front a factor comes to a parenthesis that nests too deep;
* `Grammar.Overflows.stuck` : the grammar is stuck at that parenthesis;
* `Grammar.run_statement_of_overflows`, `Grammar.run_assignment_of_overflows` : the statement is refused there;
* `Grammar.program_error` : a program fails as its first statement that fails.
-/

namespace ExprLang.Grammar

open Rule

/-- `Overflows depth ts t` : inside `depth` parentheses a factor that starts with the tokens `ts` comes to the
parenthesis `t` when no more can open. Before that everything it reads is in order. -/
inductive Overflows : Nat → List Token → Token → Prop
  | here {depth o rest} (full : maxNesting ≤ depth) (opening : o.isOperator "(" = true) :
      Overflows depth (o :: rest) o
  | first {depth o ts t} (room : depth < maxNesting) (opening : o.isOperator "(" = true)
      (inner : Overflows (depth + 1) ts t) : Overflows depth (o :: ts) t
  | factor {depth o ts q us t op l} (room : depth < maxNesting) (opening : o.isOperator "(" = true)
      (left : Derives .term (depth + 1) ts l) (kind : q.kind = .operator)
      (spelling : BinOp.multiplicative? q.text = some op) (right : Overflows (depth + 1) us t) :
      Overflows depth (o :: (ts ++ q :: us)) t
  | term {depth o ts q us t op l} (room : depth < maxNesting) (opening : o.isOperator "(" = true)
      (left : Derives .expression (depth + 1) ts l) (kind : q.kind = .operator)
      (spelling : BinOp.additive? q.text = some op) (right : Overflows (depth + 1) us t) :
      Overflows depth (o :: (ts ++ q :: us)) t

/-- The grammar is stuck before the parenthesis. -/
theorem Overflows.stuck {depth : Nat} {ts : List Token} {t : Token} (h : Overflows depth ts t) (endLine : Nat) :
    ∃ us rest, ts = us ++ rest ∧ Stuck endLine .factor depth us rest t.tooDeep := by
  induction h with
  | here full opening => exact ⟨[], _, rfl, .tooDeep full opening⟩
  | @first _ o _ _ room opening _ ih =>
    obtain ⟨us, rest, rfl, stuck⟩ := ih
    exact ⟨o :: us, rest, rfl, .group room opening (.term (.factor stuck))⟩
  | @factor depth o ts s _ _ _ _ room opening left kind spelling _ ih =>
    obtain ⟨us, rest, rfl, stuck⟩ := ih
    refine ⟨o :: (ts ++ s :: us), rest, by rw [List.cons_append, List.append_assoc, List.cons_append], ?_⟩
    exact .group room opening (.term (.product left kind spelling (Or.inl (Nat.succ_pos depth)) stuck))
  | @term depth o ts s _ _ _ _ room opening left kind spelling _ ih =>
    obtain ⟨us, rest, rfl, stuck⟩ := ih
    refine ⟨o :: (ts ++ s :: us), rest, by rw [List.cons_append, List.append_assoc, List.cons_append], ?_⟩
    exact .group room opening (.sum left kind spelling (Or.inl (Nat.succ_pos depth)) (.factor stuck))

/-! ## Statements and programs that fail -/

theorem run_statement_of_overflows {ts : List Token} {t : Token} (h : Overflows 0 ts t) (p : Parser)
    (hd : p.depth = 0) (hp : p.ahead = ts) : ∃ q, statement.run p = .error t.tooDeep q := by
  obtain ⟨us, rest, rfl, stuck⟩ := h.stuck p.endLine
  obtain ⟨q, hq, -⟩ := (StuckStatement.expression (.term (.factor stuck))).runs p rfl hd hp
  exact ⟨q, hq⟩

theorem run_assignment_of_overflows {ts : List Token} {x e t : Token} (kind : x.kind = .identifier)
    (equals : e.isOperator "=" = true) (line : e.line = x.line) (h : Overflows 0 ts t) (p : Parser)
    (hd : p.depth = 0) (hp : p.ahead = x :: e :: ts) : ∃ q, statement.run p = .error t.tooDeep q := by
  obtain ⟨us, rest, rfl, stuck⟩ := h.stuck p.endLine
  obtain ⟨q, hq, -⟩ := (StuckStatement.assignment kind equals line (.term (.factor stuck))).runs p rfl hd hp
  exact ⟨q, hq⟩

/-- A program fails as its first statement that fails. -/
theorem program_error {parts : List (List Token)} {nodes : List Node} {t : Token} {rest : List Token}
    {d : Diagnostic} (statements : List.Forall₂ Statement parts nodes)
    (chain : (parts ++ [t :: rest]).IsChain Below)
    (fails : ∀ p : Parser, p.depth = 0 → p.ahead = t :: rest → ∃ q, statement.run p = .error d q) (p : Parser)
    (hd : p.depth = 0) (hp : p.ahead = parts.flatten ++ t :: rest) : ∃ q, program.run p = .error d q := by
  obtain ⟨chain, below⟩ := (isChain_append_singleton_iff statements).1 chain
  obtain ⟨next, hrun, -⟩ := run_program_of_statements ⟨parts, rfl, statements, chain⟩ below p hd hp
  obtain ⟨q, hq⟩ := fails (p.past parts.flatten) hd (Parser.ahead_past hp)
  exact ⟨q, by rw [hrun, run_bind_error _ _ _ _ _ hq]⟩

end ExprLang.Grammar
