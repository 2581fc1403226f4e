import ExprLang.Proofs.Parser.Reading

/-!
# How statements and programs are read

The equations of the rules above the expressions, and what these rules read.

* `Rule.startsAssignment_iff`, `Rule.run_assignment`, `Rule.settle` : the two kinds of statement;
* `Rule.run_furtherStatements_eq_ok` : the ways a list of statements can go on;
* `Rule.reads_statement` : a statement takes the tokens that derive it;
* `Rule.reads_furtherStatements` : so do the statements after it, each below the token before.
-/

namespace ExprLang

namespace Rule

open Grammar (Derives Statement Below)

/-! ## Statements -/

theorem startsAssignment_iff (p : Parser) :
    p.startsAssignment = true ↔ ∃ t e rest, p.ahead = t :: e :: rest ∧ t.kind = .identifier ∧
      e.isOperator "=" = true ∧ e.line = t.line := by
  unfold Parser.startsAssignment Parser.peek
  rcases hp : p.ahead with _ | ⟨t, _ | ⟨e, rest⟩⟩
  · simp
  · simp
  · simp [and_assoc]

theorem run_assignment (p : Parser) (t e : Token) (rest : List Token) (hp : p.ahead = t :: e :: rest)
    (kind : t.kind = .identifier) (equals : e.isOperator "=" = true) :
    assignment.run p = (expression >>= fun value => pure (.assign t.text value)).run (p.past [t, e]) := by
  have hc : p.current = some t := Parser.current_of_cons hp
  have hp' : (p.after t).ahead = e :: rest := Parser.ahead_after hp
  have he := run_expectOperator "=" (some e.noEqualsSign) (p.after t) e rest hp' equals
  rw [assignment, run_bind_ok _ _ p p p (EStateM.run_get p)]
  simp only [hc, kind, if_true]
  rw [run_bind_ok _ _ p _ () (run_discard _ _ _ _ (run_advance p t _ hp)),
    run_bind_ok _ _ _ _ _ (EStateM.run_get (p.after t))]
  simp only [Parser.current_of_cons hp']
  rw [run_bind_ok _ _ _ _ () (run_discard _ _ _ _ he)]
  rfl

/-- What follows the expression of a statement that begins with `start`: no equals sign on the line. -/
def settle (start : Token) (value : Node) : Rule Node := do
  let p ← get
  match p.current with
  | none => pure value
  | some t =>
    if t.isOperator "=" && p.continues t then throw (.atToken (.malformedTarget value.text) start)
    else pure value

theorem run_settle (start : Token) (value : Node) (p : Parser)
    (h : ∀ t ∈ p.ahead.head?, t.isOperator "=" = true → p.continues t = false) :
    (settle start value).run p = .ok value p := by
  rw [settle, run_bind_ok _ _ p p p (EStateM.run_get p)]
  cases hp : p.ahead with
  | nil =>
    simp only [Parser.current_of_nil hp]
    rfl
  | cons t rest =>
    simp only [Parser.current_of_cons hp]
    rw [if_neg]
    · rfl
    · rw [Bool.and_eq_true]
      rintro ⟨he, hc⟩
      rw [h t (by simp [hp]) he] at hc
      cases hc

theorem run_settle_eq_ok (start : Token) (value n : Node) (p q : Parser) (h : (settle start value).run p = .ok n q) :
    n = value ∧ q = p := by
  rw [settle, run_bind_ok _ _ p p p (EStateM.run_get p)] at h
  split at h
  · cases h
    exact ⟨rfl, rfl⟩
  · split at h
    · cases h
    · cases h
      exact ⟨rfl, rfl⟩

theorem run_statement_of_assignment (p : Parser) (h : p.startsAssignment = true) :
    statement.run p = assignment.run p := by
  obtain ⟨t, e, rest, hp, -⟩ := (startsAssignment_iff p).1 h
  rw [statement, run_bind_ok _ _ p p p (EStateM.run_get p)]
  simp only [Parser.current_of_cons hp]
  rw [run_bind_ok _ _ p p p (EStateM.run_get p)]
  simp only [h, if_true]

theorem run_statement_of_expression (p : Parser) (start : Token) (rest : List Token) (hp : p.ahead = start :: rest)
    (h : p.startsAssignment = false) : statement.run p = (expression >>= settle start).run p := by
  rw [statement, run_bind_ok _ _ p p p (EStateM.run_get p)]
  simp only [Parser.current_of_cons hp]
  rw [run_bind_ok _ _ p p p (EStateM.run_get p)]
  simp only [h, Bool.false_eq_true, if_false]
  rfl

theorem run_statement_eq_ok (p q : Parser) (n : Node) (h : statement.run p = .ok n q) :
    ∃ start rest, p.ahead = start :: rest := by
  cases hp : p.ahead with
  | nil =>
    rw [statement, run_bind_ok _ _ p p p (EStateM.run_get p)] at h
    simp only [Parser.current_of_nil hp] at h
    cases h
  | cons start rest => exact ⟨start, rest, rfl⟩

/-! ## Programs -/

theorem run_soleStatement_eq_ok_iff (p q : Parser) (n : Node) :
    soleStatement.run p = .ok n q ↔ statement.run p = .ok n q ∧ q.ahead = [] := by
  constructor
  · intro h
    obtain ⟨m, r, hm, hr⟩ := run_bind_eq_ok _ _ _ _ _ h
    rw [run_bind_ok _ _ r r r (EStateM.run_get r)] at hr
    cases hra : r.ahead with
    | nil =>
      simp only [Parser.current_of_nil hra] at hr
      cases hr
      exact ⟨hm, hra⟩
    | cons t rest =>
      simp only [Parser.current_of_cons hra] at hr
      cases hr
  · rintro ⟨hn, hq⟩
    rw [soleStatement, run_bind_ok _ _ _ _ _ hn, run_bind_ok _ _ q q q (EStateM.run_get q)]
    simp only [Parser.current_of_nil hq]
    rfl

theorem run_furtherStatements_nil (bound : Nat) (p : Parser) (hp : p.ahead = []) :
    (furtherStatements bound).run p = .ok [] p := by
  cases bound with
  | zero => rfl
  | succ bound =>
    rw [furtherStatements, run_bind_ok _ _ p p p (EStateM.run_get p)]
    simp only [Parser.current_of_nil hp]
    rfl

theorem run_furtherStatements_cons (bound : Nat) (p : Parser) (t : Token) (rest : List Token)
    (hp : p.ahead = t :: rest) (below : p.continues t = false) :
    (furtherStatements (bound + 1)).run p = (statement >>= fun node => do
      let nodes ← furtherStatements bound
      pure (node :: nodes) : Rule (List Node)).run p := by
  rw [furtherStatements, run_bind_ok _ _ p p p (EStateM.run_get p)]
  simp only [Parser.current_of_cons hp, below, Bool.false_eq_true, if_false]

/-- The ways a list of statements can go on, if the bound is large enough. -/
theorem run_furtherStatements_eq_ok (bound : Nat) (p q : Parser) (nodes : List Node)
    (hb : p.ahead.length ≤ bound) (h : (furtherStatements bound).run p = .ok nodes q) :
    (p.ahead = [] ∧ nodes = [] ∧ q = p) ∨
      ∃ k t rest node r nodes', bound = k + 1 ∧ p.ahead = t :: rest ∧ p.continues t = false ∧
        statement.run p = .ok node r ∧ (furtherStatements k).run r = .ok nodes' q ∧ nodes = node :: nodes' := by
  cases hp : p.ahead with
  | nil =>
    rw [run_furtherStatements_nil bound p hp] at h
    cases h
    exact Or.inl ⟨rfl, rfl, rfl⟩
  | cons t rest =>
    rw [hp, List.length_cons] at hb
    obtain ⟨k, rfl⟩ : ∃ k, bound = k + 1 := ⟨bound - 1, by omega⟩
    cases hc : p.continues t with
    | true =>
      rw [furtherStatements, run_bind_ok _ _ p p p (EStateM.run_get p)] at h
      simp only [Parser.current_of_cons hp, hc, if_true] at h
      cases h
    | false =>
      rw [run_furtherStatements_cons k p t rest hp hc] at h
      obtain ⟨node, r, hnode, hr⟩ := run_bind_eq_ok _ _ _ _ _ h
      obtain ⟨nodes', r', hnodes, hq⟩ := run_bind_eq_ok _ _ _ _ _ hr
      cases hq
      exact Or.inr ⟨k, t, rest, node, r, nodes', rfl, rfl, hc, hnode, hnodes, rfl⟩

theorem run_program_nil (p : Parser) (hp : p.ahead = []) : program.run p = .ok {} p := by
  rw [program, run_bind_ok _ _ p p p (EStateM.run_get p)]
  simp only [Parser.current_of_nil hp]
  rfl

theorem run_program_cons (p : Parser) (t : Token) (rest : List Token) (hp : p.ahead = t :: rest) :
    program.run p = (statement >>= fun node => do
      let nodes ← furtherStatements (← get).ahead.length
      pure ⟨node :: nodes⟩ : Rule Program).run p := by
  rw [program, run_bind_ok _ _ p p p (EStateM.run_get p)]
  simp only [Parser.current_of_cons hp]

/-! ## What statements read -/

theorem reads_statement : Reads 0 Statement statement := by
  intro p n q hd h
  have hlevels : maxNesting - 0 = p.levels := by rw [Parser.levels, hd]
  obtain ⟨start, rest, hp⟩ := run_statement_eq_ok p q n h
  cases hs : p.startsAssignment with
  | true =>
    obtain ⟨t, e, rest, hp, kind, equals, line⟩ := (startsAssignment_iff p).1 hs
    rw [run_statement_of_assignment p hs, run_assignment p t e rest hp kind equals] at h
    obtain ⟨value, r, hvalue, hn⟩ := run_bind_eq_ok _ _ _ _ _ h
    rw [run_expression] at hvalue
    obtain ⟨ts, hts, derives, hr⟩ := reads_expressionAt p.levels 0 hlevels (p.past [t, e]) value r hd hvalue
    cases hn
    rw [Parser.ahead_past_pair hp] at hts
    refine ⟨t :: e :: ts, ?_, .assignment kind equals line derives, ?_⟩
    · rw [hp, hts, List.cons_append, List.cons_append]
    · rwa [Parser.past_past] at hr
  | false =>
    rw [run_statement_of_expression p start rest hp hs] at h
    obtain ⟨value, r, hvalue, hn⟩ := run_bind_eq_ok _ _ _ _ _ h
    rw [run_expression] at hvalue
    obtain ⟨ts, hts, derives, hr⟩ := reads_expressionAt p.levels 0 hlevels p value r hd hvalue
    obtain ⟨rfl, rfl⟩ := run_settle_eq_ok _ _ _ _ _ hn
    exact ⟨ts, hts, .expression derives, hr⟩

/-- Outside parentheses a token does not go on with the statement if it is below the last token. -/
theorem below_of_not_continues (p : Parser) (ts : List Token) (u : Token) (hl : p.lastLine = ts.getLast?.map (·.line))
    (h : p.continues u = false) : ∀ t ∈ ts.getLast?, t.line < u.line := by
  intro t ht
  rw [Option.mem_def] at ht
  rw [ht] at hl
  simp only [Parser.continues, hl, Option.map_some, Option.all_some, Bool.or_eq_false_iff, decide_eq_false_iff_not] at h
  exact Nat.lt_of_not_le h.2

/-- The statements after the tokens `ts` take the rest, and each begins below the token before it. -/
theorem reads_furtherStatements (bound : Nat) (p q : Parser) (nodes : List Node) (ts : List Token)
    (hd : p.depth = 0) (hl : p.lastLine = ts.getLast?.map (·.line)) (hb : p.ahead.length ≤ bound)
    (h : (furtherStatements bound).run p = .ok nodes q) :
    ∃ parts : List (List Token), parts.flatten = p.ahead ∧ List.Forall₂ Statement parts nodes ∧
      (ts :: parts).IsChain Below := by
  induction bound generalizing p nodes ts with
  | zero =>
    have hp : p.ahead = [] := List.length_eq_zero_iff.1 (Nat.le_zero.1 hb)
    cases h
    exact ⟨[], by rw [hp, List.flatten_nil], .nil, .singleton _⟩
  | succ bound ih =>
    rcases run_furtherStatements_eq_ok _ p q nodes hb h with
      ⟨hp, rfl, -⟩ | ⟨k, t, rest, node, r, nodes', hk, hp, hc, hnode, hnodes, rfl⟩
    · exact ⟨[], by rw [hp, List.flatten_nil], .nil, .singleton _⟩
    · obtain rfl := Nat.succ.inj hk
      obtain ⟨us, hus, statement, hr⟩ := reads_statement p node r hd hnode
      obtain ⟨u, us, rfl⟩ := List.exists_cons_of_ne_nil statement.ne_nil
      have hlast : r.lastLine = (u :: us).getLast?.map (·.line) := by
        rw [hr, Parser.lastLine_past _ _ (List.cons_ne_nil u us)]
      have hlen : r.ahead.length ≤ bound := by
        rw [hus, List.length_append, List.length_cons] at hb
        omega
      obtain ⟨parts, hparts, statements, chain⟩ := ih r nodes' (u :: us) (by rw [hr]; exact hd) hlast hlen hnodes
      refine ⟨(u :: us) :: parts, ?_, .cons statement statements, .cons_cons ?_ chain⟩
      · rw [List.flatten_cons, hparts, hus]
      · intro t' ht' u' hu'
        obtain rfl : u = u' := by simpa using hu'
        have htu : t = u := by
          rw [hp] at hus
          exact (List.cons.inj hus).1
        exact below_of_not_continues p ts u hl (htu ▸ hc) t' ht'

end Rule

end ExprLang
