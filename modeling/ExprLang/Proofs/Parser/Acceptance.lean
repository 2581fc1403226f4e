import ExprLang.Proofs.Grammar.Stuck
import ExprLang.Proofs.Parser.Statements

/-!
# The parser accepts its grammar

A derivation drives the rules: at the front of tokens that derive a tree, a rule takes these tokens and has the tree
in hand. With what the rules read this makes the parser accept exactly the grammar.

* `Rule.resume` : an expression whose last term may still grow;
* `Grammar.Derives.runs` : what the rules do at the front of a derivation;
* `Grammar.Ends.runs`, `Grammar.Statement.runs`, `Grammar.runs_furtherStatements` : the same for statements;
* `parse_and_parseProgram_accept_grammar` : acceptance is derivability, and the result is the tree.
-/

namespace ExprLang

/-- The tokens before the first end mark. -/
def liveTokens (tokens : List Token) : List Token := tokens.takeWhile fun t => t.kind != .endOfFile

theorem ahead_ofTokens (tokens : List Token) : (Parser.ofTokens tokens).ahead = liveTokens tokens := rfl

theorem liveTokens_append (ts more : List Token) (h : ∀ t ∈ ts, t.kind ≠ .endOfFile) :
    liveTokens (ts ++ more) = ts ++ liveTokens more :=
  List.takeWhile_append_of_pos fun t ht => bne_iff_ne.2 (h t ht)

theorem liveTokens_eq_self (ts : List Token) (h : ∀ t ∈ ts, t.kind ≠ .endOfFile) : liveTokens ts = ts := by
  have := liveTokens_append ts [] h
  rwa [List.append_nil, show liveTokens [] = [] from rfl, List.append_nil] at this

theorem kind_ne_endOfFile_of_mem_liveTokens (tokens : List Token) (t : Token) (h : t ∈ liveTokens tokens) :
    t.kind ≠ .endOfFile :=
  bne_iff_ne.1 (List.all_eq_true.1 List.all_takeWhile t h)

section endMark

variable {ts : List Token} {z : Token} (unmarked : ∀ t ∈ ts, t.kind ≠ .endOfFile)
include unmarked

theorem find?_isEnd_eq_none : ts.find? Token.isEnd = none :=
  List.find?_eq_none.2 fun t ht hend => unmarked t ht ((Token.isEnd_iff t).1 hend)

theorem liveTokens_of_endMark (mark : z.kind = .endOfFile) (rest : List Token) : liveTokens (ts ++ z :: rest) = ts := by
  have hz : liveTokens (z :: rest) = [] := by
    rw [liveTokens, List.takeWhile_cons_of_neg]
    simpa using mark
  rw [liveTokens_append ts _ unmarked, hz, List.append_nil]

theorem endLine_of_endMark (mark : z.kind = .endOfFile) (rest : List Token) :
    (Parser.ofTokens (ts ++ z :: rest)).endLine = z.line := by
  rw [Parser.endLine_ofTokens, List.find?_append, find?_isEnd_eq_none unmarked,
    List.find?_cons_of_pos ((Token.isEnd_iff z).2 mark)]
  rfl

end endMark

namespace Rule

theorem forward_factorAt (p : Parser) : Forward p.depth (factorAt p.levels) := (reads_factorAt _ _ rfl).forward

theorem forward_termAt (p : Parser) : Forward p.depth (termAt p.levels) := (reads_termAt _ _ rfl).forward

/-- An expression after some of its tokens: `last` is the last term so far, and `wrap` puts a term in its place. -/
def resume (levels : Nat) (wrap : Node → Node) (last : Node) : Rule Node := do
  let term ← more BinOp.multiplicative? (factorAt levels) last
  more BinOp.additive? (termAt levels) (wrap term)

/-- An expression ends where no operator goes on with it. -/
theorem run_resume_of_none (levels : Nat) (wrap : Node → Node) (last : Node) (p : Parser)
    (multiplicative : p.operator? BinOp.multiplicative? = none) (additive : p.operator? BinOp.additive? = none) :
    (resume levels wrap last).run p = .ok (wrap last) p := by
  rw [resume, run_bind_ok _ _ p p last (run_more_of_none _ _ _ _ multiplicative)]
  exact run_more_of_none _ _ _ _ additive

/-- An operator that joins terms ends the last term, and the next term is the last one from there on. -/
theorem run_resume_of_additive (wrap : Node → Node) (last : Node) (p : Parser) (op : BinOp) (o : Token)
    (rest : List Token) (hp : p.ahead = o :: rest) (multiplicative : p.operator? BinOp.multiplicative? = none)
    (additive : p.operator? BinOp.additive? = some op) :
    (resume p.levels wrap last).run p
      = (termAt p.levels >>= fun term => more BinOp.additive? (termAt p.levels) (.binary op (wrap last) term)).run
          (p.after o) := by
  rw [resume, run_bind_ok _ _ p p last (run_more_of_none _ _ _ _ multiplicative)]
  exact run_more_of_some _ _ _ p op o rest (forward_termAt p) additive hp

end Rule

namespace Grammar

open Rule

/-- At the front of the tokens `ts` a factor is read to their end, with the result `n`. -/
def FactorRuns (depth : Nat) (ts : List Token) (n : Node) : Prop :=
  ∀ p rest, p.depth = depth → p.ahead = ts ++ rest → (factorAt p.levels).run p = .ok n (p.past ts)

/-- At the front of the tokens `ts` a term is read to their end, and goes on from `n`. -/
def TermRuns (depth : Nat) (ts : List Token) (n : Node) : Prop :=
  ∀ p rest, p.depth = depth → p.ahead = ts ++ rest →
    (termAt p.levels).run p = (more BinOp.multiplicative? (factorAt p.levels) n).run (p.past ts)

/-- At the front of the tokens `ts` an expression is read to their end, and goes on from its last term in `n`. -/
def ExpressionRuns (depth : Nat) (ts : List Token) (n : Node) : Prop :=
  ∀ p rest, p.depth = depth → p.ahead = ts ++ rest → ∃ wrap last, wrap last = n ∧
    (expressionAt p.levels).run p = (resume p.levels wrap last).run (p.past ts)

def Level.Runs : Level → Nat → List Token → Node → Prop
  | .factor => FactorRuns
  | .term => TermRuns
  | .expression => ExpressionRuns

theorem operator?_past (p : Parser) (ts rest : List Token) (o : Token) (lookup : String → Option BinOp)
    (hp : p.ahead = ts ++ o :: rest) (hts : ts ≠ []) (kind : o.kind = .operator) (joins : Joins p.depth ts o) :
    (p.past ts).operator? lookup = lookup o.text :=
  Parser.operator?_cons _ _ _ _ (Parser.ahead_past hp) kind ((Parser.continues_past_iff p ts hts o).2 joins)

theorem operator?_closing (p : Parser) (c : Token) (rest : List Token) (hp : p.ahead = c :: rest)
    (closing : c.isOperator ")" = true) (lookup : String → Option BinOp) (h : lookup ")" = none) :
    p.operator? lookup = none := by
  obtain ⟨kind, text⟩ := (Token.isOperator_iff _ _).1 closing
  simp [Parser.operator?, Parser.current_of_cons hp, kind, text, h]

theorem multiplicative?_eq_none (text : String) (op : BinOp) (h : BinOp.additive? text = some op) :
    BinOp.multiplicative? text = none := by
  unfold BinOp.additive? at h
  split at h
  · next ht => rw [ht]; decide
  · split at h
    · next ht => rw [ht]; decide
    · cases h

theorem runs_group {depth : Nat} {o c : Token} {ts : List Token} {n : Node} (room : depth < maxNesting)
    (opening : o.isOperator "(" = true) (inner : ExpressionRuns (depth + 1) ts n)
    (closing : c.isOperator ")" = true) : FactorRuns depth (o :: (ts ++ [c])) n := by
  intro p rest hd hp
  rw [List.cons_append, List.append_assoc] at hp
  let p₁ := (p.after o).opened
  have hd₁ : p₁.depth = depth + 1 := by rw [Parser.depth_opened, ← hd]; rfl
  have hp₁ : p₁.ahead = ts ++ c :: rest := Parser.ahead_after hp
  have hc : (p₁.past ts).ahead = c :: rest := Parser.ahead_past hp₁
  obtain ⟨wrap, last, rfl, hrun⟩ := inner p₁ (c :: rest) hd₁ hp₁
  have hstop : ∀ lookup : String → Option BinOp, lookup ")" = none → (p₁.past ts).operator? lookup = none :=
    fun lookup h => operator?_closing _ c rest hc closing lookup h
  rw [run_resume_of_none _ _ _ _ (hstop _ (by decide)) (hstop _ (by decide))] at hrun
  rw [factorAt_of_room p (hd ▸ room), run_factorWith_parenthesis _ p o _ hp opening]
  calc (group (expressionAt p.opened.levels) o).run p
      = (expressionAt p₁.levels >>= close o).run p₁ := run_group _ p o _ hp
    _ = (close o (wrap last)).run (p₁.past ts) := run_bind_ok _ _ _ _ _ hrun
    _ = .ok (wrap last) ((p₁.past ts).closed.after c) := run_close o c _ _ rest hc closing
    _ = .ok (wrap last) (p.past (o :: (ts ++ [c]))) := by
        rw [Parser.past_opened, Parser.closed_opened, Parser.past_after, Parser.after_past]; rfl

theorem runs_product {depth : Nat} {ts us : List Token} {o : Token} {op : BinOp} {l r : Node}
    (left : TermRuns depth ts l) (hts : ts ≠ []) (kind : o.kind = .operator)
    (spelling : BinOp.multiplicative? o.text = some op) (joins : Joins depth ts o)
    (right : FactorRuns depth us r) : TermRuns depth (ts ++ o :: us) (.binary op l r) := by
  intro p rest hd hp
  rw [List.append_assoc, List.cons_append] at hp
  let p₁ := p.past ts
  have hp₁ : p₁.ahead = o :: (us ++ rest) := Parser.ahead_past hp
  have hop : p₁.operator? BinOp.multiplicative? = some op := by
    rw [operator?_past p ts _ o _ hp hts kind (hd ▸ joins), spelling]
  have hstep := run_more_of_some _ _ l p₁ op o (us ++ rest) (forward_factorAt p₁) hop hp₁
  have hright := right (p₁.after o) rest hd (Parser.ahead_after hp₁)
  calc (termAt p.levels).run p
      = (more BinOp.multiplicative? (factorAt p₁.levels) l).run p₁ := left p _ hd hp
    _ = (more BinOp.multiplicative? (factorAt p₁.levels) (.binary op l r)).run ((p₁.after o).past us) := by
        rw [hstep]
        exact run_bind_ok _ _ _ _ _ hright
    _ = (more BinOp.multiplicative? (factorAt p.levels) (.binary op l r)).run (p.past (ts ++ o :: us)) := by
        rw [Parser.after_past, Parser.past_past, List.append_assoc]; rfl

theorem runs_sum {depth : Nat} {ts us : List Token} {o : Token} {op : BinOp} {l r : Node}
    (left : ExpressionRuns depth ts l) (hts : ts ≠ []) (kind : o.kind = .operator)
    (spelling : BinOp.additive? o.text = some op) (joins : Joins depth ts o)
    (right : TermRuns depth us r) : ExpressionRuns depth (ts ++ o :: us) (.binary op l r) := by
  intro p rest hd hp
  rw [List.append_assoc, List.cons_append] at hp
  let p₁ := p.past ts
  have hp₁ : p₁.ahead = o :: (us ++ rest) := Parser.ahead_past hp
  have hop : ∀ lookup, p₁.operator? lookup = lookup o.text :=
    fun lookup => operator?_past p ts _ o lookup hp hts kind (hd ▸ joins)
  have hmul : p₁.operator? BinOp.multiplicative? = none := (hop _).trans (multiplicative?_eq_none _ _ spelling)
  have hadd : p₁.operator? BinOp.additive? = some op := (hop _).trans spelling
  have hright := right (p₁.after o) rest hd (Parser.ahead_after hp₁)
  obtain ⟨wrap, last, rfl, hl⟩ := left p _ hd hp
  -- the term on the right is the last one now, and it may grow by factors
  refine ⟨fun term => .binary op (wrap last) term, r, rfl, ?_⟩
  calc (expressionAt p.levels).run p
      = (resume p₁.levels wrap last).run p₁ := hl
    _ = (termAt p₁.levels >>= fun term => more BinOp.additive? (termAt p₁.levels) (.binary op (wrap last) term)).run
          (p₁.after o) := run_resume_of_additive wrap last p₁ op o _ hp₁ hmul hadd
    _ = (resume p₁.levels (fun term => .binary op (wrap last) term) r).run ((p₁.after o).past us) := by
        rw [resume, EStateM.run_bind, EStateM.run_bind, show (termAt p₁.levels).run _ = _ from hright]; rfl
    _ = (resume p.levels (fun term => .binary op (wrap last) term) r).run (p.past (ts ++ o :: us)) := by
        rw [Parser.after_past, Parser.past_past, List.append_assoc]; rfl

/-- A derivation drives the rule of its level. -/
theorem Derives.runs {level : Level} {depth : Nat} {ts : List Token} {n : Node} (d : Derives level depth ts n) :
    level.Runs depth ts n := by
  induction d with
  | integer kind value =>
    intro p rest hd hp
    obtain ⟨parenthesis, h⟩ := exists_factorAt_eq p.levels
    rw [h]
    exact run_factorWith_integer parenthesis p _ rest hp _ kind value
  | name kind =>
    intro p rest hd hp
    obtain ⟨parenthesis, h⟩ := exists_factorAt_eq p.levels
    rw [h]
    exact run_factorWith_name parenthesis p _ rest hp kind
  | group room opening _ closing ih => exact runs_group room opening ih closing
  | factor _ ih =>
    intro p rest hd hp
    rw [termAt_eq, run_bind_ok _ _ _ _ _ (ih p rest hd hp)]
  | product left kind spelling joins _ ihl ihr => exact runs_product ihl left.ne_nil kind spelling joins ihr
  | term _ ih =>
    intro p rest hd hp
    refine ⟨id, _, rfl, ?_⟩
    rw [expressionAt_eq, resume, EStateM.run_bind, EStateM.run_bind, ih p rest hd hp]
    rfl
  | sum left kind spelling joins _ ihl ihr => exact runs_sum ihl left.ne_nil kind spelling joins ihr

/-! ## Statements -/

/-- Outside parentheses a token below the tokens `ts` does not go on with them. -/
theorem not_continues_past (p : Parser) (ts rest : List Token) (hts : ts ≠ []) (hd : p.depth = 0)
    (below : Below ts rest) : ∀ u ∈ rest.head?, (p.past ts).continues u = false := by
  intro u hu
  rw [Bool.eq_false_iff]
  intro hc
  exact not_joins_of_below hts below u hu (hd ▸ (Parser.continues_past_iff p ts hts u).1 hc)

/-- No operator goes on with the tokens taken. -/
theorem operator?_of_stop (p : Parser) (ts rest : List Token) (hp : p.ahead = ts ++ rest) (hts : ts ≠ [])
    (lookup : String → Option BinOp)
    (known : ∀ text op, lookup text = some op → BinOp.additive? text = some op ∨ BinOp.multiplicative? text = some op)
    (stop : ∀ t ∈ rest.head?, ¬ GoesOn p.depth ts t) : (p.past ts).operator? lookup = none := by
  cases hop : (p.past ts).operator? lookup with
  | none => rfl
  | some op =>
    obtain ⟨o, us, hrest, kind, continues, spelling⟩ := Parser.operator?_eq_some _ lookup op hop
    rw [Parser.ahead_past hp] at hrest
    have joins := (Parser.continues_past_iff p ts hts o).1 continues
    exact absurd ⟨kind, ⟨op, known _ _ spelling⟩, joins⟩ (stop o (by rw [hrest]; rfl))

theorem run_expressionAt_of_stop {depth : Nat} {ts : List Token} {n : Node} (d : Derives .expression depth ts n)
    (p : Parser) (rest : List Token) (hd : p.depth = depth) (hp : p.ahead = ts ++ rest)
    (stop : ∀ t ∈ rest.head?, ¬ GoesOn depth ts t) : (expressionAt p.levels).run p = .ok n (p.past ts) := by
  subst hd
  obtain ⟨wrap, last, rfl, h⟩ := d.runs p rest rfl hp
  rw [h, run_resume_of_none]
  · exact operator?_of_stop p ts rest hp d.ne_nil _ (fun _ _ => Or.inr) stop
  · exact operator?_of_stop p ts rest hp d.ne_nil _ (fun _ _ => Or.inl) stop

/-- No assignment starts with an expression, unless an equals sign follows its only token. -/
theorem startsAssignment_of_derives {start : Token} {ts : List Token} {n : Node}
    (d : Derives .expression 0 (start :: ts) n) (p : Parser) (rest : List Token) (hp : p.ahead = start :: ts ++ rest)
    (alone : ts = [] → ∀ e ∈ rest.head?, e.isOperator "=" = true → start.kind = .identifier → e.line ≠ start.line) :
    p.startsAssignment = false := by
  rw [Bool.eq_false_iff]
  intro h
  obtain ⟨t, e, rest', hp', kind, equals, line⟩ := (startsAssignment_iff p).1 h
  rw [hp', List.cons_append] at hp
  obtain ⟨rfl, hrest⟩ := List.cons.inj hp
  cases ts with
  | nil =>
    rw [List.nil_append] at hrest
    exact alone rfl e (by rw [← hrest]; rfl) equals kind line
  | cons u us =>
    obtain rfl : e = u := (List.cons.inj hrest).1
    rw [d.not_equalsSign e (List.mem_cons_of_mem _ List.mem_cons_self)] at equals
    cases equals

/-- A statement is read to its end. -/
theorem Ends.runs {ts rest : List Token} {n : Node} (s : Ends ts rest n) (p : Parser) (hd : p.depth = 0)
    (hp : p.ahead = ts ++ rest) : Rule.statement.run p = .ok n (p.past ts) := by
  cases s with
  | expression d stop =>
    obtain ⟨start, us, rfl⟩ := List.exists_cons_of_ne_nil d.ne_nil
    have hs : p.startsAssignment = false := by
      refine startsAssignment_of_derives d p rest hp fun hus e he equals _ line => (stop e he).2 ⟨equals, Or.inr ?_⟩
      subst hus
      intro t ht
      cases ht
      exact Nat.le_of_eq line
    have hvalue := (run_expression p).trans (run_expressionAt_of_stop d p rest hd hp fun t ht => (stop t ht).1)
    rw [run_statement_of_expression p start _ hp hs, run_bind_ok _ _ _ _ _ hvalue]
    refine run_settle _ _ _ fun t ht equals => ?_
    rw [Parser.ahead_past hp] at ht
    rw [Bool.eq_false_iff]
    intro hc
    exact (stop t ht).2 ⟨equals, hd ▸ (Parser.continues_past_iff p _ d.ne_nil t).1 hc⟩
  | @assignment t e ts rest n kind equals line d stop =>
    rw [List.cons_append, List.cons_append] at hp
    have hs : p.startsAssignment = true := (startsAssignment_iff p).2 ⟨t, e, _, hp, kind, equals, line⟩
    have hp' : (p.past [t, e]).ahead = ts ++ rest := Parser.ahead_past_pair hp
    have hvalue := (run_expression _).trans (run_expressionAt_of_stop d (p.past [t, e]) rest hd hp' stop)
    rw [run_statement_of_assignment p hs, run_assignment p t e _ hp kind equals,
      run_bind_ok _ _ _ _ _ hvalue, Parser.past_past]
    rfl

theorem Statement.runs {ts : List Token} {n : Node} (s : Statement ts n) (p : Parser) (rest : List Token)
    (hd : p.depth = 0) (hp : p.ahead = ts ++ rest) (below : Below ts rest) :
    Rule.statement.run p = .ok n (p.past ts) :=
  (s.ends below).runs p hd hp

/-! ## Programs -/

theorem length_le_length_flatten {parts : List (List Token)} {nodes : List Node}
    (statements : List.Forall₂ Statement parts nodes) : parts.length ≤ parts.flatten.length := by
  induction statements with
  | nil => exact Nat.le_refl _
  | cons statement _ ih =>
    have := List.length_pos_iff.2 statement.ne_nil
    rw [List.flatten_cons, List.length_append, List.length_cons]
    omega

/-- What comes after the tokens `ts` begins with the next part. -/
theorem below_flatten_append {parts : List (List Token)} {nodes : List Node} {ts rest : List Token}
    (statements : List.Forall₂ Statement parts nodes) (chain : (ts :: (parts ++ [rest])).IsChain Below) :
    Below ts (parts.flatten ++ rest) := by
  cases statements with
  | nil => exact (List.isChain_cons_cons.1 chain).1
  | @cons us n parts nodes statement _ =>
    obtain ⟨u, us, rfl⟩ := List.exists_cons_of_ne_nil statement.ne_nil
    have hbelow : Below ts (u :: us) := (List.isChain_cons_cons.1 chain).1
    intro t ht v hv
    exact hbelow t ht v (by simpa using hv)

/-- The parts of the tokens ahead are read one by one, and then what follows them. -/
theorem runs_furtherStatements {parts : List (List Token)} {nodes : List Node} {ts rest : List Token}
    (statements : List.Forall₂ Statement parts nodes) (chain : (ts :: (parts ++ [rest])).IsChain Below)
    (hts : ts ≠ []) (bound : Nat) (p : Parser) (hd : p.depth = 0) (hp : p.ahead = ts ++ (parts.flatten ++ rest)) :
    (furtherStatements (parts.length + bound)).run (p.past ts)
      = (furtherStatements bound >>= fun further => pure (nodes ++ further) : Rule (List Node)).run
          (p.past (ts ++ parts.flatten)) := by
  induction statements generalizing ts p with
  | nil =>
    rw [List.flatten_nil, List.append_nil, List.length_nil, Nat.zero_add]
    simp only [List.nil_append]
    rw [bind_pure]
  | @cons us n parts nodes statement statements ih =>
    obtain ⟨hbelow, chain⟩ := List.isChain_cons_cons.1 chain
    obtain ⟨u, us', hus⟩ := List.exists_cons_of_ne_nil statement.ne_nil
    let p₁ := p.past ts
    rw [List.flatten_cons, List.append_assoc] at hp
    have hp₁ : p₁.ahead = us ++ (parts.flatten ++ rest) := Parser.ahead_past hp
    have hp₁' : p₁.ahead = u :: (us' ++ (parts.flatten ++ rest)) := by rw [hp₁, hus, List.cons_append]
    have hbelow' : Below ts (us ++ (parts.flatten ++ rest)) := by
      intro t ht v hv
      exact hbelow t ht v (by rw [hus] at hv ⊢; simpa using hv)
    have hstop := not_continues_past p ts _ hts hd hbelow' u (by rw [hus]; rfl)
    have hrun := statement.runs p₁ (parts.flatten ++ rest) hd hp₁ (below_flatten_append statements chain)
    rw [List.flatten_cons, List.length_cons, Nat.add_right_comm]
    rw [run_furtherStatements_cons _ p₁ u _ hp₁' hstop, run_bind_ok _ _ _ _ _ hrun]
    rw [EStateM.run_bind, ih chain statement.ne_nil p₁ hd hp₁, Parser.past_past, ← List.append_assoc]
    rw [EStateM.run_bind, EStateM.run_bind]
    cases (furtherStatements bound).run _ with
    | ok a q => rfl
    | error d q => rfl

/-- A program reads the parts of the tokens ahead one by one, and then what follows them. -/
theorem runs_program {part : List Token} {parts : List (List Token)} {node : Node} {nodes : List Node}
    {rest : List Token} (statement : Statement part node) (statements : List.Forall₂ Statement parts nodes)
    (chain : (part :: (parts ++ [rest])).IsChain Below) (p : Parser) (hd : p.depth = 0)
    (hp : p.ahead = part ++ (parts.flatten ++ rest)) :
    ∃ bound, rest.length ≤ bound ∧ program.run p
      = (furtherStatements bound >>= fun further => pure ⟨node :: (nodes ++ further)⟩ : Rule Program).run
          (p.past (part ++ parts.flatten)) := by
  obtain ⟨t, ts, hpart⟩ := List.exists_cons_of_ne_nil statement.ne_nil
  have hp' : p.ahead = t :: (ts ++ (parts.flatten ++ rest)) := by rw [hp, hpart, List.cons_append]
  have hrun := statement.runs p (parts.flatten ++ rest) hd hp (below_flatten_append statements chain)
  have hlen := length_le_length_flatten statements
  obtain ⟨bound, hb⟩ : ∃ bound, (parts.flatten ++ rest).length = parts.length + bound :=
    ⟨(parts.flatten ++ rest).length - parts.length, by rw [List.length_append]; omega⟩
  refine ⟨bound, ?_, ?_⟩
  · rw [List.length_append] at hb
    omega
  · rw [run_program_cons p t _ hp', run_bind_ok _ _ _ _ _ hrun, run_bind_ok _ _ _ _ _ (EStateM.run_get _),
      Parser.ahead_past hp, hb, EStateM.run_bind,
      runs_furtherStatements statements chain statement.ne_nil bound p hd hp, EStateM.run_bind, EStateM.run_bind]
    cases (furtherStatements bound).run _ with
    | ok a q => rfl
    | error d q => rfl

end Grammar

/-! ## Acceptance -/

open Grammar (Statement Statements)

theorem Rule.onTokens_eq_ok_iff {α : Type} (rule : Rule α) (tokens : List Token) (a : α) :
    rule.onTokens tokens = .ok a ↔ ∃ q, rule.run (.ofTokens tokens) = .ok a q := by
  unfold onTokens
  cases rule.run (.ofTokens tokens) with
  | ok b q => simp
  | error d q => simp

theorem Rule.onTokens_eq_error_iff {α : Type} (rule : Rule α) (tokens : List Token) (d : Diagnostic) :
    rule.onTokens tokens = .error d ↔ ∃ q, rule.run (.ofTokens tokens) = .error d q := by
  unfold onTokens
  cases rule.run (.ofTokens tokens) with
  | ok b q => simp
  | error d q => simp

theorem parse_eq_ok_iff (tokens : List Token) (n : Node) :
    parse tokens = .ok n ↔ Statement (liveTokens tokens) n := by
  rw [parse, Rule.onTokens_eq_ok_iff]
  constructor
  · rintro ⟨q, h⟩
    obtain ⟨hn, hq⟩ := (Rule.run_soleStatement_eq_ok_iff _ _ _).1 h
    obtain ⟨ts, hts, statement, -⟩ := Rule.reads_statement _ _ _ rfl hn
    rw [hq, List.append_nil, ahead_ofTokens] at hts
    exact hts ▸ statement
  · intro statement
    have hp : (Parser.ofTokens tokens).ahead = liveTokens tokens ++ [] := (List.append_nil _).symm
    have hrun := statement.runs (.ofTokens tokens) [] rfl hp fun _ _ _ h => by cases h
    exact ⟨_, (Rule.run_soleStatement_eq_ok_iff _ _ _).2 ⟨hrun, Parser.ahead_past hp⟩⟩

theorem statements_of_parseProgram (tokens : List Token) (body : List Node) (h : parseProgram tokens = .ok ⟨body⟩) :
    Statements (liveTokens tokens) body := by
  obtain ⟨q, h⟩ := (Rule.onTokens_eq_ok_iff _ _ _).1 h
  cases hp : (Parser.ofTokens tokens).ahead with
  | nil =>
    rw [Rule.run_program_nil _ hp] at h
    cases h
    exact ⟨[], by rw [← ahead_ofTokens, hp, List.flatten_nil], .nil, .nil⟩
  | cons t rest =>
    rw [Rule.run_program_cons _ t rest hp] at h
    obtain ⟨node, r, hnode, hr⟩ := Rule.run_bind_eq_ok _ _ _ _ _ h
    rw [Rule.run_bind_ok _ _ _ _ _ (EStateM.run_get r)] at hr
    obtain ⟨nodes, r', hnodes, hq⟩ := Rule.run_bind_eq_ok _ _ _ _ _ hr
    cases hq
    obtain ⟨ts, hts, statement, hpast⟩ := Rule.reads_statement _ _ _ rfl hnode
    have hlast : r.lastLine = ts.getLast?.map (·.line) := by
      rw [hpast, Parser.lastLine_past _ _ statement.ne_nil]
    obtain ⟨parts, hparts, statements, chain⟩ :=
      Rule.reads_furtherStatements _ r _ nodes ts (by rw [hpast]; rfl) hlast (Nat.le_refl _) hnodes
    exact ⟨ts :: parts, by rw [List.flatten_cons, hparts, ← hts, ahead_ofTokens], .cons statement statements, chain⟩

theorem parseProgram_of_statements (tokens : List Token) (body : List Node)
    (h : Statements (liveTokens tokens) body) : parseProgram tokens = .ok ⟨body⟩ := by
  obtain ⟨parts, hparts, statements, chain⟩ := h
  refine (Rule.onTokens_eq_ok_iff _ _ _).2 ?_
  cases statements with
  | nil => exact ⟨_, Rule.run_program_nil _ hparts.symm⟩
  | @cons part node parts nodes statement statements =>
    have hp : (Parser.ofTokens tokens).ahead = part ++ (parts.flatten ++ []) := by
      rw [ahead_ofTokens, ← hparts, List.flatten_cons, List.append_nil]
    have chain' : (part :: (parts ++ [[]])).IsChain Grammar.Below :=
      (Grammar.isChain_append_singleton_iff (.cons statement statements)).2 ⟨chain, Grammar.below_nil_right _⟩
    obtain ⟨bound, -, hrun⟩ := Grammar.runs_program statement statements chain' (.ofTokens tokens) rfl hp
    rw [← List.append_assoc] at hp
    rw [Rule.run_bind_ok _ _ _ _ _ (Rule.run_furtherStatements_nil bound _ (Parser.ahead_past hp)),
      List.append_nil] at hrun
    exact ⟨_, hrun⟩

/-- The tokens of a statement hold no end mark, so all of them are read. -/
theorem Grammar.Statement.parse_eq {ts : List Token} {n : Node} (h : Statement ts n) : parse ts = .ok n := by
  rw [parse_eq_ok_iff, liveTokens_eq_self ts fun t ht => (h.usable t ht).not_isEnd]
  exact h

theorem Grammar.Statements.parseProgram_eq {ts : List Token} {body : List Node} (h : Statements ts body) :
    parseProgram ts = .ok ⟨body⟩ := by
  refine parseProgram_of_statements ts body ?_
  rwa [liveTokens_eq_self ts fun t ht => (h.usable t ht).not_isEnd]

/-- The parser accepts exactly the grammar, and what it returns is the tree of the derivation: of one statement, and
of a list of statements on lines of their own. -/
theorem parse_and_parseProgram_accept_grammar (tokens : List Token) :
    (∀ n, parse tokens = .ok n ↔ Statement (liveTokens tokens) n) ∧
      ∀ body, parseProgram tokens = .ok ⟨body⟩ ↔ Statements (liveTokens tokens) body :=
  ⟨parse_eq_ok_iff tokens, fun body => ⟨statements_of_parseProgram tokens body, parseProgram_of_statements tokens body⟩⟩

end ExprLang
