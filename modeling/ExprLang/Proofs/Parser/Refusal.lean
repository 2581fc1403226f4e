import ExprLang.Proofs.Parser.Failure

/-!
# Statements and programs that are refused

The parser refuses a list of tokens exactly if the grammar is stuck in it, and what it says is what the grammar says.

* `Rule.breaks_statement`, `Rule.breaks_program` : a statement or a program that fails is stuck;
* `Grammar.StuckStatement.runs`, `Grammar.StuckProgram.runs` : one that is stuck fails;
* `Grammar.run_program_of_statements` : a program comes to the statement after those that it has read;
* `parse_eq_error_iff`, `parseProgram_eq_error_iff` : refusal;
* `parse_eq_mapError`, `parseProgram_eq_mapError` : tokens that are read alike, up to what a refusal says.
-/

namespace ExprLang

namespace Rule

open Grammar (Level Derives Statement Statements Below Ends GoesOn Stuck StuckStatement StuckSole StuckProgram)

variable {endLine : Nat}

/-! ## Statements -/

theorem run_expression_end (p : Parser) (hp : p.ahead = []) :
    expression.run p = .error ⟨.unexpectedEnd operandNames, p.endLine, none⟩ p := by
  obtain ⟨parenthesis, h⟩ := exists_factorAt_eq p.levels
  have hfactor : (factorAt p.levels).run p = .error ⟨.unexpectedEnd operandNames, p.endLine, none⟩ p := by
    rw [h, run_factorWith_end parenthesis p hp]
  rw [run_expression, expressionAt_eq]
  refine run_bind_error _ _ _ _ _ ?_
  rw [termAt_eq]
  exact run_bind_error _ _ _ _ _ hfactor

theorem run_statement_end (p : Parser) (hp : p.ahead = []) : statement.run p = expression.run p := by
  have hc : p.current = none := Parser.current_of_nil hp
  have hline : p.line = p.endLine := Parser.line_of_nil hp
  rw [run_expression_end p hp, statement, run_bind_ok _ _ p p p (EStateM.run_get p)]
  simp only [hc]
  rw [run_bind_ok _ _ p p p (EStateM.run_get p), Parser.endOfInput, hline]
  rfl

theorem run_settle_error (start e : Token) (value : Node) (p : Parser) (rest : List Token) (hp : p.ahead = e :: rest)
    (equals : e.isOperator "=" = true) (continues : p.continues e = true) :
    (settle start value).run p = .error (.atToken (.malformedTarget value.text) start) p := by
  rw [settle, run_bind_ok _ _ p p p (EStateM.run_get p)]
  simp only [Parser.current_of_cons hp, equals, continues, Bool.and_self, if_true]
  rfl

theorem run_settle_eq_error (start : Token) (value : Node) (p q : Parser) (d : Diagnostic)
    (h : (settle start value).run p = .error d q) :
    ∃ e rest, p.ahead = e :: rest ∧ e.isOperator "=" = true ∧ p.continues e = true ∧ q = p ∧
      d = .atToken (.malformedTarget value.text) start := by
  have hnot : ¬ ∀ t ∈ p.ahead.head?, t.isOperator "=" = true → p.continues t = false := by
    intro hnot
    rw [run_settle start value p hnot] at h
    cases h
  push Not at hnot
  obtain ⟨e, he, equals, continues⟩ := hnot
  rw [ne_eq, Bool.not_eq_false] at continues
  have hp : p.ahead = e :: p.ahead.tail := (List.cons_head?_tail he).symm
  rw [run_settle_error start e value p _ hp equals continues] at h
  cases h
  exact ⟨e, _, hp, equals, continues, rfl, rfl⟩

theorem breaks_expression (p q : Parser) (d : Diagnostic) (he : p.endLine = endLine) (hd : p.depth = 0)
    (h : expression.run p = .error d q) : ∃ ts, p.ahead = ts ++ q.ahead ∧ Stuck endLine .expression 0 ts q.ahead d := by
  rw [run_expression] at h
  exact breaks_expressionAt p.levels (by rw [Parser.levels, hd]) p d q he hd h

/-- An equals sign is left after an expression that begins no assignment. -/
theorem stuck_target (p : Parser) {start e : Token} {ts rest : List Token} {value : Node} (hd : p.depth = 0)
    (hp : p.ahead = start :: ts ++ e :: rest) (hs : p.startsAssignment = false)
    (derives : Derives .expression 0 (start :: ts) value) (equals : e.isOperator "=" = true)
    (continues : (p.past (start :: ts)).continues e = true) :
    StuckStatement endLine (start :: ts) (e :: rest) (.atToken (.malformedTarget value.text) start) := by
  have joins := (Parser.continues_past_iff p _ derives.ne_nil e).1 continues
  refine .target derives equals (hd ▸ joins) fun hts kind line => ?_
  subst hts
  have hassignment := (startsAssignment_iff p).2 ⟨start, e, rest, hp, kind, equals, line⟩
  rw [hs] at hassignment
  cases hassignment

/-- A statement that fails is stuck. -/
theorem breaks_statement : Breaks endLine 0 (StuckStatement endLine) statement := by
  intro p d q he hd h
  cases hp : p.ahead with
  | nil =>
    rw [run_statement_end p hp] at h
    obtain ⟨ts, hts, stuck⟩ := breaks_expression p q d he hd h
    exact ⟨ts, by rw [← hts, hp], .expression stuck⟩
  | cons start rest =>
    cases hs : p.startsAssignment with
    | true =>
      obtain ⟨t, e, rest', hp', kind, equals, line⟩ := (startsAssignment_iff p).1 hs
      rw [run_statement_of_assignment p hs, run_assignment p t e rest' hp' kind equals] at h
      rcases run_bind_eq_error _ _ _ _ _ h with h | ⟨value, r, -, h⟩
      · have he' : (p.past [t, e]).endLine = endLine := (Parser.endLine_past_pair hp').trans he
        obtain ⟨ts, hts, stuck⟩ := breaks_expression (p.past [t, e]) q d he' hd h
        rw [Parser.ahead_past_pair hp'] at hts
        exact ⟨t :: e :: ts, by rw [← hp, hp', hts, List.cons_append, List.cons_append],
          .assignment kind equals line stuck⟩
      · cases h
    | false =>
      rw [run_statement_of_expression p start rest hp hs] at h
      rcases run_bind_eq_error _ _ _ _ _ h with h | ⟨value, r, hvalue, h⟩
      · obtain ⟨ts, hts, stuck⟩ := breaks_expression p q d he hd h
        exact ⟨ts, by rw [← hts, hp], .expression stuck⟩
      · obtain ⟨e, rest', hr, equals, continues, rfl, rfl⟩ := run_settle_eq_error _ _ _ _ _ h
        rw [run_expression] at hvalue
        obtain ⟨ts, hts, derives, hpast⟩ :=
          reads_expressionAt p.levels 0 (by rw [Parser.levels, hd]) p value q hd hvalue
        obtain ⟨us, rfl, hrest⟩ : ∃ us, ts = start :: us ∧ rest = us ++ q.ahead := by
          obtain ⟨u, us, rfl⟩ := List.exists_cons_of_ne_nil derives.ne_nil
          rw [hp, List.cons_append] at hts
          obtain ⟨rfl, hrest⟩ := List.cons.inj hts
          exact ⟨us, rfl, hrest⟩
        rw [hpast] at continues
        rw [hr] at hts ⊢
        exact ⟨start :: us, by rw [hrest, hr, List.cons_append], stuck_target p hd hts hs derives equals continues⟩

/-- A statement ends where nothing goes on with it. -/
theorem ends_statement (p q : Parser) (n : Node) (hd : p.depth = 0) (h : statement.run p = .ok n q) :
    ∃ ts, p.ahead = ts ++ q.ahead ∧ Ends ts q.ahead n ∧ q = p.past ts := by
  have hlevels : maxNesting - 0 = p.levels := by rw [Parser.levels, hd]
  obtain ⟨start, rest, hp⟩ := run_statement_eq_ok p q n h
  cases hs : p.startsAssignment with
  | true =>
    obtain ⟨t, e, rest, hp, kind, equals, line⟩ := (startsAssignment_iff p).1 hs
    rw [run_statement_of_assignment p hs, run_assignment p t e rest hp kind equals] at h
    obtain ⟨value, r, hvalue, hn⟩ := run_bind_eq_ok _ _ _ _ _ h
    cases hn
    rw [run_expression] at hvalue
    obtain ⟨ts, hts, derives, hr⟩ := reads_expressionAt p.levels 0 hlevels (p.past [t, e]) value q hd hvalue
    have stop := not_goesOn_of_run (p := p.past [t, e]) derives hd hts hvalue rfl
    rw [Parser.ahead_past_pair hp] at hts
    rw [Parser.past_past] at hr
    exact ⟨t :: e :: ts, by rw [hp, hts, List.cons_append, List.cons_append],
      .assignment kind equals line derives stop, hr⟩
  | false =>
    rw [run_statement_of_expression p start rest hp hs] at h
    obtain ⟨value, r, hvalue, hn⟩ := run_bind_eq_ok _ _ _ _ _ h
    obtain ⟨rfl, rfl⟩ := run_settle_eq_ok _ _ _ _ _ hn
    rw [run_expression] at hvalue
    obtain ⟨ts, hts, derives, hq⟩ := reads_expressionAt p.levels 0 hlevels p n q hd hvalue
    have stop := not_goesOn_of_run derives hd hts hvalue rfl
    refine ⟨ts, hts, .expression derives fun t ht => ⟨stop t ht, ?_⟩, hq⟩
    rintro ⟨equals, joins⟩
    obtain ⟨us, hus⟩ : ∃ us, q.ahead = t :: us := ⟨_, (List.cons_head?_tail ht).symm⟩
    have continues : q.continues t = true := by
      rw [hq]
      exact (Parser.continues_past_iff p ts derives.ne_nil t).2 (hd.symm ▸ joins)
    rw [run_settle_error start t n q us hus equals continues] at hn
    cases hn

theorem breaks_soleStatement : Breaks endLine 0 (StuckSole endLine) soleStatement := by
  intro p d q he hd h
  rcases run_bind_eq_error _ _ _ _ _ h with h | ⟨n, r, hn, h⟩
  · obtain ⟨ts, hts, stuck⟩ := breaks_statement p d q he hd h
    exact ⟨ts, hts, .statement stuck⟩
  · obtain ⟨ts, hts, ends, -⟩ := ends_statement p r n hd hn
    rw [run_bind_ok _ _ r r r (EStateM.run_get r)] at h
    cases hr : r.ahead with
    | nil =>
      simp only [Parser.current_of_nil hr] at h
      cases h
    | cons t rest =>
      simp only [Parser.current_of_cons hr] at h
      cases h
      exact ⟨ts, hts, by rw [hr] at ends ⊢; exact .left ends⟩

/-! ## Programs -/

theorem run_furtherStatements_of_continues (bound : Nat) (p : Parser) (t : Token) (rest : List Token)
    (hp : p.ahead = t :: rest) (continues : p.continues t = true) :
    (furtherStatements (bound + 1)).run p = .error t.unexpected p := by
  rw [furtherStatements, run_bind_ok _ _ p p p (EStateM.run_get p)]
  simp only [Parser.current_of_cons hp, continues, if_true]
  rfl

/-- After the statements `ts` and the statement `us`, a failure is that of a list of statements. -/
theorem breaks_furtherStatements (bound : Nat) (p q : Parser) (d : Diagnostic) (ts us : List Token) (body : List Node)
    (n : Node) (he : p.endLine = endLine) (hd : p.depth = 0) (hl : p.lastLine = us.getLast?.map (·.line))
    (before : Statements ts body) (below : Below ts us) (ends : Ends us p.ahead n) (hb : p.ahead.length ≤ bound)
    (h : (furtherStatements bound).run p = .error d q) :
    ∃ vs, p.ahead = vs ++ q.ahead ∧ StuckProgram endLine (ts ++ us ++ vs) q.ahead d := by
  induction bound generalizing p ts us body n with
  | zero => cases h
  | succ bound ih =>
    have hus := ends.statement.ne_nil
    cases hp : p.ahead with
    | nil =>
      rw [run_furtherStatements_nil _ p hp] at h
      cases h
    | cons t rest =>
      rw [hp] at ends
      cases hc : p.continues t with
      | true =>
        have joins : Grammar.Joins 0 us t := hd ▸ (Parser.continues_iff p us hus hl t).1 hc
        rw [run_furtherStatements_of_continues bound p t rest hp hc] at h
        cases h
        refine ⟨[], hp.symm, ?_⟩
        rw [List.append_nil, hp]
        exact .left before below ends ((Grammar.joins_iff_not_below hus).1 joins)
      | false =>
        have before' := before.append (Grammar.statements_singleton ends.statement) below
        have hnext : Below us (t :: rest) := by
          intro u hu v hv
          rw [← Option.some.inj hv]
          exact below_of_not_continues p us t hl hc u hu
        have hbelow : Below (ts ++ us) (t :: rest) := hnext.append_left fun hnil => absurd hnil hus
        rw [run_furtherStatements_cons bound p t rest hp hc] at h
        rcases run_bind_eq_error _ _ _ _ _ h with h | ⟨node, r, hnode, h⟩
        · obtain ⟨vs, hvs, stuck⟩ := breaks_statement p d q he hd h
          rw [hp] at hvs
          refine ⟨vs, hvs, .statement before' (hvs ▸ hbelow) ?_ stuck⟩
          rw [← hvs]
          exact List.cons_ne_nil _ _
        · obtain ⟨vs, hvs, ends', hr⟩ := ends_statement p r node hd hnode
          rw [hp] at hvs
          have hne := ends'.statement.ne_nil
          have hlen : r.ahead.length ≤ bound := by
            have hshort := List.length_pos_iff.2 hne
            have := congrArg List.length hvs
            rw [List.length_append, List.length_cons] at this
            rw [hp, List.length_cons] at hb
            omega
          have hlast : r.lastLine = vs.getLast?.map (·.line) := by
            rw [hr, Parser.lastLine_past _ _ hne]
          rcases run_bind_eq_error _ _ _ _ _ h with h | ⟨nodes, r', -, h⟩
          · have her : r.endLine = endLine := by rw [hr, Parser.endLine_past (hp.trans hvs), he]
            obtain ⟨ws, hws, stuck⟩ := ih r (ts ++ us) vs _ node her (by rw [hr]; exact hd) hlast before'
              (hvs ▸ hbelow).of_append ends' hlen h
            rw [List.append_assoc (ts ++ us)] at stuck
            exact ⟨vs ++ ws, by rw [hvs, hws, List.append_assoc], stuck⟩
          · cases h

/-- A program that fails is stuck. -/
theorem breaks_program : Breaks endLine 0 (StuckProgram endLine) program := by
  intro p d q he hd h
  cases hp : p.ahead with
  | nil =>
    rw [run_program_nil p hp] at h
    cases h
  | cons t rest =>
    rw [run_program_cons p t rest hp] at h
    rcases run_bind_eq_error _ _ _ _ _ h with h | ⟨node, r, hnode, h⟩
    · obtain ⟨ts, hts, stuck⟩ := breaks_statement p d q he hd h
      rw [hp] at hts
      refine ⟨ts, hts, .statement .nil (Grammar.below_nil_left _) ?_ stuck⟩
      rw [← hts]
      exact List.cons_ne_nil _ _
    · obtain ⟨ts, hts, ends, hr⟩ := ends_statement p r node hd hnode
      rw [run_bind_ok _ _ r r r (EStateM.run_get r)] at h
      have hlast : r.lastLine = ts.getLast?.map (·.line) := by
        rw [hr, Parser.lastLine_past _ _ ends.statement.ne_nil]
      rcases run_bind_eq_error _ _ _ _ _ h with h | ⟨nodes, r', -, h⟩
      · have her : r.endLine = endLine := by rw [hr, Parser.endLine_past hts, he]
        have hdr : r.depth = 0 := by rw [hr]; exact hd
        obtain ⟨vs, hvs, stuck⟩ := breaks_furtherStatements _ r q d [] ts [] node her hdr hlast .nil
          (Grammar.below_nil_left _) ends (Nat.le_refl _) h
        exact ⟨ts ++ vs, by rw [← hp, hts, hvs, List.append_assoc], stuck⟩
      · cases h

end Rule

namespace Grammar

open Rule

variable {endLine : Nat} {ts rest : List Token} {d : Diagnostic}

/-! ## Statements that are stuck -/

theorem Stuck.run_expression (h : Stuck endLine .expression 0 ts rest d) (p : Parser) (he : p.endLine = endLine)
    (hd : p.depth = 0) (hp : p.ahead = ts ++ rest) : ∃ q, Rule.expression.run p = .error d q ∧ q.ahead = rest := by
  rw [Rule.run_expression]
  exact h.runs p he hd hp

theorem Stuck.startsAssignment (h : Stuck endLine .expression 0 ts rest d) (p : Parser) (hp : p.ahead = ts ++ rest) :
    p.startsAssignment = false := by
  rw [Bool.eq_false_iff]
  intro hs
  obtain ⟨t, e, rest', hp', kind, equals, -⟩ := (startsAssignment_iff p).1 hs
  rw [hp'] at hp
  match ts with
  | [] | [_] =>
    have hname := h.not_name (by simp) t (by rw [← hp]; rfl)
    exact hname kind
  | u :: v :: us =>
    have hv : e = v := (List.cons.inj (List.cons.inj hp).2).1
    rw [hv, h.not_equalsSign v (by simp)] at equals
    cases equals

/-- A statement that is stuck fails, and stops there. -/
theorem StuckStatement.runs (h : StuckStatement endLine ts rest d) (p : Parser) (he : p.endLine = endLine)
    (hd : p.depth = 0) (hp : p.ahead = ts ++ rest) : ∃ q, Rule.statement.run p = .error d q ∧ q.ahead = rest := by
  cases h with
  | expression value =>
    obtain ⟨q, hq, hrest⟩ := value.run_expression p he hd hp
    refine ⟨q, ?_, hrest⟩
    cases hp' : p.ahead with
    | nil => rw [run_statement_end p hp', hq]
    | cons start us =>
      rw [run_statement_of_expression p start us hp' (value.startsAssignment p hp)]
      exact run_bind_error _ _ _ _ _ hq
  | @assignment t e ts _ _ kind equals line value =>
    rw [List.cons_append, List.cons_append] at hp
    have he' : (p.past [t, e]).endLine = endLine := (Parser.endLine_past_pair hp).trans he
    obtain ⟨q, hq, hrest⟩ := value.run_expression (p.past [t, e]) he' hd (Parser.ahead_past_pair hp)
    refine ⟨q, ?_, hrest⟩
    rw [run_statement_of_assignment p ((startsAssignment_iff p).2 ⟨t, e, _, hp, kind, equals, line⟩),
      run_assignment p t e _ hp kind equals]
    exact run_bind_error _ _ _ _ _ hq
  | @target start ts e rest n value equals joins apart =>
    have hs : p.startsAssignment = false :=
      startsAssignment_of_derives value p (e :: rest) hp fun hts e' he' _ kind => by
        cases he'
        exact apart hts kind
    have hstop : ∀ t ∈ (e :: rest).head?, ¬ GoesOn 0 (start :: ts) t := by
      rintro t ht ⟨-, ⟨op, spelling⟩, -⟩
      cases ht
      rw [((Token.isOperator_iff _ _).1 equals).2] at spelling
      rcases spelling with h | h <;> exact absurd h (by simp [BinOp.additive?, BinOp.multiplicative?])
    have hvalue := (Rule.run_expression p).trans (run_expressionAt_of_stop value p (e :: rest) hd hp hstop)
    have hcontinues := (Parser.continues_past_iff p _ value.ne_nil e).2 (hd.symm ▸ joins)
    have hrest : (p.past (start :: ts)).ahead = e :: rest := Parser.ahead_past hp
    refine ⟨p.past (start :: ts), ?_, hrest⟩
    rw [run_statement_of_expression p start _ hp hs, run_bind_ok _ _ _ _ _ hvalue]
    exact run_settle_error start e n (p.past (start :: ts)) rest hrest equals hcontinues

theorem StuckSole.runs (h : StuckSole endLine ts rest d) (p : Parser) (he : p.endLine = endLine) (hd : p.depth = 0)
    (hp : p.ahead = ts ++ rest) : ∃ q, Rule.soleStatement.run p = .error d q ∧ q.ahead = rest := by
  cases h with
  | statement stuck =>
    obtain ⟨q, hq, hrest⟩ := stuck.runs p he hd hp
    exact ⟨q, run_bind_error _ _ _ _ _ hq, hrest⟩
  | @left t rest n ends =>
    have hrest : (p.past ts).ahead = t :: rest := Parser.ahead_past hp
    refine ⟨p.past ts, ?_, hrest⟩
    rw [soleStatement, run_bind_ok _ _ _ _ _ (ends.runs p hd hp), run_bind_ok _ _ _ _ _ (EStateM.run_get _)]
    simp only [Parser.current_of_cons hrest]
    rfl

/-! ## Programs that are stuck -/

/-- A program comes to the statement after the statements `ts` with their trees in hand. -/
theorem run_program_of_statements {body : List Node} {u : Token} {us : List Token} (before : Statements ts body)
    (below : Below ts (u :: us)) (p : Parser) (hd : p.depth = 0) (hp : p.ahead = ts ++ u :: us) :
    ∃ next : Node → Rule Program, program.run p = (Rule.statement >>= next).run (p.past ts) ∧
      ∀ node r, r.ahead.length ≤ us.length → ∃ bound, r.ahead.length ≤ bound ∧ (next node).run r =
        (furtherStatements bound >>= fun nodes => pure ⟨body ++ node :: nodes⟩ : Rule Program).run r := by
  obtain ⟨parts, rfl, statements, chain⟩ := before
  cases statements with
  | nil =>
    refine ⟨fun node => do
      let nodes ← furtherStatements (← get).ahead.length
      pure ⟨node :: nodes⟩, ?_, fun node r _ => ⟨r.ahead.length, Nat.le_refl _, ?_⟩⟩
    · rw [run_program_cons p u us hp]
      rfl
    · rw [run_bind_ok _ _ r r r (EStateM.run_get r)]
      rfl
  | @cons part n parts body statement statements =>
    have hp' : p.ahead = part ++ (parts.flatten ++ u :: us) := by rw [hp, List.flatten_cons, List.append_assoc]
    have chain' : (part :: (parts ++ [u :: us])).IsChain Below :=
      (isChain_append_singleton_iff (.cons statement statements)).2 ⟨chain, below⟩
    obtain ⟨bound, hb, hrun⟩ := runs_program statement statements chain' p hd hp'
    obtain ⟨bound, rfl⟩ : ∃ k, bound = k + 1 := ⟨bound - 1, by rw [List.length_cons] at hb; omega⟩
    have hne : part ++ parts.flatten ≠ [] := List.append_ne_nil_of_left_ne_nil statement.ne_nil _
    have hstop := not_continues_past p _ (u :: us) hne hd (by rwa [List.flatten_cons] at below) u rfl
    have hrest : (p.past (part ++ parts.flatten)).ahead = u :: us := Parser.ahead_past hp
    refine ⟨fun node => furtherStatements bound >>= fun nodes => pure ⟨n :: (body ++ node :: nodes)⟩, ?_,
      fun node r hr => ⟨bound, ?_, rfl⟩⟩
    · rw [hrun, EStateM.run_bind, run_furtherStatements_cons bound _ u us hrest hstop, List.flatten_cons,
        EStateM.run_bind, EStateM.run_bind]
      cases Rule.statement.run _ with
      | error d q => rfl
      | ok node r =>
        simp only [EStateM.run_bind]
        cases (furtherStatements bound).run r with
        | error d q => rfl
        | ok nodes r' => rfl
    · rw [List.length_cons] at hb
      omega

/-- A program that is stuck fails, and stops there. -/
theorem StuckProgram.runs (h : StuckProgram endLine ts rest d) (p : Parser) (he : p.endLine = endLine)
    (hd : p.depth = 0) (hp : p.ahead = ts ++ rest) : ∃ q, Rule.program.run p = .error d q ∧ q.ahead = rest := by
  cases h with
  | @statement ts us rest d body before below some stuck =>
    rw [List.append_assoc] at hp
    obtain ⟨v, vs, hv⟩ := List.exists_cons_of_ne_nil some
    have hrest' : (p.past ts).ahead = us ++ rest := Parser.ahead_past hp
    have he' : (p.past ts).endLine = endLine := (Parser.endLine_past hp).trans he
    rw [hv] at hp below
    obtain ⟨next, hrun, -⟩ := run_program_of_statements before below p hd hp
    obtain ⟨q, hq, hrest⟩ := stuck.runs (p.past ts) he' hd hrest'
    exact ⟨q, by rw [hrun, run_bind_error _ _ _ _ _ hq], hrest⟩
  | @left ts us t rest n body before below ends line =>
    obtain ⟨u, us, rfl⟩ := List.exists_cons_of_ne_nil ends.statement.ne_nil
    rw [List.append_assoc, List.cons_append] at hp
    have hbelow : Below ts (u :: (us ++ t :: rest)) := below.of_head? fun v hv => hv
    obtain ⟨next, hrun, hnext⟩ := run_program_of_statements before hbelow p hd hp
    let p₁ := p.past ts
    let r := p₁.past (u :: us)
    have hd₁ : p₁.depth = 0 := hd
    have hp₁ : p₁.ahead = u :: us ++ t :: rest := Parser.ahead_past hp
    have hr : r.ahead = t :: rest := Parser.ahead_past hp₁
    have hn : Rule.statement.run p₁ = .ok n r := ends.runs p₁ hd₁ hp₁
    obtain ⟨bound, hb, hfurther⟩ := hnext n r (by
      rw [hr, List.length_append]
      omega)
    obtain ⟨bound, rfl⟩ : ∃ k, bound = k + 1 := by
      rw [hr, List.length_cons] at hb
      exact ⟨bound - 1, by omega⟩
    have hcontinues : r.continues t = true :=
      (Parser.continues_past_iff p₁ _ (List.cons_ne_nil u us) t).2
        (hd₁.symm ▸ (joins_iff_not_below (List.cons_ne_nil u us)).2 line)
    refine ⟨r, ?_, hr⟩
    rw [hrun, run_bind_ok _ _ _ _ _ hn, hfurther,
      run_bind_error _ _ _ _ _ (run_furtherStatements_of_continues bound r t rest hr hcontinues)]

end Grammar

/-! ## Refusal -/

open Grammar (Statement Statements StuckSole StuckProgram)

theorem Rule.onTokens_eq_error_iff_stuck {α : Type} (rule : Rule α) (tokens : List Token) (d : Diagnostic)
    {stuck : Nat → List Token → List Token → Diagnostic → Prop}
    (breaks : ∀ endLine, Breaks endLine 0 (stuck endLine) rule)
    (runs : ∀ endLine ts rest d, stuck endLine ts rest d → ∀ p : Parser, p.endLine = endLine → p.depth = 0 →
      p.ahead = ts ++ rest → ∃ q, rule.run p = .error d q ∧ q.ahead = rest) :
    rule.onTokens tokens = .error d ↔
      ∃ ts rest, liveTokens tokens = ts ++ rest ∧ stuck (Parser.ofTokens tokens).endLine ts rest d := by
  rw [Rule.onTokens_eq_error_iff]
  constructor
  · rintro ⟨q, hq⟩
    obtain ⟨ts, hts, hstuck⟩ := breaks _ (.ofTokens tokens) d q rfl rfl hq
    exact ⟨ts, q.ahead, hts, hstuck⟩
  · rintro ⟨ts, rest, hlive, hstuck⟩
    obtain ⟨q, hq, -⟩ := runs _ ts rest d hstuck (.ofTokens tokens) rfl rfl hlive
    exact ⟨q, hq⟩

/-- The tokens of a statement are refused exactly if the grammar is stuck in them. -/
theorem parse_eq_error_iff (tokens : List Token) (d : Diagnostic) :
    parse tokens = .error d ↔
      ∃ ts rest, liveTokens tokens = ts ++ rest ∧ StuckSole (Parser.ofTokens tokens).endLine ts rest d :=
  Rule.onTokens_eq_error_iff_stuck _ tokens d (fun _ => Rule.breaks_soleStatement) fun _ _ _ _ h => h.runs

/-- The tokens of a program are refused exactly if the grammar is stuck in them. -/
theorem parseProgram_eq_error_iff (tokens : List Token) (d : Diagnostic) :
    parseProgram tokens = .error d ↔
      ∃ ts rest, liveTokens tokens = ts ++ rest ∧ StuckProgram (Parser.ofTokens tokens).endLine ts rest d :=
  Rule.onTokens_eq_error_iff_stuck _ tokens d (fun _ => Rule.breaks_program) fun _ _ _ _ h => h.runs

section

variable {tokens tokens' : List Token} {f : Diagnostic → Diagnostic}

/-- Tokens that are a statement where others are one, and stuck up to `f` where they are, are read alike up to `f`. -/
theorem parse_eq_mapError (statement : ∀ n, Statement (liveTokens tokens) n → Statement (liveTokens tokens') n)
    (stuck : ∀ ts rest d, liveTokens tokens = ts ++ rest → StuckSole (Parser.ofTokens tokens).endLine ts rest d →
      ∃ ts' rest', liveTokens tokens' = ts' ++ rest' ∧ StuckSole (Parser.ofTokens tokens').endLine ts' rest' (f d)) :
    parse tokens' = (parse tokens).mapError f := by
  cases h : parse tokens with
  | ok n => exact (parse_eq_ok_iff _ _).2 (statement n ((parse_eq_ok_iff _ _).1 h))
  | error d =>
    obtain ⟨ts, rest, hlive, hstuck⟩ := (parse_eq_error_iff _ _).1 h
    exact (parse_eq_error_iff _ _).2 (stuck ts rest d hlive hstuck)

theorem parseProgram_eq_mapError
    (statements : ∀ body, Statements (liveTokens tokens) body → Statements (liveTokens tokens') body)
    (stuck : ∀ ts rest d, liveTokens tokens = ts ++ rest → StuckProgram (Parser.ofTokens tokens).endLine ts rest d →
      ∃ ts' rest', liveTokens tokens' = ts' ++ rest' ∧
        StuckProgram (Parser.ofTokens tokens').endLine ts' rest' (f d)) :
    parseProgram tokens' = (parseProgram tokens).mapError f := by
  cases h : parseProgram tokens with
  | ok p => exact parseProgram_of_statements _ p.body (statements p.body (statements_of_parseProgram _ p.body h))
  | error d =>
    obtain ⟨ts, rest, hlive, hstuck⟩ := (parseProgram_eq_error_iff _ _).1 h
    exact (parseProgram_eq_error_iff _ _).2 (stuck ts rest d hlive hstuck)

end

end ExprLang
