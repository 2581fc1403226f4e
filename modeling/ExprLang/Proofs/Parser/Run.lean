import Mathlib.Data.List.Basic
import ExprLang.Parser.Program

/-!
# How the rules run

Each rule has an equation for each way it can go, so that later proofs need not open it.

* `Parser.past` : the parser after a list of tokens;
* `Rule.more` : a chain after its first operand, `Rule.chain_eq`; `Rule.Forward` : a rule that gives no token back;
* `Rule.run_more_of_some`, `Rule.run_more_of_none` : a chain goes on at an operator, and stops where none comes next;
* `Rule.run_factorWith_integer`, `Rule.run_factorWith_name`, `Rule.run_factorWith_parenthesis` : the ways of a factor;
* `Rule.run_group`, `Rule.run_close` : what stands in parentheses.
-/

namespace ExprLang

namespace Parser

/-- The line of the end that the parser comes to: that of the next end mark, or else of the last token. -/
def endLine (p : Parser) : Nat :=
  ((((p.tokens.drop p.place).find? Token.isEnd).or p.tokens.getLast?).map fun t => t.line).getD 1

/-- The parser behind the tokens `ts`, which are the next ones. -/
def past (p : Parser) (ts : List Token) : Parser :=
  { p with place := p.place + ts.length, lastLine := (ts.getLast?.map fun t => t.line).or p.lastLine }

section

variable {p : Parser} {ts us rest : List Token} {t u : Token}

theorem endLine_ofTokens (tokens : List Token) :
    (ofTokens tokens).endLine = (((tokens.find? Token.isEnd).or tokens.getLast?).map fun t => t.line).getD 1 := rfl

theorem not_isEnd_of_mem_ahead (h : t ∈ p.ahead) : t.isEnd = false := by
  simpa using List.all_eq_true.1 List.all_takeWhile t h

/-- Behind the tokens ahead there is an end mark or nothing. -/
theorem exists_drop_eq (p : Parser) :
    ∃ more, p.tokens.drop p.place = p.ahead ++ more ∧ ∀ t ∈ more.head?, t.isEnd = true := by
  refine ⟨_, List.takeWhile_append_dropWhile.symm, fun t ht => ?_⟩
  have hstop := List.head?_dropWhile_not (fun t : Token => !t.isEnd) (p.tokens.drop p.place)
  rw [Option.mem_def.1 ht] at hstop
  simpa using hstop

theorem current_eq_head? (p : Parser) : p.current = p.ahead.head? := List.head?_eq_getElem?.symm

theorem current_of_cons (hp : p.ahead = t :: rest) : p.current = some t := by rw [current_eq_head?, hp]; rfl

theorem current_of_nil (hp : p.ahead = []) : p.current = none := by rw [current_eq_head?, hp]; rfl

theorem line_of_cons (hp : p.ahead = t :: rest) : p.line = t.line := by
  obtain ⟨more, hmore, -⟩ := p.exists_drop_eq
  have hplace : p.tokens[p.place]? = some t := by rw [← List.head?_drop, hmore, hp]; rfl
  rw [line, hplace]
  rfl

/-- With nothing ahead the parser stands at the end. -/
theorem line_of_nil (hp : p.ahead = []) : p.line = p.endLine := by
  obtain ⟨more, hmore, hend⟩ := p.exists_drop_eq
  rw [hp, List.nil_append] at hmore
  have hplace : p.tokens[p.place]? = more.head? := by rw [← hmore, List.head?_drop]
  rw [line, endLine, hmore, hplace]
  cases more with
  | nil => rfl
  | cons t more => rw [List.find?_cons_of_pos (hend t rfl), List.head?_cons]

/-! ### Past some tokens -/

theorem ahead_past (hp : p.ahead = ts ++ rest) : (p.past ts).ahead = rest := by
  obtain ⟨more, hmore, hend⟩ := p.exists_drop_eq
  have hrest : ∀ t ∈ rest, (!t.isEnd) = true := fun t ht => by
    rw [not_isEnd_of_mem_ahead (p := p) (hp ▸ List.mem_append_right _ ht)]
    rfl
  have hnone : more.takeWhile (fun t => !t.isEnd) = [] := by
    cases more with
    | nil => rfl
    | cons t more => rw [List.takeWhile_cons_of_neg (by rw [hend t rfl]; exact Bool.false_ne_true)]
  show (p.tokens.drop (p.place + ts.length)).takeWhile _ = rest
  rw [← List.drop_drop, hmore, hp, List.append_assoc, List.drop_left, List.takeWhile_append_of_pos hrest, hnone,
    List.append_nil]

/-- The end stays where it is. -/
theorem endLine_past (hp : p.ahead = ts ++ rest) : (p.past ts).endLine = p.endLine := by
  obtain ⟨more, hmore, -⟩ := p.exists_drop_eq
  have hts : ts.find? Token.isEnd = none := List.find?_eq_none.2 fun t ht => by
    rw [not_isEnd_of_mem_ahead (p := p) (hp ▸ List.mem_append_left _ ht)]
    exact Bool.false_ne_true
  rw [hp, List.append_assoc] at hmore
  have hdrop : (p.past ts).tokens.drop (p.past ts).place = rest ++ more := by
    show p.tokens.drop (p.place + ts.length) = _
    rw [← List.drop_drop, hmore, List.drop_left]
  have hfind : (ts ++ (rest ++ more)).find? Token.isEnd = (rest ++ more).find? Token.isEnd := by
    rw [List.find?_append, hts, Option.none_or]
  rw [endLine, endLine, hdrop, hmore, hfind]
  rfl

theorem after_eq_past (p : Parser) (t : Token) : p.after t = p.past [t] := rfl

theorem ahead_after (hp : p.ahead = t :: rest) : (p.after t).ahead = rest := by
  rw [after_eq_past]
  exact ahead_past hp

theorem endLine_after (hp : p.ahead = t :: rest) : (p.after t).endLine = p.endLine := by
  rw [after_eq_past]
  exact endLine_past hp

theorem ahead_past_pair (hp : p.ahead = t :: u :: rest) : (p.past [t, u]).ahead = rest := by
  have hp' : p.ahead = [t, u] ++ rest := hp
  exact ahead_past hp'

theorem endLine_past_pair (hp : p.ahead = t :: u :: rest) : (p.past [t, u]).endLine = p.endLine := by
  have hp' : p.ahead = [t, u] ++ rest := hp
  exact endLine_past hp'

end

section

variable (p : Parser) (ts us : List Token) (t : Token)

@[simp] theorem depth_past : (p.past ts).depth = p.depth := rfl

@[simp] theorem place_past : (p.past ts).place = p.place + ts.length := rfl

theorem lastLine_past (hts : ts ≠ []) : (p.past ts).lastLine = ts.getLast?.map (·.line) := by
  rw [past, List.getLast?_eq_some_getLast hts]
  rfl

theorem past_past : (p.past ts).past us = p.past (ts ++ us) := by
  simp [past, List.getLast?_append, Option.map_or, Option.or_assoc, Nat.add_assoc]

theorem past_after : (p.after t).past us = p.past (t :: us) := by
  rw [after_eq_past, past_past, List.singleton_append]

theorem after_past : (p.past ts).after t = p.past (ts ++ [t]) := by
  rw [after_eq_past, past_past]

theorem past_opened : p.opened.past ts = (p.past ts).opened := rfl

@[simp] theorem ahead_opened : p.opened.ahead = p.ahead := rfl

@[simp] theorem closed_opened : p.opened.closed = p := rfl

@[simp] theorem depth_opened : p.opened.depth = p.depth + 1 := rfl

end

/-- Inside parentheses every token goes on with the statement; outside only the tokens not below the last one do. -/
theorem continues_iff (p : Parser) (ts : List Token) (hts : ts ≠ []) (hl : p.lastLine = ts.getLast?.map (·.line))
    (o : Token) : p.continues o = true ↔ 0 < p.depth ∨ ∀ t ∈ ts.getLast?, o.line ≤ t.line := by
  rw [List.getLast?_eq_some_getLast hts] at hl ⊢
  simp [continues, hl]

theorem continues_past_iff (p : Parser) (ts : List Token) (hts : ts ≠ []) (o : Token) :
    (p.past ts).continues o = true ↔ 0 < p.depth ∨ ∀ t ∈ ts.getLast?, o.line ≤ t.line :=
  (p.past ts).continues_iff ts hts (p.lastLine_past ts hts) o

theorem operator?_cons (p : Parser) (o : Token) (rest : List Token) (lookup : String → Option BinOp)
    (hp : p.ahead = o :: rest) (kind : o.kind = .operator) (continues : p.continues o = true) :
    p.operator? lookup = lookup o.text := by
  simp [operator?, current_of_cons hp, kind, continues]

theorem operator?_nil (p : Parser) (lookup : String → Option BinOp) (hp : p.ahead = []) :
    p.operator? lookup = none := by
  simp [operator?, current_of_nil hp]

theorem operator?_eq_some (p : Parser) (lookup : String → Option BinOp) (op : BinOp)
    (h : p.operator? lookup = some op) :
    ∃ o rest, p.ahead = o :: rest ∧ o.kind = .operator ∧ p.continues o = true ∧ lookup o.text = some op := by
  unfold operator? at h
  cases hp : p.ahead with
  | nil => simp [current_of_nil hp] at h
  | cons o rest =>
    simp only [current_of_cons hp] at h
    split at h
    · next hk => exact ⟨o, rest, rfl, hk.1, hk.2, h⟩
    · cases h

end Parser

namespace Rule

variable {α β : Type}

/-! ## Sequences -/

theorem run_bind_ok (x : Rule α) (f : α → Rule β) (p q : Parser) (a : α) (h : x.run p = .ok a q) :
    (x >>= f).run p = (f a).run q := by
  rw [EStateM.run_bind, h]

theorem run_bind_error (x : Rule α) (f : α → Rule β) (p q : Parser) (d : Diagnostic) (h : x.run p = .error d q) :
    (x >>= f).run p = .error d q := by
  rw [EStateM.run_bind, h]

theorem run_bind_eq_ok (x : Rule α) (f : α → Rule β) (p r : Parser) (b : β) (h : (x >>= f).run p = .ok b r) :
    ∃ a q, x.run p = .ok a q ∧ (f a).run q = .ok b r := by
  rw [EStateM.run_bind] at h
  cases hx : x.run p with
  | ok a q => exact ⟨a, q, rfl, by rwa [hx] at h⟩
  | error d q => rw [hx] at h; cases h

theorem run_discard (x : Rule α) (p q : Parser) (a : α) (h : x.run p = .ok a q) :
    (discard x : Rule Unit).run p = .ok () q := by
  show EStateM.map _ x p = _
  rw [EStateM.map, show x p = _ from h]

theorem run_discard_eq_ok (x : Rule α) (p q : Parser) (u : Unit) (h : (discard x : Rule Unit).run p = .ok u q) :
    ∃ a, x.run p = .ok a q := by
  change EStateM.map _ x p = _ at h
  rw [EStateM.map] at h
  split at h
  · next a r hx =>
    cases h
    exact ⟨a, hx⟩
  · cases h

/-! ## Taking a token -/

theorem run_advance (p : Parser) (t : Token) (rest : List Token) (hp : p.ahead = t :: rest) :
    advance.run p = .ok (some t) (p.after t) := by
  show advance p = _
  simp only [advance, Parser.current_of_cons hp]

theorem run_expectOperator (text : String) (refusal : Option Diagnostic) (p : Parser) (t : Token) (rest : List Token)
    (hp : p.ahead = t :: rest) (h : t.isOperator text = true) :
    (expectOperator text refusal).run p = .ok t (p.after t) := by
  show expectOperator text refusal p = _
  simp only [expectOperator, Parser.current_of_cons hp, h, if_true]

theorem run_expectOperator_eq_ok (text : String) (refusal : Option Diagnostic) (p q : Parser) (t : Token)
    (h : (expectOperator text refusal).run p = .ok t q) :
    ∃ rest, p.ahead = t :: rest ∧ t.isOperator text = true ∧ q = p.after t := by
  change expectOperator text refusal p = _ at h
  cases hp : p.ahead with
  | nil => simp [expectOperator, Parser.current_of_nil hp] at h
  | cons u rest =>
    simp only [expectOperator, Parser.current_of_cons hp] at h
    split at h
    · next hu =>
      cases h
      exact ⟨rest, rfl, hu, rfl⟩
    · cases h

/-! ## Chains -/

/-- A chain after its first operand `left`. -/
def more (lookup : String → Option BinOp) (operand : Rule Node) (left : Node) : Rule Node := do
  chainFrom lookup operand (← get).ahead.length left

def termAt (levels : Nat) : Rule Node := chain BinOp.multiplicative? (factorAt levels)

def expressionAt (levels : Nat) : Rule Node := expressionWith (factorAt levels)

theorem chain_eq (lookup : String → Option BinOp) (operand : Rule Node) :
    chain lookup operand = operand >>= more lookup operand := rfl

theorem termAt_eq (levels : Nat) :
    termAt levels = factorAt levels >>= more BinOp.multiplicative? (factorAt levels) := rfl

theorem expressionAt_eq (levels : Nat) :
    expressionAt levels = termAt levels >>= more BinOp.additive? (termAt levels) := rfl

theorem run_expression (p : Parser) : expression.run p = (expressionAt p.levels).run p := rfl

/-- A success of the rule inside `depth` parentheses gives no token back, and ends inside as many. -/
def Forward (depth : Nat) (rule : Rule α) : Prop :=
  ∀ p a q, p.depth = depth → rule.run p = .ok a q → q.depth = depth ∧ q.ahead.length ≤ p.ahead.length

theorem run_chainFrom_succ (lookup : String → Option BinOp) (operand : Rule Node) (n : Nat) (left : Node)
    (p : Parser) (op : BinOp) (o : Token) (rest : List Token) (hop : p.operator? lookup = some op)
    (hp : p.ahead = o :: rest) :
    (chainFrom lookup operand (n + 1) left).run p
      = (operand >>= fun right => chainFrom lookup operand n (.binary op left right)).run (p.after o) := by
  rw [chainFrom, run_bind_ok _ _ p p p (EStateM.run_get p)]
  simp only [hop]
  rw [run_bind_ok _ _ p _ () (run_discard _ _ _ _ (run_advance p o rest hp))]

theorem run_chainFrom_of_none (lookup : String → Option BinOp) (operand : Rule Node) (n : Nat) (left : Node)
    (p : Parser) (hop : p.operator? lookup = none) : (chainFrom lookup operand n left).run p = .ok left p := by
  cases n with
  | zero => rfl
  | succ n =>
    rw [chainFrom, run_bind_ok _ _ p p p (EStateM.run_get p)]
    simp only [hop]
    rfl

/-- Any bound that is no less than the number of tokens ahead makes the same chain. -/
theorem run_chainFrom_of_le (lookup : String → Option BinOp) (operand : Rule Node) (m n : Nat) (left : Node)
    (p : Parser) (forward : Forward p.depth operand) (hm : p.ahead.length ≤ m) (hn : p.ahead.length ≤ n) :
    (chainFrom lookup operand m left).run p = (chainFrom lookup operand n left).run p := by
  induction m generalizing n left p with
  | zero =>
    have hp : p.ahead = [] := List.length_eq_zero_iff.1 (Nat.le_zero.1 hm)
    rw [run_chainFrom_of_none _ _ _ _ _ (Parser.operator?_nil p lookup hp),
      run_chainFrom_of_none _ _ _ _ _ (Parser.operator?_nil p lookup hp)]
  | succ m ih =>
    cases hop : p.operator? lookup with
    | none => rw [run_chainFrom_of_none _ _ _ _ _ hop, run_chainFrom_of_none _ _ _ _ _ hop]
    | some op =>
      obtain ⟨o, rest, hp, -⟩ := Parser.operator?_eq_some p lookup op hop
      rw [hp, List.length_cons] at hm hn
      obtain ⟨n, rfl⟩ : ∃ k, n = k + 1 := ⟨n - 1, by omega⟩
      rw [run_chainFrom_succ _ _ _ _ _ _ _ _ hop hp, run_chainFrom_succ _ _ _ _ _ _ _ _ hop hp]
      cases hr : operand.run (p.after o) with
      | error d q => rw [run_bind_error _ _ _ _ _ hr, run_bind_error _ _ _ _ _ hr]
      | ok right q =>
        rw [run_bind_ok _ _ _ _ _ hr, run_bind_ok _ _ _ _ _ hr]
        obtain ⟨hd, hq⟩ := forward (p.after o) _ _ rfl hr
        rw [Parser.ahead_after hp] at hq
        exact ih n _ q (hd ▸ forward) (by omega) (by omega)

theorem run_more_of_none (lookup : String → Option BinOp) (operand : Rule Node) (left : Node) (p : Parser)
    (hop : p.operator? lookup = none) : (more lookup operand left).run p = .ok left p :=
  run_chainFrom_of_none lookup operand _ left p hop

theorem run_more_of_some (lookup : String → Option BinOp) (operand : Rule Node) (left : Node) (p : Parser)
    (op : BinOp) (o : Token) (rest : List Token) (forward : Forward p.depth operand)
    (hop : p.operator? lookup = some op) (hp : p.ahead = o :: rest) :
    (more lookup operand left).run p
      = (operand >>= fun right => more lookup operand (.binary op left right)).run (p.after o) := by
  have hm : (more lookup operand left).run p = (chainFrom lookup operand p.ahead.length left).run p := rfl
  rw [hm, hp, List.length_cons, run_chainFrom_succ _ _ _ _ _ _ _ _ hop hp]
  cases hr : operand.run (p.after o) with
  | error d q => rw [run_bind_error _ _ _ _ _ hr, run_bind_error _ _ _ _ _ hr]
  | ok right q =>
    rw [run_bind_ok _ _ _ _ _ hr, run_bind_ok _ _ _ _ _ hr]
    obtain ⟨hd, hq⟩ := forward (p.after o) _ _ rfl hr
    rw [Parser.ahead_after hp] at hq
    exact run_chainFrom_of_le lookup operand _ _ _ q (hd ▸ forward) hq (Nat.le_refl _)

/-! ## Factors -/

theorem exists_factorAt_eq (levels : Nat) : ∃ parenthesis, factorAt levels = factorWith parenthesis := by
  cases levels with
  | zero => exact ⟨_, rfl⟩
  | succ levels => exact ⟨_, rfl⟩

theorem factorAt_of_room (p : Parser) (room : p.depth < maxNesting) :
    factorAt p.levels = factorWith (group (expressionAt p.opened.levels)) := by
  have hl : p.levels = p.opened.levels + 1 := by
    simp only [Parser.levels, Parser.depth_opened]; omega
  rw [hl]
  rfl

theorem factorAt_of_no_room (p : Parser) (room : maxNesting ≤ p.depth) :
    factorAt p.levels = factorWith fun t => throw t.tooDeep := by
  have hl : p.levels = 0 := by simp only [Parser.levels]; omega
  rw [hl]
  rfl

section factorWith
variable (parenthesis : Token → Rule Node) (p : Parser) (t : Token) (rest : List Token) (hp : p.ahead = t :: rest)
include hp

theorem run_factorWith_integer (i : Int64) (kind : t.kind = .integerLiteral) (value : Numeral.int64? t.text = some i) :
    (factorWith parenthesis).run p = .ok (.integer i) (p.after t) := by
  have hc : p.current = some t := Parser.current_of_cons hp
  rw [factorWith, run_bind_ok _ _ p p p (EStateM.run_get p)]
  simp only [hc, kind, value]
  rw [run_bind_ok _ _ p _ () (run_discard _ _ _ _ (run_advance p t rest hp))]
  rfl

theorem run_factorWith_name (kind : t.kind = .identifier) :
    (factorWith parenthesis).run p = .ok (.var t.text) (p.after t) := by
  have hc : p.current = some t := Parser.current_of_cons hp
  rw [factorWith, run_bind_ok _ _ p p p (EStateM.run_get p)]
  simp only [hc, kind]
  rw [run_bind_ok _ _ p _ () (run_discard _ _ _ _ (run_advance p t rest hp))]
  rfl

theorem run_factorWith_parenthesis (opening : t.isOperator "(" = true) :
    (factorWith parenthesis).run p = (parenthesis t).run p := by
  obtain ⟨kind, text⟩ := (Token.isOperator_iff _ _).1 opening
  have hc : p.current = some t := Parser.current_of_cons hp
  rw [factorWith, run_bind_ok _ _ p p p (EStateM.run_get p)]
  simp only [hc, kind, text, if_true]

end factorWith

/-- The ways a factor can be read. -/
theorem run_factorWith_eq_ok (parenthesis : Token → Rule Node) (p q : Parser) (n : Node)
    (h : (factorWith parenthesis).run p = .ok n q) :
    ∃ t rest, p.ahead = t :: rest ∧
      ((∃ i, t.kind = .integerLiteral ∧ Numeral.int64? t.text = some i ∧ n = .integer i ∧ q = p.after t) ∨
        (t.kind = .identifier ∧ n = .var t.text ∧ q = p.after t) ∨
        (t.isOperator "(" = true ∧ (parenthesis t).run p = .ok n q)) := by
  rw [factorWith, run_bind_ok _ _ p p p (EStateM.run_get p)] at h
  cases hp : p.ahead with
  | nil =>
    simp only [Parser.current_of_nil hp] at h
    cases h
  | cons t rest =>
    refine ⟨t, rest, rfl, ?_⟩
    have hadv := run_discard _ _ _ _ (run_advance p t rest hp)
    simp only [Parser.current_of_cons hp] at h
    split at h
    · next kind =>
      split at h
      · next i value =>
        rw [run_bind_ok _ _ p _ () hadv] at h
        cases h
        exact Or.inl ⟨i, kind, value, rfl, rfl⟩
      · cases h
    · next kind =>
      rw [run_bind_ok _ _ p _ () hadv] at h
      cases h
      exact Or.inr (Or.inl ⟨kind, rfl, rfl⟩)
    · next kind =>
      split at h
      · next text => exact Or.inr (Or.inr ⟨(Token.isOperator_iff _ _).2 ⟨kind, text⟩, h⟩)
      · cases h
    · cases h

/-- What stands after the expression of a group: the closing parenthesis, taken with the depth already lowered. -/
def close (start : Token) (n : Node) : Rule Node := do
  modify Parser.closed
  discard (expectOperator ")" (some start.unmatched))
  pure n

theorem run_close (start c : Token) (n : Node) (p : Parser) (rest : List Token) (hp : p.ahead = c :: rest)
    (closing : c.isOperator ")" = true) : (close start n).run p = .ok n (p.closed.after c) := by
  have hx := run_expectOperator ")" (some start.unmatched) p.closed c rest hp closing
  rw [close, run_bind_ok _ _ _ _ _ (EStateM.run_modify Parser.closed p), run_bind_ok _ _ _ _ () (run_discard _ _ _ _ hx)]
  rfl

theorem run_close_eq_ok (start : Token) (n m : Node) (p q : Parser) (h : (close start n).run p = .ok m q) :
    ∃ c rest, p.ahead = c :: rest ∧ c.isOperator ")" = true ∧ m = n ∧ q = p.closed.after c := by
  rw [close, run_bind_ok _ _ _ _ _ (EStateM.run_modify Parser.closed p)] at h
  obtain ⟨_, r, hr, hq⟩ := run_bind_eq_ok _ _ _ _ _ h
  obtain ⟨c, hc⟩ := run_discard_eq_ok _ _ _ _ hr
  obtain ⟨rest, hp, closing, rfl⟩ := run_expectOperator_eq_ok _ _ _ _ _ hc
  cases hq
  exact ⟨c, rest, hp, closing, rfl, rfl⟩

theorem run_group (inner : Rule Node) (p : Parser) (t : Token) (rest : List Token) (hp : p.ahead = t :: rest) :
    (group inner t).run p = (inner >>= close t).run (p.after t).opened := by
  rw [group, run_bind_ok _ _ p _ () (run_discard _ _ _ _ (run_advance p t rest hp)),
    run_bind_ok _ _ _ _ _ (EStateM.run_modify Parser.opened (p.after t))]
  rfl

end Rule

end ExprLang
