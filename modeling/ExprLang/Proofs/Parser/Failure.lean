import ExprLang.Proofs.Grammar.Stuck
import ExprLang.Proofs.Parser.Acceptance

/-!
# The rules of an expression fail where the grammar is stuck

A rule that fails stops at the first token that does not go on with what it took, and its diagnostic is the one that the
grammar gives. The other way round, a rule that comes to such a token fails there.

* `Rule.Breaks` : the tokens that a failure has taken and those left stand in a relation to its diagnostic;
* `Rule.breaks_expressionAt` : an expression that fails is stuck;
* `Grammar.Stuck.runs` : an expression that is stuck fails;
* `Rule.not_goesOn_of_run` : an expression takes every operator that goes on with it.
-/

namespace ExprLang

namespace Rule

variable {α β : Type}

theorem run_bind_eq_error (x : Rule α) (f : α → Rule β) (p r : Parser) (d : Diagnostic)
    (h : (x >>= f).run p = .error d r) :
    x.run p = .error d r ∨ ∃ a q, x.run p = .ok a q ∧ (f a).run q = .error d r := by
  rw [EStateM.run_bind] at h
  cases hx : x.run p with
  | ok a q =>
    rw [hx] at h
    exact Or.inr ⟨a, q, rfl, h⟩
  | error d' q =>
    rw [hx] at h
    cases h
    exact Or.inl rfl

theorem run_discard_error (x : Rule α) (p q : Parser) (d : Diagnostic) (h : x.run p = .error d q) :
    (discard x : Rule Unit).run p = .error d q := by
  show EStateM.map _ x p = _
  rw [EStateM.map, show x p = _ from h]

open Grammar (Level Derives Joins GoesOn Stuck)

/-- Inside `depth` parentheses and with the end on the line `endLine`, a failure of the rule takes some tokens and
stops at others, in the sense of `relation`. -/
def Breaks (endLine depth : Nat) (relation : List Token → List Token → Diagnostic → Prop) (rule : Rule α) : Prop :=
  ∀ p d q, p.endLine = endLine → p.depth = depth → rule.run p = .error d q →
    ∃ ts, p.ahead = ts ++ q.ahead ∧ relation ts q.ahead d

theorem run_expectOperator_error (text : String) (refusal : Diagnostic) (p : Parser)
    (h : ∀ t ∈ p.ahead.head?, t.isOperator text = false) :
    (expectOperator text (some refusal)).run p = .error refusal p := by
  show expectOperator text (some refusal) p = _
  cases hp : p.ahead with
  | nil => simp [expectOperator, Parser.current_of_nil hp]
  | cons t rest => simp [expectOperator, Parser.current_of_cons hp, h t (by rw [hp]; rfl)]

theorem run_expectOperator_eq_error (text : String) (refusal d : Diagnostic) (p q : Parser)
    (h : (expectOperator text (some refusal)).run p = .error d q) :
    d = refusal ∧ q.ahead = p.ahead ∧ ∀ t ∈ p.ahead.head?, t.isOperator text = false := by
  have hnot : ∀ t ∈ p.ahead.head?, t.isOperator text = false := by
    intro t ht
    obtain ⟨rest, hp⟩ : ∃ rest, p.ahead = t :: rest := ⟨_, (List.cons_head?_tail ht).symm⟩
    rw [Bool.eq_false_iff]
    intro htext
    rw [run_expectOperator text _ p t rest hp htext] at h
    cases h
  rw [run_expectOperator_error text refusal p hnot] at h
  cases h
  exact ⟨rfl, rfl, hnot⟩

/-! ## Chains -/

section chain

variable {endLine depth : Nat} {lookup : String → Option BinOp} {operand : Rule Node}
  {inner outer : List Token → Node → Prop} {innerStuck outerStuck : List Token → List Token → Diagnostic → Prop}

theorem breaks_chainFrom (operand_reads : Reads depth inner operand)
    (operand_breaks : Breaks endLine depth innerStuck operand)
    (join : ∀ ts us o op l r, outer ts l → o.kind = .operator → lookup o.text = some op → Joins depth ts o →
      inner us r → outer (ts ++ o :: us) (.binary op l r))
    (break_off : ∀ ts us rest o op l d, outer ts l → o.kind = .operator → lookup o.text = some op → Joins depth ts o →
      innerStuck us rest d → outerStuck (ts ++ o :: us) rest d) (outer_ne_nil : ∀ ts n, outer ts n → ts ≠ [])
    (bound : Nat) (p₀ q : Parser) (left : Node) (d : Diagnostic) (ts rest : List Token) (he : p₀.endLine = endLine)
    (hd : p₀.depth = depth) (hp₀ : p₀.ahead = ts ++ rest) (hleft : outer ts left)
    (h : (chainFrom lookup operand bound left).run (p₀.past ts) = .error d q) :
    ∃ us, rest = us ++ q.ahead ∧ outerStuck (ts ++ us) q.ahead d := by
  induction bound generalizing left ts rest with
  | zero => cases h
  | succ bound ih =>
    cases hop : (p₀.past ts).operator? lookup with
    | none =>
      rw [run_chainFrom_of_none _ _ _ _ _ hop] at h
      cases h
    | some op =>
      obtain ⟨o, rest', hp, kind, continues, spelling⟩ := Parser.operator?_eq_some _ lookup op hop
      have joins : Joins depth ts o :=
        hd ▸ (Parser.continues_past_iff p₀ ts (outer_ne_nil _ _ hleft) o).1 continues
      rw [run_chainFrom_succ _ _ _ _ _ _ _ _ hop hp, Parser.after_past] at h
      rw [Parser.ahead_past hp₀] at hp
      subst hp
      rw [List.append_cons] at hp₀
      have hnext : (p₀.past (ts ++ [o])).endLine = endLine := (Parser.endLine_past hp₀).trans he
      rcases run_bind_eq_error _ _ _ _ _ h with h | ⟨right, r, hright, h⟩
      · obtain ⟨us, hus, stuck⟩ := operand_breaks (p₀.past (ts ++ [o])) d q hnext hd h
        rw [Parser.ahead_past hp₀] at hus
        exact ⟨o :: us, by rw [hus, List.cons_append], break_off ts us _ o op left d hleft kind spelling joins stuck⟩
      · obtain ⟨us, hus, hinner, hr⟩ := operand_reads (p₀.past (ts ++ [o])) _ _ hd hright
        rw [Parser.ahead_past hp₀] at hus
        have houter := join ts us o op left right hleft kind spelling joins hinner
        rw [Parser.past_past, List.append_assoc, List.singleton_append] at hr
        rw [hr] at h
        rw [hus, ← List.append_assoc, List.append_assoc ts, List.singleton_append] at hp₀
        obtain ⟨vs, hvs, stuck⟩ := ih _ _ _ hp₀ houter h
        rw [List.append_assoc, List.cons_append] at stuck
        exact ⟨o :: (us ++ vs), by rw [hus, hvs, List.cons_append, List.append_assoc], stuck⟩

theorem breaks_chain (operand_reads : Reads depth inner operand)
    (operand_breaks : Breaks endLine depth innerStuck operand)
    (single : ∀ ts n, inner ts n → outer ts n) (single_off : ∀ ts rest d, innerStuck ts rest d → outerStuck ts rest d)
    (join : ∀ ts us o op l r, outer ts l → o.kind = .operator → lookup o.text = some op → Joins depth ts o →
      inner us r → outer (ts ++ o :: us) (.binary op l r))
    (break_off : ∀ ts us rest o op l d, outer ts l → o.kind = .operator → lookup o.text = some op → Joins depth ts o →
      innerStuck us rest d → outerStuck (ts ++ o :: us) rest d) (outer_ne_nil : ∀ ts n, outer ts n → ts ≠ []) :
    Breaks endLine depth outerStuck (chain lookup operand) := by
  intro p d q he hd h
  rw [chain_eq] at h
  rcases run_bind_eq_error _ _ _ _ _ h with h | ⟨left, r, hleft, h⟩
  · obtain ⟨ts, hts, stuck⟩ := operand_breaks p d q he hd h
    exact ⟨ts, hts, single_off _ _ _ stuck⟩
  · obtain ⟨ts, hts, hinner, hr⟩ := operand_reads _ _ _ hd hleft
    rw [hr] at h
    obtain ⟨us, hus, stuck⟩ := breaks_chainFrom operand_reads operand_breaks join break_off outer_ne_nil _ p q left d ts _
      he hd hts (single _ _ hinner) h
    exact ⟨ts ++ us, by rw [hts, hus, List.append_assoc], stuck⟩

end chain

/-! ## Factors -/

/-- The ways a factor can fail. -/
theorem run_factorWith_eq_error (parenthesis : Token → Rule Node) (p q : Parser) (d : Diagnostic)
    (h : (factorWith parenthesis).run p = .error d q) :
    (p.ahead = [] ∧ d = ⟨.unexpectedEnd operandNames, p.endLine, none⟩ ∧ q = p) ∨
      ∃ t rest, p.ahead = t :: rest ∧
        ((t.kind = .integerLiteral ∧ Numeral.int64? t.text = none ∧ d = .atToken (.invalidNumeral t.text) t ∧ q = p) ∨
          (t.isOperator "(" = true ∧ (parenthesis t).run p = .error d q) ∨
          (t.kind ≠ .integerLiteral ∧ t.kind ≠ .identifier ∧ t.isOperator "(" = false ∧ d = t.unexpected ∧ q = p)) := by
  rw [factorWith, run_bind_ok _ _ p p p (EStateM.run_get p)] at h
  cases hp : p.ahead with
  | nil =>
    simp only [Parser.current_of_nil hp] at h
    have hline : p.line = p.endLine := Parser.line_of_nil hp
    rw [run_bind_ok _ _ p p p (EStateM.run_get p), Parser.endOfInput, hline] at h
    cases h
    exact Or.inl ⟨rfl, rfl, rfl⟩
  | cons t rest =>
    refine Or.inr ⟨t, rest, rfl, ?_⟩
    have hadv := run_discard _ _ _ _ (run_advance p t rest hp)
    simp only [Parser.current_of_cons hp] at h
    split at h
    · next kind =>
      split at h
      · rw [run_bind_ok _ _ p _ () hadv] at h
        cases h
      · next value =>
        cases h
        exact Or.inl ⟨kind, value, rfl, rfl⟩
    · rw [run_bind_ok _ _ p _ () hadv] at h
      cases h
    · next kind =>
      split at h
      · next text => exact Or.inr (Or.inl ⟨(Token.isOperator_iff _ _).2 ⟨kind, text⟩, h⟩)
      · next text =>
        cases h
        refine Or.inr (Or.inr ⟨by rw [kind]; decide, by rw [kind]; decide, ?_, rfl, rfl⟩)
        simp [Token.isOperator, text]
    · next integer name operator =>
      cases h
      have opening : t.isOperator "(" = false := by
        rw [Bool.eq_false_iff]
        exact fun ht => operator ((Token.isOperator_iff _ _).1 ht).1
      exact Or.inr (Or.inr ⟨integer, name, opening, rfl, rfl⟩)

section factorWith
variable (parenthesis : Token → Rule Node) (p : Parser) (t : Token) (rest : List Token)

theorem run_factorWith_end (hp : p.ahead = []) :
    (factorWith parenthesis).run p = .error ⟨.unexpectedEnd operandNames, p.endLine, none⟩ p := by
  have hc : p.current = none := Parser.current_of_nil hp
  have hline : p.line = p.endLine := Parser.line_of_nil hp
  rw [factorWith, run_bind_ok _ _ p p p (EStateM.run_get p)]
  simp only [hc]
  rw [run_bind_ok _ _ p p p (EStateM.run_get p), Parser.endOfInput, hline]
  rfl

theorem run_factorWith_numeral (hp : p.ahead = t :: rest) (kind : t.kind = .integerLiteral)
    (value : Numeral.int64? t.text = none) :
    (factorWith parenthesis).run p = .error (.atToken (.invalidNumeral t.text) t) p := by
  have hc : p.current = some t := Parser.current_of_cons hp
  rw [factorWith, run_bind_ok _ _ p p p (EStateM.run_get p)]
  simp only [hc, kind, value]
  rfl

theorem run_factorWith_unexpected (hp : p.ahead = t :: rest) (integer : t.kind ≠ .integerLiteral)
    (name : t.kind ≠ .identifier) (opening : t.isOperator "(" = false) :
    (factorWith parenthesis).run p = .error t.unexpected p := by
  have hc : p.current = some t := Parser.current_of_cons hp
  rw [factorWith, run_bind_ok _ _ p p p (EStateM.run_get p)]
  simp only [hc]
  split
  · next kind => exact absurd kind integer
  · next kind => exact absurd kind name
  · next kind =>
    rw [if_neg]
    · rfl
    · intro text
      rw [(Token.isOperator_iff t "(").2 ⟨kind, text⟩] at opening
      cases opening
  · rfl

end factorWith

/-- The only way a closing parenthesis can fail is that the next token is none. -/
theorem run_close_eq_error (start : Token) (n : Node) (p q : Parser) (d : Diagnostic)
    (h : (close start n).run p = .error d q) :
    d = start.unmatched ∧ q.ahead = p.ahead ∧ ∀ t ∈ p.ahead.head?, t.isOperator ")" = false := by
  cases hc : (expectOperator ")" (some start.unmatched)).run p.closed with
  | ok t r =>
    rw [close, run_bind_ok _ _ _ _ _ (EStateM.run_modify Parser.closed p),
      run_bind_ok _ _ _ _ () (run_discard _ _ _ _ hc)] at h
    cases h
  | error d' r =>
    rw [close, run_bind_ok _ _ _ _ _ (EStateM.run_modify Parser.closed p),
      run_bind_error _ _ _ _ _ (run_discard_error _ _ _ _ hc)] at h
    cases h
    exact run_expectOperator_eq_error _ _ _ p.closed _ hc

/-- Nothing comes after a missing parenthesis. -/
theorem run_close_error (start : Token) (n : Node) (p : Parser)
    (h : ∀ t ∈ p.ahead.head?, t.isOperator ")" = false) :
    (close start n).run p = .error start.unmatched p.closed := by
  have hc := run_expectOperator_error ")" start.unmatched p.closed h
  rw [close, run_bind_ok _ _ _ _ _ (EStateM.run_modify Parser.closed p),
    run_bind_error _ _ _ _ _ (run_discard_error _ _ _ _ hc)]

/-! ## Where an expression ends -/

theorem Forward.bind {depth : Nat} {x : Rule α} {f : α → Rule β} (hx : Forward depth x)
    (hf : ∀ a, Forward depth (f a)) : Forward depth (x >>= f) := by
  intro p b r hd h
  obtain ⟨a, q, hq, hr⟩ := run_bind_eq_ok _ _ _ _ _ h
  obtain ⟨hdq, hlq⟩ := hx p a q hd hq
  obtain ⟨hdr, hlr⟩ := hf a q b r hdq hr
  exact ⟨hdr, Nat.le_trans hlr hlq⟩

theorem forward_chainFrom {depth : Nat} {operand : Rule Node} (lookup : String → Option BinOp)
    (forward : Forward depth operand) (bound : Nat) (left : Node) :
    Forward depth (chainFrom lookup operand bound left) := by
  induction bound generalizing left with
  | zero =>
    intro p n q hd h
    cases h
    exact ⟨hd, Nat.le_refl _⟩
  | succ bound ih =>
    intro p n q hd h
    cases hop : p.operator? lookup with
    | none =>
      rw [run_chainFrom_of_none _ _ _ _ _ hop] at h
      cases h
      exact ⟨hd, Nat.le_refl _⟩
    | some op =>
      obtain ⟨o, rest, hp, -⟩ := Parser.operator?_eq_some p lookup op hop
      rw [run_chainFrom_succ _ _ _ _ _ _ _ _ hop hp] at h
      obtain ⟨hdq, hlq⟩ := forward.bind (fun right => ih (.binary op left right)) (p.after o) n q hd h
      rw [Parser.ahead_after hp] at hlq
      rw [hp, List.length_cons]
      exact ⟨hdq, by omega⟩

theorem forward_more {depth : Nat} {operand : Rule Node} (lookup : String → Option BinOp)
    (forward : Forward depth operand) (left : Node) : Forward depth (more lookup operand left) :=
  fun p => forward_chainFrom lookup forward _ left p

/-- An expression takes every operator that goes on with it. -/
theorem not_goesOn_of_run {depth : Nat} {ts rest : List Token} {n m : Node} {p q : Parser}
    (derives : Derives .expression depth ts n) (hd : p.depth = depth) (hp : p.ahead = ts ++ rest)
    (hrun : (expressionAt p.levels).run p = .ok m q) (hq : q.ahead = rest) :
    ∀ t ∈ rest.head?, ¬ GoesOn depth ts t := by
  rintro t ht ⟨kind, ⟨op, spelling⟩, joins⟩
  obtain ⟨rest, rfl⟩ : ∃ us, rest = t :: us := ⟨_, (List.cons_head?_tail ht).symm⟩
  obtain ⟨wrap, last, -, hresume⟩ := derives.runs p (t :: rest) hd hp
  let p₁ := p.past ts
  have hp₁ : p₁.ahead = t :: rest := Parser.ahead_past hp
  have hafter : (p₁.after t).ahead = rest := Parser.ahead_after hp₁
  have hop : ∀ lookup, p₁.operator? lookup = lookup t.text :=
    fun lookup => Grammar.operator?_past p ts rest t lookup hp derives.ne_nil kind (hd ▸ joins)
  have hfactor := forward_factorAt p₁
  have hterm := forward_termAt p₁
  -- either operator would be taken, and then no more than the tokens after it are left
  have hshort : q.ahead.length ≤ rest.length := by
    rw [hresume] at hrun
    rw [← hafter]
    rcases spelling with spelling | spelling
    · have hmul := (hop _).trans (Grammar.multiplicative?_eq_none _ _ spelling)
      rw [show (resume p.levels wrap last).run p₁ = _ from
        run_resume_of_additive wrap last p₁ op t rest hp₁ hmul ((hop _).trans spelling)] at hrun
      exact (hterm.bind (fun term => forward_more _ hterm _) (p₁.after t) m q rfl hrun).2
    · obtain ⟨term, r, hr, hm⟩ := run_bind_eq_ok _ _ _ _ _ hrun
      rw [show (more BinOp.multiplicative? (factorAt p.levels) last).run p₁ = _ from
        run_more_of_some _ _ last p₁ op t rest hfactor ((hop _).trans spelling) hp₁] at hr
      obtain ⟨hdr, hlr⟩ := hfactor.bind (fun right => forward_more _ hfactor _) (p₁.after t) term r rfl hr
      exact Nat.le_trans (forward_more _ hterm _ r m q hdr hm).2 hlr
  rw [hq, List.length_cons] at hshort
  omega

/-! ## The three levels -/

section levels

variable {endLine depth : Nat}

theorem breaks_factorWith (parenthesis : Token → Rule Node)
    (group_breaks : ∀ p d q o rest, p.endLine = endLine → p.depth = depth → p.ahead = o :: rest →
      o.isOperator "(" = true → (parenthesis o).run p = .error d q →
      ∃ ts, p.ahead = ts ++ q.ahead ∧ Stuck endLine .factor depth ts q.ahead d) :
    Breaks endLine depth (Stuck endLine .factor depth) (factorWith parenthesis) := by
  intro p d q he hd h
  rcases run_factorWith_eq_error _ _ _ _ h with
    ⟨hp, rfl, rfl⟩ | ⟨t, rest, hp, ⟨kind, value, rfl, rfl⟩ | ⟨opening, hrun⟩ | ⟨integer, name, opening, rfl, rfl⟩⟩
  · exact ⟨[], rfl, by rw [hp, he]; exact .ended⟩
  · exact ⟨[], rfl, by rw [hp]; exact .numeral kind value⟩
  · exact group_breaks p d q t rest he hd hp opening hrun
  · exact ⟨[], rfl, by rw [hp]; exact .noFactor integer name opening⟩

theorem breaks_term {operand : Rule Node} (reads : Reads depth (Derives .factor depth) operand)
    (h : Breaks endLine depth (Stuck endLine .factor depth) operand) :
    Breaks endLine depth (Stuck endLine .term depth) (chain BinOp.multiplicative? operand) :=
  breaks_chain reads h (fun _ _ => .factor) (fun _ _ _ => .factor) (fun _ _ _ _ _ _ => .product)
    (fun _ _ _ _ _ _ _ => .product) fun _ _ => Derives.ne_nil

theorem breaks_sum {operand : Rule Node} (reads : Reads depth (Derives .term depth) operand)
    (h : Breaks endLine depth (Stuck endLine .term depth) operand) :
    Breaks endLine depth (Stuck endLine .expression depth) (chain BinOp.additive? operand) :=
  breaks_chain reads h (fun _ _ => .term) (fun _ _ _ => .term) (fun _ _ _ _ _ _ => .sum)
    (fun _ _ _ _ _ _ _ => .sum) fun _ _ => Derives.ne_nil

theorem breaks_group (levels : Nat) (hlevels : maxNesting - depth = levels + 1)
    (h : Breaks endLine (depth + 1) (Stuck endLine .expression (depth + 1)) (expressionAt levels)) (p q : Parser)
    (d : Diagnostic) (o : Token) (rest : List Token) (he : p.endLine = endLine) (hd : p.depth = depth)
    (hp : p.ahead = o :: rest) (opening : o.isOperator "(" = true)
    (hrun : (group (expressionAt levels) o).run p = .error d q) :
    ∃ ts, p.ahead = ts ++ q.ahead ∧ Stuck endLine .factor depth ts q.ahead d := by
  have room : depth < maxNesting := by omega
  let p₁ := (p.after o).opened
  have hp₁ : p₁.ahead = rest := Parser.ahead_after hp
  have he₁ : p₁.endLine = endLine := (Parser.endLine_after hp).trans he
  have hd₁ : p₁.depth = depth + 1 := by rw [Parser.depth_opened, ← hd]; rfl
  have hl₁ : p₁.levels = levels := by rw [Parser.levels, hd₁]; omega
  rw [run_group _ p o rest hp] at hrun
  rcases run_bind_eq_error _ _ _ _ _ hrun with hrun | ⟨n, r, hr, hclose⟩
  · obtain ⟨ts, hts, stuck⟩ := h p₁ d q he₁ hd₁ hrun
    exact ⟨o :: ts, by rw [hp, List.cons_append, ← hts, hp₁], .group room opening stuck⟩
  · obtain ⟨ts, hts, inner, -⟩ := reads_expressionAt levels (depth + 1) (by omega) p₁ n r hd₁ hr
    obtain ⟨rfl, hq, hclosing⟩ := run_close_eq_error _ _ _ _ _ hclose
    have hstop := not_goesOn_of_run inner hd₁ hts (by rw [hl₁]; exact hr) rfl
    rw [hq]
    refine ⟨o :: ts, by rw [hp, List.cons_append, ← hts, hp₁], .unclosed room opening inner fun t ht => ?_⟩
    exact ⟨hclosing t ht, hstop t ht⟩

theorem breaks_factorAt (levels : Nat) :
    ∀ depth, maxNesting - depth = levels → Breaks endLine depth (Stuck endLine .factor depth) (factorAt levels) := by
  induction levels with
  | zero =>
    intro depth hdepth
    refine breaks_factorWith _ fun p d q o rest _ _ hp opening h => ?_
    cases h
    exact ⟨[], rfl, by rw [hp]; exact .tooDeep (by omega) opening⟩
  | succ levels ih =>
    intro depth hdepth
    have hlevels : maxNesting - (depth + 1) = levels := by omega
    have hterm := breaks_term (reads_factorAt levels _ hlevels) (ih _ hlevels)
    have hinner := breaks_sum (reads_termAt levels _ hlevels) hterm
    exact breaks_factorWith _ fun p d q o rest he hd hp opening h =>
      breaks_group levels hdepth hinner p q d o rest he hd hp opening h

theorem breaks_termAt (levels : Nat) (h : maxNesting - depth = levels) :
    Breaks endLine depth (Stuck endLine .term depth) (termAt levels) :=
  breaks_term (reads_factorAt levels depth h) (breaks_factorAt levels depth h)

theorem breaks_expressionAt (levels : Nat) (h : maxNesting - depth = levels) :
    Breaks endLine depth (Stuck endLine .expression depth) (expressionAt levels) :=
  breaks_sum (reads_termAt levels depth h) (breaks_termAt levels h)

end levels

end Rule

namespace Grammar

open Rule

/-! ## An expression that is stuck -/

def Level.rule : Level → Nat → Rule Node
  | .factor => factorAt
  | .term => termAt
  | .expression => expressionAt

theorem runs_product_error {depth : Nat} {ts us rest : List Token} {o : Token} {op : BinOp} {l : Node} {d : Diagnostic}
    (left : Derives .term depth ts l) (kind : o.kind = .operator) (spelling : BinOp.multiplicative? o.text = some op)
    (joins : Joins depth ts o) (p q : Parser) (hd : p.depth = depth) (hp : p.ahead = ts ++ o :: (us ++ rest))
    (right : (factorAt p.levels).run (p.past (ts ++ [o])) = .error d q) :
    (termAt p.levels).run p = .error d q := by
  let p₁ := p.past ts
  have hop : p₁.operator? BinOp.multiplicative? = some op := by
    rw [operator?_past p ts _ o _ hp left.ne_nil kind (hd ▸ joins), spelling]
  rw [show (termAt p.levels).run p = _ from left.runs p (o :: (us ++ rest)) hd hp]
  show (more BinOp.multiplicative? (factorAt p₁.levels) l).run p₁ = _
  rw [run_more_of_some _ _ l p₁ op o (us ++ rest) (forward_factorAt p₁) hop (Parser.ahead_past hp), Parser.after_past]
  exact run_bind_error _ _ _ _ _ right

theorem runs_sum_error {depth : Nat} {ts us rest : List Token} {o : Token} {op : BinOp} {l : Node} {d : Diagnostic}
    (left : Derives .expression depth ts l) (kind : o.kind = .operator) (spelling : BinOp.additive? o.text = some op)
    (joins : Joins depth ts o) (p q : Parser) (hd : p.depth = depth) (hp : p.ahead = ts ++ o :: (us ++ rest))
    (right : (termAt p.levels).run (p.past (ts ++ [o])) = .error d q) :
    (expressionAt p.levels).run p = .error d q := by
  let p₁ := p.past ts
  have hop : ∀ lookup, p₁.operator? lookup = lookup o.text :=
    fun lookup => operator?_past p ts _ o lookup hp left.ne_nil kind (hd ▸ joins)
  obtain ⟨wrap, last, -, hrun⟩ := left.runs p (o :: (us ++ rest)) hd hp
  rw [hrun]
  show (resume p₁.levels wrap last).run p₁ = _
  rw [run_resume_of_additive wrap last p₁ op o _ (Parser.ahead_past hp)
    ((hop _).trans (multiplicative?_eq_none _ _ spelling)) ((hop _).trans spelling), Parser.after_past]
  exact run_bind_error _ _ _ _ _ right

/-- Where the grammar is stuck, the rule of the level fails, and stops there. -/
theorem Stuck.runs {endLine : Nat} {level : Level} {depth : Nat} {ts rest : List Token} {d : Diagnostic}
    (h : Stuck endLine level depth ts rest d) (p : Parser) (he : p.endLine = endLine) (hd : p.depth = depth)
    (hp : p.ahead = ts ++ rest) : ∃ q, (level.rule p.levels).run p = .error d q ∧ q.ahead = rest := by
  induction h generalizing p with
  | ended =>
    refine ⟨p, ?_, hp⟩
    obtain ⟨parenthesis, h⟩ := exists_factorAt_eq p.levels
    rw [Level.rule, h, run_factorWith_end parenthesis p hp, he]
  | numeral kind value =>
    refine ⟨p, ?_, hp⟩
    obtain ⟨parenthesis, h⟩ := exists_factorAt_eq p.levels
    rw [Level.rule, h, run_factorWith_numeral parenthesis p _ _ hp kind value]
  | tooDeep full opening =>
    refine ⟨p, ?_, hp⟩
    rw [Level.rule, factorAt_of_no_room p (hd ▸ full), run_factorWith_parenthesis _ p _ _ hp opening]
    rfl
  | noFactor integer name opening =>
    refine ⟨p, ?_, hp⟩
    obtain ⟨parenthesis, h⟩ := exists_factorAt_eq p.levels
    rw [Level.rule, h, run_factorWith_unexpected parenthesis p _ _ hp integer name opening]
  | @group depth o ts rest d room opening _ ih =>
    let p₁ := (p.after o).opened
    have hd₁ : p₁.depth = depth + 1 := by rw [Parser.depth_opened, ← hd]; rfl
    obtain ⟨q, hq, hrest⟩ := ih p₁ ((Parser.endLine_after hp).trans he) hd₁ (Parser.ahead_after hp)
    refine ⟨q, ?_, hrest⟩
    rw [Level.rule, factorAt_of_room p (hd ▸ room), run_factorWith_parenthesis _ p o _ hp opening, run_group _ p o _ hp]
    exact run_bind_error _ _ _ _ _ hq
  | @unclosed depth o ts rest n room opening inner stop =>
    let p₁ := (p.after o).opened
    have hd₁ : p₁.depth = depth + 1 := by rw [Parser.depth_opened, ← hd]; rfl
    have hp₁ : p₁.ahead = ts ++ rest := Parser.ahead_after hp
    have hrest : (p₁.past ts).ahead = rest := Parser.ahead_past hp₁
    have hn := run_expressionAt_of_stop inner p₁ rest hd₁ hp₁ fun t ht => (stop t ht).2
    have hclose := run_close_error o n (p₁.past ts) fun t ht => (stop t (hrest ▸ ht)).1
    refine ⟨(p₁.past ts).closed, ?_, hrest⟩
    rw [Level.rule, factorAt_of_room p (hd ▸ room), run_factorWith_parenthesis _ p o _ hp opening, run_group _ p o _ hp]
    exact (run_bind_ok _ _ _ _ _ hn).trans hclose
  | factor _ ih =>
    obtain ⟨q, hq, hrest⟩ := ih p he hd hp
    exact ⟨q, run_bind_error _ _ _ _ _ hq, hrest⟩
  | @product depth ts us rest o op l d left kind spelling joins _ ih =>
    rw [List.append_assoc, List.cons_append] at hp
    have hp' : p.ahead = ts ++ [o] ++ (us ++ rest) := by rw [hp, List.append_cons]
    obtain ⟨q, hq, hrest⟩ := ih (p.past (ts ++ [o])) ((Parser.endLine_past hp').trans he) hd (Parser.ahead_past hp')
    exact ⟨q, runs_product_error left kind spelling joins p q hd hp hq, hrest⟩
  | term _ ih =>
    obtain ⟨q, hq, hrest⟩ := ih p he hd hp
    exact ⟨q, run_bind_error _ _ _ _ _ hq, hrest⟩
  | @sum depth ts us rest o op l d left kind spelling joins _ ih =>
    rw [List.append_assoc, List.cons_append] at hp
    have hp' : p.ahead = ts ++ [o] ++ (us ++ rest) := by rw [hp, List.append_cons]
    obtain ⟨q, hq, hrest⟩ := ih (p.past (ts ++ [o])) ((Parser.endLine_past hp').trans he) hd (Parser.ahead_past hp')
    exact ⟨q, runs_sum_error left kind spelling joins p q hd hp hq, hrest⟩

end Grammar

end ExprLang
