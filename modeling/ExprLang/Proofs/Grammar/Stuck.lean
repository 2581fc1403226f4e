import Mathlib.Data.List.Forall2
import ExprLang.Proofs.Grammar

/-!
# Where a text leaves the grammar

Tokens that are no statement have a first token that nothing can go on with, or they break off. The relations of this
module say which token that is and what is said about it, without a parser.

* `Grammar.Stuck` : a part of an expression that breaks off, by level;
* `Grammar.Ends` : a statement, and tokens after it that do not belong to it;
* `Grammar.StuckStatement`, `Grammar.StuckSole`, `Grammar.StuckProgram` : the same for statements and lists of them;
* `joins_iff_not_below`, `isChain_append_singleton_iff` : tokens below others, and lists of statements;
* `Stuck.viable`, `StuckSole.viable`, `StuckProgram.viable` : what was read up to there can be completed;
* `Stuck.of_cons`, `StuckSole.of_cons`, `StuckProgram.of_cons` : what comes after the token to blame does not matter.
-/

namespace ExprLang.Grammar

/-- Whether the operator `o` goes on with the tokens `ts` of an expression inside `depth` parentheses. -/
def GoesOn (depth : Nat) (ts : List Token) (o : Token) : Prop :=
  o.kind = .operator ∧ (∃ op, BinOp.additive? o.text = some op ∨ BinOp.multiplicative? o.text = some op) ∧
    Joins depth ts o

/-- `Stuck endLine level depth ts rest d` : inside `depth` parentheses the tokens `ts` begin a part of the level
`level`, and the tokens `rest` do not go on with it, for which `d` blames a token. If `rest` is empty, the end is on
the line `endLine`. -/
inductive Stuck (endLine : Nat) : Level → Nat → List Token → List Token → Diagnostic → Prop
  | ended {depth} : Stuck endLine .factor depth [] [] ⟨.unexpectedEnd operandNames, endLine, none⟩
  | numeral {depth t rest} (kind : t.kind = .integerLiteral) (value : Numeral.int64? t.text = none) :
      Stuck endLine .factor depth [] (t :: rest) (.atToken (.invalidNumeral t.text) t)
  | tooDeep {depth t rest} (full : maxNesting ≤ depth) (opening : t.isOperator "(" = true) :
      Stuck endLine .factor depth [] (t :: rest) t.tooDeep
  | noFactor {depth t rest} (integer : t.kind ≠ .integerLiteral) (name : t.kind ≠ .identifier)
      (opening : t.isOperator "(" = false) : Stuck endLine .factor depth [] (t :: rest) t.unexpected
  | group {depth o ts rest d} (room : depth < maxNesting) (opening : o.isOperator "(" = true)
      (inner : Stuck endLine .expression (depth + 1) ts rest d) : Stuck endLine .factor depth (o :: ts) rest d
  | unclosed {depth o ts rest n} (room : depth < maxNesting) (opening : o.isOperator "(" = true)
      (inner : Derives .expression (depth + 1) ts n)
      (stop : ∀ t ∈ rest.head?, t.isOperator ")" = false ∧ ¬ GoesOn (depth + 1) ts t) :
      Stuck endLine .factor depth (o :: ts) rest o.unmatched
  | factor {depth ts rest d} (first : Stuck endLine .factor depth ts rest d) : Stuck endLine .term depth ts rest d
  | product {depth ts us rest o op l d} (left : Derives .term depth ts l) (kind : o.kind = .operator)
      (spelling : BinOp.multiplicative? o.text = some op) (joins : Joins depth ts o)
      (right : Stuck endLine .factor depth us rest d) : Stuck endLine .term depth (ts ++ o :: us) rest d
  | term {depth ts rest d} (first : Stuck endLine .term depth ts rest d) : Stuck endLine .expression depth ts rest d
  | sum {depth ts us rest o op l d} (left : Derives .expression depth ts l) (kind : o.kind = .operator)
      (spelling : BinOp.additive? o.text = some op) (joins : Joins depth ts o)
      (right : Stuck endLine .term depth us rest d) : Stuck endLine .expression depth (ts ++ o :: us) rest d

/-- `Ends ts rest n` : the tokens `ts` are a statement that stands for `n`, and the first of the tokens `rest` does not
go on with it. -/
inductive Ends : List Token → List Token → Node → Prop
  | expression {ts rest n} (value : Derives .expression 0 ts n)
      (stop : ∀ t ∈ rest.head?, ¬ GoesOn 0 ts t ∧ ¬ (t.isOperator "=" = true ∧ Joins 0 ts t)) : Ends ts rest n
  | assignment {t e ts rest n} (kind : t.kind = .identifier) (equals : e.isOperator "=" = true)
      (line : e.line = t.line) (value : Derives .expression 0 ts n) (stop : ∀ t ∈ rest.head?, ¬ GoesOn 0 ts t) :
      Ends (t :: e :: ts) rest (.assign t.text n)

/-- `StuckStatement endLine ts rest d` : the tokens `ts` begin a statement, and the tokens `rest` do not go on with
it. -/
inductive StuckStatement (endLine : Nat) : List Token → List Token → Diagnostic → Prop
  | expression {ts rest d} (value : Stuck endLine .expression 0 ts rest d) : StuckStatement endLine ts rest d
  | assignment {t e ts rest d} (kind : t.kind = .identifier) (equals : e.isOperator "=" = true)
      (line : e.line = t.line) (value : Stuck endLine .expression 0 ts rest d) :
      StuckStatement endLine (t :: e :: ts) rest d
  | target {start ts e rest n} (value : Derives .expression 0 (start :: ts) n) (equals : e.isOperator "=" = true)
      (joins : Joins 0 (start :: ts) e) (apart : ts = [] → start.kind = .identifier → e.line ≠ start.line) :
      StuckStatement endLine (start :: ts) (e :: rest) (.atToken (.malformedTarget n.text) start)

/-- `StuckSole endLine ts rest d` : the tokens `ts` begin a statement that ends the text, and the tokens `rest` do not
go on with it. -/
inductive StuckSole (endLine : Nat) : List Token → List Token → Diagnostic → Prop
  | statement {ts rest d} (stuck : StuckStatement endLine ts rest d) : StuckSole endLine ts rest d
  | left {ts t rest n} (ends : Ends ts (t :: rest) n) : StuckSole endLine ts (t :: rest) t.unexpected

/-- `StuckProgram endLine ts rest d` : the tokens `ts` begin a list of statements, and the tokens `rest` do not go on
with it. -/
inductive StuckProgram (endLine : Nat) : List Token → List Token → Diagnostic → Prop
  | statement {ts us rest d body} (before : Statements ts body) (below : Below ts (us ++ rest))
      (some : us ++ rest ≠ []) (stuck : StuckStatement endLine us rest d) : StuckProgram endLine (ts ++ us) rest d
  | left {ts us t rest n body} (before : Statements ts body) (below : Below ts us) (ends : Ends us (t :: rest) n)
      (line : ¬ Below us [t]) : StuckProgram endLine (ts ++ us) (t :: rest) t.unexpected

/-! ## Order -/

section order

variable {before ts us vs rest : List Token} {t : Token}

theorem below_nil_left (us : List Token) : Below [] us := fun t ht => by cases ht

theorem below_nil_right (ts : List Token) : Below ts [] := fun t _ u hu => by cases hu

/-- Only the first token decides whether tokens begin below others. -/
theorem Below.of_head? (h : Below ts us) (head : ∀ v ∈ vs.head?, v ∈ us.head?) : Below ts vs :=
  fun t ht v hv => h t ht v (head v hv)

theorem Below.of_append (h : Below ts (us ++ vs)) : Below ts us := by
  refine h.of_head? fun v hv => ?_
  cases us with
  | nil => cases hv
  | cons => exact hv

theorem Below.append_left (h : Below ts us) (first : ts = [] → Below before us) : Below (before ++ ts) us := by
  cases ts with
  | nil =>
    rw [List.append_nil]
    exact first rfl
  | cons t ts =>
    intro u hu
    rw [List.getLast?_append_of_ne_nil _ (List.cons_ne_nil t ts)] at hu
    exact h u hu

theorem Below.of_cons (hts : ts ≠ []) (below : Below (t :: ts) rest) : Below ts rest := by
  intro u hu
  refine below u ?_
  rw [List.getLast?_cons_of_ne_nil hts]
  exact hu

/-- Outside parentheses a token goes on with the tokens before it exactly if it is not below them. -/
theorem joins_iff_not_below (hts : ts ≠ []) : Joins 0 ts t ↔ ¬ Below ts [t] := by
  have hlast := List.getLast?_eq_some_getLast hts
  constructor
  · rintro (hpos | hle) below
    · omega
    · have hlt := below _ hlast t rfl
      have := hle _ hlast
      omega
  · intro h
    refine Or.inr fun u hu => Nat.le_of_not_lt fun hlt => h fun v hv w hw => ?_
    obtain rfl : u = v := Option.some.inj (hu.symm.trans hv)
    cases hw
    exact hlt

/-- What begins below some tokens does not go on with them. -/
theorem not_joins_of_below (hts : ts ≠ []) (below : Below ts rest) : ∀ t ∈ rest.head?, ¬ Joins 0 ts t := by
  intro t ht joins
  refine (joins_iff_not_below hts).1 joins (below.of_head? ?_)
  rintro _ ⟨⟩
  exact ht

/-- What follows a list of statements follows its last part. -/
theorem getLast?_flatten (parts : List (List Token)) (part : List Token) (h : part ≠ []) :
    (parts ++ [part]).flatten.getLast? = part.getLast? := by
  rw [List.flatten_append, List.flatten_singleton, List.getLast?_append_of_ne_nil _ h]

end order

/-! ## Statements and their ends -/

theorem Ends.statement {ts rest : List Token} {n : Node} (h : Ends ts rest n) : Statement ts n := by
  cases h with
  | expression value => exact .expression value
  | assignment kind equals line value => exact .assignment kind equals line value

theorem Statements.nil : Statements [] [] := ⟨[], rfl, .nil, .nil⟩

theorem statements_singleton {ts : List Token} {n : Node} (h : Statement ts n) : Statements ts [n] :=
  ⟨[ts], by rw [List.flatten_singleton], .cons h .nil, .singleton _⟩

/-- What comes after a list of statements is below it if it is below the last of them. -/
theorem isChain_append_singleton_iff {parts : List (List Token)} {nodes : List Node} {rest : List Token}
    (statements : List.Forall₂ Statement parts nodes) :
    (parts ++ [rest]).IsChain Below ↔ parts.IsChain Below ∧ Below parts.flatten rest := by
  have hne : ∀ part ∈ parts, part ≠ [] :=
    ((List.forall₂_and_left parts nodes).1 (statements.imp fun _ _ statement => ⟨statement.ne_nil, statement⟩)).1
  rcases List.eq_nil_or_concat parts with rfl | ⟨front, part, rfl⟩
  · exact ⟨fun _ => ⟨.nil, below_nil_left rest⟩, fun _ => .singleton rest⟩
  · rw [List.concat_eq_append] at hne ⊢
    have hlast := getLast?_flatten front part (hne part (List.mem_append_right _ (List.mem_singleton.2 rfl)))
    have hbelow : Below (front ++ [part]).flatten rest ↔ Below part rest := by rw [Below, hlast, Below]
    rw [hbelow, List.isChain_append, List.getLast?_concat]
    simp

theorem Statements.append {ts us : List Token} {body body' : List Node} (h : Statements ts body)
    (h' : Statements us body') (below : Below ts us) : Statements (ts ++ us) (body ++ body') := by
  obtain ⟨parts, rfl, statements, chain⟩ := h
  obtain ⟨parts', rfl, statements', chain'⟩ := h'
  refine ⟨parts ++ parts', by rw [List.flatten_append], List.rel_append statements statements', ?_⟩
  refine chain.append chain' fun part hpart part' hpart' t ht u hu => ?_
  obtain ⟨front, rfl⟩ : ∃ front, parts = front ++ [part] := ⟨_, (List.dropLast_append_getLast? part hpart).symm⟩
  obtain ⟨rear, rfl⟩ : ∃ rear, parts' = part' :: rear := ⟨_, (List.cons_head?_tail hpart').symm⟩
  refine below t ?_ u ?_
  · rw [getLast?_flatten]
    · exact ht
    · rintro rfl
      cases ht
  · rw [List.flatten_cons]
    cases part' with
    | nil => cases hu
    | cons v vs => exact hu

/-- A statement ends where the tokens after it begin below it. -/
theorem Statement.ends {ts rest : List Token} {n : Node} (s : Statement ts n) (below : Below ts rest) :
    Ends ts rest n := by
  cases s with
  | expression value =>
    have hjoins := not_joins_of_below value.ne_nil below
    exact .expression value fun t ht => ⟨fun h => hjoins t ht h.2.2, fun h => hjoins t ht h.2⟩
  | @assignment _ _ ts _ kind equals line value =>
    have hbelow : Below ts rest := (below.of_cons (List.cons_ne_nil _ _)).of_cons value.ne_nil
    exact .assignment kind equals line value fun t ht h => not_joins_of_below value.ne_nil hbelow t ht h.2.2

/-! ## Completion -/

/-- A name, with which every part of an expression can be completed. -/
def someName : Token := ⟨⟨1, 0⟩, .identifier, "x"⟩

def someClosing : Token := ⟨⟨1, 0⟩, .operator, ")"⟩

/-- What breaks off can be completed. -/
theorem Stuck.viable {endLine : Nat} {level : Level} {depth : Nat} {ts rest : List Token} {d : Diagnostic}
    (h : Stuck endLine level depth ts rest d) : ∃ more n, Derives level depth (ts ++ more) n := by
  induction h with
  | ended | numeral | tooDeep | noFactor => exact ⟨[someName], _, .name rfl⟩
  | group room opening _ ih =>
    obtain ⟨more, n, hn⟩ := ih
    refine ⟨more ++ [someClosing], n, ?_⟩
    rw [List.cons_append, ← List.append_assoc]
    exact .group room opening hn rfl
  | unclosed room opening inner => exact ⟨[someClosing], _, .group room opening inner rfl⟩
  | factor _ ih =>
    obtain ⟨more, n, hn⟩ := ih
    exact ⟨more, n, .factor hn⟩
  | product left kind spelling joins _ ih =>
    obtain ⟨more, n, hn⟩ := ih
    have hproduct := Derives.product left kind spelling joins hn
    rw [← List.cons_append, ← List.append_assoc] at hproduct
    exact ⟨more, _, hproduct⟩
  | term _ ih =>
    obtain ⟨more, n, hn⟩ := ih
    exact ⟨more, n, .term hn⟩
  | sum left kind spelling joins _ ih =>
    obtain ⟨more, n, hn⟩ := ih
    have hsum := Derives.sum left kind spelling joins hn
    rw [← List.cons_append, ← List.append_assoc] at hsum
    exact ⟨more, _, hsum⟩

theorem StuckStatement.viable {endLine : Nat} {ts rest : List Token} {d : Diagnostic}
    (h : StuckStatement endLine ts rest d) : ∃ more n, Statement (ts ++ more) n := by
  cases h with
  | expression value =>
    obtain ⟨more, n, hn⟩ := value.viable
    exact ⟨more, n, .expression hn⟩
  | assignment kind equals line value =>
    obtain ⟨more, n, hn⟩ := value.viable
    exact ⟨more, _, .assignment kind equals line hn⟩
  | target value => exact ⟨[], _, by rw [List.append_nil]; exact .expression value⟩

theorem StuckSole.viable {endLine : Nat} {ts rest : List Token} {d : Diagnostic}
    (h : StuckSole endLine ts rest d) : ∃ more n, Statement (ts ++ more) n := by
  cases h with
  | statement stuck => exact stuck.viable
  | left ends => exact ⟨[], _, by rw [List.append_nil]; exact ends.statement⟩

theorem StuckProgram.viable {endLine : Nat} {ts rest : List Token} {d : Diagnostic}
    (h : StuckProgram endLine ts rest d) : ∃ more body, Statements (ts ++ more) body := by
  cases h with
  | @statement ts us rest d body before below some stuck =>
    cases us with
    | nil => exact ⟨[], body, by rwa [List.append_nil, List.append_nil]⟩
    | cons u us =>
      obtain ⟨more, n, hn⟩ := stuck.viable
      have hbelow : Below ts (u :: us ++ more) := below.of_head? fun v hv => hv
      refine ⟨more, body ++ [n], ?_⟩
      rw [List.append_assoc]
      exact before.append (statements_singleton hn) hbelow
  | left before below ends =>
    exact ⟨[], _, by rw [List.append_nil]; exact before.append (statements_singleton ends.statement) below⟩

/-! ## What comes after the token to blame -/

section of_cons

variable {endLine : Nat} {ts rest : List Token} {t : Token} {d : Diagnostic} (endLine' : Nat) (rest' : List Token)

theorem Stuck.of_cons {level : Level} {depth : Nat} (h : Stuck endLine level depth ts (t :: rest) d) :
    Stuck endLine' level depth ts (t :: rest') d := by
  generalize hrest : t :: rest = us at h
  induction h with
  | ended => cases hrest
  | numeral kind value =>
    cases hrest
    exact .numeral kind value
  | tooDeep full opening =>
    cases hrest
    exact .tooDeep full opening
  | noFactor integer name opening =>
    cases hrest
    exact .noFactor integer name opening
  | group room opening _ ih => exact .group room opening (ih hrest)
  | unclosed room opening inner stop =>
    subst hrest
    exact .unclosed room opening inner stop
  | factor _ ih => exact .factor (ih hrest)
  | product left kind spelling joins _ ih => exact .product left kind spelling joins (ih hrest)
  | term _ ih => exact .term (ih hrest)
  | sum left kind spelling joins _ ih => exact .sum left kind spelling joins (ih hrest)

theorem Ends.of_cons {n : Node} (h : Ends ts (t :: rest) n) : Ends ts (t :: rest') n := by
  cases h with
  | expression value stop => exact .expression value stop
  | assignment kind equals line value stop => exact .assignment kind equals line value stop

theorem StuckStatement.of_cons (h : StuckStatement endLine ts (t :: rest) d) :
    StuckStatement endLine' ts (t :: rest') d := by
  cases h with
  | expression value => exact .expression (value.of_cons endLine' rest')
  | assignment kind equals line value => exact .assignment kind equals line (value.of_cons endLine' rest')
  | target value equals joins apart => exact .target value equals joins apart

theorem StuckSole.of_cons (h : StuckSole endLine ts (t :: rest) d) : StuckSole endLine' ts (t :: rest') d := by
  cases h with
  | statement stuck => exact .statement (stuck.of_cons endLine' rest')
  | left ends => exact .left (ends.of_cons rest')

theorem StuckProgram.of_cons (h : StuckProgram endLine ts (t :: rest) d) :
    StuckProgram endLine' ts (t :: rest') d := by
  cases h with
  | @statement ts us _ _ body before below some stuck =>
    have hbelow : Below ts (us ++ t :: rest') := below.of_head? fun v hv => by cases us <;> exact hv
    exact .statement before hbelow (List.append_ne_nil_of_right_ne_nil _ (List.cons_ne_nil _ _))
      (stuck.of_cons endLine' rest')
  | left before below ends line => exact .left before below (ends.of_cons rest') line

end of_cons

/-! ## Statements that begin no assignment -/

section

variable {endLine : Nat} {level : Level} {depth : Nat} {ts rest : List Token} {d : Diagnostic}

theorem Stuck.not_equalsSign (h : Stuck endLine level depth ts rest d) : ∀ t ∈ ts, t.isOperator "=" = false := by
  obtain ⟨more, n, hn⟩ := h.viable
  exact fun t ht => hn.not_equalsSign t (List.mem_append_left _ ht)

/-- An expression that breaks off before its second token does not begin with a name. -/
theorem Stuck.not_name (h : Stuck endLine level depth ts rest d) (short : ts.length ≤ 1) :
    ∀ t ∈ (ts ++ rest).head?, t.kind ≠ .identifier := by
  induction h with
  | ended => intro t ht; cases ht
  | numeral kind =>
    intro t ht
    cases ht
    rw [kind]
    decide
  | tooDeep _ opening | group _ opening | unclosed _ opening =>
    intro t ht
    cases ht
    rw [((Token.isOperator_iff _ _).1 opening).1]
    decide
  | noFactor _ name =>
    intro t ht
    cases ht
    exact name
  | factor _ ih | term _ ih => exact ih short
  | product left | sum left =>
    have := List.length_pos_iff.2 left.ne_nil
    rw [List.length_append, List.length_cons] at short
    omega

end

end ExprLang.Grammar
