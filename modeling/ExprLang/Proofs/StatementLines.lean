import ExprLang.Proofs.Accepted
import ExprLang.Proofs.Grammar.Parentheses

/-!
# Statements and line breaks

Outside parentheses an operator is on the line of the token before it, and so is the equals sign of an assignment. The
operand after them may be on any line below, so a statement that breaks off at its line takes its operand from the next
line, whatever that is.

* `Token.AwaitsOperand` : a token after which an operand has to come;
* `Derives.line_le`, `Statement.line_le` : the lines of two tokens that stand side by side outside parentheses;
* `lines_of_accepted` : in an accepted text they are the same, unless the first of the tokens awaits an operand;
* `statement_across_lines` : a statement that takes its operand from the next line.
-/

namespace ExprLang

/-- Whether an operand has to come after the token: an operator that joins two of them, or an equals sign. -/
def Token.AwaitsOperand (t : Token) : Prop := t.kind = .operator ∧ t.text ∈ ["+", "-", "*", "/", "="]

theorem Token.awaitsOperand_of_symbol {t : Token} {op : BinOp} (kind : t.kind = .operator) (h : op.symbol = t.text) :
    t.AwaitsOperand :=
  ⟨kind, by rw [← h]; cases op <;> decide⟩

theorem Token.awaitsOperand_of_equalsSign {t : Token} (h : t.isOperator "=" = true) : t.AwaitsOperand := by
  obtain ⟨kind, text⟩ := (isOperator_iff _ _).1 h
  exact ⟨kind, by rw [text]; decide⟩

namespace Grammar

variable {level : Level} {ts us before after : List Token} {t u o : Token} {n : Node}

/-- Where two tokens that stand side by side can be, if a part, a token and another part come one after another. -/
theorem cut_append_cons (h : ts ++ o :: us = before ++ t :: u :: after) :
    (∃ more, ts = before ++ t :: u :: more) ∨ (ts = before ++ [t] ∧ u = o) ∨ (before = ts ∧ t = o) ∨
      ∃ more, before = ts ++ o :: more ∧ us = more ++ t :: u :: after := by
  rcases List.append_eq_append_iff.1 h with ⟨between, rfl, hrest⟩ | ⟨between, rfl, hrest⟩
  · cases between with
    | nil => exact Or.inr (Or.inr (Or.inl ⟨List.append_nil _, (List.cons.inj hrest).1.symm⟩))
    | cons o' more =>
      obtain ⟨rfl, rfl⟩ := List.cons.inj hrest
      exact Or.inr (Or.inr (Or.inr ⟨more, rfl, rfl⟩))
  · rcases between with _ | ⟨t', _ | ⟨u', more⟩⟩
    · exact Or.inr (Or.inr (Or.inl ⟨(List.append_nil _).symm, (List.cons.inj hrest).1⟩))
    · obtain ⟨rfl, htail⟩ := List.cons.inj hrest
      exact Or.inr (Or.inl ⟨rfl, (List.cons.inj htail).1⟩)
    · obtain ⟨rfl, htail⟩ := List.cons.inj hrest
      obtain ⟨rfl, -⟩ := List.cons.inj htail
      exact Or.inl ⟨more, rfl⟩

/-- Two tokens that stand side by side in two parts with an operator between them. -/
theorem line_le_of_cut {op : BinOp} {stack : List Token} (left : Derives level 0 ts n) (kind : o.kind = .operator)
    (symbol : op.symbol = o.text) (joins : Joins 0 ts o) (h : ts ++ o :: us = before ++ t :: u :: after)
    (closed : (before ++ [t]).foldl openAfter stack = stack)
    (inLeft : ∀ more, ts = before ++ t :: u :: more → u.line ≤ t.line ∨ t.AwaitsOperand)
    (inRight : ∀ more, us = more ++ t :: u :: after → (more ++ [t]).foldl openAfter stack = stack →
      u.line ≤ t.line ∨ t.AwaitsOperand) : u.line ≤ t.line ∨ t.AwaitsOperand := by
  rcases cut_append_cons h with ⟨more, hts⟩ | ⟨rfl, rfl⟩ | ⟨-, rfl⟩ | ⟨more, rfl, hus⟩
  · exact inLeft more hts
  · rcases joins with hpos | hle
    · exact absurd hpos (Nat.lt_irrefl 0)
    · exact Or.inl (hle t List.getLast?_concat)
  · exact Or.inr (Token.awaitsOperand_of_symbol kind symbol)
  · have hplain := Token.isPlain_of_symbol symbol
    rw [List.append_assoc, List.foldl_append, left.foldl_openAfter, List.cons_append, List.foldl_cons,
      hplain.openAfter_eq] at closed
    exact inRight more hus closed

/-- Inside a group a parenthesis is open. -/
theorem not_closed_of_group {c : Token} {stack : List Token} (opening : o.isOperator "(" = true)
    (inner : Derives .expression 1 ts n) (h : o :: (ts ++ [c]) = before ++ t :: u :: after) :
    (before ++ [t]).foldl openAfter stack ≠ stack := by
  intro closed
  rw [List.append_cons before] at h
  obtain ⟨more, hmore, hprefix⟩ : ∃ more, before ++ [t] = o :: more ∧ more <+: ts ++ [c] := by
    rcases List.prefix_cons_iff.1 ⟨_, h.symm⟩ with hnil | hcons
    · exact absurd hnil (List.append_ne_nil_of_right_ne_nil _ (List.cons_ne_nil _ _))
    · exact hcons
  rw [hmore] at closed h
  rcases List.prefix_concat_iff.1 hprefix with rfl | hprefix
  · simp at h
  · have hsuffix := inner.suffix_openAfter hprefix (o :: stack)
    rw [List.foldl_cons, openAfter_opening opening] at closed
    rw [closed] at hsuffix
    have := hsuffix.length_le
    rw [List.length_cons] at this
    omega

/-- Outside parentheses a token is not below the one before it, unless it is an operand that has to come. -/
theorem Derives.line_le (d : Derives level 0 ts n) (h : ts = before ++ t :: u :: after) (stack : List Token)
    (closed : (before ++ [t]).foldl openAfter stack = stack) : u.line ≤ t.line ∨ t.AwaitsOperand := by
  generalize hdepth : 0 = depth at d
  induction d generalizing before after stack with
  | integer | name =>
    have hlength := congrArg List.length h
    simp only [List.length_append, List.length_cons, List.length_nil] at hlength
    omega
  | group room opening inner closing =>
    subst hdepth
    exact absurd closed (not_closed_of_group opening inner h)
  | product left kind spelling joins right ihl ihr =>
    subst hdepth
    exact line_le_of_cut left kind (BinOp.symbol_of_multiplicative? _ _ spelling) joins h closed
      (fun more hts => ihl hts stack closed rfl) fun more hus hclosed => ihr hus stack hclosed rfl
  | sum left kind spelling joins right ihl ihr =>
    subst hdepth
    exact line_le_of_cut left kind (BinOp.symbol_of_additive? _ _ spelling) joins h closed
      (fun more hts => ihl hts stack closed rfl) fun more hus hclosed => ihr hus stack hclosed rfl
  | factor _ ih | term _ ih => exact ih h stack closed hdepth

theorem Statement.line_le (s : Statement ts n) (h : ts = before ++ t :: u :: after)
    (closed : openParentheses (before ++ [t]) = []) : u.line ≤ t.line ∨ t.AwaitsOperand := by
  cases s with
  | expression value => exact value.line_le h [] closed
  | @assignment name e ts _ kind equals line value =>
    have hsplit : [name] ++ e :: ts = before ++ t :: u :: after := h
    rcases cut_append_cons hsplit with ⟨more, hname⟩ | ⟨hname, rfl⟩ | ⟨-, rfl⟩ | ⟨more, rfl, hts⟩
    · have hlength := congrArg List.length hname
      simp only [List.length_append, List.length_cons, List.length_nil] at hlength
      omega
    · obtain rfl : name = t := Option.some.inj ((congrArg List.getLast? hname).trans List.getLast?_concat)
      exact Or.inl (Nat.le_of_eq line)
    · exact Or.inr (Token.awaitsOperand_of_equalsSign equals)
    · have hname : name.IsPlain := Token.isPlain_of_kind (by rw [kind]; decide)
      refine value.line_le hts [] ?_
      rw [openParentheses, List.append_assoc, List.foldl_append, List.foldl_cons, List.foldl_nil, hname.openAfter_eq,
        List.cons_append, List.foldl_cons, (Token.isPlain_of_equalsSign equals).openAfter_eq] at closed
      exact closed

end Grammar

open Grammar (Statement Statements)

/-- The tokens of an accepted text stand line after line. -/
theorem pairwise_liveTokens_of_accepted {source : String} {p : Program} (h : parseProgram (tokenize source) = .ok p) :
    (liveTokens (tokenize source)).Pairwise (·.line ≤ ·.line) := by
  obtain ⟨-, hlayout⟩ := tokens_and_layout_of_accepted h
  rw [liveTokens_tokenize, hlayout, show Layout.closing {} = [] from rfl, List.map_nil, List.append_nil]
  exact (Scan.pairwise_tokens {} _).1

/-- The tokens of an accepted text are cut into statements. In every such cut two tokens of one statement that stand
side by side, and between which no parenthesis of the statement is open, are on the same line, unless the first is an
operator or an equals sign, which the operand follows. -/
theorem lines_of_accepted (source : String) (p : Program) (h : parseProgram (tokenize source) = .ok p) :
    Statements (liveTokens (tokenize source)) p.body ∧
    ∀ parts : List (List Token), parts.flatten = liveTokens (tokenize source) →
      List.Forall₂ Statement parts p.body →
      ∀ part ∈ parts, ∀ before t u after, part = before ++ t :: u :: after →
        openParentheses (before ++ [t]) = [] → t.line = u.line ∨ t.AwaitsOperand := by
  refine ⟨statements_of_parseProgram _ p.body h, ?_⟩
  intro parts hparts statements part hpart before t u after hcut closed
  obtain ⟨n, statement⟩ : ∃ n, Statement part n := by
    obtain ⟨i, hi, rfl⟩ := List.getElem_of_mem hpart
    exact ⟨_, (List.forall₂_iff_get.1 statements).2 i hi (statements.length_eq ▸ hi)⟩
  have hsorted : part.Pairwise (·.line ≤ ·.line) :=
    (hparts ▸ pairwise_liveTokens_of_accepted h).sublist (List.sublist_flatten_of_mem hpart)
  rw [hcut, List.pairwise_append, List.pairwise_cons] at hsorted
  have hle : t.line ≤ u.line := hsorted.2.1.1 u List.mem_cons_self
  exact (statement.line_le hcut closed).imp_left fun hge => Nat.le_antisymm hle hge

/-- After a group that goes over two lines, the statement stays on the line of the closing parenthesis. -/
theorem lines_after_group :
    ∃ p parts part before t u after, parseProgram (tokenize "x = (1\n+ 2) * 3") = .ok p ∧
      Statements (liveTokens (tokenize "x = (1\n+ 2) * 3")) p.body ∧
      parts.flatten = liveTokens (tokenize "x = (1\n+ 2) * 3") ∧ List.Forall₂ Statement parts p.body ∧ part ∈ parts ∧
      part = before ++ t :: u :: after ∧ t.isOperator ")" = true ∧ openParentheses (before ++ [t]) = [] ∧
      (t.line = u.line ∨ t.AwaitsOperand) := by
  let n : Node := .assign "x" (.binary .mul (.binary .add (.integer 1) (.integer 2)) (.integer 3))
  let before : List Token := [⟨⟨1, 0⟩, .identifier, "x"⟩, ⟨⟨1, 2⟩, .operator, "="⟩, ⟨⟨1, 4⟩, .operator, "("⟩,
    ⟨⟨1, 5⟩, .integerLiteral, "1"⟩, ⟨⟨2, 0⟩, .operator, "+"⟩, ⟨⟨2, 2⟩, .integerLiteral, "2"⟩]
  let t : Token := ⟨⟨2, 3⟩, .operator, ")"⟩
  let u : Token := ⟨⟨2, 5⟩, .operator, "*"⟩
  have hparse : parseProgram (tokenize "x = (1\n+ 2) * 3") = .ok ⟨[n]⟩ := by decide +kernel
  have hsole : parse (tokenize "x = (1\n+ 2) * 3") = .ok n := by decide +kernel
  have htokens : liveTokens (tokenize "x = (1\n+ 2) * 3") = before ++ t :: u :: [⟨⟨2, 7⟩, .integerLiteral, "3"⟩] := by
    decide +kernel
  have hclosed : openParentheses (before ++ [t]) = [] := by decide +kernel
  have statements : List.Forall₂ Statement [liveTokens (tokenize "x = (1\n+ 2) * 3")] [n] :=
    .cons ((parse_eq_ok_iff _ n).1 hsole) .nil
  have hflatten : [liveTokens (tokenize "x = (1\n+ 2) * 3")].flatten = _ := List.flatten_singleton
  obtain ⟨hstatements, hlines⟩ := lines_of_accepted _ _ hparse
  exact ⟨_, _, _, before, t, u, _, hparse, hstatements, hflatten, statements, List.mem_singleton.2 rfl, htokens, rfl,
    hclosed, hlines _ hflatten statements _ (List.mem_singleton.2 rfl) before t u _ htokens hclosed⟩

/-- A statement takes its operand from the next line, although no parenthesis is open. -/
theorem statement_across_lines :
    ∃ p, parseProgram (tokenize "x = 1 +\ny") = .ok p ∧
      ¬ ∀ parts : List (List Token), parts.flatten = liveTokens (tokenize "x = 1 +\ny") →
        List.Forall₂ Statement parts p.body →
        ∀ part ∈ parts, ∀ before t u after, part = before ++ t :: u :: after →
          openParentheses (before ++ [t]) = [] → t.line = u.line := by
  let n : Node := .assign "x" (.binary .add (.integer 1) (.var "y"))
  let before : List Token :=
    [⟨⟨1, 0⟩, .identifier, "x"⟩, ⟨⟨1, 2⟩, .operator, "="⟩, ⟨⟨1, 4⟩, .integerLiteral, "1"⟩]
  let t : Token := ⟨⟨1, 6⟩, .operator, "+"⟩
  let u : Token := ⟨⟨2, 0⟩, .identifier, "y"⟩
  have hparse : parseProgram (tokenize "x = 1 +\ny") = .ok ⟨[n]⟩ := by decide +kernel
  have hsole : parse (tokenize "x = 1 +\ny") = .ok n := by decide +kernel
  have htokens : liveTokens (tokenize "x = 1 +\ny") = before ++ t :: u :: [] := by decide +kernel
  have hclosed : openParentheses (before ++ [t]) = [] := by decide +kernel
  have statements : List.Forall₂ Statement [liveTokens (tokenize "x = 1 +\ny")] [n] :=
    .cons ((parse_eq_ok_iff _ n).1 hsole) .nil
  refine ⟨_, hparse, fun h => ?_⟩
  have hline := h _ List.flatten_singleton statements _ (List.mem_singleton.2 rfl) before t u [] htokens hclosed
  exact absurd hline (by decide)

end ExprLang
