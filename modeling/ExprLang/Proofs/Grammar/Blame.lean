import ExprLang.Proofs.Grammar.Relocation

/-!
# The token to blame

A refusal that does not come from the end of the text stands at a token, and the cause tells which one: the first that
was not taken, a parenthesis that stays open, or the first of a statement.

* `Grammar.Blames` : the token that a cause is about, by what was taken and what is left;
* `Grammar.Blamed` : a diagnostic that stands at the end, or at the token that its cause is about;
* `Stuck.blamed`, `StuckSole.blamed`, `StuckProgram.blamed` : every refusal is one of the two;
* `Blamed.exists_line` : a refusal stands on the line of the end, or of a token.
-/

namespace ExprLang.Grammar

/-- `Blames taken rest t c` : if the tokens `taken` were taken and `rest` are left, then the cause `c` is about the token
`t`. An unmatched parenthesis is the innermost one that is open: what was taken after it closes all that it opens, and
no closing parenthesis comes next. -/
def Blames (taken rest : List Token) (t : Token) : Cause → Prop
  | .unexpectedToken _ | .refusedToken _ _ | .invalidNumeral _ => rest.head? = some t
  | .unmatchedParenthesis _ => t.isOperator "(" = true ∧ (∀ u ∈ rest.head?, u.isOperator ")" = false) ∧
      ∃ before after, taken = before ++ t :: after ∧ ∀ brackets, after.foldl bracketsAfter brackets = brackets
  | .malformedTarget _ => (∀ u ∈ rest.head?, u.isOperator "=" = true) ∧
      ∃ before after body n, taken = before ++ t :: after ∧ Statements before body ∧ Below before [t] ∧
        Statement (t :: after) n
  | .unexpectedEnd _ => False

/-- Whether the diagnostic stands on the line of the end, where no token is left, or at the token that its cause is
about. -/
def Blamed (endLine : Nat) (taken rest : List Token) (d : Diagnostic) : Prop :=
  (rest = [] ∧ ∃ e, d = ⟨.unexpectedEnd e, endLine, none⟩) ∨ ∃ t c, d = .atToken c t ∧ Blames taken rest t c

section

variable {endLine : Nat} {ts us rest : List Token} {d : Diagnostic}

theorem Blames.prepend {t : Token} {c : Cause} (h : Blames us rest t c) (hc : ∀ text, c ≠ .malformedTarget text) :
    Blames (ts ++ us) rest t c := by
  cases c with
  | unexpectedToken | refusedToken | invalidNumeral => exact h
  | unexpectedEnd => exact h
  | malformedTarget text => exact absurd rfl (hc text)
  | unmatchedParenthesis text =>
    obtain ⟨opening, next, before, after, rfl, balanced⟩ := h
    exact ⟨opening, next, ts ++ before, after, (List.append_assoc ..).symm, balanced⟩

/-- An expression that breaks off is no matter of an assignment. -/
theorem Stuck.cause_ne_malformedTarget {level : Level} {depth : Nat} (h : Stuck endLine level depth ts rest d)
    (text : String) : d.cause ≠ .malformedTarget text := by
  induction h with
  | ended | numeral | tooDeep | noFactor | unclosed => exact Cause.noConfusion
  | group _ _ _ ih | factor _ ih | product _ _ _ _ _ ih | term _ ih | sum _ _ _ _ _ ih => exact ih

theorem Stuck.blamed_prepend {level : Level} {depth : Nat} (h : Stuck endLine level depth us rest d) (ts : List Token)
    (blamed : Blamed endLine us rest d) : Blamed endLine (ts ++ us) rest d := by
  rcases blamed with hend | ⟨t, c, rfl, hblames⟩
  · exact Or.inl hend
  · exact Or.inr ⟨t, c, rfl, hblames.prepend h.cause_ne_malformedTarget⟩

theorem Stuck.blamed {level : Level} {depth : Nat} (h : Stuck endLine level depth ts rest d) :
    Blamed endLine ts rest d := by
  induction h with
  | ended => exact Or.inl ⟨rfl, _, rfl⟩
  | numeral | tooDeep | noFactor => exact Or.inr ⟨_, _, rfl, rfl⟩
  | @group _ o _ _ _ _ _ inner ih => exact inner.blamed_prepend [o] ih
  | unclosed _ opening inner stop =>
    exact Or.inr ⟨_, _, rfl, opening, fun u hu => (stop u hu).1, [], _, rfl, inner.foldl_bracketsAfter⟩
  | factor _ ih | term _ ih => exact ih
  | product _ _ _ _ right ih | sum _ _ _ _ right ih =>
    rw [List.append_cons]
    exact right.blamed_prepend _ ih

theorem StuckStatement.blamed {body : List Node} (h : StuckStatement endLine us rest d) (before : Statements ts body)
    (below : Below ts (us ++ rest)) : Blamed endLine (ts ++ us) rest d := by
  cases h with
  | expression value => exact value.blamed_prepend _ value.blamed
  | @assignment t e us _ _ _ _ _ value =>
    rw [List.append_cons, List.append_cons]
    exact value.blamed_prepend _ value.blamed
  | @target start us e rest n value equals =>
    refine Or.inr ⟨start, _, rfl, ?_, ts, us, body, n, rfl, before, below.of_head? fun v hv => hv, .expression value⟩
    rintro _ ⟨⟩
    exact equals

theorem StuckSole.blamed (h : StuckSole endLine ts rest d) : Blamed endLine ts rest d := by
  cases h with
  | statement stuck => exact stuck.blamed .nil (below_nil_left _)
  | left => exact Or.inr ⟨_, _, rfl, rfl⟩

/-- Every refusal of a list of statements stands at the end, or at the token that its cause is about. -/
theorem StuckProgram.blamed (h : StuckProgram endLine ts rest d) : Blamed endLine ts rest d := by
  cases h with
  | statement before below _ stuck => exact stuck.blamed before below
  | left => exact Or.inr ⟨_, _, rfl, rfl⟩

end

/-- The token that a cause is about was taken, or it is the next one. -/
theorem Blames.mem {taken rest : List Token} {t : Token} {c : Cause} (h : Blames taken rest t c) :
    t ∈ taken ∨ rest.head? = some t := by
  cases c with
  | unexpectedToken | refusedToken | invalidNumeral => exact Or.inr h
  | unexpectedEnd => exact h.elim
  | malformedTarget =>
    obtain ⟨-, before, after, _, _, rfl, -⟩ := h
    exact Or.inl (List.mem_append_right _ List.mem_cons_self)
  | unmatchedParenthesis =>
    obtain ⟨-, -, before, after, rfl, -⟩ := h
    exact Or.inl (List.mem_append_right _ List.mem_cons_self)

theorem Blamed.exists_line {endLine : Nat} {taken rest : List Token} {d : Diagnostic}
    (h : Blamed endLine taken rest d) : d.line = endLine ∨ ∃ t ∈ taken ++ rest, t.line = d.line := by
  rcases h with ⟨-, e, rfl⟩ | ⟨t, c, rfl, hblames⟩
  · exact Or.inl rfl
  · refine Or.inr ⟨t, List.mem_append.2 ?_, rfl⟩
    exact hblames.mem.imp_right List.mem_of_head?

end ExprLang.Grammar
