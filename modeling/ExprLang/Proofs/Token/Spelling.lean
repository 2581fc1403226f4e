import ExprLang.Proofs.Token.Reading

/-!
# The tokens spell out the text

Between the tokens of a text there is nothing but white space and comments, and every token stands where its text does.

* `Spelled` : a list of tokens laid over a text;
* `spelled_tokenize` : the tokens of a text are laid over it, and one end mark stands at its end.
-/

namespace ExprLang

open Lexeme (tokensFrom)

/-- `Spelled before rest ts` : after the text `before` the tokens `ts` spell out the text `rest`, with trivia between
them, and each stands where its text does. -/
inductive Spelled : List Char → List Char → List Token → Prop
  | done {before rest} (gap : Trivia rest []) : Spelled before rest []
  | token {before gap rest t ts} (trivia : Trivia (gap ++ (t.text.toList ++ rest)) (t.text.toList ++ rest))
      (place : t.toPosition = positionAfter (before ++ gap))
      (further : Spelled (before ++ gap ++ t.text.toList) rest ts) :
      Spelled before (gap ++ (t.text.toList ++ rest)) (t :: ts)

theorem Reading.ne_nil {before rest : List Char} {ts : List Token} (h : Reading before rest ts) : ts ≠ [] := by
  cases h <;> exact List.cons_ne_nil _ _

/-- A reading without its end mark spells out the text. -/
theorem Reading.spelled {before rest : List Char} {ts : List Token} (h : Reading before rest ts) :
    Spelled before rest ts.dropLast := by
  induction h with
  | done gap => exact .done gap
  | token trivia place _ further ih =>
    rw [List.dropLast_cons_of_ne_nil further.ne_nil]
    exact .token trivia place ih

theorem spelled_tokensFrom (before rest : List Char) :
    Spelled before rest (tokensFrom (positionAfter before) (lexemes rest)) := by
  have hspelled := (reading_tokensFrom before rest).spelled
  rwa [List.dropLast_concat] at hspelled

/-- Nothing of a text is lost, and every position is exact: the tokens of a text spell it out, and one end mark at its
end is the last of them. -/
theorem spelled_tokenize (source : String) :
    Spelled [] source.toList (contentOf (tokenize source)) ∧
      ∃ ts, tokenize source = ts ++ [endToken (positionAfter source.toList)] ∧ ∀ t ∈ ts, t.kind ≠ .endOfFile := by
  rw [contentOf_tokenize, ← start_after source.toList]
  exact ⟨spelled_tokensFrom [] source.toList, exists_tokenize_eq_append_endToken source⟩

end ExprLang
