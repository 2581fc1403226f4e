import ExprLang.Diagnostic.Render
import ExprLang.Parser.Program
import ExprLang.Proofs.Token.Composition

/-!
# Line endings

Whether a line ends with a newline or with a carriage return and a newline makes no difference: not to the tokens, as
long as no string goes over the end of a line, and not to the lines that a diagnostic shows.

* `Text.withReturns` : a text whose lines end with a carriage return and a newline;
* `run_withReturns` : the tokens of such a text;
* `Text.lineAt?_withReturns` : its lines;
* `tokenize_parseProgram_render_withReturns` : the tokens, the program and the diagnostics.
-/

namespace ExprLang

namespace Text

/-- The text with a carriage return in front of every newline. -/
def withReturns (cs : List Char) : List Char := cs.flatMap fun c => if c = '\n' then ['\r', '\n'] else [c]

theorem withReturns_newline (cs : List Char) : withReturns ('\n' :: cs) = '\r' :: '\n' :: withReturns cs := rfl

theorem withReturns_cons {c : Char} (hc : c ≠ '\n') (cs : List Char) :
    withReturns (c :: cs) = c :: withReturns cs := by
  rw [withReturns, List.flatMap_cons, if_neg hc]
  rfl

/-! ## Lines -/

theorem dropLines?_withReturns (n : Nat) (cs : List Char) :
    dropLines? n (withReturns cs) = (dropLines? n cs).map withReturns := by
  induction cs generalizing n with
  | nil => cases n <;> rfl
  | cons c cs ih =>
    cases n with
    | zero => rw [dropLines?, dropLines?, Option.map_some]
    | succ n =>
      by_cases hc : c = '\n'
      · rw [hc]
        exact ih n
      · rw [withReturns_cons hc, dropLines?, dropLines?, if_neg hc, if_neg hc, ih]

/-- The first line of the text gets a carriage return, if a newline ends it. -/
theorem exists_takeWhile_withReturns (cs : List Char) : ∃ returns : List Char, (∀ c ∈ returns, (c == '\r') = true) ∧
    (withReturns cs).takeWhile (· != '\n') = cs.takeWhile (· != '\n') ++ returns := by
  induction cs with
  | nil => exact ⟨[], fun c hc => absurd hc List.not_mem_nil, rfl⟩
  | cons c cs ih =>
    by_cases hc : c = '\n'
    · subst hc
      exact ⟨['\r'], List.forall_mem_singleton.2 (beq_self_eq_true _), rfl⟩
    · obtain ⟨returns, hreturns, htake⟩ := ih
      have hstays : (c != '\n') = true := bne_iff_ne.2 hc
      refine ⟨returns, hreturns, ?_⟩
      rw [withReturns_cons hc, List.takeWhile_cons_of_pos (by exact hstays),
        List.takeWhile_cons_of_pos (by exact hstays), htake, List.cons_append]

/-- A line is the same without its ending. -/
theorem lineAt?_withReturns (cs : List Char) (n : Nat) : lineAt? (withReturns cs) n = lineAt? cs n := by
  cases n with
  | zero => rfl
  | succ n =>
    rw [lineAt?, lineAt?, dropLines?_withReturns, Option.map_map]
    congr 1
    funext line
    obtain ⟨returns, hreturns, htake⟩ := exists_takeWhile_withReturns line
    rw [Function.comp_apply, htake, trimEndWhile_of_all _ _ _ hreturns]

end Text

open Text (withReturns)

/-! ## Tokens -/

/-- Where no string goes over the end of a line, the text before a newline does not end in one that is not closed. -/
theorem closed_of_strings {cs rest : List Char}
    (strings : ∀ l ∈ lexemes (cs ++ '\n' :: rest), l.shape = .string → '\n' ∉ l.text) :
    ∀ l ∈ (lexemes cs).getLast?, l.isUnclosed = false := by
  intro l hl
  obtain ⟨ls, hls⟩ := List.getLast?_eq_some_iff.1 hl
  rw [Bool.eq_false_iff]
  intro unclosed
  rw [lexemes_append_newline_of_unclosed hls unclosed] at strings
  exact strings _ (List.mem_append_right _ List.mem_cons_self) rfl (List.mem_append_right _ List.mem_cons_self)

/-- The carriage returns change no token: each is white space at the end of its line. -/
theorem run_withReturns (done cs : List Char)
    (strings : ∀ l ∈ lexemes (done ++ cs), l.shape = .string → '\n' ∉ l.text) :
    Scan.run {} (lexemes (done ++ withReturns cs)) = Scan.run {} (lexemes (done ++ cs)) := by
  induction cs generalizing done with
  | nil => rfl
  | cons c cs ih =>
    have hnext : Scan.run {} (lexemes (done ++ c :: withReturns cs)) = Scan.run {} (lexemes (done ++ c :: cs)) := by
      rw [List.append_cons done c cs] at strings
      rw [List.append_cons, List.append_cons done c cs]
      exact ih (done ++ [c]) strings
    by_cases hc : c = '\n'
    · subst hc
      have hreturn : LineTrivia ['\r'] := .gap (by decide) .nil
      rw [Text.withReturns_newline, ← hnext]
      exact run_append_lineTrivia hreturn (closed_of_strings strings) (withReturns cs)
    · rw [Text.withReturns_cons hc, hnext]

/-- Strings within their lines, as the tokens show them. -/
theorem strings_of_tokens {source : String}
    (strings : ∀ t ∈ tokenize source, t.kind = .stringLiteral → '\n' ∉ t.text.toList) :
    ∀ l ∈ lexemes source.toList, l.shape = .string → '\n' ∉ l.text := by
  intro l hl hstring
  have hkind : l.kind? = some .stringLiteral := by rw [Lexeme.kind?, hstring]
  obtain ⟨t, ht, hk, htext⟩ := Lexeme.exists_mem_tokensFrom .start hl hkind
  rw [← contentOf_tokenize] at ht
  have hline := strings t (List.mem_of_mem_filter ht) hk
  rwa [htext, String.toList_ofList] at hline

/-- Line endings make no difference: the tokens are the same, the program or the refusal is the same, and every
diagnostic looks the same or has no picture either way, if no string goes over the end of a line. -/
theorem tokenize_parseProgram_render_withReturns (source : String)
    (strings : ∀ t ∈ tokenize source, t.kind = .stringLiteral → '\n' ∉ t.text.toList) :
    tokenize (String.ofList (withReturns source.toList)) = tokenize source ∧
    parseProgram (tokenize (String.ofList (withReturns source.toList))) = parseProgram (tokenize source) ∧
    ∀ (d : Diagnostic) (file : String),
      d.render? (String.ofList (withReturns source.toList)) file = d.render? source file := by
  have htokens : tokenize (String.ofList (withReturns source.toList)) = tokenize source := by
    rw [tokenize_eq_run, String.toList_ofList]
    exact run_withReturns [] source.toList (strings_of_tokens strings)
  refine ⟨htokens, congrArg parseProgram htokens, fun d file => ?_⟩
  unfold Diagnostic.render?
  rw [String.toList_ofList, Text.lineAt?_withReturns]

/-- A block with a blank line and a comment in it, a stray carriage return, and a string. -/
theorem tokenize_parseProgram_render_withReturns_of_block :
    tokenize "x\r\n  # y\r\n\r\n  z\r\r\n\"a\"" = tokenize "x\n  # y\n\n  z\r\n\"a\"" ∧
    parseProgram (tokenize "x\r\n  # y\r\n\r\n  z\r\r\n\"a\"") =
      parseProgram (tokenize "x\n  # y\n\n  z\r\n\"a\"") ∧
    ∀ (d : Diagnostic) (file : String), d.render? "x\r\n  # y\r\n\r\n  z\r\r\n\"a\"" file =
      d.render? "x\n  # y\n\n  z\r\n\"a\"" file :=
  tokenize_parseProgram_render_withReturns "x\n  # y\n\n  z\r\n\"a\"" (by decide +kernel)

end ExprLang
