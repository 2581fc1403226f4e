import ExprLang.Proofs.Grammar.Relocation
import ExprLang.Proofs.Parser.Acceptance
import ExprLang.Proofs.Token.Marks

/-!
# Accepted texts

A text whose statements are accepted leaves nothing open: no block, no bracket and no string.

* `liveTokens_tokenize`, `endLine_tokenize` : what a parser sees of a text;
* `tokens_and_layout_of_accepted`, `tokenize_of_accepted` : an accepted text opens no block, and has no marks;
* `statements_of_accepted` : its tokens are the statements;
* `brackets_of_accepted`, `shape_ne_string_of_accepted` : its brackets are closed, and it has no strings.
-/

namespace ExprLang

open Lexeme (tokensFrom textOf)
open Grammar (Statements)

/-! ## What a parser sees of a text -/

theorem liveTokens_tokenize (source : String) : liveTokens (tokenize source) =
    Scan.tokens {} (lexemes source.toList) ++ (Scan.last {} (lexemes source.toList)).layout.closing.map
      (Scan.mark (Position.start.after source.toList)) := by
  rw [tokenize_eq]
  refine liveTokens_of_endMark (fun t ht => ?_) rfl []
  rcases List.mem_append.1 ht with ht | ht
  · exact Scan.kind_ne_endOfFile_of_mem_tokens _ _ t ht
  · obtain ⟨k, hk, rfl⟩ := List.mem_map.1 ht
    rcases Scan.mem_closing _ k hk with rfl | rfl <;> simp [Scan.mark]

theorem endLine_tokenize (source : String) :
    (Parser.ofTokens (tokenize source)).endLine = 1 + source.toList.count '\n' := by
  obtain ⟨ts, htokens, hts⟩ := exists_tokenize_eq_append_endToken source
  rw [htokens, endLine_of_endMark hts rfl]
  exact Position.line_after _ _

/-- The tokens of a text stand on its lines. -/
theorem line_range_of_mem_liveTokens (source : String) (t : Token) (ht : t ∈ liveTokens (tokenize source)) :
    0 < t.line ∧ t.line ≤ source.toList.count '\n' + 1 := by
  rw [liveTokens_tokenize] at ht
  rcases List.mem_append.1 ht with ht | ht
  · obtain ⟨low, high⟩ := (Scan.pairwise_tokens {} (lexemes source.toList)).2 t ht
    rw [line_last, Nat.add_comm] at high
    exact ⟨low, high⟩
  · obtain ⟨k, -, rfl⟩ := List.mem_map.1 ht
    have hline : (Position.start.after source.toList).line = 1 + source.toList.count '\n' := Position.line_after _ _
    show 0 < (Position.start.after source.toList).line ∧ (Position.start.after source.toList).line ≤ _
    omega

/-! ## What acceptance says about a text -/

section

variable {source : String} {p : Program} (h : parseProgram (tokenize source) = .ok p)
include h

theorem tokens_and_layout_of_accepted :
    Scan.tokens {} (lexemes source.toList) = tokensFrom .start (lexemes source.toList) ∧
      (Scan.last {} (lexemes source.toList)).layout = {} := by
  have husable := (statements_of_parseProgram _ p.body h).usable
  rw [liveTokens_tokenize, List.forall_mem_append] at husable
  exact Scan.tokens_of_no_indent {} _ rfl fun t ht => (husable.1 t ht).not_indent

/-- An accepted text has no marks, but for the one at its end. -/
theorem tokenize_of_accepted : tokenize source =
    tokensFrom .start (lexemes source.toList) ++ [endToken (Position.start.after source.toList)] := by
  obtain ⟨htokens, hlayout⟩ := tokens_and_layout_of_accepted h
  rw [tokenize_eq, htokens, hlayout, show Layout.closing {} = [] from rfl, List.map_nil, List.append_nil]

theorem statements_of_accepted : Statements (tokensFrom .start (lexemes source.toList)) p.body := by
  have hstatements := statements_of_parseProgram _ p.body h
  obtain ⟨htokens, hlayout⟩ := tokens_and_layout_of_accepted h
  rwa [liveTokens_tokenize, htokens, hlayout, show Layout.closing {} = [] from rfl, List.map_nil, List.append_nil]
    at hstatements

theorem not_indent_of_accepted : ∀ t ∈ tokenize source, t.kind ≠ .indent := by
  intro t ht
  rw [tokenize_of_accepted h] at ht
  rcases List.mem_append.1 ht with ht | ht
  · exact ((statements_of_accepted h).usable t ht).not_indent
  · rw [List.mem_singleton.1 ht]
    exact Token.Kind.noConfusion

/-- An accepted text closes its brackets. -/
theorem brackets_of_accepted : (Scan.last {} (lexemes source.toList)).brackets = 0 := by
  rw [Scan.brackets_last, ← foldl_bracketsAfter_tokensFrom source.toList _ [] (List.append_nil _).symm .start]
  exact (statements_of_accepted h).foldl_bracketsAfter 0

/-- An accepted text has no strings. -/
theorem shape_ne_string_of_accepted : ∀ l ∈ lexemes source.toList, l.shape ≠ .string := by
  intro l hl hstring
  have hkind : l.kind? = some .stringLiteral := by rw [Lexeme.kind?, hstring]
  obtain ⟨t, ht, hstringLiteral, -⟩ := Lexeme.exists_mem_tokensFrom .start hl hkind
  rcases (statements_of_accepted h).usable t ht with hk | hk | ⟨hk, -⟩ <;> rw [hk] at hstringLiteral <;>
    cases hstringLiteral

end

end ExprLang
