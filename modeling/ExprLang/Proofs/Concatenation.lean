import ExprLang.Proofs.Accepted
import ExprLang.Proofs.Parser.LineOrder
import ExprLang.Proofs.Token.Composition

/-!
# Accepted texts concatenate

A text that comes after an accepted text, on lines of its own, is read as if it stood alone, only further down.

* `tokenize_append_newline` : the tokens of both texts, the second ones moved down;
* `parseProgram_tokenize_append_newline` : the statements of both, or the refusal of the second one.
-/

namespace ExprLang

open Lexeme (tokensFrom textOf)
open Grammar (Statements StuckProgram Below)

/-! ## Tokens -/

theorem tokenize_append_newline (a b : String) (p : Program) (h : parseProgram (tokenize a) = .ok p) :
    tokenize (a ++ "\n" ++ b) =
      tokensFrom .start (lexemes a.toList) ++ (tokenize b).map (Token.down (1 + a.toList.count '\n')) := by
  obtain ⟨htokens, hlayout⟩ := tokens_and_layout_of_accepted h
  have hclosed : ∀ l ∈ (lexemes a.toList).getLast?, l.isUnclosed = false := fun l hl =>
    Lexeme.isUnclosed_of_ne_string (shape_ne_string_of_accepted h l (List.mem_of_getLast? hl))
  rw [tokenize_append_lines_of_closed hclosed b (brackets_of_accepted h) hlayout, htokens]

/-! ## Programs -/

theorem liveTokens_map_down (k : Nat) (ts : List Token) :
    liveTokens (ts.map (Token.down k)) = (liveTokens ts).map (Token.down k) :=
  liveTokens_map_move (· + k) (fun _ column => column) ts

/-- The tokens of a second text stand below those of the first. -/
theorem below_map_down (a : List Char) (us : List Token) (h : ∀ u ∈ us, 0 < u.line) :
    Below (tokensFrom .start (lexemes a)) (us.map (Token.down (1 + a.count '\n'))) := by
  intro t ht u hu
  have hlow := Lexeme.endLine_le_of_mem_tokensFrom .start (lexemes a) t (List.mem_of_getLast? ht)
  rw [textOf, flatMap_text_lexemes, Position.line_after] at hlow
  obtain ⟨v, hv, rfl⟩ := List.mem_map.1 (List.mem_of_head? hu)
  have hpos := h v hv
  show t.line < v.line + (1 + a.count '\n')
  have hstart : Position.start.line = 1 := rfl
  omega

/-- If a text is accepted, then it may stand before any other text, on lines of its own: the statements of both are
read, or the other is refused as it is alone, only further down. -/
theorem parseProgram_tokenize_append_newline (a b : String) (p : Program) (h : parseProgram (tokenize a) = .ok p) :
    (∀ q, parseProgram (tokenize b) = .ok q →
      parseProgram (tokenize (a ++ "\n" ++ b)) = .ok ⟨p.body ++ q.body⟩) ∧
    ∀ d, parseProgram (tokenize b) = .error d →
      parseProgram (tokenize (a ++ "\n" ++ b)) = .error { d with line := d.line + (1 + a.toList.count '\n') } := by
  have hfirst := statements_of_accepted h
  have hlive : liveTokens (tokenize (a ++ "\n" ++ b)) = tokensFrom .start (lexemes a.toList) ++
      (liveTokens (tokenize b)).map (Token.down (1 + a.toList.count '\n')) := by
    rw [tokenize_append_newline a b p h, liveTokens_append _ _ fun t ht => (hfirst.usable t ht).not_isEnd,
      liveTokens_map_down]
  have hmono := Grammar.strictMono_add (1 + a.toList.count '\n')
  have hbelow := below_map_down a.toList _ (fun u hu => (line_range_of_mem_liveTokens b u hu).1)
  constructor
  · intro q hq
    refine parseProgram_of_statements _ _ ?_
    rw [hlive]
    have hsecond := statements_of_parseProgram _ q.body hq
    exact hfirst.append (hsecond.keeps (Grammar.keeps_move hmono (fun _ column => column) 0 _)) hbelow
  · intro d hd
    obtain ⟨ts, rest, hts, stuck⟩ := (parseProgram_eq_error_iff _ d).1 hd
    rw [hts, List.map_append] at hlive hbelow
    refine (parseProgram_eq_error_iff _ _).2 ⟨_, _, hlive.trans (List.append_assoc ..).symm, ?_⟩
    have hend : (Parser.ofTokens (tokenize (a ++ "\n" ++ b))).endLine =
        (Parser.ofTokens (tokenize b)).endLine + (1 + a.toList.count '\n') := by
      rw [endLine_tokenize, endLine_tokenize, String.toList_append, String.toList_append, List.count_append,
        List.count_append, show ("\n".toList).count '\n' = 1 from rfl]
      omega
    have hmoved := (stuck.move hmono fun _ column => column).prepend hfirst hbelow
    rw [hend]
    obtain ⟨cause, line, column⟩ := d
    cases column <;> exact hmoved

/-- A second text that is read, and one that is refused two lines further down. -/
theorem parseProgram_append_newline_of_two_lines :
    parseProgram (tokenize ("x = (1 +\n 2)" ++ "\n" ++ "y = x")) =
      .ok ⟨[.assign "x" (.binary .add (.integer 1) (.integer 2)), .assign "y" (.var "x")]⟩ ∧
    parseProgram (tokenize ("x = (1 +\n 2)" ++ "\n" ++ "y = $")) = .error ⟨.unexpectedToken "$", 3, some 4⟩ := by
  have hfirst : parseProgram (tokenize "x = (1 +\n 2)") =
      .ok ⟨[.assign "x" (.binary .add (.integer 1) (.integer 2))]⟩ := by decide +kernel
  exact ⟨(parseProgram_tokenize_append_newline _ "y = x" _ hfirst).1 ⟨[.assign "y" (.var "x")]⟩ (by decide +kernel),
    (parseProgram_tokenize_append_newline _ "y = $" _ hfirst).2 ⟨.unexpectedToken "$", 1, some 4⟩ (by decide +kernel)⟩

end ExprLang
