import ExprLang.Proofs.Parser.Account
import ExprLang.Proofs.Parser.Alike
import ExprLang.Proofs.Token.Content

/-!
# The end mark

A parser sees nothing after the first end mark of its tokens, whatever is done with it, and takes no end mark itself.
Without an end mark the end is on another line, and that is all.

* `Query`, `Answer`, `Parser.answers` : what can be asked of a parser, and all that it answers; `Alike.answers` : what
  alike parsers answer;
* `Diagnostic.endsOn` : a refusal at the end, with the end on another line;
* `Stuck.endsOn`, `StuckSole.endsOn`, `StuckProgram.endsOn` : the line of the end is only told;
* `exists_place_of_endMark` : where a parser can stand;
* `parse_and_parseProgram_of_liveTokens` : tokens that differ after their end alone;
* `endMark_hides_rest` : nothing after an end mark is seen, and without one only the line of the end is another.
-/

namespace ExprLang

open Grammar (Level Stuck StuckStatement StuckSole StuckProgram)

/-! ## Queries -/

theorem GrammarRule.respects (r : GrammarRule) : r.rule.Respects := by
  cases r with
  | factor => exact Rule.respects_factor
  | term => exact Rule.respects_term
  | expression => exact Rule.respects_expression
  | assignment => exact Rule.respects_assignment
  | statement => exact Rule.respects_statement

/-- What can be asked of a parser. -/
inductive Query where
  | current
  | peek (n : Nat)
  | line
  | continues (t : Token)
  | perform (operation : Operation)

/-- What a parser answers. -/
inductive Answer where
  | token (t : Option Token)
  | line (n : Nat)
  | holds (b : Bool)
  | tree (n : Node)
  | refusal (d : Diagnostic)

namespace Parser

def answerOf {α : Type} (p : Parser) (rule : Rule α) (answer : α → Answer) : Answer :=
  match rule.run p with
  | .ok a _ => answer a
  | .error d _ => .refusal d

def answer (p : Parser) : Query → Answer
  | .current => .token p.current
  | .peek n => .token (p.peek n)
  | .line => .line p.line
  | .continues t => .holds (p.continues t)
  | .perform .advance => p.answerOf Rule.advance .token
  | .perform (.expect text refusal) => p.answerOf (Rule.expectOperator text refusal) fun t => .token (some t)
  | .perform (.read r) => p.answerOf r.rule .tree

/-- The parser after a query. Only an operation changes it. -/
def next (p : Parser) : Query → Parser
  | .perform operation => p.perform operation
  | .current | .peek _ | .line | .continues _ => p

/-- What the parser answers to queries that are asked one after the other. -/
def answers (p : Parser) : List Query → List Answer
  | [] => []
  | query :: queries => p.answer query :: (p.next query).answers queries

namespace Alike

variable {p p' : Parser} {α : Type} {rule : Rule α}

theorem answerOf (h : p.Alike p') (respects : rule.Respects) (answer : α → Answer) :
    p'.answerOf rule answer = p.answerOf rule answer := by
  rcases respects.run_cases h with ⟨a, q, q', hq, hq', -⟩ | ⟨d, q, q', hq, hq', -⟩ <;>
    rw [Parser.answerOf, Parser.answerOf, hq, hq']

theorem leftBy (h : p.Alike p') (respects : rule.Respects) : (p.leftBy rule).Alike (p'.leftBy rule) := by
  rcases respects.run_cases h with ⟨a, q, q', hq, hq', left⟩ | ⟨d, q, q', hq, hq', left⟩
  · rwa [Parser.leftBy, Parser.leftBy, hq, hq']
  · rwa [Parser.leftBy, Parser.leftBy, hq, hq']

theorem answer (h : p.Alike p') (query : Query) : p'.answer query = p.answer query := by
  cases query with
  | current => exact congrArg Answer.token h.current
  | peek n => exact congrArg Answer.token (h.peek n)
  | line => exact congrArg Answer.line h.line
  | continues t => exact congrArg Answer.holds (h.continues t)
  | perform operation =>
    cases operation with
    | advance => exact h.answerOf Rule.respects_advance _
    | expect text refusal => exact h.answerOf (Rule.respects_expectOperator text refusal) _
    | read r => exact h.answerOf r.respects _

theorem next (h : p.Alike p') (query : Query) : (p.next query).Alike (p'.next query) := by
  cases query with
  | perform operation =>
    cases operation with
    | advance => exact h.leftBy Rule.respects_advance
    | expect text refusal => exact h.leftBy (Rule.respects_expectOperator text refusal)
    | read r => exact h.leftBy r.respects
  | current | peek | line | continues => exact h

/-- Parsers that are alike answer alike, and stay so. -/
theorem answers (h : p.Alike p') (queries : List Query) : p'.answers queries = p.answers queries := by
  induction queries generalizing p p' with
  | nil => rfl
  | cons query queries ih => rw [Parser.answers, Parser.answers, h.answer query, ih (h.next query)]

end Alike

end Parser

/-! ## The line of the end -/

/-- The diagnostic, if the end is on the line `line`. -/
def Diagnostic.endsOn (line : Nat) (d : Diagnostic) : Diagnostic :=
  match d.cause with
  | .unexpectedEnd _ => { d with line }
  | _ => d

namespace Grammar

variable {endLine : Nat} {ts rest : List Token} {d : Diagnostic} (line : Nat)

theorem Stuck.endsOn {level : Level} {depth : Nat} (h : Stuck endLine level depth ts rest d) :
    Stuck line level depth ts rest (d.endsOn line) := by
  induction h with
  | ended => exact .ended
  | numeral kind value => exact .numeral kind value
  | tooDeep full opening => exact .tooDeep full opening
  | noFactor integer name opening => exact .noFactor integer name opening
  | group room opening _ ih => exact .group room opening ih
  | unclosed room opening inner stop => exact .unclosed room opening inner stop
  | factor _ ih => exact .factor ih
  | product left kind spelling joins _ ih => exact .product left kind spelling joins ih
  | term _ ih => exact .term ih
  | sum left kind spelling joins _ ih => exact .sum left kind spelling joins ih

theorem StuckStatement.endsOn (h : StuckStatement endLine ts rest d) :
    StuckStatement line ts rest (d.endsOn line) := by
  cases h with
  | expression value => exact .expression (value.endsOn line)
  | assignment kind equals on value => exact .assignment kind equals on (value.endsOn line)
  | target value equals joins apart => exact .target value equals joins apart

theorem StuckSole.endsOn (h : StuckSole endLine ts rest d) : StuckSole line ts rest (d.endsOn line) := by
  cases h with
  | statement stuck => exact .statement (stuck.endsOn line)
  | left ends => exact .left ends

theorem StuckProgram.endsOn (h : StuckProgram endLine ts rest d) : StuckProgram line ts rest (d.endsOn line) := by
  cases h with
  | statement before below some stuck => exact .statement before below some (stuck.endsOn line)
  | left before below ends border => exact .left before below ends border

end Grammar

/-- Tokens that differ after their end alone are read alike, up to the line of the end. -/
theorem parse_and_parseProgram_of_liveTokens {tokens tokens' : List Token}
    (live : liveTokens tokens' = liveTokens tokens) {line : Nat} (ends : (Parser.ofTokens tokens').endLine = line) :
    parse tokens' = (parse tokens).mapError (Diagnostic.endsOn line) ∧
      parseProgram tokens' = (parseProgram tokens).mapError (Diagnostic.endsOn line) := by
  constructor
  · refine parse_eq_mapError (fun n h => live ▸ h) fun ts rest d hts stuck => ⟨ts, rest, live.trans hts, ?_⟩
    rw [ends]
    exact stuck.endsOn line
  · refine parseProgram_eq_mapError (fun n h => live ▸ h) fun ts rest d hts stuck => ⟨ts, rest, live.trans hts, ?_⟩
    rw [ends]
    exact stuck.endsOn line

/-! ## Tokens and an end mark -/

section

variable {ts : List Token} {z : Token} (unmarked : ∀ t ∈ ts, t.kind ≠ .endOfFile)
include unmarked

theorem endLine_of_no_endMark : (Parser.ofTokens ts).endLine = (ts.getLast?.map (·.line)).getD 1 := by
  rw [Parser.endLine_ofTokens, find?_isEnd_eq_none unmarked]
  rfl

variable (mark : z.kind = .endOfFile)
include mark

/-- Nothing after the end mark makes a difference to a parser. -/
theorem alike_of_endMark (rest : List Token) :
    (Parser.ofTokens (ts ++ [z])).Alike (.ofTokens (ts ++ z :: rest)) where
  ahead := (liveTokens_of_endMark unmarked mark rest).trans (liveTokens_of_endMark unmarked mark []).symm
  endLine := (endLine_of_endMark unmarked mark rest).trans (endLine_of_endMark unmarked mark []).symm
  lastLine := rfl
  depth := rfl

/-- However a parser has been used, some of the tokens before the end mark lie ahead of it, up to the last one, and
then comes the line of the end mark. -/
theorem exists_place_of_endMark (rest : List Token) (operations : List Operation) :
    ∃ k t, (ts ++ [z])[k]? = some t ∧
      ((Parser.ofTokens (ts ++ z :: rest)).performAll operations).line = t.line ∧
      ∀ n, ((Parser.ofTokens (ts ++ z :: rest)).performAll operations).peek n = ts[k + n]? := by
  obtain ⟨-, ⟨taken, hts, -⟩, -⟩ := (Parser.accounted_ofTokens (ts ++ z :: rest)).performAll operations
  have hend := (Parser.ofTokens (ts ++ z :: rest)).endLine_performAll operations
  rw [endLine_of_endMark unmarked mark] at hend
  rw [liveTokens_of_endMark unmarked mark] at hts
  generalize (Parser.ofTokens (ts ++ z :: rest)).performAll operations = p at hts hend ⊢
  have hpeek : ∀ n, p.peek n = ts[taken.length + n]? := by
    intro n
    rw [Parser.peek, hts, List.getElem?_append_right (Nat.le_add_right _ _), Nat.add_sub_cancel_left]
  cases hp : p.ahead with
  | nil =>
    refine ⟨taken.length, z, ?_, ?_, hpeek⟩
    · rw [hts, hp, List.append_nil, List.getElem?_concat_length]
    · rw [← hend, Parser.line_of_nil hp]
  | cons t ahead =>
    refine ⟨taken.length, t, ?_, ?_, hpeek⟩
    · rw [hts, hp, List.append_assoc, List.getElem?_append_right (Nat.le_refl _), Nat.sub_self]
      rfl
    · rw [Parser.line_of_cons hp]

end

/-- Nothing after an end mark is seen: not in what is read, and not in anything that a parser answers, which sees the
tokens before the end mark and its line. Without an end mark the same is read, but for a refusal at the end: that stands
on the line of the last token, or on the first line if there is none, and not on the line of the end mark. -/
theorem endMark_hides_rest (ts junk : List Token) (z : Token) (unmarked : ∀ t ∈ ts, t.kind ≠ .endOfFile)
    (mark : z.kind = .endOfFile) :
    (parse (ts ++ [z] ++ junk) = parse (ts ++ [z]) ∧ parseProgram (ts ++ [z] ++ junk) = parseProgram (ts ++ [z])) ∧
      (∀ queries, (Parser.ofTokens (ts ++ [z] ++ junk)).answers queries =
        (Parser.ofTokens (ts ++ [z])).answers queries) ∧
      (∀ operations, ∃ k t, (ts ++ [z])[k]? = some t ∧
        ((Parser.ofTokens (ts ++ [z] ++ junk)).performAll operations).line = t.line ∧
        ∀ n, ((Parser.ofTokens (ts ++ [z] ++ junk)).performAll operations).peek n = ts[k + n]?) ∧
      (parse (ts ++ [z]) = (parse ts).mapError (Diagnostic.endsOn z.line) ∧
        parseProgram (ts ++ [z]) = (parseProgram ts).mapError (Diagnostic.endsOn z.line)) ∧
      parse ts = (parse (ts ++ [z])).mapError (Diagnostic.endsOn ((ts.getLast?.map (·.line)).getD 1)) ∧
        parseProgram ts =
          (parseProgram (ts ++ [z])).mapError (Diagnostic.endsOn ((ts.getLast?.map (·.line)).getD 1)) := by
  have alike := alike_of_endMark unmarked mark junk
  have hlive : liveTokens (ts ++ [z]) = liveTokens ts := by
    rw [liveTokens_of_endMark unmarked mark, liveTokens_eq_self ts unmarked]
  rw [List.append_assoc, List.singleton_append]
  refine ⟨⟨Rule.respects_soleStatement.onTokens alike, Rule.respects_program.onTokens alike⟩, alike.answers,
    exists_place_of_endMark unmarked mark junk, ?_, ?_⟩
  · exact parse_and_parseProgram_of_liveTokens hlive (endLine_of_endMark unmarked mark [])
  · exact parse_and_parseProgram_of_liveTokens hlive.symm (endLine_of_no_endMark unmarked)

/-- The value that an assignment lacks is not found after the end mark, which stands two lines below. -/
theorem endMark_hides_value :
    (∀ t ∈ (tokenize "\n\nx =").dropLast, t.kind ≠ .endOfFile) ∧ (endToken ⟨5, 0⟩).kind = .endOfFile ∧
      parse ((tokenize "\n\nx =").dropLast ++ [endToken ⟨5, 0⟩] ++ tokenize "1") =
        .error ⟨.unexpectedEnd operandNames, 5, none⟩ ∧
      parse (tokenize "\n\nx =").dropLast = .error ⟨.unexpectedEnd operandNames, 3, none⟩ := by
  have unmarked : ∀ t ∈ (tokenize "\n\nx =").dropLast, t.kind ≠ .endOfFile := by decide +kernel
  obtain ⟨⟨hrest, -⟩, -, -, -, hnone, -⟩ := endMark_hides_rest _ (tokenize "1") (endToken ⟨5, 0⟩) unmarked rfl
  have hmark : parse ((tokenize "\n\nx =").dropLast ++ [endToken ⟨5, 0⟩]) =
      .error ⟨.unexpectedEnd operandNames, 5, none⟩ := by decide +kernel
  refine ⟨unmarked, rfl, hrest.trans hmark, hnone.trans ?_⟩
  rw [hmark]
  decide +kernel

end ExprLang
