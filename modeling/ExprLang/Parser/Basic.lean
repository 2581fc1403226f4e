import ExprLang.Diagnostic.Basic

/-!
# Parsers

A `Parser` stands in a place in a list of tokens. It sees the tokens from there to the next end mark, and it knows the
line of the token it took last and how many parentheses are open, because outside parentheses a statement stays on its
line. A `Rule` takes tokens from a parser and gives a result or a diagnostic; a rule that fails leaves the parser where
it stopped.

* `Parser.ofTokens` : a parser at the front of a list of tokens;
* `Parser.ahead` : the tokens that a parser sees;
* `Parser.current`, `Parser.peek`, `Parser.line`, `Parser.continues` : what a parser can be asked;
* `Rule.advance`, `Rule.expectOperator` : the two ways to take a token.
-/

namespace ExprLang

/-- A place in a list of tokens, with the line of the token taken last and the number of open parentheses. -/
structure Parser where
  tokens : List Token
  place : Nat := 0
  lastLine : Option Nat := none
  depth : Nat := 0
  deriving DecidableEq, Repr

/-- A step of a parser, which gives a result or a diagnostic. -/
abbrev Rule (α : Type) := EStateM Diagnostic Parser α

namespace Parser

def ofTokens (tokens : List Token) : Parser where
  tokens

/-- The tokens from the place on that stand before the next end mark. -/
def ahead (p : Parser) : List Token := (p.tokens.drop p.place).takeWhile fun t => !t.isEnd

def peek (p : Parser) (n : Nat) : Option Token := p.ahead[n]?

def current (p : Parser) : Option Token := p.peek 0

/-- The line of the token in this place, which can be an end mark. Behind the tokens it is the line of the last one, and
the first line if there is none. -/
def line (p : Parser) : Nat := ((p.tokens[p.place]?.or p.tokens.getLast?).map fun t => t.line).getD 1

/-- Whether the token can go on with a statement: it is inside parentheses, or not below the token taken last. -/
def continues (p : Parser) (t : Token) : Bool := 0 < p.depth || p.lastLine.all (t.line ≤ ·)

/-- The parser behind the token `t`, which is the next one. -/
def after (p : Parser) (t : Token) : Parser := { p with place := p.place + 1, lastLine := some t.line }

def endOfInput (p : Parser) (expected : String) : Diagnostic := ⟨.unexpectedEnd expected, p.line, none⟩

end Parser

def Token.unexpected (t : Token) : Diagnostic := .atToken (.unexpectedToken t.describe) t

namespace Rule

def advance : Rule (Option Token) := fun p =>
  match p.current with
  | none => .ok none p
  | some t => .ok (some t) (p.after t)

/-- The diagnostic for a missing operator: the next token is unexpected, or the end is. -/
def missing (p : Parser) (text : String) : Diagnostic :=
  match p.current with
  | some t => t.unexpected
  | none => p.endOfInput s!"`{text}`"

/-- Takes the operator spelled `text`. If it is not next, nothing is taken; the diagnostic is `refusal`, if that is
given. -/
def expectOperator (text : String) (refusal : Option Diagnostic) : Rule Token := fun p =>
  match p.current with
  | some t => if t.isOperator text then .ok t (p.after t) else .error (refusal.getD (missing p text)) p
  | none => .error (refusal.getD (missing p text)) p

end Rule

end ExprLang
