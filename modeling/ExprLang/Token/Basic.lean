import ExprLang.Position

/-!
# Tokens

A token is a piece of a text with its kind and the position where it starts. Three kinds stand for no characters:
`indent` and `dedent` mark the blocks that indentation makes, and `endOfFile` marks the end.

* `Token.describe` : what a message calls the token;
* `Token.summary` : the token on one line;
* `isReserved` : the words that are no names.
-/

namespace ExprLang

/-- What a token is. Operators are also the brackets and every single character that is nothing else. -/
inductive Token.Kind where
  | identifier
  | keyword
  | operator
  | integerLiteral
  | floatLiteral
  | stringLiteral
  | indent
  | dedent
  | endOfFile
  deriving DecidableEq, Repr

/-- A piece of a text, with the position of its first character. -/
structure Token extends Position where
  kind : Token.Kind
  text : String
  deriving DecidableEq, Repr

def reservedWords : List String :=
  ["if", "else", "while", "for", "def", "return", "True", "False", "print"]

def isReserved (word : String) : Bool := reservedWords.contains word

namespace Token

def Kind.name : Kind → String
  | .identifier => "Identifier"
  | .keyword => "Keyword"
  | .operator => "Operator"
  | .integerLiteral => "IntegerLiteral"
  | .floatLiteral => "FloatLiteral"
  | .stringLiteral => "StringLiteral"
  | .indent => "Indent"
  | .dedent => "Dedent"
  | .endOfFile => "EndOfFile"

/-- What a message calls the token: its text, or the name of its kind if it has none. -/
def describe (t : Token) : String := if t.text.isEmpty then t.kind.name else t.text

/-- The token on one line: its kind, its text if it has one, and its line. -/
def summary (t : Token) : String :=
  if t.text.isEmpty then s!"{t.kind.name} (line {t.line})"
  else s!"{t.kind.name} `{t.text}` (line {t.line})"

def isOperator (t : Token) (text : String) : Bool := t.kind == .operator && t.text == text

def isEnd (t : Token) : Bool := t.kind == .endOfFile

/-! ## Basic facts -/

theorem isOperator_iff (t : Token) (text : String) :
    t.isOperator text = true ↔ t.kind = .operator ∧ t.text = text := by
  simp [isOperator]

theorem isEnd_iff (t : Token) : t.isEnd = true ↔ t.kind = .endOfFile := by
  simp [isEnd]

end Token

end ExprLang
