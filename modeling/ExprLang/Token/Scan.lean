import ExprLang.Token.Layout

/-!
# Scanning

`tokenize` gives the tokens of the lexemes of a text, with the marks of the blocks before the lines that open or
close them. It never fails. A line has a layout if it starts outside brackets and outside strings and is not blank;
the other lines leave the blocks as they are.

* `Lexeme.token?` : the token of a lexeme;
* `Scan` : what is known at a place between two lexemes;
* `Scan.emit`, `Scan.step` : the tokens that a lexeme brings, and the place after it;
* `Scan.tokens`, `Scan.last`, `Scan.finish` : the same for a list of lexemes, and the tokens at the end of the text;
* `tokenize` : the tokens of a text.
-/

namespace ExprLang

namespace Lexeme

/-- The kind of token that a lexeme makes. White space, comments and newlines make none. -/
def kind? (l : Lexeme) : Option Token.Kind :=
  match l.shape with
  | .gap | .comment | .newline => none
  | .word => some (if isReserved (String.ofList l.text) then .keyword else .identifier)
  | .number => some (if l.text.contains '.' then .floatLiteral else .integerLiteral)
  | .string => some .stringLiteral
  | .operators | .opening | .closing | .single => some .operator

def token? (l : Lexeme) (p : Position) : Option Token :=
  l.kind?.map fun kind => { toPosition := p, kind, text := String.ofList l.text }

/-- The number of open brackets after a lexeme. A closing bracket that closes none counts for nothing. -/
def brackets (l : Lexeme) (depth : Nat) : Nat :=
  match l.shape with
  | .opening => depth + 1
  | .closing => depth - 1
  | _ => depth

end Lexeme

/-- A place between two lexemes of a text, with the open brackets, and the blocks of the lines before. -/
structure Scan where
  position : Position := .start
  brackets : Nat := 0
  layout : Layout := {}
  atLineStart : Bool := true
  deriving DecidableEq, Repr

namespace Scan

/-- Whether a line with a layout starts here, if the lexemes `ls` follow. -/
def startsLine (s : Scan) (ls : List Lexeme) : Bool :=
  s.atLineStart && s.brackets == 0 && Layout.isSignificant ls

def mark (p : Position) (kind : Token.Kind) : Token := { toPosition := p, kind, text := "" }

/-- The marks in front of the lexemes `ls`, in the column where the line is no longer indented. -/
def marks (s : Scan) (ls : List Lexeme) : List Token :=
  if s.startsLine ls then
    (s.layout.marks (Layout.widthOf ls)).map (mark ⟨s.position.line, Layout.widthOf ls⟩)
  else []

/-- The tokens that the lexeme `l` brings, if `ls` follow: the marks in front of it, and its own. -/
def emit (s : Scan) (l : Lexeme) (ls : List Lexeme) : List Token :=
  s.marks (l :: ls) ++ (l.token? s.position).toList

def step (s : Scan) (l : Lexeme) (ls : List Lexeme) : Scan where
  position := s.position.after l.text
  brackets := l.brackets s.brackets
  layout := if s.startsLine (l :: ls) then s.layout.move (Layout.widthOf (l :: ls)) else s.layout
  atLineStart := l.shape == .newline

def tokens (s : Scan) : List Lexeme → List Token
  | [] => []
  | l :: ls => s.emit l ls ++ (s.step l ls).tokens ls

def last (s : Scan) : List Lexeme → Scan
  | [] => s
  | l :: ls => (s.step l ls).last ls

/-- The tokens at the end of the text: every block is closed, and the end is marked. -/
def finish (s : Scan) : List Token :=
  s.layout.closing.map (mark s.position) ++ [{ toPosition := s.position, kind := .endOfFile, text := "EOF" }]

end Scan

/-- The tokens of a text. -/
def tokenize (source : String) : List Token :=
  let ls := lexemes source.toList
  Scan.tokens {} ls ++ (Scan.last {} ls).finish

end ExprLang
