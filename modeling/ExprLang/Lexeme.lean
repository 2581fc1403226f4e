import ExprLang.Text.Blank

/-!
# Lexemes

A text is cut into lexemes, one after the other. The first character of a lexeme fixes its shape, and the shape
fixes how far it reaches. Every character starts some shape, so the cut never fails.

* `Shape.ofChar` : the shape that a character starts;
* `Shape.extent` : how far a shape reaches over the characters after the first;
* `lexemes` : the lexemes of a text;
* `flatMap_text_lexemes` : the cut loses nothing.
-/

namespace ExprLang

/-- The shape of a piece of text. A gap is white space within a line, a comment runs from a hash sign to the end of the
line, and a number is one run of digits, or two about a point. A string runs from a double quote to the next one, or to
the end of the text. A single character is one of no other shape. -/
inductive Lexeme.Shape where
  | gap
  | comment
  | newline
  | word
  | number
  | string
  | operators
  | opening
  | closing
  | single
  deriving DecidableEq, Repr

/-- A piece of text of one shape. -/
structure Lexeme where
  shape : Lexeme.Shape
  text : List Char
  deriving DecidableEq, Repr

namespace Lexeme

open Text (isGap)

/-! ## Classes of characters -/

def isWordStart (c : Char) : Bool := c.isAlpha || c == '_'

def isWordPart (c : Char) : Bool := c.isAlphanum || c == '_'

/-- The characters that join into one operator. -/
def operatorChars : List Char := ['-', '+', '*', '/', '%', '=', '!', '<', '>', '&', '|']

def isOperatorPart (c : Char) : Bool := operatorChars.contains c

def isOpening (c : Char) : Bool := c == '(' || c == '[' || c == '{'

def isClosing (c : Char) : Bool := c == ')' || c == ']' || c == '}'

/-! ## Shapes -/

/-- The shape that a character starts. The classes tested are disjoint, so their order does not matter. -/
def Shape.ofChar (c : Char) : Shape :=
  if isGap c then .gap
  else if c == '#' then .comment
  else if c == '\n' then .newline
  else if isWordStart c then .word
  else if c.isDigit then .number
  else if c == '"' then .string
  else if isOperatorPart c then .operators
  else if isOpening c then .opening
  else if isClosing c then .closing
  else .single

/-- The digits at the front, and with them a point and the digits after it if there are any. -/
def splitNumber (cs : List Char) : List Char × List Char :=
  match cs.dropWhile Char.isDigit with
  | '.' :: d :: r =>
    if d.isDigit then (cs.takeWhile Char.isDigit ++ '.' :: d :: r.takeWhile Char.isDigit, r.dropWhile Char.isDigit)
    else (cs.takeWhile Char.isDigit, '.' :: d :: r)
  | r => (cs.takeWhile Char.isDigit, r)

/-- The characters through the first double quote, or all if there is none. -/
def splitQuote (cs : List Char) : List Char × List Char :=
  match cs.dropWhile (· != '"') with
  | [] => (cs, [])
  | q :: r => (cs.takeWhile (· != '"') ++ [q], r)

/-- Splits the characters after the first one of a lexeme into those that belong to it and those that do not. -/
def Shape.extent : Shape → List Char → List Char × List Char
  | .gap, cs => (cs.takeWhile isGap, cs.dropWhile isGap)
  | .comment, cs => (cs.takeWhile (· != '\n'), cs.dropWhile (· != '\n'))
  | .word, cs => (cs.takeWhile isWordPart, cs.dropWhile isWordPart)
  | .number, cs => splitNumber cs
  | .string, cs => splitQuote cs
  | .operators, cs => (cs.takeWhile isOperatorPart, cs.dropWhile isOperatorPart)
  | .newline, cs | .opening, cs | .closing, cs | .single, cs => ([], cs)

theorem splitNumber_append (cs : List Char) : (splitNumber cs).1 ++ (splitNumber cs).2 = cs := by
  have h := List.takeWhile_append_dropWhile (p := Char.isDigit) (l := cs)
  unfold splitNumber
  split
  · next d r he =>
    rw [he] at h
    split
    · simp [List.takeWhile_append_dropWhile, h]
    · exact h
  · exact h

theorem splitQuote_append (cs : List Char) : (splitQuote cs).1 ++ (splitQuote cs).2 = cs := by
  have h := List.takeWhile_append_dropWhile (p := (· != '"')) (l := cs)
  unfold splitQuote
  split
  · simp
  · next q r he =>
    rw [he] at h
    simpa using h

theorem extent_append (s : Shape) (cs : List Char) : (s.extent cs).1 ++ (s.extent cs).2 = cs := by
  cases s <;> simp [Shape.extent, List.takeWhile_append_dropWhile, splitNumber_append, splitQuote_append]

theorem length_extent_le (s : Shape) (cs : List Char) : (s.extent cs).2.length ≤ cs.length := by
  have h := congrArg List.length (extent_append s cs)
  rw [List.length_append] at h
  omega

end Lexeme

/-! ## The cut -/

def lexemes : List Char → List Lexeme
  | [] => []
  | c :: cs =>
    let shape := Lexeme.Shape.ofChar c
    let parts := shape.extent cs
    ⟨shape, c :: parts.1⟩ :: lexemes parts.2
termination_by cs => cs.length
decreasing_by exact Nat.lt_succ_of_le (Lexeme.length_extent_le _ _)

theorem lexemes_nil : lexemes [] = [] := by rw [lexemes]

theorem lexemes_cons (c : Char) (cs : List Char) :
    lexemes (c :: cs) = ⟨.ofChar c, c :: ((Lexeme.Shape.ofChar c).extent cs).1⟩ ::
      lexemes ((Lexeme.Shape.ofChar c).extent cs).2 := by
  rw [lexemes]

/-- The lexemes make up the text. -/
theorem flatMap_text_lexemes (cs : List Char) : (lexemes cs).flatMap Lexeme.text = cs := by
  fun_induction lexemes cs with
  | case1 => rfl
  | case2 c cs shape parts ih => rw [List.flatMap_cons, ih, List.cons_append, Lexeme.extent_append]

end ExprLang
