import ExprLang.Text.Blank
import ExprLang.Text.Line
import ExprLang.Diagnostic.Basic

/-!
# Diagnostics with a picture

`Diagnostic.render?` shows a diagnostic with the line of the text that it stands on and a caret under the place. The
line is shown without its indentation and without white space at its end. There is no picture if the caret would stand
too far to the right.

* `shown`, `indentation` : the part of a line that is shown, and how many characters were taken off before it;
* `caret?` : the place of the caret under the shown part;
* `maxWidth` : how wide the text in front of the caret can be with it;
* `render?` : the whole picture.
-/

namespace ExprLang.Diagnostic

open Text (isBlank trimEndWhile lineAt?)

def isIndentation (c : Char) : Bool := c == ' ' || c == '\t'

def indentation (line : List Char) : Nat := (line.takeWhile isIndentation).length

def shown (line : List Char) : List Char := trimEndWhile isBlank (line.dropWhile isIndentation)

/-- The place of the caret: under the column of the diagnostic, at the end of the line if the text ends there, and
nowhere if a token is to blame whose column is not known. -/
def caret? (d : Diagnostic) (line : List Char) : Option Nat :=
  match d.column, d.cause.token? with
  | some c, _ => some (c - indentation line)
  | none, none => some (shown line).length
  | none, some _ => none

/-- A line of the picture that has no text: `width` columns, and a bar in the last one. -/
def gutter (width : Nat) : String := String.ofList (List.replicate (width - 1) ' ') ++ "|"

/-- The width up to which a text can be padded. -/
def maxWidth : Nat := 65535

def tooWide : String := "Formatting argument out of range"

/-- The picture of a line with its number, and with a caret if its place is known. -/
def picture? (d : Diagnostic) (line : List Char) : Option String := do
  let number := d.line.repr
  -- the number of a line has few digits, so only the caret can be too far to the right
  let bar := gutter (number.length + 2)
  let pointer ← match d.caret? line with
    | some c =>
      if c + 1 ≤ maxWidth then some (bar ++ " " ++ String.ofList (List.replicate c ' ') ++ "^\n") else none
    | none => some ""
  return bar ++ "\n" ++ number ++ " | " ++ String.ofList (shown line) ++ "\n" ++ pointer

/-- The diagnostic with the file it is about and, if the text has its line, the picture of that line. -/
def render? (d : Diagnostic) (source file : String) : Option String :=
  let header := s!"Error: {d.cause.name} ({d.cause.tip})\n-> {file}\n"
  match lineAt? source.toList d.line with
  | some line => (d.picture? line).map (header ++ ·)
  | none => some header

end ExprLang.Diagnostic
