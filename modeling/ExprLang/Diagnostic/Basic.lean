import ExprLang.Text.Quoted
import ExprLang.Token.Basic

/-!
# Diagnostics

A `Diagnostic` says why a text was refused, and where. It stands on a line, and in a column if a token is to blame.

* `Cause` : why, with the texts that the messages show;
* `Diagnostic` : the cause and the place;
* `Diagnostic.name`, `Diagnostic.tip`, `Diagnostic.message` : what is said about it.
-/

namespace ExprLang

/-- Why a text was refused. -/
inductive Cause where
  | unexpectedToken (token : String)
  | refusedToken (token message : String)
  | unexpectedEnd (expected : String)
  | unmatchedParenthesis (token : String)
  | malformedTarget (token : String)
  | invalidNumeral (token : String)
  deriving DecidableEq, Repr

/-- Why and where a text was refused. At the end of the text there is no column. -/
structure Diagnostic where
  cause : Cause
  line : Nat
  column : Option Nat := none
  deriving DecidableEq, Repr

namespace Cause

def name : Cause → String
  | unexpectedToken _ => "UnexpectedToken"
  | refusedToken .. => "UnexpectedTokenDetailed"
  | unexpectedEnd _ => "UnexpectedEndOfInput"
  | unmatchedParenthesis _ => "UnmatchedParenthesis"
  | malformedTarget _ => "MalformedAssignmentTarget"
  | invalidNumeral _ => "InvalidNumericLiteral"

/-- The text of the token to blame. At the end of the text there is none. -/
def token? : Cause → Option String
  | unexpectedToken t | refusedToken t _ | unmatchedParenthesis t | malformedTarget t | invalidNumeral t => some t
  | unexpectedEnd _ => none

def tip : Cause → String
  | unexpectedToken t => s!"Unexpected token: `{t}`"
  | refusedToken t m => s!"Unexpected token: `{t}`, {m}"
  | unexpectedEnd e => s!"Unexpected end of input, expected {e}"
  | unmatchedParenthesis _ => "This `(` is never closed, add a `)`"
  | malformedTarget t => s!"Cannot assign to `{t}`, only a variable name may appear left of `=`"
  | invalidNumeral t => s!"Invalid number: `{t}`, is it above the integer limit?"

def description : Cause → String
  | unexpectedToken t => s!"unexpected token: {Text.quote t}"
  | refusedToken t m => s!"unexpected token ({m}): {Text.quote t}"
  | unexpectedEnd e => s!"unexpected end of input, expected {e}"
  | unmatchedParenthesis t => s!"unmatched parenthesis: {Text.quote t}"
  | malformedTarget t => s!"malformed assignment target: {Text.quote t}"
  | invalidNumeral t => s!"invalid numeric literal: {Text.quote t}"

end Cause

namespace Diagnostic

def atToken (cause : Cause) (t : Token) : Diagnostic := ⟨cause, t.line, some t.column⟩

def message (d : Diagnostic) : String := s!"[line {d.line}] {d.cause.description}"

end Diagnostic

end ExprLang
