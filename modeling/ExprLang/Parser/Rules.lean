import ExprLang.Node.Text
import ExprLang.Parser.Basic

/-!
# Grammar rules

A statement is an assignment or an expression. Expressions are sums of products of factors, and the operators of one
level join from the left. A factor is an integer, a name, or an expression in parentheses. An operator outside
parentheses has to stand on the line of the token before it, or above; parentheses nest `maxNesting` deep at most.

* `Rule.chain` : operands of one level with the operators between them;
* `Rule.factorAt` : factors, by the number of parentheses that may still open;
* `Rule.expression`, `Rule.term`, `Rule.factor`, `Rule.assignment`, `Rule.statement` : the rules.
-/

namespace ExprLang

def maxNesting : Nat := 256

def operandNames : String := "an integer, a variable or `(`"

def Token.unmatched (t : Token) : Diagnostic := .atToken (.unmatchedParenthesis t.text) t

def Token.tooDeep (t : Token) : Diagnostic :=
  .atToken (.refusedToken t.text s!"parentheses nest deeper than {maxNesting} levels") t

def Token.noEqualsSign (t : Token) : Diagnostic :=
  .atToken (.refusedToken t.describe "expected `=` after variable name") t

namespace Parser

/-- The operator that comes next in the statement, if `lookup` knows one. -/
def operator? (p : Parser) (lookup : String → Option BinOp) : Option BinOp :=
  match p.current with
  | some t => if t.kind = .operator ∧ p.continues t then lookup t.text else none
  | none => none

/-- Whether an assignment comes next: a name with `=` on the same line. -/
def startsAssignment (p : Parser) : Bool :=
  match p.peek 0, p.peek 1 with
  | some t, some e => t.kind == .identifier && e.isOperator "=" && e.line == t.line
  | _, _ => false

/-- The number of parentheses that may still open. -/
def levels (p : Parser) : Nat := maxNesting - p.depth

def opened (p : Parser) : Parser := { p with depth := p.depth + 1 }

def closed (p : Parser) : Parser := { p with depth := p.depth - 1 }

end Parser

namespace Rule

/-! ## Expressions -/

/-- Reads on after the operand `left`: at most `n` operators that `lookup` knows, each with an operand. -/
def chainFrom (lookup : String → Option BinOp) (operand : Rule Node) : Nat → Node → Rule Node
  | 0, left => pure left
  | n + 1, left => do
    match (← get).operator? lookup with
    | none => pure left
    | some op =>
      discard advance
      let right ← operand
      chainFrom lookup operand n (.binary op left right)

/-- One operand, and all operators that `lookup` knows after it, each with an operand. The tokens ahead bound the
number of operators. -/
def chain (lookup : String → Option BinOp) (operand : Rule Node) : Rule Node := do
  let left ← operand
  chainFrom lookup operand (← get).ahead.length left

def expressionWith (factor : Rule Node) : Rule Node :=
  chain BinOp.additive? (chain BinOp.multiplicative? factor)

/-- What stands after the parenthesis `start`, which is the next token: `inner`, and the closing parenthesis. -/
def group (inner : Rule Node) (start : Token) : Rule Node := do
  discard advance
  modify Parser.opened
  let value ← inner
  modify Parser.closed
  discard (expectOperator ")" (some start.unmatched))
  pure value

/-- A factor; `parenthesis` reads on at an opening parenthesis. -/
def factorWith (parenthesis : Token → Rule Node) : Rule Node := do
  match (← get).current with
  | none => throw ((← get).endOfInput operandNames)
  | some t =>
    match t.kind with
    | .integerLiteral =>
      match Numeral.int64? t.text with
      | some n => discard advance; pure (.integer n)
      | none => throw (.atToken (.invalidNumeral t.text) t)
    | .identifier => discard advance; pure (.var t.text)
    | .operator => if t.text = "(" then parenthesis t else throw t.unexpected
    | _ => throw t.unexpected

/-- A factor in which at most `levels` parentheses nest. -/
def factorAt : (levels : Nat) → Rule Node
  | 0 => factorWith fun t => throw t.tooDeep
  | levels + 1 => factorWith (group (expressionWith (factorAt levels)))

def factor : Rule Node := do factorAt (← get).levels

def term : Rule Node := do chain BinOp.multiplicative? (factorAt (← get).levels)

def expression : Rule Node := do expressionWith (factorAt (← get).levels)

/-! ## Statements -/

/-- An assignment: a name, `=`, and an expression. -/
def assignment : Rule Node := do
  match (← get).current with
  | none => throw ((← get).endOfInput "a variable name")
  | some name =>
    if name.kind = .identifier then
      discard advance
      match (← get).current with
      | none => throw ((← get).endOfInput "`=` after variable name")
      | some t =>
        discard (expectOperator "=" (some t.noEqualsSign))
        let value ← expression
        pure (.assign name.text value)
    else throw (.atToken (.malformedTarget name.describe) name)

/-- A statement: an assignment if a name with `=` on its line comes next, and an expression if not. -/
def statement : Rule Node := do
  match (← get).current with
  | none => throw ((← get).endOfInput operandNames)
  | some start =>
    if (← get).startsAssignment then assignment
    else
      let value ← expression
      let p ← get
      match p.current with
      | none => pure value
      | some t =>
        if t.isOperator "=" && p.continues t then throw (.atToken (.malformedTarget value.text) start)
        else pure value

end Rule

end ExprLang
