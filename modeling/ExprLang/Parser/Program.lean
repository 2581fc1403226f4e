import ExprLang.Parser.Rules

/-!
# Statements and programs

* `parse` : the one statement that a list of tokens holds;
* `parseProgram` : all statements of a list of tokens, each on lines of its own.
-/

namespace ExprLang

namespace Rule

/-- One statement, and nothing after it. -/
def soleStatement : Rule Node := do
  let node ← statement
  match (← get).current with
  | none => pure node
  | some t => throw t.unexpected

/-- The statements after a first one, at most `n`. Each begins below the token before it. -/
def furtherStatements : Nat → Rule (List Node)
  | 0 => pure []
  | n + 1 => do
    let p ← get
    match p.current with
    | none => pure []
    | some t =>
      if p.continues t then throw t.unexpected
      else
        let node ← statement
        let nodes ← furtherStatements n
        pure (node :: nodes)

def program : Rule Program := do
  match (← get).current with
  | none => pure {}
  | some _ =>
    let node ← statement
    let nodes ← furtherStatements (← get).ahead.length
    pure ⟨node :: nodes⟩

/-- What a rule gives at the front of a list of tokens. -/
def onTokens {α : Type} (rule : Rule α) (tokens : List Token) : Except Diagnostic α :=
  match rule.run (.ofTokens tokens) with
  | .ok a _ => .ok a
  | .error d _ => .error d

end Rule

/-- The one statement that the tokens hold. -/
def parse (tokens : List Token) : Except Diagnostic Node := Rule.soleStatement.onTokens tokens

/-- The statements that the tokens hold. No token at all makes the empty program. -/
def parseProgram (tokens : List Token) : Except Diagnostic Program := Rule.program.onTokens tokens

end ExprLang
