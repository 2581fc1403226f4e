import ExprLang.Node.Basic
import ExprLang.Numeral

/-!
# Trees as text

A tree is written in two ways: on one line, with parentheses about every operation and none about an assignment; and
as an outline, with one line for each node in preorder, two spaces further in than the node it belongs to.

* `Node.text` : the tree on one line;
* `Node.preorder` : the labels of the nodes with their depths;
* `Node.outline`, `Program.outline` : the outline.
-/

namespace ExprLang

namespace Node

/-- The tree on one line. -/
def text : Node → String
  | integer n => Numeral.ofInt64 n
  | var x => x
  | binary op l r => "(" ++ l.text ++ " " ++ op.symbol ++ " " ++ r.text ++ ")"
  | assign x v => x ++ " = " ++ v.text

/-- A line of an outline. -/
structure Entry where
  depth : Nat
  label : String
  deriving DecidableEq, Repr

def nameEntry (depth : Nat) (x : String) : Entry := ⟨depth, "Variable Node: " ++ x⟩

/-- The lines of a tree at `depth`. The target of an assignment has a line of its own before the value. -/
def preorder (depth : Nat) : Node → List Entry
  | integer n => [⟨depth, "Integer Node: " ++ Numeral.ofInt64 n⟩]
  | var x => [nameEntry depth x]
  | binary op l r => ⟨depth, op.label⟩ :: (l.preorder (depth + 1) ++ r.preorder (depth + 1))
  | assign x v => ⟨depth, "Assignment Node"⟩ :: nameEntry (depth + 1) x :: v.preorder (depth + 1)

/-- The line as text, with two spaces for each level. -/
def Entry.text (e : Entry) : String := String.ofList (List.replicate (2 * e.depth) ' ') ++ e.label ++ "\n"

def outline (n : Node) : String := String.join ((n.preorder 0).map Entry.text)

end Node

def InvalidTarget.message (e : InvalidTarget) : String :=
  s!"invalid node: assignment target must be a variable, got `{e.target.text}`"

/-- The outlines of the statements, one after the other. -/
def Program.outline (p : Program) : String := String.join (p.body.map Node.outline)

end ExprLang
