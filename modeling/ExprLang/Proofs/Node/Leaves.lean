import ExprLang.Node.Basic

/-!
# The leaves of a tree

* `Node.names`, `Node.integers` : the names and the integers of a tree, from left to right;
* `Node.isExpression` : the trees without assignments.
-/

namespace ExprLang

namespace Node

/-- The names in a tree, from left to right. The target of an assignment comes before the names of its value. -/
def names : Node → List String
  | integer _ => []
  | var x => [x]
  | binary _ l r => l.names ++ r.names
  | assign x v => x :: v.names

def integers : Node → List Int64
  | integer i => [i]
  | var _ => []
  | binary _ l r => l.integers ++ r.integers
  | assign _ v => v.integers

def isExpression : Node → Bool
  | integer _ | var _ => true
  | binary _ l r => l.isExpression && r.isExpression
  | assign _ _ => false

end Node

namespace Program

def names (p : Program) : List String := p.body.flatMap Node.names

end Program

end ExprLang
