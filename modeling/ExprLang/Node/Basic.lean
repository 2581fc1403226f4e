/-!
# Trees

A `Node` is an arithmetic expression, or the assignment of a value to a name. A `Program` is a list of them.

* `BinOp` : the four operators, with their symbols and labels;
* `Node`, `Program` : trees, and lists of statements;
* `Node.assignTo` : an assignment whose target is a tree, which has to be a variable.
-/

namespace ExprLang

/-- The operators of arithmetic. -/
inductive BinOp where
  | add
  | sub
  | mul
  | div
  deriving DecidableEq, Repr

namespace BinOp

def symbol : BinOp → String
  | add => "+"
  | sub => "-"
  | mul => "*"
  | div => "/"

/-- What an outline calls an operation. -/
def label : BinOp → String
  | add => "Addition Node"
  | sub => "Subtraction Node"
  | mul => "Multiplication Node"
  | div => "Division Node"

/-- The operator that joins terms and is spelled `text`. -/
def additive? (text : String) : Option BinOp :=
  if text = "+" then some add else if text = "-" then some sub else none

def multiplicative? (text : String) : Option BinOp :=
  if text = "*" then some mul else if text = "/" then some div else none

theorem symbol_of_additive? (text : String) (op : BinOp) (h : additive? text = some op) : op.symbol = text := by
  unfold additive? at h
  split at h
  · next ht => cases h; exact ht.symm
  · split at h
    · next ht => cases h; exact ht.symm
    · cases h

theorem symbol_of_multiplicative? (text : String) (op : BinOp) (h : multiplicative? text = some op) :
    op.symbol = text := by
  unfold multiplicative? at h
  split at h
  · next ht => cases h; exact ht.symm
  · split at h
    · next ht => cases h; exact ht.symm
    · cases h

end BinOp

/-- A statement or a part of one. -/
inductive Node where
  | integer (value : Int64)
  | var (name : String)
  | binary (op : BinOp) (left right : Node)
  | assign (target : String) (value : Node)
  deriving DecidableEq, Repr

def Node.isVariable : Node → Bool
  | var _ => true
  | _ => false

/-- The refusal to assign to a node that is not a variable. -/
structure InvalidTarget where
  target : Node
  deriving DecidableEq, Repr

/-- The assignment of `value` to `target`, which has to be a variable. -/
def Node.assignTo (target value : Node) : Except InvalidTarget Node :=
  match target with
  | .var name => .ok (.assign name value)
  | _ => .error ⟨target⟩

/-- The statements of a text, in order. -/
structure Program where
  body : List Node := []
  deriving DecidableEq, Repr

namespace Program

def length (p : Program) : Nat := p.body.length

def isEmpty (p : Program) : Bool := p.body.isEmpty

end Program

/-- Only a variable can be assigned to. -/
theorem Node.assignTo_isOk_iff (target value : Node) :
    (∃ n, target.assignTo value = .ok n) ↔ target.isVariable = true := by
  cases target <;> simp [assignTo, isVariable]

end ExprLang
