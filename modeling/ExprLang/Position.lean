/-!
# Positions in a text

A line, counted from 1, and a column, counted from 0 in characters.

* `Position.next` : the position after one character;
* `Position.after` : the position after a piece of text, `after_append`.
-/

namespace ExprLang

/-- A place in a text: its line, counted from 1, and the number of characters before it on this line. -/
structure Position where
  line : Nat
  column : Nat
  deriving DecidableEq, Repr

namespace Position

def start : Position := ⟨1, 0⟩

/-- The position after one character: a newline opens the next line, any other character takes one column. -/
def next (p : Position) (c : Char) : Position :=
  if c = '\n' then ⟨p.line + 1, 0⟩ else ⟨p.line, p.column + 1⟩

def after (p : Position) (cs : List Char) : Position := cs.foldl next p

/-! ## Basic facts -/

@[simp] theorem after_nil (p : Position) : p.after [] = p := rfl

@[simp] theorem after_cons (p : Position) (c : Char) (cs : List Char) :
    p.after (c :: cs) = (p.next c).after cs := rfl

theorem after_append (p : Position) (cs ds : List Char) : p.after (cs ++ ds) = (p.after cs).after ds :=
  List.foldl_append

@[simp] theorem next_newline (p : Position) : p.next '\n' = ⟨p.line + 1, 0⟩ := rfl

/-- The line moves on by the newlines of the text. -/
theorem line_after (p : Position) (cs : List Char) : (p.after cs).line = p.line + cs.count '\n' := by
  induction cs generalizing p with
  | nil => rfl
  | cons c cs ih =>
    by_cases h : c = '\n'
    · simp [h, ih]; omega
    · simp [h, ih, next]

/-- Within a line the column moves on by the length of the text. -/
theorem after_of_notMem (p : Position) (cs : List Char) (h : '\n' ∉ cs) :
    p.after cs = ⟨p.line, p.column + cs.length⟩ := by
  induction cs generalizing p with
  | nil => rfl
  | cons c cs ih =>
    simp only [List.mem_cons, not_or] at h
    simp [ih _ h.2, next, Ne.symm h.1]
    omega

end Position

end ExprLang
