import ExprLang.Text.Blank

/-!
# Lines of a text

Lines are separated by newlines and numbered from 1. The carriage returns before a newline belong to the line
ending and not to the line.

* `dropLines?` : what follows the first `n` newlines;
* `lineAt?` : the text of a line.
-/

namespace ExprLang.Text

/-- The text after the first `n` newlines, or `none` if it has fewer. -/
def dropLines? : Nat → List Char → Option (List Char)
  | 0, cs => some cs
  | _ + 1, [] => none
  | n + 1, c :: cs => if c = '\n' then dropLines? n cs else dropLines? (n + 1) cs

/-- The characters of line `n`, without its ending, or `none` if the text has no such line. -/
def lineAt? (source : List Char) : Nat → Option (List Char)
  | 0 => none
  | n + 1 => (dropLines? n source).map fun cs => trimEndWhile (· == '\r') (cs.takeWhile (· != '\n'))

/-! ## Basic facts -/

/-- A text has a line `n + 1` exactly when it has `n` newlines. -/
theorem dropLines?_isSome_iff (n : Nat) (cs : List Char) :
    (dropLines? n cs).isSome = true ↔ n ≤ cs.count '\n' := by
  induction cs generalizing n with
  | nil => cases n <;> simp [dropLines?]
  | cons c cs ih =>
    cases n with
    | zero => simp [dropLines?]
    | succ n =>
      by_cases h : c = '\n'
      · simp [dropLines?, h, ih]
      · simp [dropLines?, h, ih]

example : lineAt? "a\nb\r\r\n".toList 4 = none := by decide

end ExprLang.Text
