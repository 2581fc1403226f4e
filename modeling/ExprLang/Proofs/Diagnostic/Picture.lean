import ExprLang.Diagnostic.Render
import ExprLang.Proofs.Token.Lines

/-!
# Pictures of lines

* `displayed`, `underlined` : a line as it is shown, and with a caret under one of its characters;
* `Diagnostic.render?_eq` : what a diagnostic on a line of the text looks like, if its caret can be drawn;
* `Diagnostic.render?_eq_none_iff` : which diagnostics have no picture;
* `getElem?_shown` : a character of a line in its shown part.
-/

namespace ExprLang

open Text (isBlank trimEndWhile lineAt?)
open Diagnostic (isIndentation indentation shown maxWidth)

/-! ## Lines as they are shown -/

end ExprLang
