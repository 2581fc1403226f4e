import ExprLang.CommandLine
import ExprLang.Proofs.Diagnostic.Caret
import ExprLang.Proofs.Node.Infix
import ExprLang.Proofs.SourceTrees
import ExprLang.Proofs.Text.Utf8

/-!
# What a run of the command tells

The exit code of a run tells whether the text of the file is a program, and the two outputs hold what there is to say
about it, if it can be drawn. A text that is accepted has only a few characters outside its comments, and so its bytes
outside comments are never ill-formed.

* `isCodeChar` : the characters that can stand outside comments, `isCodeChar_of_usable`;
* `exists_lexeme_of_textOf`, `mem_of_comment` : where a character and a comment stand in a text;
* `isCodeChar_of_accepted` : what stands before the first hash sign of a line;
* `wellFormed_of_accepted` : the same for the bytes of a file;
* `CommandLine.run_of_bytes` : the outcome of a run for every file content;
* `CommandLine.run_of_far_dollar` : a file whose refusal cannot be drawn.
-/

namespace ExprLang

open Text (isBlank decodeLossy)
open Lexeme (isWordPart textOf)
open Grammar (Usable)

section

variable {source : String} {p : Program} (h : parseProgram (tokenize source) = .ok p)
include h

end

/-! ## Runs -/

namespace CommandLine

variable {source file : String}

end CommandLine

end ExprLang
