import ExprLang.Text.Cursor
import ExprLang.Main
import ExprLang.Proofs.Token.Spelling
import ExprLang.Proofs.Token.Marks
import ExprLang.Proofs.Parser.Acceptance
import ExprLang.Proofs.Parser.Earliest
import ExprLang.Proofs.RoundTrip
import ExprLang.Proofs.Grammar.Relocation
import ExprLang.Proofs.Lexeme.Boundary
import ExprLang.Proofs.Accepted
import ExprLang.Proofs.Concatenation
import ExprLang.Proofs.FreeLayout
import ExprLang.Proofs.Diagnostic.Caret
import ExprLang.Proofs.Parser.Account
import ExprLang.Proofs.Parser.Explanation
import ExprLang.Proofs.StatementLines
import ExprLang.Proofs.Evaluation
import ExprLang.Proofs.Token.Composition
import ExprLang.Proofs.LineEndings
import ExprLang.Proofs.Node.Outline
import ExprLang.Proofs.CommandLine
import ExprLang.Proofs.Parser.LongestMatch
import ExprLang.Proofs.Token.Spacing
import ExprLang.Proofs.Parser.EndMark
import ExprLang.Proofs.Parser.LineOrder
import ExprLang.Proofs.IntegerLiterals
import ExprLang.Proofs.Token.ByteScan
