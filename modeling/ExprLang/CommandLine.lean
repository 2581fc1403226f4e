import ExprLang.Text.Utf8
import ExprLang.Token.Scan
import ExprLang.Diagnostic.Render
import ExprLang.Parser.Program

/-!
# The command line

The command reads one file. It prints the outline of the program in it, or says why there is none. It breaks off if it
cannot draw the picture that says so.

* `CommandLine.check` : what is printed about a text;
* `CommandLine.run` : what is printed for the words of a command, if `read` reads the files.
-/

namespace ExprLang.CommandLine

/-- Why a file could not be read. -/
inductive ReadError where
  | notFound
  | isDirectory
  | other (reason : String)
  deriving DecidableEq, Repr

/-- The text of a reason, with its number if it is one of the two known ones. -/
def ReadError.message : ReadError → String
  | notFound => "No such file or directory (os error 2)"
  | isDirectory => "Is a directory (os error 21)"
  | other reason => reason

/-- What a run leaves behind: its exit code, and what it writes to the standard output and the standard error. -/
structure Outcome where
  code : UInt32
  output : String
  errors : String
  deriving DecidableEq, Repr

def Outcome.failure (message : String) : Outcome := ⟨1, "", message⟩

def Outcome.success (output : String) : Outcome := ⟨0, output, ""⟩

/-- A run that breaks off. Of what is written then only the reason is told. -/
def Outcome.abort (reason : String) : Outcome := ⟨101, "", reason ++ "\n"⟩

def usage (program : String) : String := s!"Usage: {program} <file.py>\n"

/-- What is printed about the text `source` of the file `file`. -/
def check (source file : String) : Outcome :=
  match parseProgram (tokenize source) with
  | .ok program => .success program.outline
  | .error d =>
    match d.render? source file with
    | some text => .failure text
    | none => .abort Diagnostic.tooWide

def report (file : String) : Except ReadError (List UInt8) → Outcome
  | .ok bytes => check (String.ofList (Text.decodeLossy bytes)) file
  | .error e => .failure s!"Error: Unable to open file {file}: {e.message}\n"

/-- What is printed for the words of a command: the name of the program, and one file name. -/
def run {m : Type → Type} [Monad m] (read : String → m (Except ReadError (List UInt8))) (words : List String) :
    m Outcome := do
  match words with
  | [_, file] => return report file (← read file)
  | _ => return .failure (usage (words.headD "pyexpr"))

end ExprLang.CommandLine
