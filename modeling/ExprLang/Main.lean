import ExprLang.CommandLine

/-!
# The program

`main` reads files from the disk and prints what `CommandLine.run` gives.
-/

namespace ExprLang.CommandLine

def reasonOf : IO.Error → ReadError
  | .noFileOrDirectory .. => .notFound
  | .inappropriateType _ 21 _ => .isDirectory
  | e => .other (toString e)

def readFile (name : String) : IO (Except ReadError (List UInt8)) := do
  match ← (IO.FS.readBinFile name).toBaseIO with
  | .ok bytes => return .ok bytes.toList
  | .error e => return .error (reasonOf e)

end ExprLang.CommandLine

/-- Runs the command `pyexpr`. -/
def main (args : List String) : IO UInt32 := do
  let outcome ← ExprLang.CommandLine.run ExprLang.CommandLine.readFile ("pyexpr" :: args)
  IO.print outcome.output
  IO.eprint outcome.errors
  return outcome.code
