import Treewalk.Report.Outcome

/-! # The command line -/

namespace Treewalk

/-- The command line as it has been understood so far. -/
structure CommandLine where
  file : Option String
  limit : Option Nat
  quiet : Bool

namespace CommandLine

/-- How the command is used. -/
def usage : String := "usage: treewalk [--quiet] [--max-depth N] FILE"

/-- Understand arguments one after the other. -/
def parse (line : CommandLine) : List String → Option CommandLine
  | [] => some line
  | "--quiet" :: rest | "-q" :: rest => parse { line with quiet := true } rest
  | "--max-depth" :: n :: rest => do
      let limit ← Limit.number? n.toList
      parse { line with limit := some limit } rest
  | file :: rest =>
      if line.file.isSome || file.startsWith "-" then none
      else parse { line with file := some file } rest

end CommandLine

/-- Read a file. -/
def readSource (file : String) : IO Source := do
  try
    return .ofBytes (← IO.FS.readBinFile file)
  catch
    | .noFileOrDirectory .. => return .missing
    | .inappropriateType .. => return .unreadable "Is a directory (os error 21)"
    | e => return .unreadable (toString e)

/-- Run the file that the arguments name. Output that cannot be written is
    lost. -/
def runFile (line : CommandLine) (file : String) : IO UInt32 := do
  let setting ← IO.getEnv "GOO_MAX_CALL_DEPTH"
  let outcome := Outcome.ofSource ⟨line.quiet, line.limit, setting⟩ file (← readSource file)
  try
    IO.print outcome.output
    (← IO.getStdout).flush
  catch _ => pure ()
  outcome.errors.forM fun l => IO.eprintln l
  return outcome.code.toUInt32

end Treewalk

def main (args : List String) : IO UInt32 := do
  match Treewalk.CommandLine.parse ⟨none, none, false⟩ args with
  | some line =>
      match line.file with
      | some file => Treewalk.runFile line file
      | none =>
          IO.eprintln Treewalk.CommandLine.usage
          return 2
  | none =>
      IO.eprintln Treewalk.CommandLine.usage
      return 2
