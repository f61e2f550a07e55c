import Conform.CommandLine

/-!
The program: it answers its command line.
-/

namespace Conform

/-- What is shown for arguments that make no sense. -/
def usage : String :=
  "usage: conform [--item TYPE] [--gt V] [--ge V] [--lt V] [--le V] [--min-length N] [--max-length N]\n" ++
    "  [--pattern P] [--lax] [--no-explicit-cast] [--no-data-loss] [-v | --verbose] TARGET VALUE\n"

end Conform

open Conform in
/-- Writes the answer, and ends with its code. -/
def main (args : List String) : IO UInt32 := do
  let report := (CommandLine.report? args).getD ⟨2, "", usage⟩
  (← IO.getStdout).putStr report.output
  (← IO.getStderr).putStr report.errors
  pure report.code.toUInt32
