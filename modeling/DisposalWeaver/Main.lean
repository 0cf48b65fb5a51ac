/-
The program: prints what `CommandLine.run` answers for its arguments, and ends with its exit code.
-/
import DisposalWeaver.CommandLine

open DisposalWeaver in
def main (arguments : List String) : IO UInt32 := do
  let result := CommandLine.run arguments
  for line in result.lines do
    IO.println line
  return result.exitCode.toUInt32
