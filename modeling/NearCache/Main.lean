import NearCache.CommandLine
/-!
# The program

Reads the file that the arguments name and prints the metrics of the sample workload.
-/

namespace NearCache

/-- The bytes of a file, if there is one. -/
def readBytes (path : String) : IO (Option Bytes) := do
  try return some (← IO.FS.readBinFile path).toList catch _ => return none

end NearCache

open NearCache in
/-- The program: prints the metrics, or fails with the exit code of what went wrong. -/
def main (args : List String) : IO UInt32 := do
  match CommandLine.Arguments.ofList {} args with
  | none => return 2
  | some a =>
    let result := CommandLine.run a.file (← readBytes a.file) a.keys a.rounds
    IO.print result.output
    return UInt32.ofNat result.exit
