import Constify.CommandLine
import Constify.Disk

/-!
# The program

Runs the command line on the disk, in the current directory.
-/

open Constify

/-- Print what a call of the program gives and end with its exit code. -/
def main (arguments : List String) : IO UInt32 := do
  let cwd := (← IO.currentDir).toString.toList
  let outcome ← execute Disk.storage cwd (arguments.map String.toList)
  IO.print (String.ofList outcome.output)
  IO.eprint (String.ofList outcome.errors)
  return outcome.code.toUInt32
