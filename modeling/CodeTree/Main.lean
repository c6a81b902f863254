import CodeTree.Bundle
import CodeTree.CommandLine.Run

/-!
# The program

The program takes the arguments of the command line and a bundle in JSON on its standard input: the
files that the command may read, with their concrete trees.
-/

open CodeTree

def main (arguments : List String) : IO UInt32 := do
  let input ← (← IO.getStdin).readToEnd
  match Bundle.ofText? input with
  | none =>
    (← IO.getStderr).putStr "Error: the bundle cannot be read\n"
    return 1
  | some bundle =>
    let outcome := CommandLine.run bundle.parser bundle.files arguments
    (← IO.getStdout).putStr outcome.output
    (← IO.getStderr).putStr outcome.errors
    return outcome.code
