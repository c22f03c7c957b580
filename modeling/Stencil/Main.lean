/-
  The program.
-/
import Stencil.CommandLine
import Stencil.File.Disk

open Stencil

/-- Answer the request of the arguments: print what it leaves behind and end with its status. -/
def main (arguments : List String) : IO UInt32 := do
  let outcome ← (CommandLine.Request.ofArguments arguments).answer (m := IO)
  IO.print outcome.output
  IO.eprint outcome.errors
  return outcome.status.toUInt32
