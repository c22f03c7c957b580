/-
  Generating files.

  Nothing is written before the input has passed all checks and all blocks are
  filled.  What stood in the output file is copied to a backup beside it.

  * `Generator.check` reads and checks an input file;
  * `Generator.generate` writes the blocks of an input file to an output file.
-/
import Stencil.File.Access
import Stencil.Input.Checked

namespace Stencil.Generator

open Input

variable {m : Type → Type} [Monad m] [MonadFiles m]

/-- The result of an access to the file at `path`, with a failure as a fault. -/
def accessing {α : Type} (path : String) (access : m (Except FileError α)) : ExceptT Fault m α :=
  ExceptT.mk do return (← access).mapError fun e => .fileAccess path e.message

/-- The text that bytes encode. -/
def decode (bytes : ByteArray) : Except FileError String :=
  match String.fromUTF8? bytes with
  | some text => .ok text
  | none => .error .notUtf8

/-- The text of a file. -/
def readText (path : String) : ExceptT Fault m String := do
  let bytes ← accessing path (MonadFiles.read path)
  liftExcept ((decode bytes).mapError fun e => Fault.fileAccess path e.message)

/-- The input in a file, checked. -/
def check (settings : Settings) (input : String) : ExceptT Fault m Checked := do
  let text ← readText input
  liftExcept (Checked.ofText settings text)

/-- The plan of the query in a file. -/
def plan (settings : Settings) (input : String) : ExceptT Fault m Query.Plan := do
  let text ← readText input
  liftExcept (planOfText settings text)

/-- The whole output of an input file as a text. -/
def render (settings : Settings) (input : String) : ExceptT Fault m String := do
  let checked ← check settings input
  liftExcept checked.render

/-- The path of the backup of an output file. -/
def backupPath (settings : Settings) (output : String) : String :=
  output ++ settings.backupSuffix

/-- Write the blocks of an input file to an output file, of which a backup is made
    if it is there.  The answer is the number of blocks. -/
def generate (settings : Settings) (input output : String) : ExceptT Fault m Nat := do
  let checked ← check settings input
  let blocks ← liftExcept checked.blocks
  if ← (MonadFiles.present output : m Bool) then
    let backup := backupPath settings output
    accessing backup (MonadFiles.copy output backup)
  accessing output (MonadFiles.write output (String.join blocks).toUTF8)
  return blocks.length

end Stencil.Generator
