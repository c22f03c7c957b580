/-
  The files of the machine.

  `MonadFiles IO` gives access to them, with failures by their causes.
-/
import Stencil.File.Access

namespace Stencil.Disk

/-- The cause of a failure that the system reports.  The numbers are the system's own
    for a path that goes through a file, one that leads to a directory, and one that is
    too long. -/
def cause : IO.Error → FileError
  | .noFileOrDirectory .. => .notFound
  | .invalidArgument _ 36 _ => .nameTooLong
  | .inappropriateType _ code reason =>
    if code = 20 then .notDirectory else if code = 21 then .isDirectory else .other reason
  | e => .other (toString e)

/-- Run an action and catch its failure. -/
def attempt {α : Type} (action : IO α) : IO (Except FileError α) := do
  return (← action.toBaseIO).mapError cause

/-- The bytes of a file. -/
def read (path : String) : IO ByteArray := do
  (← IO.FS.Handle.mk path .read).readBinToEnd

/-- Whether a path can be opened. -/
def present (path : String) : IO Bool := do
  return (← attempt (IO.FS.Handle.mk path .read)).isOk

/-- Make one file the same as another.  The target is emptied before the source is read. -/
def copy (source target : String) : IO (Except FileError Unit) := do
  match ← attempt (read source) with
  | .error .isDirectory => return .error .notRegular
  | .error e => return .error e
  | .ok _ => attempt do
    IO.FS.writeBinFile target .empty
    IO.FS.writeBinFile target (← read source)

instance : MonadFiles IO where
  read path := attempt (read path)
  present := present
  copy := copy
  write path bytes := attempt (IO.FS.writeBinFile path bytes)

end Stencil.Disk
