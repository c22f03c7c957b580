/-
  Access to files.

  `MonadFiles` is what the generator needs of files: reading, writing, copying,
  and asking whether a path leads anywhere.  `FileError` says why access fails.
-/

namespace Stencil

/-- Why a file cannot be read or written. -/
inductive FileError where
  /-- The path leads nowhere. -/
  | notFound
  /-- The path goes through a file as if it were a directory. -/
  | notDirectory
  /-- The path leads to a directory. -/
  | isDirectory
  /-- The bytes of the file are no UTF-8 text. -/
  | notUtf8
  /-- Only files can be copied. -/
  | notRegular
  /-- No file name holds a null character. -/
  | nullCharacter
  /-- A name on the path, or the path, has too many bytes. -/
  | nameTooLong
  /-- Another reason, in words. -/
  | other (reason : String)
  deriving DecidableEq, Repr

/-- The reason in words. -/
def FileError.message : FileError → String
  | notFound => "No such file or directory (os error 2)"
  | notDirectory => "Not a directory (os error 20)"
  | isDirectory => "Is a directory (os error 21)"
  | notUtf8 => "stream did not contain valid UTF-8"
  | notRegular => "the source path is neither a regular file nor a symlink to a regular file"
  | nullCharacter => "file name contained an unexpected NUL byte"
  | nameTooLong => "File name too long (os error 36)"
  | other reason => reason

/-- Access to files. -/
class MonadFiles (m : Type → Type) where
  /-- The bytes of a file. -/
  read (path : String) : m (Except FileError ByteArray)
  /-- Whether a path leads to a file or a directory. -/
  present (path : String) : m Bool
  /-- Make one file the same as another. -/
  copy (source target : String) : m (Except FileError Unit)
  /-- Put bytes into a file, in place of what was there. -/
  write (path : String) (bytes : ByteArray) : m (Except FileError Unit)

end Stencil
