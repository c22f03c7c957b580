/-
  A tree of files as a value.

  A path is a list of names between slashes; an empty name and a dot stay where
  they are, two dots go up.  Whatever a path goes through has to be a directory,
  and neither its names nor the path itself may be too long.

  * `FileSystem.walk` follows a path to a place;
  * `read`, `present`, `write`, `copy`, `makeDirectory` and `remove` are the
    operations, and `StateM FileSystem` gives access to files with them.

  The tree starts in its working directory.  The directories above it and the root
  are there, but nothing is known of what else they hold.
-/
import Std.Data.ExtTreeMap
import Stencil.File.Access

namespace Stencil

/-- What stands at a place in a tree. -/
inductive Node where
  | file (bytes : ByteArray)
  | directory

/-- A place: the names that lead to it, where `..` leads above the working
    directory and `/` is the root. -/
abbrev Place := List String

/-- A tree of files. -/
structure FileSystem where
  nodes : Std.ExtTreeMap Place Node

namespace FileSystem

/-- An empty working directory. -/
def empty : FileSystem :=
  ⟨∅⟩

/-! ## Paths -/

/-- Whether a place is the working directory, above it, or the root. -/
def isOuter (place : Place) : Bool :=
  place.all fun name => name == ".." || name == "/"

/-- What stands at a place. -/
def node? (fs : FileSystem) (place : Place) : Option Node :=
  if isOuter place then some .directory else fs.nodes[place]?

/-- The greatest number of bytes in a name. -/
def maxNameSize : Nat := 255

/-- The greatest number of bytes in a path. -/
def maxPathSize : Nat := 4095

/-- Look a place up.  This fails if the last name that leads there is too long. -/
def lookup (fs : FileSystem) (place : Place) : Except FileError (Option Node) :=
  if maxNameSize < (place.getLast?.getD "").utf8ByteSize then .error .nameTooLong
  else .ok (fs.node? place)

/-- A place has to be a directory for a path to go on there. -/
def enter (fs : FileSystem) (place : Place) : Except FileError Unit := do
  match ← fs.lookup place with
  | none => throw .notFound
  | some (.file _) => throw .notDirectory
  | some .directory => return

/-- The place that a name leads to from a directory. -/
def child (place : Place) (name : String) : Place :=
  if name = "" ∨ name = "." then place
  else if name = ".." then
    if place = ["/"] then place
    else if isOuter place then place ++ [".."]
    else place.dropLast
  else place ++ [name]

/-- The place that names lead to, one after the other. -/
def walkNames (fs : FileSystem) (place : Place) : List String → Except FileError Place
  | [] => .ok place
  | name :: names => do
    fs.enter place
    fs.walkNames (child place name) names

/-- The names of a path. -/
def pathNames (path : List Char) : List (List Char) :=
  path.foldr (fun c names =>
    match names with
    | name :: rest => if c = '/' then [] :: name :: rest else (c :: name) :: rest
    | [] => []) [[]]

/-- Check a path as a text: it is not empty, it holds no null character, and it is not
    too long. -/
def checkPath (path : String) : Except FileError Unit :=
  if path = "" then .error .notFound
  else if '\x00' ∈ path.toList then .error .nullCharacter
  else if maxPathSize < path.utf8ByteSize then .error .nameTooLong
  else .ok ()

/-- The place that a path leads to. -/
def walk (fs : FileSystem) (path : String) : Except FileError Place := do
  checkPath path
  fs.walkNames (if path.toList.head? = some '/' then ["/"] else [])
    ((pathNames path.toList).map String.ofList)

/-! ## Operations -/

/-- What a path leads to. -/
def find (fs : FileSystem) (path : String) : Except FileError Node := do
  match ← fs.lookup (← fs.walk path) with
  | none => throw .notFound
  | some node => return node

/-- The bytes of a file. -/
def read (fs : FileSystem) (path : String) : Except FileError ByteArray := do
  match ← fs.find path with
  | .file bytes => return bytes
  | .directory => throw .isDirectory

/-- Whether a path leads to a file or a directory. -/
def present (fs : FileSystem) (path : String) : Bool :=
  (fs.find path).isOk

/-- A path without the slashes behind it. -/
def trimSlashes (path : String) : String :=
  String.ofList (path.toList.reverse.dropWhile (· = '/')).reverse

/-- The place of a file that can be written.  A path with a slash behind it can
    only lead to a directory. -/
def writable (fs : FileSystem) (path : String) : Except FileError Place := do
  checkPath path
  if path.toList.getLast? = some '/' ∧ trimSlashes path ≠ "" then
    discard (fs.walk (trimSlashes path))
    throw .isDirectory
  let place ← fs.walk path
  match ← fs.lookup place with
  | some .directory => throw .isDirectory
  | _ => return place

/-- Put bytes into a file, in place of what was there. -/
def write (fs : FileSystem) (path : String) (bytes : ByteArray) : Except FileError FileSystem := do
  let place ← fs.writable path
  return ⟨fs.nodes.insert place (.file bytes)⟩

/-- Make one file the same as another.  The target is emptied before the source
    is read, so a file that is copied onto itself is empty. -/
def copy (fs : FileSystem) (source target : String) : Except FileError FileSystem := do
  match ← fs.find source with
  | .directory => throw .notRegular
  | .file _ =>
    let emptied ← fs.write target .empty
    let bytes ← emptied.read source
    emptied.write target bytes

/-- Make a new directory. -/
def makeDirectory (fs : FileSystem) (path : String) : Except FileError FileSystem := do
  checkPath path
  let place ← fs.walk (trimSlashes path)
  match ← fs.lookup place with
  | some _ => throw (.other "File exists (os error 17)")
  | none => return ⟨fs.nodes.insert place .directory⟩

/-- Remove a file. -/
def remove (fs : FileSystem) (path : String) : Except FileError FileSystem := do
  match ← fs.find path with
  | .directory => throw .isDirectory
  | .file _ => return ⟨fs.nodes.erase (← fs.walk path)⟩

/-- What stands below the working directory, each place as a path. -/
def toList (fs : FileSystem) : List (String × Node) :=
  (fs.nodes.toList.filter fun entry => entry.1.head? ≠ some ".." ∧ entry.1.head? ≠ some "/").map
    fun entry => ("/".intercalate entry.1, entry.2)

/-- Apply an operation that may fail; a tree on which it fails stays as it is. -/
def update (change : FileSystem → Except FileError FileSystem) :
    StateM FileSystem (Except FileError Unit) := fun fs =>
  match change fs with
  | .ok fs' => (.ok (), fs')
  | .error e => (.error e, fs)

instance : MonadFiles (StateM FileSystem) where
  read path := do return (← get).read path
  present path := do return (← get).present path
  copy source target := update (·.copy source target)
  write path bytes := update (·.write path bytes)

end FileSystem

end Stencil
