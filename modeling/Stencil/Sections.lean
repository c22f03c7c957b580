/-
  The sections of an input file.

  A section starts behind a header line and runs to the next one; lines in
  front of the first header belong to no section, and a repeated header goes on
  with its section.  Lines are kept as they are, with their line feeds.

  * `Sections.scan` reads the sections of a text; `owned` says which section
    each line belongs to;
  * `Sections.lines?` looks up a section; `lines?_scan`: it holds the lines that
    the section owns, in order, and there is no section without lines.
-/
import Stencil.Groups
import Stencil.LineForm
import Stencil.Text.Comment
import Stencil.Text.Line

namespace Stencil

/-- The sections of an input file. -/
structure Sections where
  /-- The lines of each section. -/
  byName : Std.ExtTreeMap String (List String)

namespace Sections

/-- The name of the section that starts behind a line. -/
def headerName? (line : String) : Option String :=
  LineForm.sectionName? (String.ofList (Text.stripComment line.toList))

/-- The lines that belong to a section, each with its name, where `current` is
    the section of the first line. -/
def owned (current : Option String) : List String → List (String × String)
  | [] => []
  | line :: rest =>
    match headerName? line, current with
    | some name, _ => owned (some name) rest
    | none, some name => (name, line) :: owned (some name) rest
    | none, none => owned none rest

/-- The sections of a text. -/
def scan (text : String) : Sections :=
  ⟨groups (owned none (Text.lines text))⟩

/-- The lines of a section, if it has any. -/
def lines? (s : Sections) (name : String) : Option (List String) :=
  s.byName[name]?.filter (· ≠ [])

/-- Whether there is a section of this name. -/
def contains (s : Sections) (name : String) : Bool :=
  (s.lines? name).isSome

/-- The sections in the order of their names. -/
def toList (s : Sections) : List (String × List String) :=
  s.byName.toList

/-- The number of sections. -/
def size (s : Sections) : Nat :=
  s.byName.size

/-- **A section holds the lines it owns**, in order, and a name without lines is
    no section. -/
theorem lines?_scan (text name : String) :
    (scan text).lines? name =
      (some (((owned none (Text.lines text)).filter fun e => e.1 = name).map Prod.snd)).filter
        (· ≠ []) := by
  rw [← getD_groups, lines?, scan, Std.ExtTreeMap.getD_eq_getD_getElem?]
  cases (groups (owned none (Text.lines text)))[name]? <;> rfl

end Sections

end Stencil
