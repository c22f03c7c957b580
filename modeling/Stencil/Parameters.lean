/-
  Parameters: values given in a section, a name and a value to a line.

  `Parameters.ofLines` reads the lines of a section.  Comments and empty lines do
  not count, and of several lines with one name the last holds.
-/
import Stencil.Fault
import Stencil.LineForm
import Stencil.Text.Comment
import Stencil.Values

namespace Stencil.Parameters

/-- The name and the value on a clean line of a section. -/
def pair (sectionName line : String) : Except Fault (String × String) :=
  match LineForm.parameter? line with
  | some p => .ok p
  | none => .error (.rowSyntax sectionName line)

/-- The parameters on the lines of a section. -/
def ofLines (sectionName : String) (lines : List String) : Except Fault Values :=
  Values.ofPairs <$> (Text.cleanLines lines).mapM (pair sectionName)

end Stencil.Parameters
