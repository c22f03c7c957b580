/-
  The catalog of fault codes.

  A code has a group and a number in the group.  `Catalog.find?` tells about a
  code, and `Diagnostic.group?` names the group of a message.
-/
import Stencil.Diagnostic

namespace Stencil

namespace Catalog

/-- What is known about a code. -/
structure Entry where
  code : String
  /-- The group of the code, in a word. -/
  group : String
  title : String
  /-- What the code means. -/
  meaning : String
  /-- The version in which the code came up. -/
  since : String
  deriving DecidableEq, Repr

/-- All codes. -/
def entries : List Entry := [
  ⟨"T-0-1", "internal", "Internal Error",
    "An internal invariant was violated. This is a bug in templie.", "0.1.0"⟩,
  ⟨"T-1-1", "io", "File Error",
    "An input or output file could not be read or written.", "0.1.0"⟩,
  ⟨"T-2-1", "config", "Missing Section",
    "A section required by the input file is not present.", "0.1.0"⟩,
  ⟨"T-2-2", "config", "Missing Parameter",
    "The CONFIG section does not declare a required parameter.", "0.1.0"⟩,
  ⟨"T-2-3", "config", "Wrong Value",
    "A CONFIG parameter holds a value outside of its allowed set.", "0.1.0"⟩,
  ⟨"T-3-1", "syntax", "Invalid Line",
    "A parameter or table line does not have the expected shape.", "0.1.0"⟩,
  ⟨"T-3-2", "syntax", "Empty Table",
    "A table section contains no header or no data.", "0.1.0"⟩,
  ⟨"T-3-3", "syntax", "Invalid Template Delimiter",
    "A '$' in the template does not start a placeholder.", "0.1.0"⟩,
  ⟨"T-4-1", "query", "Query Syntax Error",
    "The repeater query does not match the join grammar.", "0.1.0"⟩,
  ⟨"T-4-2", "query", "Missing Table",
    "A table named by the query was not supplied to the executor.", "0.1.0"⟩,
  ⟨"T-4-3", "query", "Unknown Column",
    "A join key references a column the table does not define.", "0.1.0"⟩,
  ⟨"T-5-1", "names", "Name Conflict",
    "The same name is defined more than once in one namespace.", "0.1.0"⟩,
  ⟨"T-5-2", "names", "Undefined Variable",
    "The template uses a variable that no parameter defines.", "0.1.0"⟩,
  ⟨"T-5-3", "names", "Ambiguous Variable",
    "The template uses an unqualified name defined by several tables.", "0.1.0"⟩]

/-- What is known about a code. -/
def find? (code : String) : Option Entry :=
  entries.find? (·.code = code)

end Catalog

/-- The group of a message's code. -/
def Diagnostic.group? (d : Diagnostic) : Option String := do
  let entry ← Catalog.find? (← d.code)
  return entry.group

end Stencil
