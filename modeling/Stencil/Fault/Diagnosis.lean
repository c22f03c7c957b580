/-
  The diagnostic of each fault.

  `Fault.diagnostic` says a fault to the person who wrote the input: the title is
  that of its code, the problem says what must hold, details quote the input, and
  hints say how to mend it.
-/
import Stencil.Diagnostic
import Stencil.Fault
import Stencil.Text.Blank

namespace Stencil

open Text

/-- Names in backticks, with commas between them. -/
def backticked (names : List String) : String :=
  ", ".intercalate (names.map fun name => "`" ++ name ++ "`")

/-- The snippet of a query that could not be read; a query without words has
    none. -/
def Query.SyntaxError.snippet? (e : Query.SyntaxError) : Option Snippet :=
  if trim e.query.toList = [] then none else some ⟨"repeater_parameters", e.query, e.span⟩

namespace Fault

/-- The title of a fault. -/
def title : Fault → String
  | internal .. => "Internal Error"
  | fileAccess .. => "File Error"
  | missingSection .. => "Missing Section"
  | missingParameter .. => "Missing Parameter"
  | wrongValue .. => "Wrong Value"
  | rowSyntax .. => "Invalid Line"
  | emptyTable .. => "Empty Table"
  | delimiterMisuse .. => "Invalid Template Delimiter"
  | querySyntax .. => "Query Syntax Error"
  | missingTable .. => "Missing Table"
  | unknownColumn .. => "Unknown Column"
  | nameConflict .. => "Name Conflict"
  | undefinedVariable .. => "Undefined Variable"
  | ambiguousVariable .. => "Ambiguous Variable"

/-- What is wrong, in one sentence. -/
def problem : Fault → String
  | internal reason => reason
  | fileAccess path _ => "Can't access `" ++ path ++ "`"
  | missingSection s => "Section `[" ++ s ++ "]` is missing or has no lines"
  | missingParameter s names => "Section `[" ++ s ++ "]` must declare " ++ backticked names
  | wrongValue p expected _ => "`" ++ p ++ "` must be " ++ expected
  | rowSyntax s _ => "Line in `[" ++ s ++ "]` does not have the expected shape"
  | emptyTable s => "Table section `[" ++ s ++ "]` must contain a header and at least one row"
  | delimiterMisuse s _ _ => "Template `[" ++ s ++ "]` contains a `$` that does not start a placeholder"
  | querySyntax e => e.reason
  | missingTable table => "No table was supplied for `" ++ table ++ "`"
  | unknownColumn table column => "Table `[" ++ table ++ "]` has no column `" ++ column ++ "`"
  | nameConflict scope _ => "Names must be unique in the " ++ scope.message
  | undefinedVariable template _ =>
    "Template `[" ++ template ++ "]` uses variables that no parameter defines"
  | ambiguousVariable template _ =>
    "Template `[" ++ template ++ "]` uses unqualified names that several tables define"

/-- What the input says that is wrong. -/
def errorDetails : Fault → List String
  | fileAccess _ reason => [reason]
  | wrongValue _ _ found => ["Found `" ++ found ++ "`"]
  | rowSyntax _ line => ["`" ++ line ++ "`"]
  | delimiterMisuse _ line fragment => ["Line " ++ toString line ++ ": `" ++ fragment ++ "`"]
  | nameConflict _ names => ["Defined more than once: " ++ backticked names]
  | undefinedVariable _ names => ["Undefined: " ++ backticked names]
  | ambiguousVariable _ names =>
    names.map fun n => "`" ++ n.name ++ "` could be " ++ backticked n.alternatives
  | _ => []

/-- What is worth knowing about a fault. -/
def infoDetails : Fault → List String
  | internal _ => ["This is a bug in templie, not a problem with the input file"]
  | rowSyntax .. => ["Values containing spaces or separators must be quoted"]
  | querySyntax _ => ["Queries look like `base join other on base.key = other.key join ...`"]
  | unknownColumn .. => ["Join keys must name columns from the table headers"]
  | _ => []

/-- How to mend a fault. -/
def fixes : Fault → List String
  | missingSection s => ["Add a `[" ++ s ++ "]` section to the input file?"]
  | delimiterMisuse .. => ["Use `$$` if you want a dollar sign in your template?"]
  | nameConflict (.globalsAndColumns _) _ => ["Rename the global parameter, or the column?"]
  | ambiguousVariable .. => ["Prefix the name with its table, as in `table.column`?"]
  | _ => []

/-- The part of the input that a fault is about. -/
def snippet? : Fault → Option Snippet
  | querySyntax e => e.snippet?
  | _ => none

/-- The diagnostic of a fault. -/
def diagnostic (f : Fault) : Diagnostic where
  code := some f.code
  title := f.title
  severity := .error
  problem := some (.markdown f.problem)
  details :=
    f.errorDetails.map (fun text => ⟨.error, .markdown text⟩) ++
      f.infoDetails.map (fun text => ⟨.info, .markdown text⟩)
  hints := f.fixes.map .markdown
  snippet := f.snippet?

end Fault

end Stencil
