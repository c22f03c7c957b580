/-
  Faults: everything that can be wrong with an input file, one constructor for
  each cause.

  * `Fault.code` is the stable code of a cause;
  * `Fault.message` says a fault in one line;
  * `Fault.source` is the text of the fault behind it, if there is one.
-/
import Stencil.Query.SyntaxError

namespace Stencil

/-- Where names have to be unique. -/
inductive ConflictScope where
  /-- The global parameters of a section and the columns of the tables. -/
  | globalsAndColumns (globals : String)
  /-- The header of a table. -/
  | tableHeader (table : String)
  deriving DecidableEq, Repr

/-- A bare name that several tables have a column for. -/
structure AmbiguousName where
  name : String
  /-- The qualified names it could stand for, in the order of the tables. -/
  alternatives : List String
  deriving DecidableEq, Repr

/-- What can be wrong with an input file. -/
inductive Fault where
  | missingSection (sectionName : String)
  | missingParameter (sectionName : String) (parameters : List String)
  | wrongValue (parameter expected found : String)
  | querySyntax (error : Query.SyntaxError)
  | rowSyntax (sectionName line : String)
  | emptyTable (sectionName : String)
  | delimiterMisuse (sectionName : String) (line : Nat) (fragment : String)
  | nameConflict (scope : ConflictScope) (names : List String)
  | undefinedVariable (template : String) (names : List String)
  | ambiguousVariable (template : String) (names : List AmbiguousName)
  | missingTable (table : String)
  | unknownColumn (table column : String)
  /-- A file cannot be read or written. -/
  | fileAccess (path reason : String)
  /-- Cannot happen with an input that passed its checks. -/
  | internal (reason : String)
  deriving DecidableEq, Repr

/-- The scope in words. -/
def ConflictScope.message : ConflictScope → String
  | globalsAndColumns globals => "global parameters [" ++ globals ++ "] and table columns"
  | tableHeader table => "header of table [" ++ table ++ "]"

/-- An ambiguous name with what it could stand for. -/
def AmbiguousName.message (n : AmbiguousName) : String :=
  n.name ++ " (" ++ " or ".intercalate n.alternatives ++ ")"

namespace Fault

/-- The stable code of a cause: a group and a number in it. -/
def code : Fault → String
  | internal .. => "T-0-1"
  | fileAccess .. => "T-1-1"
  | missingSection .. => "T-2-1"
  | missingParameter .. => "T-2-2"
  | wrongValue .. => "T-2-3"
  | rowSyntax .. => "T-3-1"
  | emptyTable .. => "T-3-2"
  | delimiterMisuse .. => "T-3-3"
  | querySyntax .. => "T-4-1"
  | missingTable .. => "T-4-2"
  | unknownColumn .. => "T-4-3"
  | nameConflict .. => "T-5-1"
  | undefinedVariable .. => "T-5-2"
  | ambiguousVariable .. => "T-5-3"

/-- The fault in one line. -/
def message : Fault → String
  | missingSection s => "Missing section: [" ++ s ++ "]"
  | missingParameter s names =>
    "Missing " ++ ", ".intercalate names ++ " parameter(s) in [" ++ s ++ "] section"
  | wrongValue p expected found =>
    "Wrong value for `" ++ p ++ "`: expected " ++ expected ++ ", found `" ++ found ++ "`"
  | querySyntax e => e.message
  | rowSyntax s line => "invalid line in [" ++ s ++ "]: " ++ line
  | emptyTable s => "Table section [" ++ s ++ "] is empty"
  | delimiterMisuse s line fragment =>
    "Invalid delimiter in template [" ++ s ++ "] at line " ++ toString line ++ ": `" ++ fragment ++ "`"
  | nameConflict scope names =>
    "Name conflicts in " ++ scope.message ++ ": " ++ ", ".intercalate names
  | undefinedVariable _ names => "Undefined variables in the template: " ++ ", ".intercalate names
  | ambiguousVariable _ names =>
    "Ambiguous variables in the template: " ++ ", ".intercalate (names.map AmbiguousName.message)
  | missingTable table => "Table [" ++ table ++ "] named by the query was not supplied"
  | unknownColumn table column => "Table [" ++ table ++ "] has no column `" ++ column ++ "`"
  | fileAccess path reason => "Failed to access " ++ path ++ ": " ++ reason
  | internal reason => "Internal error: " ++ reason

/-- The text of the fault behind this one. -/
def source : Fault → Option String
  | querySyntax e => some e.message
  | fileAccess _ reason => some reason
  | _ => none

end Fault

end Stencil
