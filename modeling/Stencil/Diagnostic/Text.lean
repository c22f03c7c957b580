/-
  Diagnostics as text.

      Error [T-5-2]: Undefined Variable
      Template `[tpl]` uses variables that no parameter defines
      ✖ Undefined: `weight`
      ? a hint

  A message with a snippet starts with a drawing of it instead of the first lines.
-/
import Stencil.Diagnostic.Excerpt

namespace Stencil

/-- The word for the severity in front of a title. -/
def Severity.label : Severity → String
  | error => "Error"

/-- The sign in front of a detail. -/
def DetailKind.bullet : DetailKind → String
  | error => "✖"
  | info => "ℹ"

namespace Diagnostic

/-- The first lines of a message without a snippet: the title and the problem. -/
def headLines (d : Diagnostic) : List String :=
  let title := match d.code with
    | some code => d.severity.label ++ " [" ++ code ++ "]: " ++ d.title
    | none => d.severity.label ++ ": " ++ d.title
  title :: (d.problem.map Content.text).toList

/-- The first lines of a message with a snippet: the title, and the problem in a
    drawing of the snippet. -/
def excerptLines (d : Diagnostic) (snippet : Snippet) : List String :=
  let title := match d.code with
    | some code => d.severity.label ++ ": [" ++ code ++ "] " ++ d.title
    | none => d.severity.label ++ ": " ++ d.title
  title :: snippet.excerpt ((d.problem.map Content.text).getD d.title)

/-- The lines of a message. -/
def lines (d : Diagnostic) : List String :=
  (match d.snippet with
    | some snippet => d.excerptLines snippet
    | none => d.headLines) ++
  d.details.map (fun detail => detail.kind.bullet ++ " " ++ detail.content.text) ++
  d.hints.map ("? " ++ ·.text)

/-- A message as text, without blanks at its end. -/
def text (d : Diagnostic) : String :=
  String.ofList (Text.trimEnd ("\n".intercalate d.lines).toList)

end Diagnostic

end Stencil
