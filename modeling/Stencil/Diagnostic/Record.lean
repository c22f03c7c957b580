/-
  Diagnostics as JSON values.

  * `Diagnostic.json` is the form for programs that show messages: the members
    stand in the order of their names, parts that a message does not have are left
    out, and a snippet has only its fragment;
  * `Diagnostic.record` is the form for programs that store messages, and
    `Diagnostic.ofRecord?` reads it back: all parts are there, and variants are
    tagged with their names.
-/
import Stencil.Diagnostic
import Stencil.Json

namespace Stencil

open Text

/-! ## The form for showing -/

/-- A content with its type. -/
def Content.json : Content → Json
  | plain text => .object [("content", .string text), ("type", .string "plain")]
  | markdown text => .object [("content", .string text), ("type", .string "markdown")]

/-- The word for a severity. -/
def Severity.word : Severity → String
  | error => "error"

/-- The word for a kind of detail. -/
def DetailKind.word : DetailKind → String
  | error => "error"
  | info => "info"

/-- A detail with its kind. -/
def Detail.json (d : Detail) : Json :=
  .object [("content", d.content.json), ("kind", .string d.kind.word)]

/-- A snippet without its source. -/
def Snippet.json (s : Snippet) : Json :=
  .object [
    ("end", .integer s.span.stop), ("fragment", .string s.fragment), ("name", .string s.name),
    ("start", .integer s.span.start)]

/-- A member that holds a list, left out if the list is empty. -/
def listMember {α : Type} (name : String) (json : α → Json) (xs : List α) : List (String × Json) :=
  if xs.isEmpty then [] else [(name, .array (xs.map json))]

/-- A member that may be missing. -/
def optionMember {α : Type} (name : String) (json : α → Json) (x : Option α) :
    List (String × Json) :=
  (x.map fun a => (name, json a)).toList

/-- The form of a message for showing. -/
def Diagnostic.json (d : Diagnostic) : Json :=
  .object (
    optionMember "code" .string d.code ++
    listMember "details" Detail.json d.details ++
    listMember "hints" Content.json d.hints ++
    [("kind", .string d.severity.word)] ++
    optionMember "problem" Content.json d.problem ++
    optionMember "snippet" Snippet.json d.snippet ++
    [("title", .string d.title)])

/-! ## The form for storing -/

/-- A content, tagged. -/
def Content.record : Content → Json
  | plain text => .object [("Plain", .string text)]
  | markdown text => .object [("Markdown", .string text)]

/-- The content that a value says. -/
def Content.ofRecord? (j : Json) : Option Content := do
  let (tag, content) ← j.variant?
  let text ← content.string?
  if tag = "Plain" then return .plain text
  else if tag = "Markdown" then return .markdown text
  else none

/-- A severity, tagged. -/
def Severity.record : Severity → Json
  | error => .string "Error"

/-- The severity that a value says. -/
def Severity.ofRecord? (j : Json) : Option Severity := do
  let tag ← j.tag?
  if tag = "Error" then return .error else none

/-- A kind of detail, tagged. -/
def DetailKind.record : DetailKind → Json
  | error => .string "Error"
  | info => .string "Info"

/-- The kind of detail that a value says. -/
def DetailKind.ofRecord? (j : Json) : Option DetailKind := do
  let tag ← j.tag?
  if tag = "Error" then return .error
  else if tag = "Info" then return .info
  else none

/-- A detail. -/
def Detail.record (d : Detail) : Json :=
  .object [("kind", d.kind.record), ("content", d.content.record)]

/-- The detail that a value says. -/
def Detail.ofRecord? (j : Json) : Option Detail := do
  let member ← j.members? ["kind", "content"]
  let kind ← (← member "kind") |> DetailKind.ofRecord?
  let content ← (← member "content") |> Content.ofRecord?
  return ⟨kind, content⟩

/-- A span. -/
def Text.Span.record (s : Span) : Json :=
  .object [("start", .integer s.start), ("end", .integer s.stop)]

/-- Whether a value has no other members than the given ones. -/
def Json.onlyMembers (names : List String) : Json → Bool
  | .object members => members.all fun m => names.contains m.1
  | _ => true

/-- The span that a value says.  A span has no other members. -/
def Text.Span.ofRecord? (j : Json) : Option Span := do
  let member ← j.members? ["start", "end"]
  let start ← (← member "start") |> Json.word?
  let stop ← (← member "end") |> Json.word?
  if j.onlyMembers ["start", "end"] then return ⟨start, stop⟩ else none

/-- A snippet. -/
def Snippet.record (s : Snippet) : Json :=
  .object [("name", .string s.name), ("source", .string s.source), ("span", s.span.record)]

/-- The snippet that a value says. -/
def Snippet.ofRecord? (j : Json) : Option Snippet := do
  let member ← j.members? ["name", "source", "span"]
  let name ← (← member "name") |> Json.string?
  let source ← (← member "source") |> Json.string?
  let span ← (← member "span") |> Span.ofRecord?
  return ⟨name, source, span⟩

/-- The form of a message for storing.  A missing code or snippet is left out, a
    missing problem is null. -/
def Diagnostic.record (d : Diagnostic) : Json :=
  .object (
    optionMember "code" .string d.code ++
    [("title", .string d.title),
      ("kind", d.severity.record),
      ("problem", (d.problem.map Content.record).getD .null),
      ("details", .array (d.details.map Detail.record)),
      ("hints", .array (d.hints.map Content.record))] ++
    optionMember "snippet" Snippet.record d.snippet)

/-- The message that a value says. -/
def Diagnostic.ofRecord? (j : Json) : Option Diagnostic := do
  let member ← j.members? ["code", "title", "kind", "problem", "details", "hints", "snippet"]
  let code ← Json.optional? Json.string? (member "code")
  let title ← (← member "title") |> Json.string?
  let severity ← (← member "kind") |> Severity.ofRecord?
  let problem ← Json.optional? Content.ofRecord? (member "problem")
  let details ← (← (← member "details") |> Json.array?).mapM Detail.ofRecord?
  let hints ← (← (← member "hints") |> Json.array?).mapM Content.ofRecord?
  let snippet ← Json.optional? Snippet.ofRecord? (member "snippet")
  return ⟨code, title, severity, problem, details, hints, snippet⟩

end Stencil
