/-
  Diagnostics: messages about a fault for the person who wrote the input.

  A diagnostic has a title and may have a code, a statement of the problem,
  details, hints, and a snippet of the source with the span at fault.  It is built
  from `Diagnostic.error` by adding parts.
-/
import Stencil.Text.Span

namespace Stencil

open Text

/-- A text of a message. -/
inductive Content where
  | plain (text : String)
  /-- Backticks stand around names and parts of the input. -/
  | markdown (text : String)
  deriving DecidableEq, Repr

/-- The text as it is shown. -/
def Content.text : Content → String
  | plain text | markdown text => text

/-- How bad the matter is.  Every diagnostic stops the run. -/
inductive Severity where
  | error
  deriving DecidableEq, Repr

/-- The kinds of details. -/
inductive DetailKind where
  /-- Says what is wrong. -/
  | error
  /-- Says what is worth knowing. -/
  | info
  deriving DecidableEq, Repr

/-- A detail of a message. -/
structure Detail where
  kind : DetailKind
  content : Content
  deriving DecidableEq, Repr

/-- A source with the span that a message is about. -/
structure Snippet where
  /-- What the source is called. -/
  name : String
  source : String
  /-- The span in bytes. -/
  span : Span
  deriving DecidableEq, Repr

/-- The text that a snippet is about. -/
def Snippet.fragment (s : Snippet) : String :=
  s.span.fragment s.source

/-- The span of a snippet in characters. -/
def Snippet.charSpan (s : Snippet) : Span :=
  ⟨charsBefore s.span.start s.source.toList, charsBefore s.span.stop s.source.toList⟩

/-- A message about a fault. -/
structure Diagnostic where
  code : Option String
  title : String
  severity : Severity
  /-- What is wrong, in one sentence. -/
  problem : Option Content
  details : List Detail
  hints : List Content
  snippet : Option Snippet
  deriving DecidableEq, Repr

namespace Diagnostic

/-- A message with a title. -/
def error (title : String) : Diagnostic where
  code := none
  title := title
  severity := .error
  problem := none
  details := []
  hints := []
  snippet := none

/-- The message with a code. -/
def withCode (d : Diagnostic) (code : String) : Diagnostic :=
  { d with code := some code }

/-- The message with a statement of the problem. -/
def withProblem (d : Diagnostic) (problem : Content) : Diagnostic :=
  { d with problem := some problem }

/-- The message with a snippet. -/
def withSnippet (d : Diagnostic) (snippet : Snippet) : Diagnostic :=
  { d with snippet := some snippet }

/-- The message with one more detail. -/
def addDetail (d : Diagnostic) (content : Content) : Diagnostic :=
  { d with details := d.details ++ [⟨.error, content⟩] }

/-- The message with one more thing worth knowing. -/
def addInfo (d : Diagnostic) (content : Content) : Diagnostic :=
  { d with details := d.details ++ [⟨.info, content⟩] }

/-- The message with one more hint. -/
def addHint (d : Diagnostic) (content : Content) : Diagnostic :=
  { d with hints := d.hints ++ [content] }

end Diagnostic

end Stencil
