/-
  Why a query could not be read: the query, the span that is at fault, and the
  reason in words.
-/
import Stencil.Text.Span

namespace Stencil.Query

open Text

/-- A query that does not match the join grammar. -/
structure SyntaxError where
  query : String
  /-- The bytes of the query that are at fault. -/
  span : Span
  reason : String
  deriving DecidableEq, Repr

/-- The text at fault. -/
def SyntaxError.fragment (e : SyntaxError) : String :=
  e.span.fragment e.query

/-- The error in one line. -/
def SyntaxError.message (e : SyntaxError) : String :=
  if e.span.isEmpty then "invalid query: " ++ e.reason ++ " (at end of `" ++ e.query ++ "`)"
  else "invalid query: " ++ e.reason ++ " in `" ++ e.fragment ++ "`"

end Stencil.Query
