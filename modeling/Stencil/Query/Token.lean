/-
  Tokens of a query.

  A query consists of words, dots, commas and equals signs, with blanks anywhere
  between them.  A word starts like a name and is as long as possible; `join` and
  `on` are words with a meaning of their own.

  * `scan` cuts a query into tokens, each with its text and the bytes it covers;
  * `tokens` is `scan` for a string.
-/
import Stencil.Query.SyntaxError
import Stencil.Text.Blank
import Stencil.Text.Name

namespace Stencil.Query

open Text

/-- The kinds of tokens. -/
inductive Kind where
  | identifier
  | join
  | on
  | dot
  | comma
  | equals
  | eof
  deriving DecidableEq, Repr

/-- How error messages name a kind. -/
def Kind.describe : Kind → String
  | identifier => "a name"
  | join => "`join`"
  | on => "`on`"
  | dot => "`.`"
  | comma => "`,`"
  | equals => "`=`"
  | eof => "end of query"

/-- A token: its kind, its text and the bytes of the query that it covers. -/
structure Token where
  kind : Kind
  text : String
  span : Span
  deriving DecidableEq, Repr

/-- The kind of a token that is a single character. -/
def Kind.ofChar? (c : Char) : Option Kind :=
  if c = '.' then some .dot
  else if c = ',' then some .comma
  else if c = '=' then some .equals
  else none

/-- The kind of a word. -/
def Kind.ofWord (word : List Char) : Kind :=
  if word = ['j', 'o', 'i', 'n'] then .join
  else if word = ['o', 'n'] then .on
  else .identifier

/-- The token that covers a text from an offset on. -/
def Token.ofText (kind : Kind) (text : List Char) (offset : Nat) : Token :=
  ⟨kind, String.ofList text, ⟨offset, offset + byteSize text⟩⟩

/-- A character that starts no token, and its offset. -/
structure BadChar where
  char : Char
  offset : Nat
  deriving DecidableEq, Repr

/-- The tokens of a text that starts at an offset of the query. -/
def scan (offset : Nat) (s : List Char) : Except BadChar (List Token) :=
  match s with
  | [] => .ok []
  | c :: r =>
    if isBlank c then scan (offset + c.utf8Size) r
    else
      match Kind.ofChar? c with
      | some kind => (Token.ofText kind [c] offset :: ·) <$> scan (offset + c.utf8Size) r
      | none =>
        if isNameStart c then
          let word := c :: r.takeWhile isNameChar
          (Token.ofText (.ofWord word) word offset :: ·) <$>
            scan (offset + byteSize word) (r.dropWhile isNameChar)
        else .error ⟨c, offset⟩
termination_by s.length
decreasing_by
  all_goals simp only [List.length_cons]
  · omega
  · omega
  · have := (List.dropWhile_suffix isNameChar (l := r)).length_le; omega

/-- The error for a character that starts no token. -/
def BadChar.error (bad : BadChar) (query : String) : SyntaxError where
  query := query
  span := ⟨bad.offset, bad.offset + bad.char.utf8Size⟩
  reason := "unexpected character `" ++ String.singleton bad.char ++ "`"

/-- The tokens of a query. -/
def tokens (query : String) : Except SyntaxError (List Token) :=
  (scan 0 query.toList).mapError (·.error query)

/-- The token behind the last one of a query. -/
def eof (query : String) : Token :=
  .ofText .eof [] (byteSize query.toList)

end Stencil.Query
