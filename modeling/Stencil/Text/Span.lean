/-
  Spans of a text, measured in bytes of its UTF-8 form.

  * `Span` is a byte range, `fragment?` the text it covers, if it lies within
    the text and on character boundaries;
  * `charsBefore` turns a byte offset into a number of characters.
-/

namespace Stencil.Text

/-- A range of bytes: from `start` up to and without `stop`. -/
structure Span where
  start : Nat
  stop : Nat
  deriving DecidableEq, Repr, Inhabited

/-- The number of bytes of a text. -/
def byteSize : List Char → Nat
  | [] => 0
  | c :: r => c.utf8Size + byteSize r

/-- The text behind its first `n` bytes, if a character ends there. -/
def dropBytes? : Nat → List Char → Option (List Char)
  | 0, cs => some cs
  | _ + 1, [] => none
  | n + 1, c :: r => if c.utf8Size ≤ n + 1 then dropBytes? (n + 1 - c.utf8Size) r else none

/-- The first `n` bytes of a text, if a character ends there. -/
def takeBytes? : Nat → List Char → Option (List Char)
  | 0, _ => some []
  | _ + 1, [] => none
  | n + 1, c :: r =>
    if c.utf8Size ≤ n + 1 then (takeBytes? (n + 1 - c.utf8Size) r).map (c :: ·) else none

/-- Whether a span covers no byte; a reversed span covers none. -/
def Span.isEmpty (p : Span) : Bool :=
  p.stop ≤ p.start

/-- The text that a span covers, if it is not reversed, lies within the text
    and begins and ends between two characters. -/
def Span.slice? (p : Span) (cs : List Char) : Option (List Char) :=
  if p.start ≤ p.stop then (dropBytes? p.start cs).bind (takeBytes? (p.stop - p.start)) else none

/-- The text that a span covers in a string, empty if it covers none. -/
def Span.fragment (p : Span) (s : String) : String :=
  String.ofList ((p.slice? s.toList).getD [])

/-- The number of characters that start in front of a byte offset. -/
def charsBefore : Nat → List Char → Nat
  | 0, _ => 0
  | _ + 1, [] => 0
  | n + 1, c :: r => charsBefore (n + 1 - c.utf8Size) r + 1

@[simp] theorem byteSize_nil : byteSize [] = 0 := rfl

@[simp] theorem byteSize_cons (c : Char) (r : List Char) :
    byteSize (c :: r) = c.utf8Size + byteSize r := rfl

@[simp] theorem byteSize_append (a b : List Char) :
    byteSize (a ++ b) = byteSize a + byteSize b := by
  induction a with
  | nil => simp
  | cons c r ih => simp [ih, Nat.add_assoc]

end Stencil.Text
