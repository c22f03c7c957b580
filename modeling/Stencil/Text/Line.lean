/-
  Lines of a text.

  * `splitLines` cuts a text behind each line feed and keeps the line feeds,
    so that the lines make up the text again (`flatten_splitLines`);
  * a last line without a line feed counts, an empty text has no line.
-/

namespace Stencil.Text

/-- Put a character in front of the first line. -/
def consLine (c : Char) : List (List Char) → List (List Char)
  | [] => [[c]]
  | l :: ls => if c = '\n' then [c] :: l :: ls else (c :: l) :: ls

/-- The lines of a text, each with the line feed that ends it. -/
def splitLines (cs : List Char) : List (List Char) :=
  cs.foldr consLine []

/-- The lines of a string, each with the line feed that ends it. -/
def lines (s : String) : List String :=
  (splitLines s.toList).map String.ofList

@[simp] theorem flatten_consLine (c : Char) (ls : List (List Char)) :
    (consLine c ls).flatten = c :: ls.flatten := by
  cases ls with
  | nil => rfl
  | cons l ls => simp only [consLine]; split <;> simp

/-- **No character is lost**: the lines of a text make up the text. -/
theorem flatten_splitLines (cs : List Char) : (splitLines cs).flatten = cs := by
  induction cs with
  | nil => rfl
  | cons c r ih => rw [splitLines, List.foldr_cons, flatten_consLine, ← splitLines, ih]

end Stencil.Text
