/-
  Names: the words that call sections' parameters, columns, tables and template
  variables.

  A name starts with an ASCII letter or an underscore and goes on with ASCII
  letters, digits and underscores (`IsName`).
-/

namespace Stencil.Text

/-- The characters that can start a name. -/
def isNameStart (c : Char) : Bool :=
  c.isAlpha || c == '_'

/-- The characters that can stand inside a name. -/
def isNameChar (c : Char) : Bool :=
  c.isAlphanum || c == '_'

/-- Whether a text is a name. -/
def isName : List Char → Bool
  | [] => false
  | c :: r => isNameStart c && r.all isNameChar

/-- The names, as a property of strings. -/
def IsName (s : String) : Prop :=
  isName s.toList = true

instance : DecidablePred IsName := fun s => inferInstanceAs (Decidable (isName s.toList = true))

/-- What can start a name can stand inside it. -/
theorem isNameChar_of_isNameStart {c : Char} (h : isNameStart c = true) : isNameChar c = true := by
  simp only [isNameStart, isNameChar, Char.isAlphanum, Bool.or_eq_true] at h ⊢
  rcases h with h | h
  · exact Or.inl (Or.inl h)
  · exact Or.inr h

end Stencil.Text
