/-
  Backslash escapes inside double quotes.

  * `unescape` reads: a backslash stands for the character behind it;
  * `escape` writes: a backslash goes in front of each backslash and each
    double quote, and `quote` adds the double quotes;
  * `unescape_escape`: reading takes back what writing did.
-/

namespace Stencil.Text

/-- The text that an escaped text stands for.  A backslash with nothing behind
    it stands for itself. -/
def unescape : List Char → List Char
  | [] => []
  | [c] => [c]
  | c :: d :: r => if c = '\\' then d :: unescape r else c :: unescape (d :: r)

/-- An escaped text that stands for the given one. -/
def escape (cs : List Char) : List Char :=
  cs.flatMap fun c => if c = '\\' ∨ c = '"' then ['\\', c] else [c]

/-- A text as a quoted value. -/
def quote (cs : List Char) : List Char :=
  '"' :: escape cs ++ ['"']

theorem unescape_cons_of_ne {c : Char} (h : c ≠ '\\') (r : List Char) :
    unescape (c :: r) = c :: unescape r := by
  cases r <;> simp [unescape, h]

/-- **Reading an escaped text gives back the text.** -/
theorem unescape_escape (cs : List Char) : unescape (escape cs) = cs := by
  induction cs with
  | nil => rfl
  | cons c r ih =>
    by_cases h : c = '\\' ∨ c = '"'
    · simp only [escape, List.flatMap_cons, if_pos h] at ih ⊢
      simp [unescape, ih]
    · have hc : c ≠ '\\' := fun e => h (Or.inl e)
      simp only [escape, List.flatMap_cons, if_neg h, List.cons_append, List.nil_append] at ih ⊢
      rw [unescape_cons_of_ne hc, ih]

end Stencil.Text
