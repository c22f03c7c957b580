/-
  What escaped texts say.

  * `Says source text`: what is written between double quotes says this text;
  * `says_iff`: reading the escapes gives what a text says, and nothing else;
  * `unescape_eq_nil_iff`, `count_unescape`: reading escapes leaves something of every text, and
    keeps every character but backslashes.
-/
import Stencil.Text.Escape

namespace Stencil.Text

/-- What a text with escapes says.  A backslash gives its place to the character behind it, whatever
    that is, and says itself only where nothing stands behind it. -/
inductive Says : List Char → List Char → Prop
  | nil : Says [] []
  | plain {c source text} : c ≠ '\\' → Says source text → Says (c :: source) (c :: text)
  | escaped {c source text} : Says source text → Says ('\\' :: c :: source) (c :: text)
  | lone : Says ['\\'] ['\\']

theorem says_unescape (source : List Char) : Says source (unescape source) := by
  fun_induction unescape source with
  | case1 => exact .nil
  | case2 c =>
    by_cases hc : c = '\\'
    · subst hc
      exact .lone
    · exact .plain hc .nil
  | case3 d r ih => exact .escaped ih
  | case4 c d r hc ih => exact .plain hc ih

/-- **Reading the escapes of a text gives what it says.** -/
theorem says_iff {source text : List Char} : Says source text ↔ unescape source = text := by
  constructor
  · intro h
    induction h with
    | nil => rfl
    | plain hc _ ih => rw [unescape_cons_of_ne hc, ih]
    | escaped _ ih => rw [unescape, if_pos rfl, ih]
    | lone => rfl
  · rintro rfl
    exact says_unescape source

/-- Reading escapes leaves something of every text. -/
theorem unescape_eq_nil_iff {s : List Char} : unescape s = [] ↔ s = [] := by
  constructor
  · intro h
    fun_cases unescape s with
    | case1 => rfl
    | case2 c => simp [unescape] at h
    | case3 d r => simp [unescape] at h
    | case4 c d r hc => simp [unescape, hc] at h
  · rintro rfl
    rfl

/-- Reading escapes keeps every character but backslashes. -/
theorem count_unescape {c : Char} (hc : c ≠ '\\') (s : List Char) :
    (unescape s).count c = s.count c := by
  fun_induction unescape s with
  | case1 => rfl
  | case2 => rfl
  | case3 d r ih => simp [List.count_cons, ih, hc.symm]
  | case4 b d r hb ih => simp [List.count_cons, ih]

end Stencil.Text
