/-
  Lines of a text, described from outside.

  * `IsLines`: the lines of a text, each with the line feed that ends it;
  * `splitLines_eq_iff`: these are the lines into which a text is cut;
  * `exists_line_at`: the line with a place in it, and its number;
  * `lines_append`: texts behind each other have their lines behind each other, if the
    first ends in a line feed.
-/
import Mathlib.Data.List.Basic
import Mathlib.Data.List.TakeWhile
import Stencil.Text.Line

namespace Stencil.Text

/-- The lines of a text: no line is empty, all but the last end in a line feed, and there is
    none inside of a line. -/
inductive IsLines : List Char → List (List Char) → Prop
  | none : IsLines [] []
  | last {line} : line ≠ [] → '\n' ∉ line → IsLines line [line]
  | cons {line text lines} : '\n' ∉ line → IsLines text lines →
      IsLines (line ++ '\n' :: text) ((line ++ ['\n']) :: lines)

theorem splitLines_cons (c : Char) (text : List Char) :
    splitLines (c :: text) = consLine c (splitLines text) := rfl

theorem consLine_lineFeed (lines : List (List Char)) : consLine '\n' lines = ['\n'] :: lines := by
  cases lines with
  | nil => rfl
  | cons line lines => rw [consLine, if_pos rfl]

theorem consLine_of_ne {c : Char} (h : c ≠ '\n') (line : List Char) (lines : List (List Char)) :
    consLine c (line :: lines) = (c :: line) :: lines := by
  rw [consLine, if_neg h]

theorem IsLines.consLine {text : List Char} {lines : List (List Char)} (h : IsLines text lines)
    (c : Char) : IsLines (c :: text) (consLine c lines) := by
  by_cases hc : c = '\n'
  · subst hc
    rw [consLine_lineFeed]
    exact .cons (List.not_mem_nil : '\n' ∉ []) h
  · cases h with
    | none => exact .last (by simp) (by simpa using Ne.symm hc)
    | last hne hline =>
      rw [consLine_of_ne hc]
      exact .last (by simp) (by simp [Ne.symm hc, hline])
    | cons hline htext =>
      rw [consLine_of_ne hc]
      exact .cons (List.not_mem_cons_of_ne_of_not_mem (Ne.symm hc) hline) htext

theorem splitLines_of_notMem {line : List Char} (hne : line ≠ []) (h : '\n' ∉ line) :
    splitLines line = [line] := by
  induction line with
  | nil => exact absurd rfl hne
  | cons c line ih =>
    simp only [List.mem_cons, not_or] at h
    cases line with
    | nil => rfl
    | cons d line => rw [splitLines_cons, ih (by simp) h.2, consLine_of_ne (Ne.symm h.1)]

theorem splitLines_line {line : List Char} (h : '\n' ∉ line) (text : List Char) :
    splitLines (line ++ '\n' :: text) = (line ++ ['\n']) :: splitLines text := by
  induction line with
  | nil => rw [List.nil_append, splitLines_cons, consLine_lineFeed, List.nil_append]
  | cons c line ih =>
    simp only [List.mem_cons, not_or] at h
    rw [List.cons_append, splitLines_cons, ih h.2, consLine_of_ne (Ne.symm h.1), List.cons_append]

/-- **A text is cut into its lines.** -/
theorem splitLines_eq_iff {text : List Char} {lines : List (List Char)} :
    splitLines text = lines ↔ IsLines text lines := by
  constructor
  · rintro rfl
    induction text with
    | nil => exact .none
    | cons c text ih => exact ih.consLine c
  · intro h
    induction h with
    | none => rfl
    | last hne h => exact splitLines_of_notMem hne h
    | cons h _ ih => rw [splitLines_line h, ih]

theorem splitLines_ne_nil {text : List Char} (h : text ≠ []) : splitLines text ≠ [] := by
  intro hnil
  apply h
  rw [← flatten_splitLines text, hnil]
  rfl

/-- Only the first of the lines is longer by a character in front. -/
theorem consLine_append (c : Char) {lines : List (List Char)} (h : lines ≠ [])
    (more : List (List Char)) : consLine c (lines ++ more) = consLine c lines ++ more := by
  obtain ⟨line, lines, rfl⟩ := List.exists_cons_of_ne_nil h
  by_cases hc : c = '\n'
  · subst hc
    rw [consLine_lineFeed, consLine_lineFeed]
    rfl
  · rw [List.cons_append, consLine_of_ne hc, consLine_of_ne hc, List.cons_append]

theorem splitLines_append {front : List Char} (h : front.getLast? = some '\n') (back : List Char) :
    splitLines (front ++ back) = splitLines front ++ splitLines back := by
  induction front with
  | nil => cases h
  | cons c front ih =>
    rw [List.cons_append, splitLines_cons, splitLines_cons]
    cases front with
    | nil =>
      obtain rfl : c = '\n' := by simpa using h
      rw [List.nil_append, consLine_lineFeed, consLine_lineFeed]
      rfl
    | cons d front => rw [ih (by simpa using h), consLine_append c (splitLines_ne_nil (by simp))]

/-! ## The line at a place -/

theorem length_consLine (c : Char) {lines : List (List Char)} (h : lines ≠ []) :
    (consLine c lines).length = [c].count '\n' + lines.length := by
  obtain ⟨line, lines, rfl⟩ := List.exists_cons_of_ne_nil h
  by_cases hc : c = '\n'
  · subst hc
    rw [consLine_lineFeed, List.length_cons, Nat.add_comm]
    rfl
  · rw [consLine_of_ne hc, List.count_singleton, if_neg (by simpa using hc), Nat.zero_add]
    rfl

/-- A text that ends in a line feed has as many lines as line feeds. -/
theorem length_splitLines {front : List Char} (h : front.getLast? = some '\n') :
    (splitLines front).length = front.count '\n' := by
  induction front with
  | nil => cases h
  | cons c front ih =>
    rw [splitLines_cons]
    cases front with
    | nil =>
      obtain rfl : c = '\n' := by simpa using h
      rfl
    | cons d front =>
      rw [length_consLine c (splitLines_ne_nil (by simp)), ih (by simpa using h),
        ← List.count_append, List.singleton_append]

theorem lineFeed_notMem_takeWhile (s : List Char) : '\n' ∉ s.takeWhile (· ≠ '\n') :=
  fun h => by simpa using List.mem_takeWhile_imp h

theorem eq_lineFeed_of_dropWhile {s : List Char} {c : Char}
    (h : (s.dropWhile (· ≠ '\n')).head? = some c) : c = '\n' := by
  have hc := List.head?_dropWhile_not (· ≠ '\n') s
  rw [h] at hc
  simpa using hc

/-- The text in front of a place, up to the last line feed, has its lines to itself. -/
theorem splitLines_upToLineFeed (before back : List Char) :
    let front := (before.reverse.dropWhile (· ≠ '\n')).reverse
    (splitLines front).length = front.count '\n' ∧
      splitLines (front ++ back) = splitLines front ++ splitLines back := by
  intro front
  cases hfront : front.getLast? with
  | none =>
    rw [List.getLast?_eq_none_iff.1 hfront]
    exact ⟨rfl, rfl⟩
  | some c =>
    obtain rfl : c = '\n' := eq_lineFeed_of_dropWhile (List.getLast?_reverse ▸ hfront)
    exact ⟨length_splitLines hfront, splitLines_append hfront back⟩

/-- The first line of a text that starts with a part of a line. -/
theorem exists_splitLines_cons {start ahead : List Char} (hstart : '\n' ∉ start)
    (hne : ahead ≠ []) :
    ∃ line rest, splitLines (start ++ ahead) = line :: rest ∧
      (line = start ++ ahead.takeWhile (· ≠ '\n') ∨
        line = start ++ ahead.takeWhile (· ≠ '\n') ++ ['\n']) := by
  have hline : '\n' ∉ start ++ ahead.takeWhile (· ≠ '\n') := fun h =>
    (List.mem_append.1 h).elim hstart (lineFeed_notMem_takeWhile ahead)
  have hcut : start ++ ahead =
      start ++ ahead.takeWhile (· ≠ '\n') ++ ahead.dropWhile (· ≠ '\n') := by
    rw [List.append_assoc, List.takeWhile_append_dropWhile]
  cases hdrop : ahead.dropWhile (· ≠ '\n') with
  | nil =>
    rw [hdrop, List.append_nil] at hcut
    have hne : start ++ ahead ≠ [] := fun h => hne (List.append_eq_nil_iff.1 h).2
    exact ⟨_, [], by rw [hcut, splitLines_of_notMem (hcut ▸ hne) hline], Or.inl rfl⟩
  | cons c rest =>
    obtain rfl : c = '\n' := eq_lineFeed_of_dropWhile (s := ahead) (by rw [hdrop]; rfl)
    rw [hdrop] at hcut
    exact ⟨_, splitLines rest, by rw [hcut, splitLines_line hline], Or.inr rfl⟩

/-- **The line with a place in it**: what stands in front of the place, back to the line feed
    before it, and what stands behind the place, up to the next line feed.  It has as many lines
    in front of it as there are line feeds in front of the place. -/
theorem exists_line_at (before : List Char) {ahead : List Char} (hne : ahead ≠ []) :
    ∃ line, (splitLines (before ++ ahead))[before.count '\n']? = some line ∧
      (line = (before.reverse.takeWhile (· ≠ '\n')).reverse ++ ahead.takeWhile (· ≠ '\n') ∨
        line = (before.reverse.takeWhile (· ≠ '\n')).reverse ++ ahead.takeWhile (· ≠ '\n') ++
          ['\n']) := by
  have hstart : '\n' ∉ (before.reverse.takeWhile (· ≠ '\n')).reverse := fun h =>
    lineFeed_notMem_takeWhile before.reverse (List.mem_reverse.1 h)
  obtain ⟨line, rest, hlines, hline⟩ := exists_splitLines_cons hstart hne
  obtain ⟨hlength, hsplit⟩ := splitLines_upToLineFeed before
    ((before.reverse.takeWhile (· ≠ '\n')).reverse ++ ahead)
  have hbefore : (before.reverse.dropWhile (· ≠ '\n')).reverse ++
      (before.reverse.takeWhile (· ≠ '\n')).reverse = before := by
    rw [← List.reverse_append, List.takeWhile_append_dropWhile, List.reverse_reverse]
  have hcount : before.count '\n' = ((before.reverse.dropWhile (· ≠ '\n')).reverse).count '\n' := by
    conv_lhs => rw [← hbefore]
    rw [List.count_append, List.count_eq_zero_of_not_mem hstart, Nat.add_zero]
  rw [← List.append_assoc, hbefore, hlines] at hsplit
  refine ⟨line, ?_, hline⟩
  rw [hsplit, hcount, ← hlength, List.getElem?_append_right (Nat.le_refl _), Nat.sub_self]
  rfl

theorem lines_append {front : String} (h : front.toList.getLast? = some '\n') (back : String) :
    lines (front ++ back) = lines front ++ lines back := by
  rw [lines, String.toList_append, splitLines_append h, List.map_append]
  rfl

theorem lines_eq_iff {text : String} {ls : List String} :
    lines text = ls ↔ IsLines text.toList (ls.map String.toList) := by
  rw [← splitLines_eq_iff, lines]
  constructor
  · rintro rfl
    simp
  · intro h
    rw [h]
    simp

end Stencil.Text
