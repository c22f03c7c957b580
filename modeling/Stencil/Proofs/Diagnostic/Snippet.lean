/-
  The part of a source that a snippet shows.

  * `Span.Fits`: a span that is not reversed, between two places of a string;
  * `Snippet.extract_charSpan`: counted in characters, such a span covers what it covers counted
    in bytes.
-/
import Stencil.Diagnostic
import Stencil.Proofs.Text.Span

namespace Stencil

open Text

/-- A span from one place between characters of a string to the same or a later one. -/
structure Text.Span.Fits (p : Span) (s : String) : Prop where
  start_le_stop : p.start ≤ p.stop
  isValid_start : String.Pos.Raw.IsValid s ⟨p.start⟩
  isValid_stop : String.Pos.Raw.IsValid s ⟨p.stop⟩

instance (p : Span) (s : String) : Decidable (p.Fits s) :=
  decidable_of_iff
    (p.start ≤ p.stop ∧ String.Pos.Raw.IsValid s ⟨p.start⟩ ∧ String.Pos.Raw.IsValid s ⟨p.stop⟩)
    ⟨fun h => ⟨h.1, h.2.1, h.2.2⟩, fun h => ⟨h.1, h.2, h.3⟩⟩

/-- A place between characters cuts a string in two. -/
theorem exists_append_of_isValid {s : String} {n : Nat} (h : String.Pos.Raw.IsValid s ⟨n⟩) :
    ∃ before after, s.toList = before ++ after ∧ byteSize before = n := by
  obtain ⟨before, after, rfl, hn⟩ := String.Pos.Raw.isValid_iff_exists_append.1 h
  refine ⟨before.toList, after.toList, String.toList_append, ?_⟩
  rw [← utf8ByteSize_ofList, String.ofList_toList]
  exact (congrArg String.Pos.Raw.byteIdx hn).symm

theorem Text.Span.Fits.exists_covers {p : Span} {s : String} (h : p.Fits s) :
    ∃ text, p.Covers s.toList text := by
  obtain ⟨before, after, hs, hstart⟩ := exists_append_of_isValid h.isValid_start
  obtain ⟨front, behind, hs', hstop⟩ := exists_append_of_isValid h.isValid_stop
  obtain ⟨text, rfl⟩ := Span.exists_append_of_byteSize_le (hs.symm.trans hs')
    (by rw [hstart, hstop]; exact h.start_le_stop)
  refine ⟨text, before, behind, hs', ?_⟩
  rw [← byteSize_append, hstart, hstop]

/-- The bytes of the text that a span covers. -/
theorem Text.Span.Covers.toByteArray_eq {p : Span} {s : String} {text : List Char}
    (h : p.Covers s.toList text) :
    (String.ofList text).toByteArray = s.toByteArray.extract p.start p.stop := by
  obtain ⟨before, after, hs, rfl⟩ := h
  have hbytes : s.toByteArray = (String.ofList before).toByteArray ++
      ((String.ofList text).toByteArray ++ (String.ofList after).toByteArray) := by
    rw [← String.toByteArray_append, ← String.toByteArray_append, ← String.ofList_append,
      ← String.ofList_append, ← List.append_assoc, ← hs, String.ofList_toList]
  have hsize : ∀ cs, byteSize cs = (String.ofList cs).toByteArray.size := fun cs =>
    (utf8ByteSize_ofList cs).symm.trans String.size_toByteArray.symm
  rw [hbytes, hsize before, hsize text]
  have hshift := ByteArray.extract_append_size_add (a := (String.ofList before).toByteArray)
    (b := (String.ofList text).toByteArray ++ (String.ofList after).toByteArray) (i := 0)
    (j := (String.ofList text).toByteArray.size)
  rw [Nat.add_zero] at hshift
  rw [hshift, ByteArray.extract_append_eq_left rfl]

/-- **The characters that a snippet underlines are its fragment**, whatever stands in front of them
    and however many bytes they have: these are the bytes that the span covers.  The characters in
    front of both ends have as many bytes as the span says. -/
theorem Snippet.extract_charSpan (s : Snippet) (h : s.span.Fits s.source) :
    String.ofList (s.source.toList.extract s.charSpan.start s.charSpan.stop) = s.fragment ∧
    s.fragment.toByteArray = s.source.toByteArray.extract s.span.start s.span.stop ∧
    byteSize (s.source.toList.take s.charSpan.start) = s.span.start ∧
    byteSize (s.source.toList.take s.charSpan.stop) = s.span.stop ∧
    s.charSpan.start ≤ s.charSpan.stop ∧ s.charSpan.stop ≤ s.source.length := by
  obtain ⟨text, hcovers⟩ := h.exists_covers
  have hfragment : s.fragment = String.ofList text := hcovers.fragment_eq
  have hbytes := hcovers.toByteArray_eq
  obtain ⟨before, after, hs, hspan⟩ := hcovers
  have hstart : s.charSpan.start = before.length := by
    rw [charSpan, hspan, hs, List.append_assoc, charsBefore_append]
  have hstop : s.charSpan.stop = (before ++ text).length := by
    rw [charSpan, hspan, hs, ← byteSize_append, charsBefore_append]
  refine ⟨?_, hfragment ▸ hbytes, ?_, ?_, ?_, ?_⟩
  · rw [hfragment, hstart, hstop, hs, List.extract_eq_take_drop, List.append_assoc, List.drop_left,
      List.length_append, Nat.add_sub_cancel_left, List.take_left]
  · rw [hstart, hs, List.append_assoc, List.take_left, hspan]
  · rw [hstop, hs, List.take_left, byteSize_append, hspan]
  · rw [hstart, hstop, List.length_append]
    exact Nat.le_add_right _ _
  · rw [hstop, ← String.length_toList, hs]
    exact (List.prefix_append _ _).length_le

/-- Characters of two and of four bytes, in front of a character of one byte. -/
theorem Snippet.extract_charSpan_wide :
    Span.Fits ⟨1, 7⟩ "aé😀 b" ∧
    (Snippet.mk "query" "aé😀 b" ⟨1, 7⟩).charSpan = ⟨1, 3⟩ ∧
    (Snippet.mk "query" "aé😀 b" ⟨1, 7⟩).fragment = "é😀" ∧
    String.ofList ("aé😀 b".toList.extract 1 3) = "é😀" := by
  have hfits : Span.Fits ⟨1, 7⟩ "aé😀 b" := by decide +kernel
  have hchars : (Snippet.mk "query" "aé😀 b" ⟨1, 7⟩).charSpan = ⟨1, 3⟩ := by decide +kernel
  have hfragment : (Snippet.mk "query" "aé😀 b" ⟨1, 7⟩).fragment = "é😀" := by decide +kernel
  have heq := (Snippet.extract_charSpan ⟨"query", "aé😀 b", ⟨1, 7⟩⟩ hfits).1
  rw [hchars, hfragment] at heq
  exact ⟨hfits, hchars, hfragment, heq⟩

end Stencil
