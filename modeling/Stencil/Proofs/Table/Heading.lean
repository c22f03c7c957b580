/-
  Tables whose header is a heading.

  `ofLines_of_isHeading`: the names of a heading are the columns of a table if there is a comma, a
  semicolon or a space in each of its gaps.  Other blanks divide names as well when they are
  counted, but a gap with no other characters is refused.
-/
import Stencil.Proofs.Table.Written

namespace Stencil.Table

open LineForm Text

section
variable {columns : List String} {gaps : List (List Char)} {text : List Char}
  (h : IsHeading columns gaps text) {lines : List String} (hlines : LinesOf [text] lines)
include h hlines

theorem split_of_isHeading (rest : List String) :
    split Settings.standard.flatMarker (cleanLines (lines ++ rest)) =
      some ⟨false, String.ofList text, cleanLines rest⟩ := by
  obtain ⟨c, r, hcons, hc⟩ := h.exists_cons
  have hmarker : isFlatMarker "*flat*" (String.ofList text) = false :=
    not_isFlatMarker_of_isNameChar ((String.toList_ofList).trans hcons) hc
  have hclean := cleanLines_of_linesOf hlines (List.forall_mem_singleton.2 h.solid)
  rw [cleanLines_append, hclean]
  exact split_inRows (cleanLines rest) hmarker

/-- **A heading makes the columns of a table exactly if there is a separator in each of its gaps.**
    Its names are counted in any case. -/
theorem ofLines_of_isHeading (hnodup : columns.Nodup) (name : String) (rest : List String)
    (flat : Bool) :
    columnCount (String.ofList text) = columns.length ∧
    ((∀ gap ∈ gaps, HasSeparator gap) → ∀ rows,
      (if flat then flatCells else cells) columns.length (cleanLines rest) = .ok rows →
        ∃ t, ofLines .standard name (lines ++ rest) flat = .ok t ∧ t.name = name ∧
          t.columns = columns ∧ t.rows = rows) ∧
    ((¬∀ gap ∈ gaps, HasSeparator gap) →
      ofLines .standard name (lines ++ rest) flat =
        .error (.rowSyntax name (String.ofList text))) := by
  have hsplit := split_of_isHeading h hlines rest
  refine ⟨?_, fun hgaps rows hrows => ?_, fun hgaps => ?_⟩
  · rw [columnCount, String.toList_ofList, h.solid.trim_eq, h.pieceCount_eq]
  · have hheader : header? (String.ofList text) = some columns := by
      rw [header?_eq_some_iff, String.toList_ofList]
      exact ⟨gaps, text, h, hgaps, padded_self text⟩
    have hreads : Reads .standard (lines ++ rest) flat columns rows :=
      ⟨_, hsplit, hheader, by rwa [Bool.or_false]⟩
    exact hreads.exists_ofLines hnodup name
  · have hheader : header? (String.ofList text) = none := by
      rw [Option.eq_none_iff_forall_ne_some]
      intro names hnames
      rw [header?_eq_some_iff, String.toList_ofList] at hnames
      exact hgaps (h.isHeader_iff.1 ⟨names, hnames⟩)
    rw [ofLines, hsplit]
    dsimp only
    rw [hheader]

end

/-- Two columns with a tab between them are refused, though both are counted.  Tabs and other blanks
    next to a comma, a semicolon or a space are not in the way. -/
theorem ofLines_of_tabs :
    (columnCount "a\tb" = 2 ∧
      ofLines .standard "T" ["a\tb\n"] false = .error (.rowSyntax "T" "a\tb")) ∧
    ∃ t, ofLines .standard "T" ["# t\n", "a\t,\tb\u00A0 c;d # head\n", "1,2,3,4\n"] false = .ok t ∧
      t.name = "T" ∧ t.columns = ["a", "b", "c", "d"] ∧ t.rows = [["1", "2", "3", "4"]] := by
  have htab : IsHeading ["a", "b"] [['\t']] "a\tb".toList :=
    .more rfl (.blanks (by decide) (List.all_eq_true.1 rfl)) (.last rfl)
  have hmixed : IsHeading ["a", "b", "c", "d"] [['\t', ',', '\t'], ['\u00A0', ' '], [';']]
      "a\t,\tb\u00A0 c;d".toList :=
    .more rfl (@IsDivider.mark ['\t'] ['\t'] ',' (.inl rfl) (List.all_eq_true.1 rfl)
      (List.all_eq_true.1 rfl))
      (.more rfl (.blanks (by decide) (List.all_eq_true.1 rfl))
        (.more rfl (@IsDivider.mark [] [] ';' (.inr rfl) (List.forall_mem_nil _)
          (List.forall_mem_nil _)) (.last rfl)))
  have htabLines : LinesOf ["a\tb".toList] ["a\tb\n"] :=
    .line ⟨[], ['\n'], [], List.forall_mem_nil _, List.all_eq_true.1 rfl, Or.inl rfl, rfl⟩ .nil
  have hmixedLines : LinesOf ["a\t,\tb\u00A0 c;d".toList]
      ["# t\n", "a\t,\tb\u00A0 c;d # head\n"] :=
    .empty ⟨[], [], "# t\n".toList, List.forall_mem_nil _, List.forall_mem_nil _, Or.inr ⟨_, rfl⟩,
      rfl⟩ (.line ⟨[], [' '], "# head\n".toList, List.forall_mem_nil _, List.all_eq_true.1 rfl,
        Or.inr ⟨_, rfl⟩, rfl⟩ .nil)
  obtain ⟨hcount, -, hrefused⟩ := ofLines_of_isHeading htab htabLines (by decide) "T" [] false
  refine ⟨⟨hcount, hrefused ?_⟩, ?_⟩
  · simp [HasSeparator, isSeparator]
  · refine (ofLines_of_isHeading hmixed hmixedLines (by decide) "T" ["1,2,3,4\n"] false).2.1 ?_
      [["1", "2", "3", "4"]] (by decide +kernel)
    simp [HasSeparator, isSeparator]

end Stencil.Table
