/-
  Reading tables back that were written.

  * `IsTable columns rows texts`: the texts are a way to write the table, a row on each
    line or, behind the flat marker, a cell on each line;
  * `ofLines_of_isTable`: lines made of such texts are read, as a table with these columns
    and rows.
-/
import Mathlib.Data.Bool.AllAny
import Stencil.Proofs.LineForm.Units
import Stencil.Proofs.Table.Layout

namespace Stencil.Table

open LineForm Pattern Text

/-- The texts of a table: its header, and the rows or, if the table is flat, the cells. -/
inductive IsTable (columns : List String) (rows : List (List String)) : List (List Char) → Prop
  | rows {body} : List.Forall₂ (IsList IsCell) rows body →
      IsTable columns rows ((",".intercalate columns).toList :: body)
  | flat : IsTable columns rows
      ("*flat*".toList :: (",".intercalate columns).toList ::
        rows.flatten.map fun cell => quote cell.toList)

variable {columns : List String} {rows : List (List String)} {texts : List (List Char)}

theorem solid_header (hne : columns ≠ []) (hcolumns : ∀ c ∈ columns, IsName c) :
    Solid (",".intercalate columns).toList :=
  (isList_names hne hcolumns).solid nameUnits.solid

theorem IsTable.solid (h : IsTable columns rows texts) (hne : columns ≠ [])
    (hcolumns : ∀ c ∈ columns, IsName c) : ∀ text ∈ texts, Solid text := by
  have hheader := solid_header hne hcolumns
  cases h with
  | rows hbody =>
    refine List.forall_mem_cons.2 ⟨hheader, fun text htext => ?_⟩
    obtain ⟨row, -, hrow⟩ := exists_mem_of_forall₂ hbody text htext
    exact hrow.solid cellUnits.solid
  | flat =>
    have hmarker : Solid "*flat*".toList :=
      solid_of_forall (by decide) (List.all_iff_forall_prop.1 rfl)
    refine List.forall_mem_cons.2 ⟨hmarker, List.forall_mem_cons.2 ⟨hheader, fun text htext => ?_⟩⟩
    obtain ⟨cell, -, rfl⟩ := List.mem_map.1 htext
    exact solid_quote cell.toList

/-! ## The parts of a table -/

/-- A line that starts with a character of a name is not the flat marker. -/
theorem not_isFlatMarker_of_isNameChar {line : String} {c : Char} {r : List Char}
    (hline : line.toList = c :: r) (hc : isNameChar c = true) :
    isFlatMarker "*flat*" line = false := by
  rw [← Bool.not_eq_true]
  intro hfits
  obtain ⟨m, hm⟩ := Option.isSome_iff_exists.1 hfits
  have htakes := takes_of_match? hm
  have hmarked : "*flat*".toList = '*' :: "flat*".toList := rfl
  rw [hline, flatMarker, padded, blanks, hmarked, literal, List.foldr_cons] at htakes
  obtain ⟨t, _, _, hblanks, hmarker, -⟩ := takes_seq.1 htakes
  obtain ⟨-, w, hfront, hw⟩ := takes_run.1 hblanks
  cases w with
  | cons d w =>
    cases hfront
    exact ne_of_isBlank (hw c List.mem_cons_self) (not_isBlank_of_isNameChar hc) rfl
  | nil =>
    obtain ⟨u, _, _, hliteral, -, -⟩ := takes_seq.1 hmarker
    obtain ⟨s, _, _, hstar, -, -⟩ := takes_seq.1 hliteral
    obtain ⟨-, star, hstart, heq⟩ := takes_one.1 hstar
    rw [List.nil_append, hstart] at hfront
    cases hfront
    rw [eq_of_beq heq] at hc
    exact absurd hc (by decide)

theorem not_isFlatMarker_header (hne : columns ≠ []) (hcolumns : ∀ c ∈ columns, IsName c) :
    isFlatMarker "*flat*" (",".intercalate columns) = false := by
  obtain ⟨name, _, tail, ⟨hname, rfl⟩, hheader⟩ := (isList_names hne hcolumns).exists_append
  obtain ⟨hempty, hchars⟩ := forall_isNameChar hname
  obtain ⟨c, r, hcons⟩ := List.exists_cons_of_ne_nil hempty
  rw [hcons] at hchars hheader
  exact not_isFlatMarker_of_isNameChar hheader (hchars c List.mem_cons_self)

theorem isFlatMarker_marker : isFlatMarker "*flat*" "*flat*" = true := by
  decide +kernel

theorem cells_of_forall₂ {width : Nat} {body : List (List Char)}
    (h : List.Forall₂ (IsList IsCell) rows body) (hwidth : ∀ row ∈ rows, row.length = width) :
    cells width (body.map String.ofList) = .ok rows := by
  induction h with
  | nil => rfl
  | cons hrow _ ih =>
    obtain ⟨hlength, hwidths⟩ := List.forall_mem_cons.1 hwidth
    have hread := row?_of_isList hrow
    rw [hlength] at hread
    rw [List.map_cons, cells, hread, ih hwidths]
    rfl

theorem flatCell_quote (cell : String) : flatCell (String.ofList (quote cell.toList)) = cell := by
  have hinner : unquoted? (quote cell.toList) = some (escape cell.toList) :=
    unquoted?_eq_some_iff.2 rfl
  rw [flatCell, String.toList_ofList, hinner]
  dsimp only
  rw [unescape_escape, String.ofList_toList]

theorem flatCells_quotes {width : Nat} (hpos : 0 < width)
    (hwidth : ∀ row ∈ rows, row.length = width) :
    flatCells width (rows.flatten.map fun cell => String.ofList (quote cell.toList)) =
      .ok rows := by
  have hid : (flatCell ∘ fun cell : String => String.ofList (quote cell.toList)) = id := by
    funext cell
    rw [Function.comp_apply, flatCell_quote, id_eq]
  refine (flatCells_eq_ok hpos).2 ⟨?_, hwidth⟩
  rw [List.map_map, hid, List.map_id]

/-- **The texts of a table are read as its columns and rows.** -/
theorem IsTable.reads (h : IsTable columns rows texts) (hne : columns ≠ [])
    (hcolumns : ∀ c ∈ columns, IsName c) (hwidth : ∀ row ∈ rows, row.length = columns.length)
    {lines : List String} (hlines : LinesOf texts lines) :
    Reads .standard lines false columns rows := by
  have hclean := cleanLines_of_linesOf hlines (h.solid hne hcolumns)
  have hheader := header?_of_names hne hcolumns
  cases h with
  | @rows body hbody =>
    have hmarker := not_isFlatMarker_header hne hcolumns
    refine ⟨⟨false, ",".intercalate columns, body.map String.ofList⟩, ?_, hheader,
      cells_of_forall₂ hbody hwidth⟩
    rw [hclean, List.map_cons, String.ofList_toList]
    exact split_inRows _ hmarker
  | flat =>
    have hpos : 0 < columns.length := List.length_pos_iff.2 hne
    refine ⟨⟨true, ",".intercalate columns, _⟩, ?_, hheader, flatCells_quotes hpos hwidth⟩
    rw [hclean, List.map_cons, List.map_cons, String.ofList_toList, String.ofList_toList,
      List.map_map]
    exact split_flat _ _ isFlatMarker_marker

/-- **A table that is written is read back**, in both layouts. -/
theorem ofLines_of_isTable (name : String) {lines : List String} (hne : columns ≠ [])
    (hcolumns : ∀ c ∈ columns, IsName c) (hnodup : columns.Nodup)
    (hwidth : ∀ row ∈ rows, row.length = columns.length) (htexts : IsTable columns rows texts)
    (hlines : LinesOf texts lines) :
    ∃ t, ofLines .standard name lines false = .ok t ∧ t.name = name ∧ t.columns = columns ∧
      t.rows = rows :=
  (htexts.reads hne hcolumns hwidth hlines).exists_ofLines hnodup name

/-- A table with a cell of special characters and an empty cell, in both layouts. -/
theorem ofLines_both_layouts :
    let rows := [["x#\"\\", ""], ["y;z", "w"]]
    let inRows := ["# cells\n", "a,b\n", "\"x#\\\"\\\\\" ;\"\"\n", " \"y;z\"  w # last\n"]
    let flat := ["*flat*", "a,b", "\"x#\\\"\\\\\"", "\"\"", "\"y;z\"", "\"w\""]
    (∃ t, ofLines .standard "T" inRows false = .ok t ∧ t.name = "T" ∧ t.columns = ["a", "b"] ∧
      t.rows = rows) ∧
    ∃ t, ofLines .standard "T" flat false = .ok t ∧ t.name = "T" ∧ t.columns = ["a", "b"] ∧
      t.rows = rows := by
  intro rows inRows flat
  have hfirst : IsList IsCell ["x#\"\\", ""] _ :=
    .more .quoted (@IsGap.intro ';' 1 0 rfl) (.last .quoted)
  have hsecond : IsList IsCell ["y;z", "w"] _ :=
    .more .quoted (@IsGap.intro ' ' 1 0 rfl) (.last (.bare (by decide) (List.all_iff_forall_prop.1 rfl)))
  let texts := ["a,b".toList, "\"x#\\\"\\\\\" ;\"\"".toList, "\"y;z\"  w".toList]
  have hrows : IsTable ["a", "b"] rows texts := .rows (.cons hfirst (.cons hsecond .nil))
  have hinRows : LinesOf texts inRows :=
    .empty ⟨[], [], "# cells\n".toList, nofun, nofun, Or.inr ⟨_, rfl⟩, rfl⟩
      (.line ⟨[], ['\n'], [], nofun, List.all_eq_true.1 rfl, Or.inl rfl, rfl⟩
        (.line ⟨[], ['\n'], [], nofun, List.all_eq_true.1 rfl, Or.inl rfl, rfl⟩
          (.line ⟨[' '], [' '], "# last\n".toList, List.all_eq_true.1 rfl, List.all_eq_true.1 rfl,
            Or.inr ⟨_, rfl⟩, rfl⟩ .nil)))
  have hflat : IsTable ["a", "b"] rows (flat.map String.toList) := .flat
  exact ⟨ofLines_of_isTable "T" (by decide) (by decide) (by decide) (by decide) hrows hinRows,
    ofLines_of_isTable "T" (by decide) (by decide) (by decide) (by decide) hflat
      (linesOf_self flat)⟩

end Stencil.Table
