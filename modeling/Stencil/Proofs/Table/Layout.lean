/-
  The table that a section holds.

  * `ofLines_eq_ok`: its columns are those of its header, and its rows are read from
    its body;
  * `Reads`: the columns and rows that lines are read as; a row is as wide as the header
    (`Reads.length_row`), and different columns make a table (`Reads.exists_ofLines`);
  * `FaultOf`: what can be wrong with a table section (`failsWith_ofLines`).
-/
import Stencil.Proofs.LineForm.Heading
import Stencil.Proofs.Outcome
import Stencil.Table.Layout

namespace Stencil.Table

open Text

/-! ## The parts of a section -/

theorem split_inRows {marker header : String} (body : List String)
    (h : LineForm.isFlatMarker marker header = false) :
    split marker (header :: body) = some ⟨false, header, body⟩ := by
  simp [split, h]

theorem split_flat {marker first : String} (header : String) (body : List String)
    (h : LineForm.isFlatMarker marker first = true) :
    split marker (first :: header :: body) = some ⟨true, header, body⟩ := by
  simp [split, h]

/-- A table is made of the given parts. -/
theorem make_eq_ok {name : String} {columns : List String} {rows : List (List String)} {t : Table}
    (h : make name columns rows = .ok t) : t.name = name ∧ t.columns = columns ∧ t.rows = rows := by
  unfold make at h
  split at h
  · split at h
    · cases h
    · cases h
      exact ⟨rfl, rfl, rfl⟩
  · cases h

/-- **The table of a section** has the columns of its header and the rows of its body. -/
theorem ofLines_eq_ok {settings : Settings} {name : String} {lines : List String} {flat : Bool}
    {t : Table} (h : ofLines settings name lines flat = .ok t) :
    ∃ parts, split settings.flatMarker (cleanLines lines) = some parts ∧
      LineForm.header? parts.header = some t.columns ∧
      (if flat || parts.announced then flatCells else cells) t.columns.length parts.body =
        .ok t.rows ∧ t.name = name := by
  unfold ofLines at h
  split at h
  · cases h
  · rename_i parts hparts
    split at h
    · cases h
    · rename_i columns hheader
      dsimp only at h
      split at h
      · cases h
      · rename_i rows hrows
        obtain ⟨hname, hcolumns, hrows'⟩ := make_eq_ok h
        rw [hcolumns, hrows']
        exact ⟨parts, hparts, hheader, hrows, hname⟩

/-- The columns of a table section are names. -/
theorem isName_of_ofLines {settings : Settings} {name : String} {lines : List String} {flat : Bool}
    {t : Table} (h : ofLines settings name lines flat = .ok t) :
    ∀ column ∈ t.columns, IsName column := by
  obtain ⟨parts, -, hheader, -, -⟩ := ofLines_eq_ok h
  exact (LineForm.header?_eq_some_iff.1 hheader).isName.2

/-- In row layout each line is read as a row. -/
theorem cells_eq_ok {width : Nat} {body : List String} {rows : List (List String)} :
    cells width body = .ok rows ↔
      List.Forall₂ (fun line row => LineForm.row? width line = some row) body rows := by
  induction body generalizing rows with
  | nil => simp [cells, List.forall₂_nil_left_iff, eq_comm]
  | cons line rest ih =>
    rw [cells, List.forall₂_cons_left_iff]
    cases hrow : LineForm.row? width line with
    | none => simp
    | some row =>
      simp only [map_eq_ok, ih, Option.some.injEq]
      constructor
      · rintro ⟨more, hmore, rfl⟩
        exact ⟨row, more, rfl, hmore, rfl⟩
      · rintro ⟨_, more, rfl, hmore, rfl⟩
        exact ⟨more, hmore, rfl⟩

/-! ## The width of rows -/

theorem length_of_row? {width : Nat} {line : String} {row : List String}
    (h : LineForm.row? width line = some row) : row.length = width := by
  obtain ⟨m, -, hrow⟩ := Option.bind_eq_some_iff.1 h
  cases hrow
  simp

theorem length_of_cells {width : Nat} {body : List String} {rows : List (List String)}
    (h : cells width body = .ok rows) : ∀ row ∈ rows, row.length = width := by
  intro row hrow
  obtain ⟨line, -, hline⟩ := exists_mem_of_forall₂ (cells_eq_ok.1 h) row hrow
  exact length_of_row? hline

/-- A text is taken out of double quotes exactly if they stand at the two ends of a text. -/
theorem unquoted?_eq_some_iff {s inner : List Char} :
    unquoted? s = some inner ↔ s = '"' :: (inner ++ ['"']) := by
  constructor
  · intro h
    unfold unquoted? at h
    split at h
    · rename_i r
      split at h
      · rename_i hlast
        cases h
        rw [List.dropLast_append_getLast? _ hlast]
      · cases h
    · cases h
  · rintro rfl
    simp [unquoted?]

theorem length_of_flatCells {width : Nat} {body : List String} {rows : List (List String)}
    (h : flatCells width body = .ok rows) : ∀ row ∈ rows, row.length = width := by
  fun_induction flatCells width body generalizing rows with
  | case1 =>
    cases h
    exact nofun
  | case2 => cases h
  | case3 line rest row hwidth =>
    rename_i ih
    obtain ⟨more, hmore, rfl⟩ := map_eq_ok.1 h
    refine List.forall_mem_cons.2 ⟨?_, ih hmore⟩
    have hle : row.length ≤ width := List.length_take_le width (line :: rest)
    rw [List.length_map]
    omega

/-- As many lines as a table has columns are one of its rows. -/
theorem flatCells_append {width : Nat} {lines : List String} (hpos : 0 < width)
    (hlines : lines.length = width) (rest : List String) :
    flatCells width (lines ++ rest) = (lines.map flatCell :: ·) <$> flatCells width rest := by
  cases lines with
  | nil => exact absurd hlines.symm hpos.ne'
  | cons line lines =>
    have htake : (line :: (lines ++ rest)).take width = line :: lines :=
      List.take_left' hlines
    have hdrop : (lines ++ rest).drop (width - 1) = rest :=
      List.drop_left' (by rw [← hlines]; rfl)
    have hcomplete : ¬((line :: lines).length < width ∨ width = 0) := by omega
    rw [List.cons_append, flatCells, htake, hdrop, if_neg hcomplete]

theorem flatten_of_flatCells {width : Nat} {body : List String} {rows : List (List String)}
    (h : flatCells width body = .ok rows) : rows.flatten = body.map flatCell := by
  fun_induction flatCells width body generalizing rows with
  | case1 =>
    cases h
    rfl
  | case2 => cases h
  | case3 line rest row hwidth =>
    rename_i ih
    obtain ⟨more, hmore, rfl⟩ := map_eq_ok.1 h
    obtain ⟨k, rfl⟩ := Nat.exists_eq_add_one_of_ne_zero (not_or.1 hwidth).2
    rw [List.flatten_cons, ih hmore, ← List.map_append]
    exact congrArg (List.map flatCell) (List.take_append_drop (k + 1) (line :: rest))

/-- **In flat layout the cells are read line by line**, into rows of the same width. -/
theorem flatCells_eq_ok {width : Nat} (hpos : 0 < width) {body : List String}
    {rows : List (List String)} :
    flatCells width body = .ok rows ↔
      rows.flatten = body.map flatCell ∧ ∀ row ∈ rows, row.length = width := by
  constructor
  · intro h
    exact ⟨flatten_of_flatCells h, length_of_flatCells h⟩
  · rintro ⟨hflatten, hwidth⟩
    induction rows generalizing body with
    | nil => rw [List.map_eq_nil_iff.1 hflatten.symm, flatCells]
    | cons row rows ih =>
      obtain ⟨hrow, hrows⟩ := List.forall_mem_cons.1 hwidth
      rw [List.flatten_cons] at hflatten
      obtain ⟨front, back, rfl, rfl, hback⟩ := List.map_eq_append_iff.1 hflatten.symm
      rw [List.length_map] at hrow
      rw [flatCells_append hpos hrow, ih hback.symm hrows]
      rfl

theorem length_flatten {width : Nat} {rows : List (List String)}
    (h : ∀ row ∈ rows, row.length = width) : rows.flatten.length = rows.length * width := by
  induction rows with
  | nil => simp
  | cons row rows ih =>
    obtain ⟨hrow, hrows⟩ := List.forall_mem_cons.1 h
    rw [List.flatten_cons, List.length_append, hrow, ih hrows, List.length_cons, Nat.succ_mul,
      Nat.add_comm]

/-- **A flat table is refused for its last line**, if it is no end of a row. -/
theorem of_flatCells_eq_error {width : Nat} (hpos : 0 < width) {body : List String} {line : String}
    (h : flatCells width body = .error line) :
    body.getLast? = some line ∧ ¬width ∣ body.length := by
  fun_induction flatCells width body with
  | case1 => cases h
  | case2 first rest row hwidth =>
    cases h
    have hshort : (first :: rest).length < width := by
      have hlength : row.length = min width (first :: rest).length := List.length_take
      omega
    have hall : row = first :: rest := List.take_of_length_le hshort.le
    rw [hall]
    refine ⟨?_, Nat.not_dvd_of_pos_of_lt (Nat.succ_pos _) hshort⟩
    rw [List.getLastD_eq_getLast?, List.getLast?_cons, Option.getD_some]
  | case3 first rest row hwidth ih =>
    have hcut : first :: rest = row ++ rest.drop (width - 1) := by
      obtain ⟨k, rfl⟩ := Nat.exists_eq_add_one_of_ne_zero hpos.ne'
      exact (List.take_append_drop (k + 1) (first :: rest)).symm
    have hrow : row.length = width := by
      have hle : row.length ≤ width := List.length_take_le width (first :: rest)
      omega
    cases hmore : flatCells width (rest.drop (width - 1)) with
    | ok rows =>
      rw [hmore] at h
      cases h
    | error other =>
      rw [hmore] at h
      cases h
      obtain ⟨hlast, hdvd⟩ := ih hmore
      rw [hcut, List.getLast?_append, hlast, List.length_append, hrow]
      exact ⟨rfl, fun h => hdvd ((Nat.dvd_add_right (Nat.dvd_refl width)).1 h)⟩

/-- Lines are read as these columns and rows. -/
def Reads (settings : Settings) (lines : List String) (flat : Bool) (columns : List String)
    (rows : List (List String)) : Prop :=
  ∃ parts, split settings.flatMarker (cleanLines lines) = some parts ∧
    LineForm.header? parts.header = some columns ∧
    (if flat || parts.announced then flatCells else cells) columns.length parts.body = .ok rows

/-- **A row that is read is as wide as the header.** -/
theorem Reads.length_row {settings : Settings} {lines : List String} {flat : Bool}
    {columns : List String} {rows : List (List String)}
    (h : Reads settings lines flat columns rows) : ∀ row ∈ rows, row.length = columns.length := by
  obtain ⟨parts, -, -, hrows⟩ := h
  split at hrows
  · exact length_of_flatCells hrows
  · exact length_of_cells hrows

/-! ## Tables -/

theorem exists_make (name : String) {columns : List String} {rows : List (List String)}
    (hnodup : columns.Nodup) (h : ∀ row ∈ rows, row.length = columns.length) :
    ∃ t, make name columns rows = .ok t := by
  rw [make, dif_pos hnodup]
  split
  · rename_i row hfound
    have hne := List.find?_some hfound
    have hlength := h row (List.mem_of_find?_eq_some hfound)
    simp [hlength] at hne
  · exact ⟨_, rfl⟩

/-- What is read makes a table if no column is there twice. -/
theorem Reads.exists_ofLines {settings : Settings} {lines : List String} {flat : Bool}
    {columns : List String} {rows : List (List String)}
    (h : Reads settings lines flat columns rows) (hnodup : columns.Nodup) (name : String) :
    ∃ t, ofLines settings name lines flat = .ok t ∧ t.name = name ∧ t.columns = columns ∧
      t.rows = rows := by
  obtain ⟨t, ht⟩ := exists_make name hnodup h.length_row
  obtain ⟨parts, hparts, hheader, hrows⟩ := h
  refine ⟨t, ?_, make_eq_ok ht⟩
  rw [ofLines, hparts]
  dsimp only
  rw [hheader]
  dsimp only
  rw [hrows]
  exact ht

/-! ## Faults -/

/-- What can be wrong with the section of a table: it is empty, one of its lines cannot be
    read, or a column has the name of another. -/
inductive FaultOf (name : String) (lines : List String) : Fault → Prop
  | empty : FaultOf name lines (.emptyTable name)
  | line {line} : line ∈ cleanLines lines → FaultOf name lines (.rowSyntax name line)
  | columns {names} : FaultOf name lines (.nameConflict (.tableHeader name) names)

theorem mem_of_cells {width : Nat} {body : List String} {line : String}
    (h : cells width body = .error line) : line ∈ body := by
  induction body with
  | nil => cases h
  | cons first rest ih =>
    rw [cells] at h
    split at h
    · cases h
      exact List.mem_cons_self
    · cases hrest : cells width rest with
      | ok rows =>
        rw [hrest] at h
        cases h
      | error other =>
        rw [hrest] at h
        cases h
        exact List.mem_cons_of_mem _ (ih hrest)

theorem mem_of_split {marker : String} {lines : List String} {parts : Parts}
    (h : split marker lines = some parts) :
    parts.header ∈ lines ∧ ∀ line ∈ parts.body, line ∈ lines := by
  unfold split at h
  split at h
  · cases h
  · split at h
    · split at h
      · cases h
      · cases h
        exact ⟨by simp, fun line hline => by simp [hline]⟩
    · cases h
      exact ⟨by simp, fun line hline => by simp [hline]⟩

/-- The parts of a table are refused for a repeated column only. -/
theorem failsWith_make {name : String} {columns : List String} {rows : List (List String)}
    (h : ∀ row ∈ rows, row.length = columns.length) :
    FailsWith (fun e => ∃ names, e = .nameConflict (.tableHeader name) names)
      (make name columns rows) := by
  by_cases hnodup : columns.Nodup
  · obtain ⟨t, ht⟩ := exists_make name hnodup h
    rw [ht]
    exact failsWith_ok t
  · rw [make, dif_neg hnodup]
    exact failsWith_error ⟨_, rfl⟩

/-- **What can be wrong with a table section.** -/
theorem failsWith_ofLines (settings : Settings) (name : String) (lines : List String)
    (flat : Bool) : FailsWith (FaultOf name lines) (ofLines settings name lines flat) := by
  unfold ofLines
  split
  · exact failsWith_error .empty
  · rename_i parts hparts
    obtain ⟨hheader, hbody⟩ := mem_of_split hparts
    split
    · exact failsWith_error (.line hheader)
    · rename_i columns hcolumns
      dsimp only
      split
      · rename_i line hline
        refine failsWith_error (.line (hbody line ?_))
        split at hline
        · have hpos : 0 < columns.length :=
            List.length_pos_iff.2 (LineForm.header?_eq_some_iff.1 hcolumns).isName.1
          exact List.mem_of_getLast? (of_flatCells_eq_error hpos hline).1
        · exact mem_of_cells hline
      · rename_i rows hrows
        have hreads : Reads settings lines flat columns rows := ⟨parts, hparts, hcolumns, hrows⟩
        refine (failsWith_make hreads.length_row).imp ?_
        rintro _ ⟨names, rfl⟩
        exact .columns

end Stencil.Table
