/-
  The lines of a table section, and the table that is read from them.

  * `Parts.Of`: clean lines are a header and a body, perhaps behind the flat marker;
  * `OnLine`, `IsFlatCell`: what a line says as a row, and as a cell, with `isFlatCell_iff`: the cell
    of a line is what the line says;
  * `Keeps`: a table has all data of a body, once and in order;
  * `ofLines_keeps_lines`: each table that is read keeps the body of its section, a flat table is
    refused for an incomplete row only, and a section is empty only without a header;
  * `ofLines_flat_of_single`: a table with a single column is read the same in flat layout.
-/
import Stencil.Proofs.LineForm.Padding
import Stencil.Proofs.Table.Layout

namespace Stencil.Table

open LineForm Text

/-! ## The parts of a section -/

/-- Clean lines are a header and the lines behind it, with the flat marker in front of them if the
    table is announced as flat. -/
inductive Parts.Of (marker : String) : Parts → List String → Prop
  | plain {header body} : isFlatMarker marker header = false →
      Parts.Of marker ⟨false, header, body⟩ (header :: body)
  | announced {first header body} : isFlatMarker marker first = true →
      Parts.Of marker ⟨true, header, body⟩ (first :: header :: body)

theorem split_eq_some_iff {marker : String} {lines : List String} {parts : Parts} :
    split marker lines = some parts ↔ parts.Of marker lines := by
  constructor
  · intro h
    unfold split at h
    split at h
    · cases h
    · split at h
      · rename_i hmarker
        split at h
        · cases h
        · cases h
          exact .announced hmarker
      · rename_i hmarker
        cases h
        exact .plain (Bool.not_eq_true _ ▸ hmarker)
  · rintro (hmarker | hmarker)
    · exact split_inRows _ hmarker
    · exact split_flat _ _ hmarker

/-- There is no header in a section that says nothing, or nothing but that its table is flat. -/
theorem split_eq_none_iff {marker : String} {lines : List String} :
    split marker lines = none ↔
      lines = [] ∨ ∃ first, isFlatMarker marker first = true ∧ lines = [first] := by
  constructor
  · intro h
    unfold split at h
    split at h
    · exact Or.inl rfl
    · split at h
      · rename_i hmarker
        split at h
        · exact Or.inr ⟨_, hmarker, rfl⟩
        · cases h
      · cases h
  · rintro (rfl | ⟨first, hmarker, rfl⟩)
    · rfl
    · simp [split, hmarker]

/-! ## What a table keeps -/

/-- The cells of a row stand on a line, with blanks around them and a separator between each two,
    and nothing else stands there. -/
def OnLine (line : String) (row : List String) : Prop :=
  ∃ spellings : List Spelling, IsRow isBareCell spellings line.toList ∧
    List.Forall₂ (fun spelling cell => spelling.Says cell.toList) spellings row

/-- The cell that a line of a flat table says: between double quotes at the two ends of the line
    what the escapes there say, and on any other line the line itself. -/
inductive IsFlatCell (line : String) : String → Prop
  | quoted {inner : List Char} {cell : String} : line.toList = '"' :: (inner ++ ['"']) →
      Says inner cell.toList → IsFlatCell line cell
  | plain : (∀ inner, line.toList ≠ '"' :: (inner ++ ['"'])) → IsFlatCell line line

/-- A table has all data of the lines behind its header, once and in order. -/
structure Keeps (flat : Bool) (body : List String) (t : Table) : Prop where
  columns_ne_nil : t.columns ≠ []
  isName_columns : ∀ column ∈ t.columns, IsName column
  different_columns : t.columns.Nodup
  width_rows : ∀ row ∈ t.rows, row.length = t.columns.length
  /-- In row layout each line is a row. -/
  inRows : flat = false → List.Forall₂
    (fun line row => LineForm.row? t.columns.length line = some row ∧ OnLine line row) body t.rows
  /-- In flat layout each line is a cell. -/
  inCells : flat = true →
    List.Forall₂ IsFlatCell body t.rows.flatten ∧ t.size * t.columns.length = body.length

theorem onLine_of_row? {n : Nat} {line : String} {row : List String}
    (h : LineForm.row? n line = some row) : OnLine line row := by
  obtain ⟨spellings, -, hline, rfl⟩ := exists_isRow_of_row? h
  refine ⟨spellings, hline, List.forall₂_map_right_iff.2 (List.forall₂_same.2 fun spelling _ => ?_)⟩
  rw [String.toList_ofList]
  exact spelling.says_value

/-- **The cell of a line is what the line says.** -/
theorem isFlatCell_iff {line cell : String} : IsFlatCell line cell ↔ flatCell line = cell := by
  rw [flatCell]
  cases hinner : unquoted? line.toList with
  | some inner =>
    dsimp only
    have hline := unquoted?_eq_some_iff.1 hinner
    constructor
    · rintro (⟨hquoted, hsays⟩ | hplain)
      · obtain rfl := Option.some.inj (hinner.symm.trans (unquoted?_eq_some_iff.2 hquoted))
        rw [says_iff.1 hsays, String.ofList_toList]
      · exact absurd hline (hplain inner)
    · rintro rfl
      refine .quoted hline ?_
      rw [String.toList_ofList]
      exact says_unescape inner
  | none =>
    have hline : ∀ inner, line.toList ≠ '"' :: (inner ++ ['"']) := fun inner h => by
      rw [unquoted?_eq_some_iff.2 h] at hinner
      cases hinner
    constructor
    · rintro (⟨hquoted, -⟩ | -)
      · exact absurd hquoted (hline _)
      · rfl
    · rintro rfl
      exact .plain hline

section
variable {settings : Settings} (name : String) {lines : List String} {flat : Bool}

theorem keeps_of_ofLines {name : String} {parts : Parts}
    (hparts : parts.Of settings.flatMarker (cleanLines lines)) {t : Table}
    (h : ofLines settings name lines flat = .ok t) : Keeps (flat || parts.announced) parts.body t := by
  obtain ⟨parts', hsplit, hheader, hread, -⟩ := ofLines_eq_ok h
  obtain rfl : parts = parts' := by
    rw [split_eq_some_iff.2 hparts] at hsplit
    exact Option.some.inj hsplit
  obtain ⟨hne, hnames⟩ := (header?_eq_some_iff.1 hheader).isName
  have hpos : 0 < t.columns.length := List.length_pos_iff.2 hne
  refine ⟨hne, hnames, t.nodup_columns, t.length_row, fun hflat => ?_, fun hflat => ?_⟩
  · have hcells : cells t.columns.length parts.body = .ok t.rows := by simpa [hflat] using hread
    exact (cells_eq_ok.1 hcells).imp fun line row hrow => ⟨hrow, onLine_of_row? hrow⟩
  · have hcells : flatCells t.columns.length parts.body = .ok t.rows := by
      simpa [hflat] using hread
    obtain ⟨hflatten, hwidth⟩ := (flatCells_eq_ok hpos).1 hcells
    refine ⟨?_, by rw [size, ← length_flatten hwidth, hflatten, List.length_map]⟩
    rw [hflatten]
    exact List.forall₂_map_right_iff.2 (List.forall₂_same.2 fun line _ => isFlatCell_iff.2 rfl)

/-- A flat table with a header is read from what its cells are read as. -/
theorem ofLines_of_flatCells {parts : Parts} {columns : List String}
    (hparts : parts.Of settings.flatMarker (cleanLines lines))
    (hheader : header? parts.header = some columns) (hnodup : columns.Nodup)
    (hflat : (flat || parts.announced) = true) :
    (∀ rows, flatCells columns.length parts.body = .ok rows →
      ∃ t, ofLines settings name lines flat = .ok t ∧ t.columns = columns ∧ t.rows = rows) ∧
    ∀ line, flatCells columns.length parts.body = .error line →
      ofLines settings name lines flat = .error (.rowSyntax name line) := by
  have hsplit := split_eq_some_iff.2 hparts
  refine ⟨fun rows hrows => ?_, fun line hline => ?_⟩
  · have hreads : Reads settings lines flat columns rows :=
      ⟨parts, hsplit, hheader, by rwa [if_pos hflat]⟩
    obtain ⟨t, ht, -, hcolumns, hrows⟩ := hreads.exists_ofLines hnodup name
    exact ⟨t, ht, hcolumns, hrows⟩
  · rw [ofLines, hsplit]
    dsimp only
    rw [hheader]
    dsimp only
    rw [if_pos hflat, hline]

/-- **A flat table is refused exactly for an incomplete row**, with the last line named. -/
theorem ofLines_eq_error_iff_of_flat {parts : Parts} {columns : List String}
    (hparts : parts.Of settings.flatMarker (cleanLines lines))
    (hheader : header? parts.header = some columns) (hnodup : columns.Nodup)
    (hflat : (flat || parts.announced) = true) {fault : Fault} :
    ofLines settings name lines flat = .error fault ↔
      ¬columns.length ∣ parts.body.length ∧
        ∃ last, parts.body.getLast? = some last ∧ fault = .rowSyntax name last := by
  have hpos : 0 < columns.length :=
    List.length_pos_iff.2 (header?_eq_some_iff.1 hheader).isName.1
  obtain ⟨hok, herror⟩ := ofLines_of_flatCells name hparts hheader hnodup hflat
  cases hcells : flatCells columns.length parts.body with
  | ok rows =>
    obtain ⟨t, ht, -, -⟩ := hok rows hcells
    obtain ⟨hflatten, hwidth⟩ := (flatCells_eq_ok hpos).1 hcells
    have hdvd : columns.length ∣ parts.body.length := by
      have hlength := length_flatten hwidth
      rw [hflatten, List.length_map] at hlength
      rw [hlength]
      exact Nat.dvd_mul_left _ _
    simp [ht, hdvd]
  | error line =>
    obtain ⟨hlast, hdvd⟩ := of_flatCells_eq_error hpos hcells
    rw [herror line hcells, hlast]
    simp [hdvd, eq_comm]

/-- A section is empty if it has no header, and only then. -/
theorem ofLines_eq_emptyTable_iff {name other : String} :
    ofLines settings name lines flat = .error (.emptyTable other) ↔
      other = name ∧ split settings.flatMarker (cleanLines lines) = none := by
  constructor
  · intro h
    unfold ofLines at h
    split at h
    · rename_i hsplit
      cases h
      exact ⟨rfl, hsplit⟩
    · split at h
      · cases h
      · dsimp only at h
        split at h
        · cases h
        · rw [make] at h
          split at h
          · split at h <;> cases h
          · cases h
  · rintro ⟨rfl, hsplit⟩
    rw [ofLines, hsplit]

end

/-- **A table keeps all data of its section.**  Each line behind the header is a row or, in flat
    layout, a cell, in order; a flat table is refused exactly for an incomplete row, with its last
    line named; and a section is empty exactly if it has no header. -/
theorem ofLines_keeps_lines (settings : Settings) (name : String) (lines : List String)
    (flat : Bool) :
    (∀ other, ofLines settings name lines flat = .error (.emptyTable other) ↔ other = name ∧
      (cleanLines lines = [] ∨
        ∃ first, isFlatMarker settings.flatMarker first = true ∧ cleanLines lines = [first])) ∧
    ∀ parts : Parts, parts.Of settings.flatMarker (cleanLines lines) →
      (∀ t, ofLines settings name lines flat = .ok t →
        Keeps (flat || parts.announced) parts.body t) ∧
      ∀ columns, header? parts.header = some columns → columns.Nodup →
        (flat || parts.announced) = true →
          ((∃ fault, ofLines settings name lines flat = .error fault) ↔
            ¬columns.length ∣ parts.body.length) ∧
          ∀ fault, ofLines settings name lines flat = .error fault →
            ∃ last, parts.body.getLast? = some last ∧ fault = .rowSyntax name last := by
  refine ⟨fun other => ?_, fun parts hparts =>
    ⟨fun t => keeps_of_ofLines hparts, fun columns hheader hnodup hflat => ?_⟩⟩
  · rw [ofLines_eq_emptyTable_iff, split_eq_none_iff]
  · have hfault : ∀ {fault}, ofLines settings name lines flat = .error fault ↔
        ¬columns.length ∣ parts.body.length ∧
          ∃ last, parts.body.getLast? = some last ∧ fault = .rowSyntax name last :=
      ofLines_eq_error_iff_of_flat name hparts hheader hnodup hflat
    refine ⟨⟨?_, fun hdvd => ?_⟩, fun fault h => (hfault.1 h).2⟩
    · rintro ⟨fault, h⟩
      exact (hfault.1 h).1
    · have hne : parts.body ≠ [] := by
        intro hnil
        rw [hnil] at hdvd
        exact hdvd (Nat.dvd_zero _)
      exact ⟨_, hfault.2 ⟨hdvd, _, List.getLast?_eq_some_getLast hne, rfl⟩⟩

/-- A table in row layout, one in flat layout, the same with a line too many, and a section that
    has no header.  In both layouts a backslash is read with the double quote behind it; a line that
    is a double quote alone is no text between two of them. -/
theorem ofLines_keeps_both_layouts :
    let inRows := ["# t\n", "a, b\n", "\n", "1, \"x # \\\"y\\\"\" # c\n", "2;3\n"]
    let rowBody := ["1, \"x # \\\"y\\\"\"", "2;3"]
    let flat := ["*flat*\n", "a b\n", "1\n", "Ann Lee # 1\n", "\"\n", "\"\\\"Bo\\\"\"\n"]
    let flatBody := ["1", "Ann Lee", "\"", "\"\\\"Bo\\\"\""]
    (∃ t, ofLines .standard "T" inRows false = .ok t ∧ Keeps false rowBody t ∧
      t.rows = [["1", "x # \"y\""], ["2", "3"]]) ∧
    (∃ t, ofLines .standard "T" flat false = .ok t ∧
      t.rows = [["1", "Ann Lee"], ["\"", "\"Bo\""]] ∧
      List.Forall₂ IsFlatCell flatBody t.rows.flatten ∧ t.size * t.columns.length = 4) ∧
    (∃ fault, ofLines .standard "T" (flat ++ ["3"]) false = .error fault ∧
      fault = .rowSyntax "T" "3") ∧
    ofLines .standard "T" ["*flat*\n", "# t\n"] false = .error (.emptyTable "T") := by
  intro inRows rowBody flat flatBody
  have hinRows : Parts.Of "*flat*" ⟨false, "a, b", rowBody⟩ (cleanLines inRows) :=
    .plain (by decide +kernel)
  have hflat : Parts.Of "*flat*" ⟨true, "a b", flatBody⟩ (cleanLines flat) :=
    .announced (by decide +kernel)
  have hlonger : Parts.Of "*flat*" ⟨true, "a b", flatBody ++ ["3"]⟩ (cleanLines (flat ++ ["3"])) :=
    .announced (by decide +kernel)
  have hheader : header? "a b" = some ["a", "b"] := by decide +kernel
  have hrows : Table.rows <$> ofLines .standard "T" inRows false =
      .ok [["1", "x # \"y\""], ["2", "3"]] := toOption_eq_some.1 (by decide +kernel)
  have hcells : Table.rows <$> ofLines .standard "T" flat false =
      .ok [["1", "Ann Lee"], ["\"", "\"Bo\""]] := toOption_eq_some.1 (by decide +kernel)
  obtain ⟨t, ht, hrows⟩ := map_eq_ok.1 hrows
  obtain ⟨u, hu, hcells⟩ := map_eq_ok.1 hcells
  refine ⟨⟨t, ht, ?_, hrows⟩, ⟨u, hu, hcells, ?_⟩, ?_, ?_⟩
  · exact ((ofLines_keeps_lines .standard "T" inRows false).2 _ hinRows).1 t ht
  · have hkeeps := ((ofLines_keeps_lines .standard "T" flat false).2 _ hflat).1 u hu
    exact hkeeps.inCells rfl
  · obtain ⟨hfails, hlast⟩ := ((ofLines_keeps_lines .standard "T" (flat ++ ["3"]) false).2 _
      hlonger).2 _ hheader (by decide) rfl
    obtain ⟨fault, hfault⟩ := hfails.2 (by decide)
    obtain ⟨last, hthree, hnamed⟩ := hlast fault hfault
    cases hthree
    exact ⟨fault, hfault, hnamed⟩
  · exact ((ofLines_keeps_lines .standard "T" ["*flat*\n", "# t\n"] false).1 "T").2
      ⟨rfl, Or.inr ⟨"*flat*", by decide +kernel, by decide +kernel⟩⟩

/-! ## Tables with a single column -/

theorem eq_of_parts {t t' : Table} (hname : t.name = t'.name) (hcolumns : t.columns = t'.columns)
    (hrows : t.rows = t'.rows) : t = t' := by
  cases t
  cases t'
  cases hname
  cases hcolumns
  cases hrows
  rfl

/-- What stands alone on a line is the same as a row and as a cell. -/
theorem flatCell_of_source {spelling : Spelling} (hfits : spelling.Fits isBareCell) {line : String}
    (hline : line.toList = spelling.source) : flatCell line = String.ofList spelling.value := by
  obtain ⟨style, text⟩ := spelling
  cases style with
  | bare =>
    obtain ⟨hne, hchars⟩ := hfits
    obtain ⟨c, r, rfl⟩ := List.exists_cons_of_ne_nil hne
    have hquote : c ≠ '"' := by
      rintro rfl
      cases hchars '"' List.mem_cons_self
    have hinner : unquoted? (c :: r) = none := by
      unfold unquoted?
      split
      · rename_i heq
        exact absurd (List.cons.inj heq).1 hquote
      · rfl
    have hvalue : line = String.ofList (Spelling.value ⟨.bare, c :: r⟩) := by
      rw [← String.ofList_toList (s := line), hline]
      rfl
    have hsource : Spelling.source ⟨.bare, c :: r⟩ = c :: r := rfl
    rw [flatCell, hline, hsource, hinner]
    exact hvalue
  | quoted =>
    rw [flatCell, hline, Spelling.source, unquoted?_eq_some_iff.2 rfl]
    rfl

theorem unpadded_of_mem_cleanLines {lines : List String} {line : String}
    (h : line ∈ cleanLines lines) : Unpadded line.toList := by
  obtain ⟨raw, -, rfl⟩ := List.mem_map.1 (List.mem_filter.1 h).1
  rw [clean, String.toList_ofList]
  exact ⟨head?_trim _, getLast?_trim _⟩

/-- A row of a single cell is this cell, on a line without blanks at its ends. -/
theorem row?_eq_flatCell {line : String} (hline : Unpadded line.toList) {row : List String}
    (h : LineForm.row? 1 line = some row) : row = [flatCell line] := by
  obtain ⟨spellings, hlength, hrow, rfl⟩ := exists_isRow_of_row? h
  generalize htext : line.toList = text at hrow hline
  cases hrow with
  | nil => cases hlength
  | last hfits hpadded =>
    rw [flatCell_of_source hfits (htext.trans (hpadded.eq_of_trimmed hline.1 hline.2))]
    rfl
  | more _ _ _ hne _ => exact absurd (List.length_eq_zero_iff.1 (Nat.succ.inj hlength)) hne

theorem flatten_of_single {body : List String} (hbody : ∀ line ∈ body, Unpadded line.toList)
    {rows : List (List String)}
    (h : List.Forall₂ (fun line row => LineForm.row? 1 line = some row) body rows) :
    rows.flatten = body.map flatCell := by
  induction h with
  | nil => rfl
  | cons hrow _ ih =>
    obtain ⟨hline, hrest⟩ := List.forall_mem_cons.1 hbody
    rw [List.flatten_cons, row?_eq_flatCell hline hrow, ih hrest]
    rfl

/-- **Flat layout extends row layout for a single column.**  A section that is read in row layout
    is read as the same table in flat layout. -/
theorem ofLines_flat_of_single {settings : Settings} {name : String} {lines : List String}
    {parts : Parts} (hparts : parts.Of settings.flatMarker (cleanLines lines))
    (hsingle : columnCount parts.header = 1) {t : Table}
    (h : ofLines settings name lines false = .ok t) : ofLines settings name lines true = .ok t := by
  have hsplit := split_eq_some_iff.2 hparts
  obtain ⟨parts', hsplit', hheader, hread, rfl⟩ := ofLines_eq_ok h
  obtain rfl : parts = parts' := Option.some.inj (hsplit.symm.trans hsplit')
  have hlength : t.columns.length = 1 :=
    (header?_eq_some_iff.1 hheader).columnCount_eq.symm.trans hsingle
  have hcells : flatCells t.columns.length parts.body = .ok t.rows := by
    cases hannounced : parts.announced with
    | true => simpa [hannounced] using hread
    | false =>
      have hrows : cells 1 parts.body = .ok t.rows := by simpa [hannounced, hlength] using hread
      have hbody : ∀ line ∈ parts.body, line ∈ cleanLines lines := (mem_of_split hsplit).2
      rw [flatCells_eq_ok (by rw [hlength]; exact Nat.one_pos)]
      exact ⟨flatten_of_single (fun line hline => unpadded_of_mem_cleanLines (hbody line hline))
        (cells_eq_ok.1 hrows), t.length_row⟩
  have hreads : Reads settings lines true t.columns t.rows := ⟨parts, hsplit, hheader, hcells⟩
  obtain ⟨t', ht', hname, hcolumns, hrows⟩ := hreads.exists_ofLines t.nodup_columns t.name
  rw [ht']
  exact congrArg Except.ok (eq_of_parts hname hcolumns hrows)

/-- A column with escapes between double quotes and with a tab inside a word. -/
theorem ofLines_flat_of_notes :
    let lines := ["note # all\n", "\"a \\\"b\\\" \\\\\" # 1\n", " x\ty\n", "\"\"\n"]
    ∃ t, ofLines .standard "T" lines false = .ok t ∧ ofLines .standard "T" lines true = .ok t := by
  intro lines
  have hparts : Parts.Of "*flat*" ⟨false, "note", ["\"a \\\"b\\\" \\\\\"", "x\ty", "\"\""]⟩
      (cleanLines lines) := .plain (by decide +kernel)
  obtain ⟨t, ht⟩ := exists_ok_of_error? (x := ofLines .standard "T" lines false) (by decide +kernel)
  exact ⟨t, ht, ofLines_flat_of_single hparts (by decide +kernel) ht⟩

end Stencil.Table
