/-
  The groups of a row, and the values that are read from them.

  The pattern of a row has two groups for each cell, a bare and a quoted one.  A match may be found
  after others were given up, in which the same place was a cell of another style.

  * `Pattern.groups`: the groups of a pattern, in the order in which they open, and `groups_row`
    those of a row;
  * `Spelling.value_eq_nil_iff`: nothing but an empty text between double quotes is read as the
    empty value;
  * `CellRead`: a cell is read from what stands in it, and is empty only if it is written so;
  * `row?_of_match?`: of the two groups of a cell exactly one takes part in a match, so that all
    cells are read.
-/
import Mathlib.Logic.ExistsUnique
import Stencil.Proofs.LineForm.Spelling

namespace Stencil

/-- The groups of a pattern, in the order in which they open. -/
def Pattern.groups {ι : Type} : Pattern ι → List ι
  | .mark g .left => [g]
  | .seq p q | .alt p q => p.groups ++ q.groups
  | .empty | .one _ | .run _ | .runPairs .. | .mark _ .right => []

namespace LineForm

open Pattern Text

variable {ι : Type}

/-! ## The groups of a row -/

theorem groups_value (isBare : Char → Bool) (label : Style → ι) :
    (value isBare label).groups = [label .bare, label .quoted] :=
  rfl

theorem groups_padded (p : Pattern ι) : (padded p).groups = p.groups := by
  simp [padded, blanks, Pattern.groups]

theorem groups_listFrom (unit : Nat → Pattern ι) (i n : Nat) :
    (listFrom unit i n).groups = (List.range' i n).flatMap fun j => (unit j).groups := by
  induction n generalizing i with
  | zero => rfl
  | succ n ih =>
    cases n with
    | zero => simp [listFrom]
    | succ n =>
      have hmore := ih (i + 1)
      rw [listFrom, Pattern.groups, Pattern.groups, hmore, List.range'_succ, List.flatMap_cons]
      rfl

/-- **The groups of a row**: of each cell the bare and then the quoted one. -/
theorem groups_row (n : Nat) :
    (row n).groups = (List.range n).flatMap fun i => [(i, .bare), (i, .quoted)] := by
  rw [row, groups_listFrom, List.range_eq_range']
  simp only [groups_padded, groups_value]

theorem length_groups_row (n : Nat) : (row n).groups.length = 2 * n := by
  rw [groups_row, List.length_flatMap]
  simp [List.map_const', Nat.mul_comm]

/-- The groups that are reported of a row are those of its pattern, in order. -/
theorem rowGroups?_eq (n : Nat) (line : String) :
    rowGroups? n line = ((row n).match? line.toList).map fun m =>
      (row n).groups.map fun g => (m.text? g).map String.ofList := by
  rw [rowGroups?, groups_row, Option.map_eq_bind]
  simp only [List.map_flatMap]
  rfl

/-! ## Empty values -/

/-- **Only an empty text between double quotes is read as the empty value.** -/
theorem Spelling.value_eq_nil_iff {isBare : Char → Bool} (hquote : isBare '"' = false)
    {spelling : Spelling} (hfits : spelling.Fits isBare) :
    spelling.value = [] ↔ spelling.source = ['"', '"'] := by
  obtain ⟨style, text⟩ := spelling
  cases style with
  | bare =>
    obtain ⟨hne, hbare⟩ := hfits
    refine iff_of_false hne fun hsource => ?_
    have htext : text = ['"', '"'] := hsource
    have hmem : '"' ∈ text := by simp [htext]
    exact Bool.false_ne_true (hquote.symm.trans (hbare _ hmem))
  | quoted => simp [value, source, unescape_eq_nil_iff]

theorem IsRow.fits {isBare : Char → Bool} {spellings : List Spelling} {text : List Char}
    (h : IsRow isBare spellings text) : ∀ spelling ∈ spellings, spelling.Fits isBare := by
  induction h with
  | nil => exact List.forall_mem_nil _
  | last hfits _ => exact List.forall_mem_singleton.2 hfits
  | more hfits _ _ _ _ ih => exact List.forall_mem_cons.2 ⟨hfits, ih⟩

/-! ## Cells -/

theorem Notes.existsUnique [DecidableEq ι] {label : Style → ι} {spelling : Spelling} {m : Match ι}
    (h : Notes label spelling m) : ∃! style, (m.text? (label style)).isSome := by
  refine ⟨spelling.style, ?_, fun style hstyle => ?_⟩
  · simp [h spelling.style]
  · by_contra hne
    simp [h style, hne] at hstyle

/-- A cell of a row, as it stands on the line and as it is read from a match. -/
structure CellRead (m : Match (Nat × Style)) (values : List String) (i : Nat)
    (spelling : Spelling) : Prop where
  /-- What stands there is the text of the group of its style. -/
  text : m.text? (i, spelling.style) = some spelling.text
  /-- Its groups give a value, so that none has to be put in. -/
  value : valueText? m (fun style => (i, style)) = some spelling.value
  read : values[i]? = some (String.ofList spelling.value)
  /-- It is read as the empty value exactly if it is written as an empty text between double
      quotes. -/
  empty_iff : values[i]? = some "" ↔ spelling.source = ['"', '"']

theorem cellRead_of_notes {m : Match (Nat × Style)} {spellings : List Spelling} {i : Nat}
    {spelling : Spelling} (hi : spellings[i]? = some spelling) (hfits : spelling.Fits isBareCell)
    (hnotes : Notes (fun style => (i, style)) spelling m) :
    CellRead m (spellings.map fun spelling => String.ofList spelling.value) i spelling := by
  have hread : (spellings.map fun spelling => String.ofList spelling.value)[i]? =
      some (String.ofList spelling.value) := by
    rw [List.getElem?_map, hi, Option.map_some]
  refine ⟨by rw [hnotes spelling.style, if_pos rfl], hnotes.valueText?_eq, hread, ?_⟩
  rw [hread, Option.some_inj, ← Spelling.value_eq_nil_iff rfl hfits]
  exact String.ofList_eq_empty_iff

/-- **No cell of a row is lost.**  A match has two groups for each cell, and exactly one of them
    takes part, so that there is a value for each cell, read from what stands in it. -/
theorem row?_of_match? {n : Nat} {line : String} {m : Match (Nat × Style)}
    (h : (row n).match? line.toList = some m) :
    ((row n).groups.length = 2 * n ∧
      rowGroups? n line = some ((row n).groups.map fun g => (m.text? g).map String.ofList)) ∧
    (∀ i < n, ∃! style, (m.text? (i, style)).isSome) ∧
    ∃ (values : List String) (spellings : List Spelling), row? n line = some values ∧
      values.length = n ∧ spellings.length = n ∧ IsRow isBareCell spellings line.toList ∧
      ∀ i spelling, spellings[i]? = some spelling → CellRead m values i spelling := by
  obtain ⟨spellings, hlength, hrow, hnotes, hvalues⟩ := exists_isRow_of_match? h
  refine ⟨⟨length_groups_row n, by rw [rowGroups?_eq, h, Option.map_some]⟩, fun i hi => ?_, _,
    spellings, hvalues, by rw [List.length_map, hlength], hlength, hrow, fun i spelling hi => ?_⟩
  · exact (hnotes i _ (List.getElem?_eq_getElem (hlength ▸ hi))).existsUnique
  · have hfits := hrow.fits spelling (List.mem_of_getElem? hi)
    exact cellRead_of_notes hi hfits (hnotes i spelling hi)

/-- A tab with a space behind it is a cell of its own where three are asked for, after the last cell
    was tried in its place.  It is read as it is, and only the last cell is empty. -/
theorem row?_of_match?_given_up :
    ∃ m, (row 3).match? "a,\t \"\"".toList = some m ∧ (∃! style, (m.text? (1, style)).isSome) ∧
      row? 3 "a,\t \"\"" = some ["a", "\t", ""] ∧
      ∃ spellings : List Spelling, spellings.length = 3 ∧
        IsRow isBareCell spellings "a,\t \"\"".toList ∧
        ∀ i spelling, spellings[i]? = some spelling → (spelling.source = ['"', '"'] ↔ i = 2) := by
  have hsome : ((row 3).match? "a,\t \"\"".toList).isSome := by decide +kernel
  have hread : row? 3 "a,\t \"\"" = some ["a", "\t", ""] := by decide +kernel
  have hlast : ∀ i, ["a", "\t", ""][i]? = some "" ↔ i = 2 := by
    rintro (_ | _ | _ | i) <;> simp
  obtain ⟨m, hm⟩ := Option.isSome_iff_exists.1 hsome
  obtain ⟨-, hone, values, spellings, hvalues, -, hlength, hrow, hcells⟩ := row?_of_match? hm
  obtain rfl : values = ["a", "\t", ""] := Option.some.inj (hvalues.symm.trans hread)
  refine ⟨m, hm, hone 1 (by decide), hread, spellings, hlength, hrow, fun i spelling hi => ?_⟩
  exact (hcells i spelling hi).empty_iff.symm.trans (hlast i)

end LineForm

end Stencil
