/-
  Tables whose columns stand in another order.

  * `Table.rearrange`: a table with its columns in another order, in the header and in each row
    alike;
  * `value?_rearrange`: a cell is found by the name of its column in both;
  * `perm_zip_rearrange`: the columns of a row, each with its cell, are the same up to order.
-/
import Mathlib.Data.List.Perm.Basic
import Stencil.Proofs.Table

namespace Stencil

/-! ## Elements by their numbers -/

section
variable {α β : Type}

/-- The elements with the given numbers, in the order of the numbers. -/
def pick (order : List Nat) (l : List α) : List α :=
  order.filterMap (l[·]?)

/-- The numbers of all elements, in some order, pick all elements. -/
theorem perm_pick {order : List Nat} {l : List α} (h : order.Perm (List.range l.length)) :
    (pick order l).Perm l := by
  have hall : (List.range l.length).filterMap (l[·]?) = l :=
    calc (List.range l.length).filterMap (l[·]?)
        = ((List.range l.length).map (l[·]?)).filterMap id := by rw [List.filterMap_map]; rfl
      _ = (l.map some).filterMap id := by rw [map_getElem?_range]
      _ = l := by rw [List.filterMap_map, Function.id_comp, List.filterMap_some]
  rw [pick]
  exact (h.filterMap _).trans (List.Perm.of_eq hall)

theorem length_pick {order : List Nat} {l : List α} (h : order.Perm (List.range l.length)) :
    (pick order l).length = l.length :=
  (perm_pick h).length_eq

/-- Pairs are picked by picking both halves. -/
theorem zip_pick {l : List α} {r : List β} (h : r.length = l.length) (order : List Nat) :
    (pick order l).zip (pick order r) = pick order (l.zip r) := by
  induction order with
  | nil => rfl
  | cons i order ih =>
    rw [pick, pick, pick] at ih
    rw [pick, pick, pick]
    by_cases hi : i < l.length
    · have hr : i < r.length := h ▸ hi
      have hzip : i < (l.zip r).length := by rw [List.length_zip]; omega
      rw [List.filterMap_cons_some (List.getElem?_eq_getElem hi),
        List.filterMap_cons_some (List.getElem?_eq_getElem hr),
        List.filterMap_cons_some (List.getElem?_eq_getElem hzip), List.zip_cons_cons, ih,
        List.getElem_zip]
    · have hr : r.length ≤ i := by omega
      have hzip : (l.zip r).length ≤ i := by rw [List.length_zip]; omega
      rw [List.filterMap_cons_none (List.getElem?_eq_none (Nat.le_of_not_lt hi)),
        List.filterMap_cons_none (List.getElem?_eq_none hr),
        List.filterMap_cons_none (List.getElem?_eq_none hzip), ih]

end

namespace Table

/-! ## Columns in another order -/

/-- A table with its columns in another order, in the header and in each row alike. -/
def rearrange (t : Table) (order : List Nat) (h : order.Perm (List.range t.columns.length)) :
    Table where
  name := t.name
  columns := pick order t.columns
  rows := t.rows.map (pick order)
  nodup_columns := (perm_pick h).nodup_iff.2 t.nodup_columns
  length_row := by
    intro row hrow
    obtain ⟨cells, hcells, rfl⟩ := List.mem_map.1 hrow
    have hlength := t.length_row cells hcells
    rw [length_pick h, length_pick (hlength ▸ h), hlength]

/-- Two tables that are the same but for the order of their columns. -/
def Rearranged (t u : Table) : Prop :=
  ∃ order h, u = t.rearrange order h

section
variable {t : Table} {order : List Nat} {h : order.Perm (List.range t.columns.length)}

@[simp] theorem name_rearrange : (t.rearrange order h).name = t.name := rfl

@[simp] theorem size_rearrange : (t.rearrange order h).size = t.size :=
  List.length_map _

theorem mem_columns_rearrange {column : String} :
    column ∈ (t.rearrange order h).columns ↔ column ∈ t.columns :=
  (perm_pick h).mem_iff

theorem row?_rearrange (row : Nat) :
    (t.rearrange order h).row? row = (t.row? row).map (pick order) :=
  List.getElem?_map ..

/-- **The columns of a row with their cells** are the same up to order. -/
theorem perm_zip_rearrange {row : Nat} {cells : List String} (hrow : t.row? row = some cells) :
    ((t.rearrange order h).columns.zip (pick order cells)).Perm (t.columns.zip cells) := by
  have hlength := t.length_row cells (List.mem_of_getElem? hrow)
  have hzip : (t.columns.zip cells).length = t.columns.length := by
    rw [List.length_zip, hlength, Nat.min_self]
  exact (List.Perm.of_eq (zip_pick hlength order)).trans (perm_pick (hzip ▸ h))

/-- **A cell is found by the name of its column**, wherever the column stands. -/
theorem value?_rearrange (row : Nat) (column : String) :
    (t.rearrange order h).value? row column = t.value? row column := by
  refine Option.ext fun text => ?_
  rw [value?_eq_some_iff_mem_zip, value?_eq_some_iff_mem_zip, row?_rearrange]
  constructor
  · rintro ⟨_, hrow, hmem⟩
    obtain ⟨cells, hcells, rfl⟩ := Option.map_eq_some_iff.1 hrow
    exact ⟨cells, hcells, (perm_zip_rearrange hcells).mem_iff.1 hmem⟩
  · rintro ⟨cells, hcells, hmem⟩
    exact ⟨_, Option.map_eq_some_iff.2 ⟨cells, hcells, rfl⟩,
      (perm_zip_rearrange hcells).mem_iff.2 hmem⟩

end

end Table

end Stencil
