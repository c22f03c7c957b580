/-
  Joins of tables whose columns stand in another order.

  All that a join asks of a table is its name, the number of its rows, whether it has a column,
  and the cells by the names of their columns.  None of these depends on where a column stands.

  * `faults_of_rearranged`: what is wrong with a plan and its tables;
  * `sameCells_of_rearranged` and `nestedLoop_of_rearranged`: the cells of a joined row, and the
    joined rows that fit;
  * `execute_of_rearranged`: a join fails with the same fault, or makes the same rows.
-/
import Stencil.Proofs.Join.Faults
import Stencil.Proofs.Join.Reordered
import Stencil.Proofs.Table.Rearranged

namespace Stencil.Join

open Query

section
variable {tables others : List Table} (h : List.Forall₂ Table.Rearranged tables others)
include h

/-- At each position there are no tables, or one and the same with its columns in another order. -/
theorem getElem?_of_rearranged (position : Nat) :
    tables[position]? = none ∧ others[position]? = none ∨
      ∃ t order horder, tables[position]? = some t ∧
        others[position]? = some (t.rearrange order horder) := by
  induction h generalizing position with
  | nil => exact Or.inl ⟨rfl, rfl⟩
  | @cons t _ _ _ htu _ ih =>
    cases position with
    | zero =>
      obtain ⟨order, horder, rfl⟩ := htu
      exact Or.inr ⟨t, order, horder, rfl, rfl⟩
    | succ position => exact ih position

theorem map_name_of_rearranged : tables.map (·.name) = others.map (·.name) := by
  induction h with
  | nil => rfl
  | cons htu _ ih =>
    obtain ⟨order, horder, rfl⟩ := htu
    rw [List.map_cons, List.map_cons, ih, Table.name_rearrange]

theorem hasColumn_of_rearranged {position : Nat} {column : String} :
    HasColumn tables position column ↔ HasColumn others position column := by
  unfold HasColumn
  rcases getElem?_of_rearranged h position with ⟨ht, hu⟩ | ⟨t, order, horder, ht, hu⟩
  · rw [ht, hu]
  · rw [ht, hu]
    simp [Table.mem_columns_rearrange]

/-! ## Faults -/

theorem tableFaults_of_rearranged (name : String) (position : Nat) :
    tableFaults tables name position = tableFaults others name position := by
  unfold tableFaults
  rcases getElem?_of_rearranged h position with ⟨ht, hu⟩ | ⟨t, order, horder, ht, hu⟩
  · rw [ht, hu]
  · rw [ht, hu]
    simp

theorem columnFaults_of_rearranged (position : Nat) (column : String) :
    columnFaults tables position column = columnFaults others position column := by
  unfold columnFaults
  rcases getElem?_of_rearranged h position with ⟨ht, hu⟩ | ⟨t, order, horder, ht, hu⟩
  · rw [ht, hu]
  · rw [ht, hu]
    simp only [Table.mem_columns_rearrange, Table.name_rearrange]

/-- **What is wrong with a plan and its tables** does not depend on the order of columns. -/
theorem faults_of_rearranged (plan : Plan) : faults plan tables = faults plan others := by
  have hkey : ∀ step, keyFaults tables step = keyFaults others step := by
    intro step
    funext join key
    rw [keyFaults, keyFaults, columnFaults_of_rearranged h, columnFaults_of_rearranged h]
  have hnames : nameFaults tables plan.names 0 = nameFaults others plan.names 0 :=
    List.flatMap_congr fun e _ => tableFaults_of_rearranged h e.1 e.2
  have hjoins : joinFaults tables plan.joins 0 = joinFaults others plan.joins 0 :=
    List.flatMap_congr fun e _ => by rw [hkey]
  rw [faults, faults, hnames, hjoins]

/-! ## Joined rows -/

/-- A joined row holds the same cells. -/
theorem sameCells_of_rearranged (row : Row) : SameCells tables others row row := by
  intro position column
  unfold cellAt?
  rcases getElem?_of_rearranged h position with ⟨ht, hu⟩ | ⟨t, order, horder, ht, hu⟩
  · rw [ht, hu]
  · rw [ht, hu]
    simp only [Option.bind_eq_bind, Option.bind_some, Table.value?_rearrange]

theorem tuples_of_rearranged : tuples tables = tuples others := by
  induction h with
  | nil => rfl
  | cons htu _ ih =>
    obtain ⟨order, horder, rfl⟩ := htu
    rw [tuples, tuples, ih, Table.size_rearrange]

/-- **The same joined rows fit.** -/
theorem nestedLoop_of_rearranged (plan : Plan) :
    nestedLoop plan tables = nestedLoop plan others := by
  rw [nestedLoop, nestedLoop, tuples_of_rearranged h]
  refine List.filter_congr fun row _ => decide_eq_decide.2 ?_
  exact (sameCells_of_rearranged h row).fits_iff

/-- **A join of tables whose columns stand in another order** fails with the same fault, or makes
    the same rows of them. -/
theorem execute_of_rearranged (plan : Plan) :
    (∃ e, execute plan tables = .error e ∧ execute plan others = .error e) ∨
      ∃ rows, execute plan tables = .ok ⟨tables.take plan.names.length, rows⟩ ∧
        execute plan others = .ok ⟨others.take plan.names.length, rows⟩ := by
  have herror : error? (bind plan tables) = error? (bind plan others) := by
    rw [error?_bind_plan, error?_bind_plan, faults_of_rearranged h]
  cases hbind : bind plan tables with
  | error e =>
    rw [hbind] at herror
    have hother : bind plan others = .error e := error?_eq_some.1 herror.symm
    exact Or.inl ⟨e, by rw [execute, hbind]; rfl, by rw [execute, hother]; rfl⟩
  | ok bound =>
    rw [hbind] at herror
    obtain ⟨bound', hother⟩ := exists_ok_of_error? herror.symm
    obtain ⟨hown, -, hrun⟩ := execute_of_bind hbind
    obtain ⟨hown', -, hrun'⟩ := execute_of_bind hother
    rw [hown] at hrun
    rw [hown', ← nestedLoop_of_rearranged (List.forall₂_take _ h)] at hrun'
    exact Or.inr ⟨_, hrun, hrun'⟩

/-- **A cell of a joined row** is found by the names of its table and its column. -/
theorem value?_of_rearranged (rows rows' : List Row) (row : Row) (table column : String) :
    (Result.mk tables rows).value? row table column =
      (Result.mk others rows').value? row table column := by
  have hvalue : ∀ (r : Result), r.value? row table column =
      (r.position? table).bind fun position => cellAt? r.tables row position column :=
    fun _ => rfl
  have hposition : ∀ (r : Result),
      r.position? table = (r.tables.map (·.name)).findIdx? (· = table) := fun r => by
    rw [List.findIdx?_map]
    rfl
  rw [hvalue, hvalue, hposition, hposition, map_name_of_rearranged h]
  exact Option.bind_congr fun position _ => sameCells_of_rearranged h row position column

end

end Stencil.Join
