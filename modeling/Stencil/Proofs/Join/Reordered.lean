/-
  Joins of tables whose rows stand in another order.

  * `SameHeads`: tables with the same names and columns;
  * `SameCells`: two joined rows with the same cells, each in its own tables;
  * `exists_nestedLoop_of_reordered`: if the rows of tables are put in another order, then their
    join has, in another order, joined rows with the same cells.
-/
import Stencil.Proofs.Join.NestedLoop
import Stencil.Proofs.Position
import Stencil.Proofs.Table.Reordered

namespace Stencil.Join

open Query

/-! ## Tables with the same columns -/

/-- Tables with the same names and columns. -/
def SameHeads : List Table → List Table → Prop :=
  List.Forall₂ fun t u => t.name = u.name ∧ t.columns = u.columns

theorem sameHeads_of_reordered {tables others : List Table}
    (h : List.Forall₂ Table.Reordered tables others) : SameHeads tables others :=
  h.imp fun _ _ htu => ⟨htu.name_eq, htu.columns_eq⟩

theorem SameHeads.symm {tables others : List Table} (h : SameHeads tables others) :
    SameHeads others tables :=
  h.flip.imp fun _ _ htu => ⟨htu.1.symm, htu.2.symm⟩

theorem SameHeads.map_eq {α : Type} {f : Table → α} {tables others : List Table}
    (h : SameHeads tables others)
    (hf : ∀ t u : Table, t.name = u.name → t.columns = u.columns → f t = f u) :
    tables.map f = others.map f := by
  induction h with
  | nil => rfl
  | cons htu _ ih => rw [List.map_cons, List.map_cons, hf _ _ htu.1 htu.2, ih]

theorem SameHeads.map_name {tables others : List Table} (h : SameHeads tables others) :
    tables.map (·.name) = others.map (·.name) :=
  h.map_eq fun _ _ hname _ => hname

theorem SameHeads.exists_getElem? {tables others : List Table} (h : SameHeads tables others)
    {position : Nat} {t : Table} (ht : tables[position]? = some t) :
    ∃ u, others[position]? = some u ∧ t.name = u.name ∧ t.columns = u.columns := by
  induction h generalizing position with
  | nil => cases ht
  | cons htu _ ih =>
    cases position with
    | zero =>
      cases ht
      exact ⟨_, rfl, htu⟩
    | succ position => exact ih ht

theorem SameHeads.hasColumn {tables others : List Table} (h : SameHeads tables others)
    {position : Nat} {name : String} (hcolumn : HasColumn tables position name) :
    HasColumn others position name := by
  obtain ⟨t, ht, hname⟩ := hcolumn
  obtain ⟨u, hu, -, hcolumns⟩ := h.exists_getElem? ht
  exact ⟨u, hu, hcolumns ▸ hname⟩

/-- Whether the columns of keys are there does not depend on the rows. -/
theorem SameHeads.keysFound {tables others : List Table} (h : SameHeads tables others)
    {plan : Plan} (hkeys : KeysFound plan tables) : KeysFound plan others := by
  intro k join hjoin key hkey
  obtain ⟨hforeign, hlocal⟩ := hkeys k join hjoin key hkey
  exact ⟨h.hasColumn hforeign, h.hasColumn hlocal⟩

/-! ## Joined rows with the same cells -/

/-- Two joined rows with the same cells, each in its own tables. -/
def SameCells (tables others : List Table) (row row' : Row) : Prop :=
  ∀ position column, cellAt? tables row position column = cellAt? others row' position column

/-- Only its cells decide whether a joined row fits. -/
theorem SameCells.fits_iff {tables others : List Table} {row row' : Row}
    (h : SameCells tables others row row') {joins : List Query.Join} {position : Nat} :
    Fits tables joins position row ↔ Fits others joins position row' := by
  simp only [Fits, h _ _]

/-- A row of each of two tables with the same columns goes in front. -/
theorem SameCells.cons {t u : Table} {tables others : List Table} {index other : Nat}
    {row row' : Row} (hcolumns : t.columns = u.columns) (hrow : t.row? index = u.row? other)
    (h : SameCells tables others row row') :
    SameCells (t :: tables) (u :: others) (index :: row) (other :: row') := by
  rintro (_ | position) column
  · have hvalue : t.value? index column = u.value? other column := by
      simp only [Table.value?, Table.columnIndex?, Table.cell?, hcolumns, hrow]
    exact hvalue
  · exact h position column

/-- Lists with the same elements have the same elements at numbers in another order. -/
theorem exists_range_of_perm {α : Type} {l r : List α} (h : l.Perm r) :
    ∃ numbers, List.Forall₂ (fun i j => l[i]? = r[j]?) (List.range l.length) numbers ∧
      numbers.Perm (List.range r.length) := by
  have helements : ∀ (l : List α) (numbers : List Nat),
      List.Forall₂ (fun i j => l[i]? = r[j]?) (List.range l.length) numbers ↔
        List.Forall₂ (fun a j => some a = r[j]?) l numbers := by
    intro l numbers
    calc List.Forall₂ (fun i j => l[i]? = r[j]?) (List.range l.length) numbers
        ↔ List.Forall₂ (fun a j => a = r[j]?) ((List.range l.length).map (l[·]?)) numbers := by
          rw [List.forall₂_map_left_iff]
      _ ↔ List.Forall₂ (fun a j => a = r[j]?) (l.map some) numbers := by rw [map_getElem?_range]
      _ ↔ List.Forall₂ (fun a j => some a = r[j]?) l numbers := by rw [List.forall₂_map_left_iff]
  have hown := (helements r (List.range r.length)).1 (List.forall₂_same.2 fun _ _ => rfl)
  obtain ⟨numbers, hnumbers, hperm⟩ := List.perm_comp_forall₂ h hown
  exact ⟨numbers, (helements l numbers).2 hnumbers, hperm⟩

/-- **Choices from tables whose rows stand in another order** are, in another order, choices of the
    same rows. -/
theorem exists_tuples_of_reordered {tables others : List Table}
    (h : List.Forall₂ Table.Reordered tables others) :
    ∃ rows, List.Forall₂ (SameCells tables others) (tuples tables) rows ∧
      rows.Perm (tuples others) := by
  induction h with
  | nil => exact ⟨[[]], .cons (fun _ _ => rfl) .nil, .rfl⟩
  | @cons t u tables others htu _ ih =>
    obtain ⟨rows, hrows, hperm⟩ := ih
    obtain ⟨numbers, hnumbers, hrange⟩ := exists_range_of_perm htu.rows_perm
    refine ⟨numbers.flatMap fun other => rows.map (other :: ·), ?_, ?_⟩
    · rw [tuples]
      refine List.rel_flatMap hnumbers fun index other hrow => ?_
      exact List.rel_map (fun row row' hcells => hcells.cons htu.columns_eq hrow) hrows
    · exact hrange.flatMap fun other _ => hperm.map _

/-- **A join of tables whose rows stand in another order** has, in another order, joined rows with
    the same cells. -/
theorem exists_nestedLoop_of_reordered {tables others : List Table}
    (h : List.Forall₂ Table.Reordered tables others) (plan : Plan) :
    ∃ rows, List.Forall₂ (SameCells tables others) (nestedLoop plan tables) rows ∧
      rows.Perm (nestedLoop plan others) := by
  obtain ⟨rows, hrows, hperm⟩ := exists_tuples_of_reordered h
  refine ⟨rows.filter (Fits others plan.joins 1), ?_, hperm.filter _⟩
  refine List.rel_filter (fun row row' hcells => ?_) hrows
  simpa using hcells.fits_iff

end Stencil.Join
