/-
  The variables of joined rows with the same cells.

  * `ofTables_congr`: what a scope says does not depend on the rows of its tables;
  * `values_congr`: joined rows with the same cells give the same values to the variables.
-/
import Stencil.Proofs.Join.Reordered
import Stencil.Proofs.Scope.Variables

namespace Stencil

open Join

theorem Plain.of_sameHeads {tables others : List Table} (h : Plain tables)
    (hheads : SameHeads tables others) : Plain others := by
  have hown : ∀ u ∈ others, ∃ t ∈ tables, u.name = t.name ∧ u.columns = t.columns :=
    exists_mem_of_forall₂ (hheads.imp fun _ _ htu => ⟨htu.1.symm, htu.2.symm⟩)
  refine ⟨hheads.map_name ▸ h.nodup_names, fun u hu => ?_, fun u hu => ?_⟩
  · obtain ⟨t, ht, hname, -⟩ := hown u hu
    exact hname ▸ h.dot_notMem_name t ht
  · obtain ⟨t, ht, -, hcolumns⟩ := hown u hu
    exact hcolumns ▸ h.dot_notMem_column t ht

/-- A variable of a joined row is one of each joined row with the same cells. -/
theorem Variable.of_sameCells {tables others : List Table} (hheads : SameHeads tables others)
    {row row' : Row} (hcells : SameCells tables others row row') {name text : String}
    (h : Variable tables row name text) : Variable others row' name text := by
  cases h with
  | qualified htable hcell =>
    obtain ⟨u, hu, hname, -⟩ := hheads.exists_getElem? htable
    rw [hname]
    exact .qualified hu ((hcells _ _).symm.trans hcell)
  | bare honly hcell =>
    refine .bare (fun other u hu hcolumn => ?_) ((hcells _ _).symm.trans hcell)
    obtain ⟨t, ht, -, hcolumns⟩ := hheads.symm.exists_getElem? hu
    exact honly other t ht (hcolumns ▸ hcolumn)

namespace Scope

/-- **A scope does not depend on the rows of its tables.** -/
theorem ofTables_congr {tables others : List Table} (h : SameHeads tables others) :
    ofTables tables = ofTables others := by
  have hcolumns : tables.map (·.columns) = others.map (·.columns) :=
    h.map_eq fun _ _ _ hcolumns => hcolumns
  have hscope : ∀ l : List Table, ofTables l = ⟨l.map (·.name), l.map (·.columns),
      groups ((l.map (·.columns)).zipIdx.flatMap fun e => e.1.map fun column => (column, e.2))⟩ := by
    intro l
    rw [List.zipIdx_map, List.flatMap_map]
    rfl
  rw [hscope, hscope, h.map_name, hcolumns]

/-- **Joined rows with the same cells have the same values.** -/
theorem values_congr {tables others : List Table} (h : Plain tables)
    (hheads : SameHeads tables others) {row row' : Row}
    (hcells : SameCells tables others row row') :
    (ofTables tables).values tables row = (ofTables others).values others row' := by
  refine Values.ext fun name => Option.ext fun text => ?_
  rw [get?_values h, get?_values (h.of_sameHeads hheads)]
  exact ⟨.of_sameCells hheads hcells, .of_sameCells hheads.symm fun _ _ => (hcells _ _).symm⟩

end Scope

end Stencil
