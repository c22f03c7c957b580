/-
  The variables of a joined row of tables whose columns stand in another order.

  If several pairs have one name, then the last of them holds, so that their order matters.  Within
  one table, however, no two pairs have one name, as long as no column has a dot.

  * `columnNames`: the names that a column gives to its cells;
  * `nodup_tablePairs`: the variables of one table have different names;
  * `values_of_rearranged`: the values of a joined row are the same;
  * `execute_rearranged`: a join with columns in another order fails with the same fault, or makes
    the same rows, cells and values.
-/
import Stencil.Proofs.Join.Rearranged
import Stencil.Proofs.Scope.Variables

namespace Stencil

open Join

/-! ## Pairs of one table -/

/-- Pairs in another order hold the same pairs with a name, if it is the name of one pair only. -/
theorem filter_fst_eq_of_perm {pairs others : List (String × String)} (h : pairs.Perm others)
    (hnodup : (pairs.map Prod.fst).Nodup) (name : String) :
    (pairs.filter fun p => p.1 = name) = others.filter fun p => p.1 = name := by
  have hperm := h.filter fun p => decide (p.1 = name)
  cases hfilter : pairs.filter fun p => decide (p.1 = name) with
  | nil =>
    rw [hfilter] at hperm
    exact (List.nil_perm.1 hperm).symm
  | cons p rest =>
    cases rest with
    | nil =>
      rw [hfilter] at hperm
      exact (List.perm_singleton.1 hperm.symm).symm
    | cons q rest =>
      have hname : ∀ e ∈ p :: q :: rest, e.1 = name := by
        rw [← hfilter]
        exact fun e he => of_decide_eq_true (List.mem_filter.1 he).2
      have hsub := hnodup.sublist ((List.filter_sublist (p := fun e => decide (e.1 = name))).map _)
      rw [hfilter] at hsub
      simp [hname p, hname q] at hsub

namespace Scope

section
variable {s s' : Scope} {t : Table}

theorem qualifiedName_right_inj {table column column' : String}
    (h : qualifiedName table column = qualifiedName table column') : column = column' := by
  have hlist := congrArg String.toList h
  simp only [qualifiedName, String.toList_append, List.append_cancel_left_eq] at hlist
  exact String.toList_inj.1 hlist

/-- The names under which the cells of a column are values. -/
def columnNames (s : Scope) (table column : String) : List String :=
  qualifiedName table column :: if s.isAmbiguous column then [] else [column]

theorem eq_of_mem_columnNames {table column name : String} (h : name ∈ s.columnNames table column) :
    name = qualifiedName table column ∨ name = column := by
  rcases List.mem_cons.1 h with h | h
  · exact Or.inl h
  · split at h
    · cases h
    · exact Or.inr (List.mem_singleton.1 h)

theorem nodup_columnNames {table column : String} (hdot : '.' ∉ column.toList) :
    (s.columnNames table column).Nodup := by
  refine List.nodup_cons.2 ⟨fun hname => ?_, ?_⟩
  · split at hname
    · cases hname
    · rw [← List.mem_singleton.1 hname] at hdot
      exact hdot (dot_mem_qualifiedName _ _)
  · split
    · exact List.nodup_nil
    · exact List.nodup_singleton _

/-- The variables of one table have the names of its columns. -/
theorem map_fst_tablePairs {index : Nat} {cells : List String} (h : t.row? index = some cells) :
    (s.tablePairs t index).map Prod.fst = t.columns.flatMap (s.columnNames t.name) := by
  have hlength := t.length_row cells (List.mem_of_getElem? h)
  calc (s.tablePairs t index).map Prod.fst
      = (t.columns.zip cells).flatMap fun e => s.columnNames t.name e.1 := by
        simp only [tablePairs, h, List.map_flatMap]
        refine List.flatMap_congr fun e _ => ?_
        rw [List.map_cons, apply_ite (List.map Prod.fst)]
        rfl
    _ = ((t.columns.zip cells).map Prod.fst).flatMap (s.columnNames t.name) :=
        (List.flatMap_map ..).symm
    _ = t.columns.flatMap (s.columnNames t.name) := by
        rw [List.map_fst_zip (Nat.le_of_eq hlength.symm)]

/-- **The variables of one table have different names.** -/
theorem nodup_tablePairs (hdot : ∀ column ∈ t.columns, '.' ∉ column.toList) (index : Nat) :
    ((s.tablePairs t index).map Prod.fst).Nodup := by
  cases hrow : t.row? index with
  | none =>
    rw [tablePairs, hrow]
    exact List.nodup_nil
  | some cells =>
    rw [map_fst_tablePairs hrow, List.nodup_flatMap]
    refine ⟨fun column hcolumn => nodup_columnNames (hdot column hcolumn), ?_⟩
    refine t.nodup_columns.imp_of_mem fun {c d} hc hd hne name hname hname' => ?_
    rcases eq_of_mem_columnNames hname with rfl | rfl <;>
      rcases eq_of_mem_columnNames hname' with heq | heq
    · exact hne (qualifiedName_right_inj heq)
    · exact hdot d hd (heq ▸ dot_mem_qualifiedName _ _)
    · exact hdot name hc (heq ▸ dot_mem_qualifiedName _ _)
    · exact hne heq

/-- The variables of one table are the same up to order. -/
theorem perm_tablePairs_rearrange (hs : ∀ column, s.isAmbiguous column = s'.isAmbiguous column)
    {order : List Nat} (h : order.Perm (List.range t.columns.length)) (index : Nat) :
    (s.tablePairs t index).Perm (s'.tablePairs (t.rearrange order h) index) := by
  simp only [tablePairs, Table.row?_rearrange, hs]
  cases hrow : t.row? index with
  | none => exact .rfl
  | some cells => exact (Table.perm_zip_rearrange hrow).symm.flatMap_right _

end

/-! ## All pairs -/

section
variable {tables others : List Table} (h : List.Forall₂ Table.Rearranged tables others)
include h

theorem isAmbiguous_of_rearranged (column : String) :
    (ofTables tables).isAmbiguous column = (ofTables others).isAmbiguous column := by
  have howner : ∀ position, position ∈ (ofTables tables).ownersOf column ↔
      position ∈ (ofTables others).ownersOf column := fun position => by
    rw [mem_ownersOf, mem_ownersOf]
    exact hasColumn_of_rearranged h
  rw [Bool.eq_iff_iff, ← not_iff_not, Bool.not_eq_true, Bool.not_eq_true, isAmbiguous_eq_false,
    isAmbiguous_eq_false]
  simp only [howner]

/-- **The values of a joined row** do not depend on the order of columns. -/
theorem values_of_rearranged (hdot : ∀ t ∈ tables, ∀ column ∈ t.columns, '.' ∉ column.toList)
    (row : Row) :
    (ofTables tables).values tables row = (ofTables others).values others row := by
  have hambiguous := isAmbiguous_of_rearranged h
  generalize ofTables tables = s at hambiguous ⊢
  generalize ofTables others = s' at hambiguous ⊢
  refine Values.ext fun name => ?_
  rw [values, values, Values.get?_ofPairs, Values.get?_ofPairs, List.filter_flatMap,
    List.filter_flatMap]
  refine congrArg (fun l : List (String × String) => l.getLast?.map Prod.snd) ?_
  induction h generalizing row with
  | nil => rfl
  | cons htu _ ih =>
    obtain ⟨order, horder, rfl⟩ := htu
    obtain ⟨hfirst, hrest⟩ := List.forall_mem_cons.1 hdot
    cases row with
    | nil => rfl
    | cons index row =>
      rw [List.zip_cons_cons, List.zip_cons_cons, List.flatMap_cons, List.flatMap_cons, ih hrest]
      exact congrArg (· ++ _) (filter_fst_eq_of_perm
        (perm_tablePairs_rearrange hambiguous horder index) (nodup_tablePairs hfirst index) name)

end

end Scope

/-! ## Joins -/

namespace Join

/-- **The order of columns does not matter.**  If the columns of tables are put in another order,
    in the header and in each row alike, then a join fails with the same fault, or it makes the
    same rows, which have the same cells and the same values. -/
theorem execute_rearranged {tables others : List Table}
    (h : List.Forall₂ Table.Rearranged tables others)
    (hdot : ∀ t ∈ tables, ∀ column ∈ t.columns, '.' ∉ column.toList) (plan : Query.Plan) :
    let own := tables.take plan.names.length
    let own' := others.take plan.names.length
    (∃ e, execute plan tables = .error e ∧ execute plan others = .error e) ∨
      ∃ rows, execute plan tables = .ok ⟨own, rows⟩ ∧ execute plan others = .ok ⟨own', rows⟩ ∧
        (∀ row table column, (Result.mk own rows).value? row table column =
          (Result.mk own' rows).value? row table column) ∧
        ∀ row, (Scope.ofTables own).values own row = (Scope.ofTables own').values own' row := by
  intro own own'
  have hown : List.Forall₂ Table.Rearranged own own' := List.forall₂_take _ h
  rcases execute_of_rearranged h plan with herror | ⟨rows, hrun, hrun'⟩
  · exact Or.inl herror
  · refine Or.inr ⟨rows, hrun, hrun', value?_of_rearranged hown rows rows, fun row => ?_⟩
    exact Scope.values_of_rearranged hown (fun t ht => hdot t (List.mem_of_mem_take ht)) row

/-- Orders with the part in front of the number, and prices with the unit in front. -/
theorem execute_rearranged_prices :
    let orders : Table := ⟨"orders", ["id", "part"], [["1", "x"], ["2", "y"]], by decide, by decide⟩
    let prices : Table := ⟨"prices", ["part", "price", "unit"],
      [["y", "5", "kg"], ["x", "7", "g"]], by decide, by decide⟩
    let moved := [orders.rearrange [1, 0] (by decide), prices.rearrange [2, 0, 1] (by decide)]
    let plan : Query.Plan := ⟨"orders", [⟨"prices", [⟨0, "part", "part"⟩]⟩]⟩
    moved.map (·.rows) = [[["x", "1"], ["y", "2"]], [["kg", "y", "5"], ["g", "x", "7"]]] ∧
      execute plan moved = .ok ⟨moved, [[0, 1], [1, 0]]⟩ ∧
      (Result.mk moved [[0, 1], [1, 0]]).value? [0, 1] "prices" "price" = some "7" ∧
      ∀ row, (Scope.ofTables moved).values moved row =
        (Scope.ofTables [orders, prices]).values [orders, prices] row := by
  intro orders prices moved plan
  have hmoved : List.Forall₂ Table.Rearranged [orders, prices] moved :=
    .cons ⟨_, _, rfl⟩ (.cons ⟨_, _, rfl⟩ .nil)
  have hrun : execute plan [orders, prices] = .ok ⟨[orders, prices], [[0, 1], [1, 0]]⟩ := by
    decide +kernel
  obtain ⟨e, he, -⟩ | ⟨rows, hresult, hother, hvalue, hvalues⟩ :=
    execute_rearranged hmoved (by decide +kernel) plan
  · rw [hrun] at he
    cases he
  · cases hrun.symm.trans hresult
    exact ⟨by decide +kernel, hother, (hvalue _ _ _).symm.trans (by decide +kernel),
      fun row => (hvalues row).symm⟩

end Join

end Stencil
