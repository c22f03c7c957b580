/-
  What a name stands for among tables whose names can be told apart.

  * `Plain`: the tables have different names, and no name of a table or column has
    a dot;
  * `resolve_eq_qualified` and `resolve_eq_bare`: the names that stand for a column,
    with the name of its table and without it.
-/
import Mathlib.Data.List.TakeWhile
import Stencil.Proofs.Position
import Stencil.Scope

namespace Stencil

/-! ## Names with a dot -/

theorem dot_mem_qualifiedName (table column : String) :
    '.' ∈ (qualifiedName table column).toList := by
  simp [qualifiedName]

/-- A name is cut at its first dot. -/
theorem splitAtDot?_eq_some {name table column : String} :
    splitAtDot? name = some (table, column) ↔
      name = qualifiedName table column ∧ '.' ∉ table.toList := by
  constructor
  · intro h
    unfold splitAtDot? at h
    split at h
    · cases h
    · rename_i d rest hdrop
      cases h
      have hname := List.takeWhile_append_dropWhile (p := fun c => decide (c ≠ '.'))
        (l := name.toList)
      have hd := List.head?_dropWhile_not (fun c => decide (c ≠ '.')) name.toList
      rw [hdrop] at hname hd
      obtain rfl : d = '.' := by simpa using hd
      refine ⟨String.toList_inj.1 ?_, fun hmem => ?_⟩
      · simp only [qualifiedName, String.toList_append, String.toList_ofList, List.append_assoc]
        exact hname.symm
      · rw [String.toList_ofList] at hmem
        simpa using List.mem_takeWhile_imp hmem
  · rintro ⟨rfl, hdot⟩
    have hfront : ∀ c ∈ table.toList, decide (c ≠ '.') = true := by
      intro c hc
      rw [decide_eq_true_eq]
      rintro rfl
      exact hdot hc
    have hname : (qualifiedName table column).toList = table.toList ++ '.' :: column.toList := by
      simp [qualifiedName]
    rw [splitAtDot?, hname, List.dropWhile_append_of_pos hfront,
      List.takeWhile_append_of_pos hfront]
    simp

theorem splitAtDot?_eq_none {name : String} : splitAtDot? name = none ↔ '.' ∉ name.toList := by
  constructor
  · intro h
    unfold splitAtDot? at h
    split at h
    · rename_i hdrop
      intro hmem
      simpa using List.dropWhile_eq_nil_iff.1 hdrop _ hmem
    · cases h
  · intro h
    cases hsplit : splitAtDot? name with
    | none => rfl
    | some parts =>
      obtain ⟨table, column⟩ := parts
      obtain ⟨rfl, -⟩ := splitAtDot?_eq_some.1 hsplit
      exact absurd (dot_mem_qualifiedName _ _) h

theorem qualifiedName_inj {table column table' column' : String} (h : '.' ∉ table.toList)
    (h' : '.' ∉ table'.toList) (heq : qualifiedName table column = qualifiedName table' column') :
    table = table' ∧ column = column' := by
  have hsplit := splitAtDot?_eq_some.2 ⟨heq, h'⟩
  rw [splitAtDot?_eq_some.2 ⟨rfl, h⟩] at hsplit
  simpa using hsplit

/-- Tables whose names can be told apart: they differ, and neither they nor the names
    of the columns have a dot. -/
structure Plain (tables : List Table) : Prop where
  nodup_names : (tables.map (·.name)).Nodup
  dot_notMem_name : ∀ table ∈ tables, '.' ∉ table.name.toList
  dot_notMem_column : ∀ table ∈ tables, ∀ column ∈ table.columns, '.' ∉ column.toList

/-- A table is the only one of its name. -/
theorem Plain.position_inj {tables : List Table} (h : Plain tables) {i j : Nat} {t u : Table}
    (hi : tables[i]? = some t) (hj : tables[j]? = some u) (hname : t.name = u.name) : i = j := by
  have hget : ∀ {k : Nat} {v : Table}, tables[k]? = some v →
      (tables.map (·.name))[k]? = some v.name := fun hk => by simp [hk]
  exact (List.getElem?_inj (List.getElem?_eq_some_iff.1 (hget hi)).1 h.nodup_names).1
    ((hget hi).trans (hname ▸ (hget hj).symm))

namespace Scope

/-! ## The owners of a column -/

theorem filter_map_pair {l : List String} (hl : l.Nodup) (column : String) (position : Nat) :
    ((l.map fun c => (c, position)).filter fun e => e.1 = column).map Prod.snd =
      if column ∈ l then [position] else [] := by
  induction l with
  | nil => rfl
  | cons c l ih =>
    obtain ⟨hc, hl⟩ := List.nodup_cons.1 hl
    by_cases h : c = column
    · subst h
      simp [ih hl, hc]
    · simp [ih hl, h, Ne.symm h]

/-- The owners of a column are the positions of the tables that have it, in order. -/
theorem ownersOf_ofTables (tables : List Table) (column : String) :
    (ofTables tables).ownersOf column =
      (tables.zipIdx.filter fun e => column ∈ e.1.columns).map Prod.snd := by
  rw [ownersOf, ofTables, getD_groups]
  induction tables.zipIdx with
  | nil => rfl
  | cons e rest ih =>
    rw [List.flatMap_cons, List.filter_append, List.map_append, ih,
      filter_map_pair e.1.nodup_columns]
    by_cases h : column ∈ e.1.columns <;> simp [h]

theorem mem_ownersOf {tables : List Table} {column : String} {position : Nat} :
    position ∈ (ofTables tables).ownersOf column ↔
      ∃ table, tables[position]? = some table ∧ column ∈ table.columns := by
  simp only [ownersOf_ofTables, List.mem_map, List.mem_filter, List.mem_zipIdx_iff_getElem?,
    decide_eq_true_eq, Prod.exists]
  constructor
  · rintro ⟨table, i, ⟨hi, hc⟩, rfl⟩
    exact ⟨table, hi, hc⟩
  · rintro ⟨table, hi, hc⟩
    exact ⟨table, position, ⟨hi, hc⟩, rfl⟩

theorem nodup_ownersOf (tables : List Table) (column : String) :
    ((ofTables tables).ownersOf column).Nodup := by
  rw [ownersOf_ofTables]
  have hsnd : (tables.zipIdx.map Prod.snd).Nodup := by
    rw [List.zipIdx_map_snd]
    exact List.nodup_range'
  exact hsnd.sublist (List.filter_sublist.map _)

/-- The one owner of a column. -/
theorem ownersOf_eq_singleton {tables : List Table} {column : String} {position : Nat} :
    (ofTables tables).ownersOf column = [position] ↔
      position ∈ (ofTables tables).ownersOf column ∧
        ∀ other ∈ (ofTables tables).ownersOf column, other = position := by
  have hnodup := nodup_ownersOf tables column
  generalize (ofTables tables).ownersOf column = owners at hnodup ⊢
  constructor
  · rintro rfl
    simp
  · rintro ⟨hmem, hall⟩
    rw [List.eq_replicate_of_mem hall] at hnodup hmem ⊢
    have hle := List.nodup_replicate.1 hnodup
    have hpos := List.length_pos_of_mem hmem
    rw [List.length_replicate] at hpos
    obtain hone : owners.length = 1 := by omega
    rw [hone, List.replicate_one]

/-- A column is not ambiguous if all its owners are one. -/
theorem isAmbiguous_eq_false {tables : List Table} {column : String} :
    (ofTables tables).isAmbiguous column = false ↔
      ∀ i ∈ (ofTables tables).ownersOf column, ∀ j ∈ (ofTables tables).ownersOf column, i = j := by
  have hnodup := nodup_ownersOf tables column
  rw [isAmbiguous, decide_eq_false_iff_not]
  match (ofTables tables).ownersOf column, hnodup with
  | [], _ => simp
  | [i], _ => simp
  | i :: j :: rest, hnodup =>
    simp only [List.nodup_cons, List.mem_cons, not_or] at hnodup
    constructor
    · intro h
      simp at h
    · intro h
      exact absurd (h i (by simp) j (by simp)) hnodup.1.1

/-! ## Resolution -/

theorem locate?_eq_some {tables : List Table} (h : Plain tables) {name column : String}
    {position index : Nat} :
    (ofTables tables).locate? name column = some (position, index) ↔
      ∃ table, tables[position]? = some table ∧ table.name = name ∧
        table.columns[index]? = some column := by
  simp only [locate?, ofTables, Option.bind_eq_bind, Option.bind_eq_some_iff, Option.pure_def,
    Option.some.injEq, Prod.mk.injEq, List.getElem?_map, Option.map_eq_some_iff,
    idxOf?_eq_some_iff_getElem? h.nodup_names]
  constructor
  · rintro ⟨_, ⟨table, htable, hname⟩, _, ⟨_, htable', rfl⟩, _, hindex, rfl, rfl⟩
    rw [htable] at htable'
    cases htable'
    exact ⟨table, htable, hname, (idxOf?_eq_some_iff_getElem? table.nodup_columns).1 hindex⟩
  · rintro ⟨table, htable, hname, hindex⟩
    exact ⟨position, ⟨table, htable, hname⟩, _, ⟨table, htable, rfl⟩, index,
      (idxOf?_eq_some_iff_getElem? table.nodup_columns).2 hindex, rfl, rfl⟩

/-- **The names of a column and its table.** -/
theorem resolve_eq_qualified {tables : List Table} (h : Plain tables) {name : String}
    {position index : Nat} :
    (ofTables tables).resolve name = .qualified position index ↔
      ∃ table column, tables[position]? = some table ∧ table.columns[index]? = some column ∧
        name = qualifiedName table.name column := by
  constructor
  · intro hname
    unfold resolve at hname
    split at hname
    · rename_i first second hsplit
      split at hname
      · rename_i hlocate
        cases hname
        obtain ⟨rfl, -⟩ := splitAtDot?_eq_some.1 hsplit
        obtain ⟨table, htable, rfl, hindex⟩ := (locate?_eq_some h).1 hlocate
        exact ⟨table, second, htable, hindex, rfl⟩
      · cases hname
    · unfold resolveBare at hname
      split at hname
      · cases hname
      · split at hname <;> cases hname
      · cases hname
  · rintro ⟨table, column, htable, hindex, rfl⟩
    have hdot := h.dot_notMem_name table (List.mem_of_getElem? htable)
    have hlocate := (locate?_eq_some h).2 ⟨table, htable, rfl, hindex⟩
    simp only [resolve, splitAtDot?_eq_some.2 ⟨rfl, hdot⟩, hlocate]

/-- **The names of a column that one table has.** -/
theorem resolve_eq_bare {tables : List Table} (h : Plain tables) {name : String}
    {position index : Nat} :
    (ofTables tables).resolve name = .bare position index ↔
      (∃ table, tables[position]? = some table ∧ table.columns[index]? = some name) ∧
        ∀ (other : Nat) (table : Table), tables[other]? = some table → name ∈ table.columns →
          other = position := by
  have howner : ∀ {table : Table}, tables[position]? = some table →
      ((ofTables tables).columns.getD position []).idxOf? name = table.columns.idxOf? name :=
    fun ht => by simp [ofTables, ht]
  constructor
  · intro hbare
    unfold resolve at hbare
    split at hbare
    · split at hbare <;> cases hbare
    · unfold resolveBare at hbare
      split at hbare
      · cases hbare
      · rename_i hone
        split at hbare
        · rename_i hindex
          cases hbare
          obtain ⟨hmem, hall⟩ := ownersOf_eq_singleton.1 hone
          obtain ⟨table, htable, -⟩ := mem_ownersOf.1 hmem
          rw [howner htable, idxOf?_eq_some_iff_getElem? table.nodup_columns] at hindex
          exact ⟨⟨table, htable, hindex⟩,
            fun other table ht hname => hall other (mem_ownersOf.2 ⟨table, ht, hname⟩)⟩
        · cases hbare
      · cases hbare
  · rintro ⟨⟨table, htable, hindex⟩, hall⟩
    have hname := List.mem_of_getElem? hindex
    have hdot := h.dot_notMem_column table (List.mem_of_getElem? htable) name hname
    have hone : (ofTables tables).ownersOf name = [position] := by
      refine ownersOf_eq_singleton.2 ⟨mem_ownersOf.2 ⟨table, htable, hname⟩, fun other hother => ?_⟩
      obtain ⟨table', ht, hname'⟩ := mem_ownersOf.1 hother
      exact hall other table' ht hname'
    rw [resolve, splitAtDot?_eq_none.2 hdot]
    simp only [resolveBare, hone, howner htable,
      (idxOf?_eq_some_iff_getElem? table.nodup_columns).2 hindex]

end Scope

end Stencil
