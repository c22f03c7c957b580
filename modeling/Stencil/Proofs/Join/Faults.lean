/-
  What a join does with any plan and any tables, also with a plan that no query says.

  * `faults`: all that can be wrong with a plan and its tables, in the order in which it is
    looked for: the tables by name, and then the keys of each join;
  * `error?_bind_plan`: binding fails with the first of these, and succeeds if there is none;
  * `InRange`: joined rows with one number for each of the first tables, each the number of a
    row; `inRange_rowsAfter` is that the rows after any steps are such rows;
  * `execute_eq_first_fault`: a join fails with the first fault.  If there is none, it succeeds,
    and all that it looks up by number is there (`Step.InBounds`).
-/
import Stencil.Proofs.Join.NestedLoop
import Stencil.Proofs.Table

namespace Stencil.Join

open Query

/-! ## Faults in order -/

/-- What is wrong with the table at a position, which should have a name. -/
def tableFaults (tables : List Table) (name : String) (position : Nat) : List Fault :=
  if ∃ table ∈ tables[position]?, table.name = name then [] else [.missingTable name]

/-- What is wrong with a column of the table at a position. -/
def columnFaults (tables : List Table) (position : Nat) (column : String) : List Fault :=
  match tables[position]? with
  | none => []
  | some table => if column ∈ table.columns then [] else [.unknownColumn table.name column]

/-- What is wrong with a key of the join with number `step`, the first being that with number
    zero. -/
def keyFaults (tables : List Table) (step : Nat) (join : Query.Join) (key : Key) : List Fault :=
  if step < key.foreignTable then
    [.internal ("key of join `" ++ join.table ++ "` refers to table position " ++
      toString key.foreignTable ++ ", which is not joined yet")]
  else
    columnFaults tables key.foreignTable key.foreignColumn ++
      columnFaults tables (step + 1) key.localColumn

/-- What is wrong with the tables for names, of which the first is that for the given position. -/
def nameFaults (tables : List Table) (names : List String) (position : Nat) : List Fault :=
  (names.zipIdx position).flatMap fun e => tableFaults tables e.1 e.2

/-- What is wrong with joins, of which the first has the given number. -/
def joinFaults (tables : List Table) (joins : List Query.Join) (step : Nat) : List Fault :=
  (joins.zipIdx step).flatMap fun e => e.1.keys.flatMap (keyFaults tables e.2 e.1)

/-- What is wrong with a plan and its tables. -/
def faults (plan : Plan) (tables : List Table) : List Fault :=
  nameFaults tables plan.names 0 ++ joinFaults tables plan.joins 0

/-! ## The first fault -/

theorem error?_supplied (joined : List Table) (names : List String) (tables : List Table) :
    error? (supplied names tables) = (nameFaults (joined ++ tables) names joined.length).head? := by
  induction names generalizing joined tables with
  | nil => rfl
  | cons name names ih =>
    rw [nameFaults, List.zipIdx_cons, List.flatMap_cons, List.head?_append, ← nameFaults]
    cases tables with
    | nil => simp [supplied, tableFaults, error?]
    | cons table tables =>
      have hfirst : tableFaults (joined ++ table :: tables) name joined.length =
          if table.name = name then [] else [.missingTable name] := by
        simp [tableFaults]
      have hrest := ih (joined ++ [table]) tables
      rw [List.append_assoc, List.singleton_append, List.length_append, List.length_singleton]
        at hrest
      rw [hfirst, supplied]
      by_cases hname : table.name = name
      · rw [if_pos hname, if_pos hname, error?_map, hrest]
        rfl
      · rw [if_neg hname, if_neg hname]
        rfl

theorem error?_column (table : Table) (name : String) :
    error? (column table name) =
      (if name ∈ table.columns then []
        else [.unknownColumn table.name name] : List Fault).head? := by
  unfold column
  cases hindex : table.columnIndex? name with
  | none =>
    have hname : name ∉ table.columns := List.idxOf?_eq_none_iff.1 hindex
    rw [if_neg hname]
    rfl
  | some index =>
    rw [if_pos (exists_columnIndex?_iff.1 ⟨index, hindex⟩)]
    rfl

theorem columnFaults_of_getElem? {tables : List Table} {position : Nat} {table : Table}
    (h : tables[position]? = some table) (column : String) :
    columnFaults tables position column =
      if column ∈ table.columns then [] else [.unknownColumn table.name column] := by
  simp only [columnFaults, h]

/-- A key fails with the first of its faults, whatever tables follow. -/
theorem error?_bindKey {joined all : List Table} {table : Table} {step : Nat}
    (hlength : joined.length = step + 1) (hall : joined ++ [table] <+: all) (join : Query.Join)
    (key : Key) :
    error? (bindKey joined table join key) = (keyFaults all step join key).head? := by
  obtain ⟨rest, rfl⟩ := hall
  unfold bindKey keyFaults
  by_cases hstep : step < key.foreignTable
  · rw [List.getElem?_eq_none (by omega), if_pos hstep]
    rfl
  · have hlt : key.foreignTable < joined.length := by omega
    have hget := List.getElem?_eq_getElem hlt
    have hforeign : (joined ++ [table] ++ rest)[key.foreignTable]? = joined[key.foreignTable]? := by
      rw [List.append_assoc, List.getElem?_append_left hlt]
    have hlocal : (joined ++ [table] ++ rest)[step + 1]? = some table := by
      simp [← hlength]
    rw [if_neg hstep, columnFaults_of_getElem? (hforeign.trans hget),
      columnFaults_of_getElem? hlocal, List.head?_append, ← error?_column, ← error?_column, hget]
    exact error?_bind_of fun _ _ => error?_bind_ok _ _

theorem error?_bindJoins {joined tables all : List Table} {joins : List Query.Join} {step : Nat}
    (hlength : joined.length = step + 1) (hjoins : joins.length ≤ tables.length)
    (hall : joined ++ tables <+: all) :
    error? (bindJoins joined joins tables) = (joinFaults all joins step).head? := by
  induction joins generalizing joined tables step with
  | nil =>
    rw [bindJoins]
    rfl
  | cons join joins ih =>
    cases tables with
    | nil => simp at hjoins
    | cons table tables =>
      have hfirst : joined ++ [table] <+: all :=
        (List.prefix_append_right_inj joined |>.2 ⟨tables, rfl⟩).trans hall
      have hrest := @ih (joined ++ [table]) tables (step + 1) (by simp [hlength])
        (by simpa using hjoins) (by simpa using hall)
      have hkeys : error? (join.keys.mapM (bindKey joined table join)) =
          (join.keys.flatMap (keyFaults all step join)).head? := by
        rw [error?_mapM, List.head?_flatMap]
        exact congrArg (fun f => join.keys.findSome? f)
          (funext fun key => error?_bindKey hlength hfirst join key)
      rw [bindJoins, joinFaults, List.zipIdx_cons, List.flatMap_cons, List.head?_append,
        ← joinFaults, ← hkeys, ← hrest]
      exact error?_bind_of fun _ _ => error?_bind_ok _ _

/-- There is a table for each name if nothing is wrong with the tables. -/
theorem length_le_of_nameFaults {tables : List Table} {names : List String}
    (h : nameFaults tables names 0 = []) : names.length ≤ tables.length := by
  have herror := error?_supplied [] names tables
  rw [List.length_nil, List.nil_append, h] at herror
  obtain ⟨found, hfound⟩ := exists_ok_of_error? herror
  obtain ⟨hfront, hnames⟩ := supplied_eq_ok.1 hfound
  rw [← hnames, List.length_map]
  exact hfront.length_le

/-- **Binding fails with the first fault**, and succeeds if there is none. -/
theorem error?_bind_plan (plan : Plan) (tables : List Table) :
    error? (bind plan tables) = (faults plan tables).head? := by
  have hsupplied := error?_supplied [] plan.names tables
  rw [List.length_nil, List.nil_append] at hsupplied
  rw [faults, List.head?_append, ← hsupplied]
  refine error?_bind_of fun found hfound => ?_
  obtain ⟨hfront, hnames⟩ := supplied_eq_ok.1 hfound
  have hlength : found.length = plan.joins.length + 1 := by
    rw [← List.length_map (·.name), hnames, Plan.names, List.length_cons, List.length_map]
  obtain ⟨base, rest, rfl⟩ : ∃ base rest, found = base :: rest :=
    List.exists_cons_of_length_eq_add_one hlength
  have hjoins := @error?_bindJoins [base] rest tables plan.joins 0 rfl
    (Nat.le_of_eq (Nat.succ.inj hlength).symm) hfront
  rw [← hjoins]
  exact error?_bind_ok _ _

/-! ## Numbers in range -/

/-- Joined rows of the first `n` tables: each has one number for each table, that of a row. -/
def InRange (tables : List Table) (n : Nat) (rows : List Row) : Prop :=
  ∀ row ∈ rows, row.length = n ∧ ∀ (i index : Nat), row[i]? = some index →
    ∃ table, tables[i]? = some table ∧ index < table.size

theorem inRange_baseRows (tables : List Table) : InRange tables 1 (baseRows tables) := by
  cases tables with
  | nil => exact nofun
  | cons table tables =>
    intro row hrow
    obtain ⟨index, hindex, rfl⟩ := List.mem_map.1 hrow
    refine ⟨rfl, fun i j hj => ?_⟩
    obtain ⟨rfl, rfl⟩ : i = 0 ∧ index = j := by simpa [List.getElem?_singleton] using hj
    exact ⟨table, rfl, List.mem_range.1 hindex⟩

/-- A step adds a number of a row of its own table. -/
theorem InRange.run {tables : List Table} {n : Nat} {rows : List Row} (h : InRange tables n rows)
    {step : Step} (hstep : tables[n]? = some step.table) :
    InRange tables (n + 1) (step.run tables rows) := by
  rw [Step.run_eq]
  intro row hrow
  obtain ⟨front, hfront, hrow⟩ := List.mem_flatMap.1 hrow
  obtain ⟨found, hfound, rfl⟩ := List.mem_map.1 hrow
  obtain ⟨hlength, hrange⟩ := h front hfront
  refine ⟨by simp [hlength], fun i index hi => ?_⟩
  by_cases hlt : i < front.length
  · rw [List.getElem?_append_left hlt] at hi
    exact hrange i index hi
  · rw [List.getElem?_append_right (by omega)] at hi
    obtain ⟨hlast, rfl⟩ : i - front.length = 0 ∧ found = index := by
      simpa [List.getElem?_singleton] using hi
    have hi : i = n := by omega
    exact ⟨step.table, hi ▸ hstep, List.mem_range.1 (List.mem_filter.1 hfound).1⟩

theorem InRange.foldl_run {tables : List Table} {steps : List Step} {n : Nat} {rows : List Row}
    (h : InRange tables n rows)
    (hsteps : ∀ (k : Nat) (step : Step), steps[k]? = some step →
      tables[n + k]? = some step.table) :
    InRange tables (n + steps.length)
      (steps.foldl (fun rows step => step.run tables rows) rows) := by
  induction steps generalizing n rows with
  | nil => exact h
  | cons step steps ih =>
    have hrest := ih (h.run (hsteps 0 step rfl)) fun k other hk => by
      rw [Nat.add_assoc, Nat.add_comm 1]
      exact hsteps (k + 1) other hk
    rwa [List.length_cons, Nat.add_comm steps.length, ← Nat.add_assoc]

/-- **The rows after any steps are in range**, if the steps hold the tables in order. -/
theorem inRange_rowsAfter {tables : List Table} {steps : List Step}
    (hsteps : ∀ (k : Nat) (step : Step), steps[k]? = some step →
      tables[k + 1]? = some step.table) (k : Nat) (hk : k ≤ steps.length) :
    InRange tables (k + 1) (rowsAfter tables (steps.take k)) := by
  have htake : ∀ (i : Nat) (step : Step), (steps.take k)[i]? = some step →
      tables[1 + i]? = some step.table := fun i step hi => by
    rw [List.getElem?_take, Option.ite_none_right_eq_some] at hi
    rw [Nat.add_comm]
    exact hsteps i step hi.2
  have h := (inRange_baseRows tables).foldl_run htake
  rwa [List.length_take_of_le hk, Nat.add_comm] at h

/-! ## Lookups -/

/-- All that a step looks up by number for joined rows is there: on the one side of each link
    the table, the row and the cell, and on the other side the cell of each row of its table. -/
structure Step.InBounds (tables : List Table) (rows : List Row) (step : Step) : Prop where
  foreign : ∀ row ∈ rows, ∀ link ∈ step.links, ∃ table index text,
    tables[link.foreignTable]? = some table ∧ row[link.foreignTable]? = some index ∧
      table.cell? index link.foreignColumn = some text
  own : ∀ index < step.table.size, ∀ link ∈ step.links,
    ∃ text, step.table.cell? index link.localColumn = some text

/-- The number of a column is that of a cell in each row. -/
theorem exists_cell? {table : Table} {name : String} {index column : Nat}
    (hcolumn : table.columnIndex? name = some column) (hindex : index < table.size) :
    ∃ text, table.cell? index column = some text := by
  obtain ⟨text, htext⟩ := Table.exists_value? hindex (exists_columnIndex?_iff.1 ⟨column, hcolumn⟩)
  refine ⟨text, ?_⟩
  rw [Table.value?, hcolumn] at htext
  exact htext

/-- A bound step holds its table and links that look back. -/
theorem BindsAll.exists_join {joined tables : List Table} {joins : List Query.Join}
    {steps : List Step} (h : BindsAll joined joins tables steps) {k : Nat} {step : Step}
    (hk : steps[k]? = some step) :
    tables[k]? = some step.table ∧ ∃ join : Query.Join,
      List.Forall₂ (Binds (joined ++ tables.take k) step.table) join.keys step.links := by
  induction h generalizing k with
  | nil => simp at hk
  | @cons joined join joins table tables links steps hlinks _ ih =>
    cases k with
    | zero =>
      cases hk
      exact ⟨rfl, join, by simpa using hlinks⟩
    | succ k =>
      obtain ⟨htable, other, hother⟩ := ih hk
      exact ⟨htable, other, by simpa using hother⟩

theorem BindsAll.length_eq {joined tables : List Table} {joins : List Query.Join}
    {steps : List Step} (h : BindsAll joined joins tables steps) :
    steps.length = joins.length := by
  induction h with
  | nil => rfl
  | cons _ _ ih => rw [List.length_cons, List.length_cons, ih]

section
variable {plan : Plan} {tables own : List Table} {steps : List Step}
  (h : bind plan tables = .ok (own, steps))
include h

/-- There is a step for each name but the first one. -/
theorem length_of_bind : steps.length + 1 = plan.names.length := by
  obtain ⟨-, -, hbinds⟩ := bind_plan_eq_ok.1 h
  rw [hbinds.length_eq, Plan.names, List.length_cons, List.length_map]

theorem table_of_bind {k : Nat} {step : Step} (hk : steps[k]? = some step) :
    own[k + 1]? = some step.table := by
  obtain ⟨-, -, hbinds⟩ := bind_plan_eq_ok.1 h
  rw [← (hbinds.exists_join hk).1, List.getElem?_drop, Nat.add_comm]

/-- **All that a bound step looks up is there.** -/
theorem inBounds_of_bind {k : Nat} {step : Step} (hk : steps[k]? = some step) :
    step.InBounds own (rowsAfter own (steps.take k)) := by
  obtain ⟨-, -, hbinds⟩ := bind_plan_eq_ok.1 h
  have hrange := inRange_rowsAfter (fun k step => table_of_bind h) k
    (Nat.le_of_lt (List.getElem?_eq_some_iff.1 hk).1)
  obtain ⟨-, join, hlinks⟩ := hbinds.exists_join hk
  have hjoined : own.take 1 ++ (own.drop 1).take k = own.take (k + 1) := by
    rw [Nat.add_comm, List.take_add]
  rw [hjoined] at hlinks
  refine ⟨fun row hrow link hlink => ?_, fun index hindex link hlink => ?_⟩
  · obtain ⟨hlength, hindex⟩ := hrange row hrow
    obtain ⟨key, -, hbinds⟩ := exists_mem_of_forall₂ hlinks link hlink
    obtain ⟨foreign, hforeign, hcolumn⟩ := hbinds.foreignColumn
    rw [List.getElem?_take, Option.ite_none_right_eq_some, ← hbinds.foreignTable] at hforeign
    obtain ⟨hlt, hforeign⟩ := hforeign
    have hget := List.getElem?_eq_getElem (hlength ▸ hlt)
    obtain ⟨table, htable, hsize⟩ := hindex _ _ hget
    cases hforeign.symm.trans htable
    obtain ⟨text, htext⟩ := exists_cell? hcolumn hsize
    exact ⟨foreign, _, text, hforeign, hget, htext⟩
  · obtain ⟨key, -, hbinds⟩ := exists_mem_of_forall₂ hlinks link hlink
    exact exists_cell? hbinds.localColumn hindex

end

/-! ## Outcomes -/

/-- **A join fails with the first fault of its plan and tables.**  If there is none, then it
    succeeds with the plan's own tables and rows in range.  Whatever is looked up by number on
    the way is there: if nothing is wrong with the tables, those at all positions of the plan,
    and in a join that succeeds the cells of each step. -/
theorem execute_eq_first_fault (plan : Plan) (tables : List Table) :
    ((∃ e, (faults plan tables).head? = some e ∧ execute plan tables = .error e) ∨
      ∃ own steps rows, faults plan tables = [] ∧ own = tables.take plan.names.length ∧
        bind plan tables = .ok (own, steps) ∧ execute plan tables = .ok ⟨own, rows⟩ ∧
        InRange own plan.names.length rows ∧
        ∀ (k : Nat) (step : Step), steps[k]? = some step →
          own[k + 1]? = some step.table ∧ step.InBounds own (rowsAfter own (steps.take k))) ∧
      (nameFaults tables plan.names 0 = [] → plan.names.length ≤ tables.length) := by
  refine ⟨?_, length_le_of_nameFaults⟩
  have herror := error?_bind_plan plan tables
  cases hbind : bind plan tables with
  | error e =>
    rw [hbind] at herror
    exact Or.inl ⟨e, herror.symm, by rw [execute, hbind]; rfl⟩
  | ok bound =>
    obtain ⟨own, steps⟩ := bound
    rw [hbind] at herror
    obtain ⟨hown, -, -⟩ := execute_of_bind hbind
    have hrun : execute plan tables = .ok ⟨own, rowsAfter own steps⟩ := by rw [execute, hbind]; rfl
    refine Or.inr ⟨own, steps, _, List.head?_eq_none_iff.1 herror.symm, hown, rfl, hrun, ?_,
      fun k step hk => ⟨table_of_bind hbind hk, inBounds_of_bind hbind hk⟩⟩
    have hrange := inRange_rowsAfter (fun k step => table_of_bind hbind) steps.length
      (Nat.le_refl _)
    rwa [List.take_length, length_of_bind hbind] at hrange

/-- A plan that no query says: the first join looks ahead, and the second one for a column that
    is not there.  The same plan with both mended joins two rows. -/
theorem execute_looking_ahead :
    let a : Table := ⟨"a", ["x"], [["1"], ["2"]], by decide, by decide⟩
    let b : Table := ⟨"b", ["y"], [["2"], ["1"]], by decide, by decide⟩
    let c : Table := ⟨"c", ["z"], [["1"], ["2"]], by decide, by decide⟩
    let ahead : Plan := ⟨"a", [⟨"b", [⟨2, "z", "y"⟩]⟩, ⟨"c", [⟨0, "w", "z"⟩]⟩]⟩
    let mended : Plan := ⟨"a", [⟨"b", [⟨0, "x", "y"⟩]⟩, ⟨"c", [⟨1, "y", "z"⟩]⟩]⟩
    execute ahead [a, b, c] = .error (.internal
        "key of join `b` refers to table position 2, which is not joined yet") ∧
      execute ahead [a, c] = .error (.missingTable "b") ∧
      ∃ result, execute mended [a, b, c] = .ok result ∧ InRange [a, b, c] 3 result.rows := by
  intro a b c ahead mended
  refine ⟨?_, ?_, ?_⟩
  · obtain ⟨⟨e, he, h⟩ | ⟨own, steps, rows, h, -⟩, -⟩ := execute_eq_first_fault ahead [a, b, c]
    · cases he
      exact h
    · cases h
  · obtain ⟨⟨e, he, h⟩ | ⟨own, steps, rows, h, -⟩, -⟩ := execute_eq_first_fault ahead [a, c]
    · cases he
      exact h
    · cases h
  · obtain ⟨⟨e, he, h⟩ | ⟨own, steps, rows, h, rfl, -, hrun, hrange, -⟩, -⟩ :=
      execute_eq_first_fault mended [a, b, c]
    · cases he
    · exact ⟨_, hrun, hrange⟩

end Stencil.Join
