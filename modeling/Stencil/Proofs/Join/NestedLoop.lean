/-
  A join gives the rows that nested loops over its tables give.

  * `nestedLoop` goes through all choices of a row from each table and keeps those
    that fit the keys of the plan (`Fits`);
  * `Step.run_eq`: a step finds the rows of its table through an index, and these
    are the rows that a search of the whole table finds;
  * `execute_eq_nestedLoop`: the rows of a join are those of the nested loops, each
    once and in lexicographic order.
-/
import Mathlib.Data.List.Basic
import Stencil.Join.Rows
import Stencil.Proofs.Join.Binding

namespace Stencil.Join

open Query

/-! ## Nested loops -/

/-- All choices of a row from each table, in lexicographic order. -/
def tuples : List Table → List Row
  | [] => [[]]
  | table :: tables =>
    (List.range table.size).flatMap fun index => (tuples tables).map (index :: ·)

/-- The cell of a joined row in a column of the table at a position. -/
def cellAt? (tables : List Table) (row : Row) (position : Nat) (column : String) :
    Option String := do
  let table ← tables[position]?
  let index ← row[position]?
  table.value? index column

theorem cellAt?_eq_some {tables : List Table} {row : Row} {position : Nat} {column text : String} :
    cellAt? tables row position column = some text ↔
      ∃ table index, tables[position]? = some table ∧ row[position]? = some index ∧
        table.value? index column = some text := by
  simp only [cellAt?, Option.bind_eq_bind, Option.bind_eq_some_iff]
  constructor
  · rintro ⟨table, htable, index, hindex, hvalue⟩
    exact ⟨table, index, htable, hindex, hvalue⟩
  · rintro ⟨table, index, htable, hindex, hvalue⟩
    exact ⟨table, htable, index, hindex, hvalue⟩

/-- Two cells that are there and hold the same text. -/
def SameCell (a b : Option String) : Prop :=
  ∃ text, a = some text ∧ b = some text

instance (a b : Option String) : Decidable (SameCell a b) :=
  decidable_of_iff (a.isSome ∧ a = b) <| by
    cases a <;> cases b <;> simp [SameCell, eq_comm]

/-- A joined row holds the same cells on both sides of every key of the joins, of
    which the first is that of the table at `position`. -/
def Fits (tables : List Table) (joins : List Query.Join) (position : Nat) (row : Row) : Prop :=
  ∀ entry ∈ joins.zipIdx position, ∀ key ∈ entry.1.keys,
    SameCell (cellAt? tables row key.foreignTable key.foreignColumn)
      (cellAt? tables row entry.2 key.localColumn)

instance (tables : List Table) (joins : List Query.Join) (position : Nat) :
    DecidablePred (Fits tables joins position) :=
  fun _ => inferInstanceAs (Decidable (∀ _ ∈ _, ∀ _ ∈ _, SameCell _ _))

/-- The joined rows that nested loops over the tables of a plan find. -/
def nestedLoop (plan : Plan) (tables : List Table) : List Row :=
  (tuples tables).filter (Fits tables plan.joins 1)

/-- A choice has one row in range for each table. -/
theorem mem_tuples {tables : List Table} {row : Row} :
    row ∈ tuples tables ↔
      row.length = tables.length ∧ ∀ (i index : Nat), row[i]? = some index →
        ∃ table, tables[i]? = some table ∧ index < table.size := by
  induction tables generalizing row with
  | nil =>
    simp only [tuples, List.mem_singleton, List.length_nil, List.length_eq_zero_iff]
    refine ⟨fun h => ⟨h, fun i index hi => ?_⟩, fun h => h.1⟩
    simp [h] at hi
  | cons table tables ih =>
    simp only [tuples, List.mem_flatMap, List.mem_range, List.mem_map, ih]
    constructor
    · rintro ⟨index, hindex, rest, ⟨hlen, hrest⟩, rfl⟩
      refine ⟨by simp [hlen], fun i j hi => ?_⟩
      rcases i with _ | i
      · cases hi
        exact ⟨table, rfl, hindex⟩
      · exact hrest i j hi
    · rintro ⟨hlen, hrow⟩
      cases row with
      | nil => simp at hlen
      | cons index rest =>
        obtain ⟨_, ht, hindex⟩ := hrow 0 index rfl
        cases ht
        exact ⟨index, hindex, rest, ⟨by simpa using hlen, fun i => hrow (i + 1)⟩, rfl⟩

/-- The choices stand in lexicographic order, and no two of them are the same. -/
theorem pairwise_tuples (tables : List Table) : (tuples tables).Pairwise (· < ·) := by
  induction tables with
  | nil => simp [tuples]
  | cons table tables ih =>
    rw [tuples, List.pairwise_flatMap]
    refine ⟨fun index _ => ?_, ?_⟩
    · rw [List.pairwise_map]
      exact ih.imp fun h => List.cons_lt_cons_iff.2 (Or.inr ⟨rfl, h⟩)
    · refine List.pairwise_lt_range.imp fun {i j} hij => ?_
      simp only [List.mem_map]
      rintro _ ⟨r, -, rfl⟩ _ ⟨r', -, rfl⟩
      exact List.cons_lt_cons_iff.2 (Or.inl hij)

theorem fits_cons {tables : List Table} {join : Query.Join} {joins : List Query.Join}
    {position : Nat} {row : Row} :
    Fits tables (join :: joins) position row ↔
      (∀ key ∈ join.keys, SameCell (cellAt? tables row key.foreignTable key.foreignColumn)
        (cellAt? tables row position key.localColumn)) ∧ Fits tables joins (position + 1) row := by
  simp only [Fits, List.zipIdx_cons, List.forall_mem_cons]

/-- The joins of a plan by their numbers. -/
theorem fits_iff {tables : List Table} {joins : List Query.Join} {position : Nat} {row : Row} :
    Fits tables joins position row ↔
      ∀ (s : Nat) (join : Query.Join), joins[s]? = some join → ∀ key ∈ join.keys,
        SameCell (cellAt? tables row key.foreignTable key.foreignColumn)
          (cellAt? tables row (position + s) key.localColumn) := by
  constructor
  · intro h s join hs
    refine h (join, position + s) (List.mem_zipIdx_iff_le_and_getElem?_sub.2 ?_)
    exact ⟨Nat.le_add_right .., by rwa [Nat.add_sub_cancel_left]⟩
  · intro h entry hentry
    obtain ⟨hle, hs⟩ := List.mem_zipIdx_iff_le_and_getElem?_sub.1 hentry
    have := h (entry.2 - position) entry.1 hs
    rwa [Nat.add_sub_cancel' hle] at this

/-- Tables behind the last one that a row has a number for do not count. -/
theorem cellAt?_take {tables : List Table} {row : Row} {n : Nat} (h : row.length ≤ n)
    (position : Nat) (column : String) :
    cellAt? (tables.take n) row position column = cellAt? tables row position column := by
  unfold cellAt?
  by_cases hp : position < n
  · rw [List.getElem?_take_of_lt hp]
  · have : row[position]? = none := List.getElem?_eq_none (by omega)
    rw [this]
    cases tables[position]? <;> cases (tables.take n)[position]? <;> rfl

/-! ## Steps -/

/-- The cell that a joined row offers to a link. -/
def foreignCell? (tables : List Table) (row : Row) (link : Link) : Option String := do
  let table ← tables[link.foreignTable]?
  let index ← row[link.foreignTable]?
  table.cell? index link.foreignColumn

/-- A row of a step's table belongs to a joined row: each link finds the same cell on
    both sides. -/
def Step.Accepts (tables : List Table) (step : Step) (row : Row) (index : Nat) : Prop :=
  ∀ link ∈ step.links,
    SameCell (foreignCell? tables row link) (step.table.cell? index link.localColumn)

instance (tables : List Table) (step : Step) (row : Row) :
    DecidablePred (step.Accepts tables row) :=
  fun _ => inferInstanceAs (Decidable (∀ _ ∈ _, SameCell _ _))

/-- Two lists of cells that are all there are equal if they are equal place by place. -/
theorem exists_mapM_eq_some {α : Type} {f g : α → Option String} {l : List α} :
    (∃ cells, l.mapM f = some cells ∧ l.mapM g = some cells) ↔ ∀ a ∈ l, SameCell (f a) (g a) := by
  simp only [mapM_eq_some]
  induction l with
  | nil => simp
  | cons a l ih =>
    rw [List.forall_mem_cons, ← ih]
    constructor
    · rintro ⟨_, _ | ⟨hf, hfs⟩, _ | ⟨hg, hgs⟩⟩
      exact ⟨⟨_, hf, hg⟩, _, hfs, hgs⟩
    · rintro ⟨⟨text, hf, hg⟩, cells, hfs, hgs⟩
      exact ⟨text :: cells, .cons hf hfs, .cons hg hgs⟩

theorem filter_filterMap_pair {κ : Type} [DecidableEq κ] (f : Nat → Option κ) (key : κ)
    (l : List Nat) :
    ((l.filterMap fun i => (f i).map (·, i)).filter fun e => e.1 = key).map Prod.snd =
      l.filter fun i => f i = some key := by
  induction l with
  | nil => rfl
  | cons i l ih =>
    cases h : f i with
    | none => simp [h, ih]
    | some k => by_cases hk : k = key <;> simp [h, hk, ih]

/-- **The index finds what a search of the table finds**: the rows that ask for the
    given cells, in order. -/
theorem getD_index (step : Step) (key : List String) :
    step.index.getD key [] =
      (List.range step.table.size).filter fun index => localKey? step index = some key := by
  rw [Step.index, getD_groups, filter_filterMap_pair]

/-- **A step extends each joined row by the rows that belong to it**, in order. -/
theorem Step.run_eq (tables : List Table) (step : Step) (rows : List Row) :
    step.run tables rows = rows.flatMap fun row =>
      ((List.range step.table.size).filter (step.Accepts tables row)).map (row ++ [·]) := by
  refine List.flatMap_congr fun row _ => ?_
  have haccepts : ∀ index, step.Accepts tables row index ↔
      ∃ key, foreignKey? tables step.links row = some key ∧ localKey? step index = some key :=
    fun index => exists_mapM_eq_some.symm
  cases hkey : foreignKey? tables step.links row with
  | none => simp [haccepts, hkey]
  | some key =>
    simp only [getD_index]
    congr 1
    refine List.filter_congr fun index _ => ?_
    simp [haccepts, hkey]

/-! ## Runs -/

/-- What follows the elements that a filter drops is dropped. -/
theorem flatMap_filter {α β : Type} (p : α → Bool) (f : α → List β) (l : List α) :
    (l.filter p).flatMap f = l.flatMap fun a => if p a then f a else [] := by
  induction l with
  | nil => rfl
  | cons a l ih => by_cases h : p a <;> simp [h, ih]

/-- The cell of a link is that of the key that it was made for. -/
theorem Binds.foreignCell {joined : List Table} {table : Table} {key : Key} {link : Link}
    (h : Binds joined table key link) {tables : List Table} (ht : joined <+: tables) (row : Row) :
    foreignCell? tables row link = cellAt? tables row key.foreignTable key.foreignColumn := by
  obtain ⟨foreign, hforeign, hcolumn⟩ := h.foreignColumn
  have hget : tables[key.foreignTable]? = some foreign := by
    obtain ⟨rest, rfl⟩ := ht
    rwa [List.getElem?_append_left (List.getElem?_eq_some_iff.1 hforeign).1]
  simp [foreignCell?, cellAt?, h.foreignTable, hget, Table.value?, hcolumn]

theorem Binds.localCell {joined : List Table} {table : Table} {key : Key} {link : Link}
    (h : Binds joined table key link) (index : Nat) :
    table.cell? index link.localColumn = table.value? index key.localColumn := by
  simp [Table.value?, h.localColumn]

/-- A step accepts a row for a joined row if the two together hold the same cells on
    both sides of its keys, whatever rows follow. -/
theorem accepts_iff {joined tables : List Table} {table : Table} {join : Query.Join}
    {links : List Link} (h : List.Forall₂ (Binds joined table) join.keys links)
    (ht : joined ++ [table] <+: tables) {row : Row} (hlen : row.length = joined.length)
    (index : Nat) (more : Row) :
    Step.Accepts tables ⟨table, links⟩ row index ↔ ∀ key ∈ join.keys,
      SameCell (cellAt? tables (row ++ index :: more) key.foreignTable key.foreignColumn)
        (cellAt? tables (row ++ index :: more) joined.length key.localColumn) := by
  have htable : tables[joined.length]? = some table := by
    obtain ⟨rest, rfl⟩ := ht
    simp
  have hindex : (row ++ index :: more)[joined.length]? = some index := by
    simp [← hlen]
  have key_iff : ∀ {key link}, Binds joined table key link →
      (SameCell (foreignCell? tables row link) (table.cell? index link.localColumn) ↔
        SameCell (cellAt? tables (row ++ index :: more) key.foreignTable key.foreignColumn)
          (cellAt? tables (row ++ index :: more) joined.length key.localColumn)) := by
    intro key link hb
    obtain ⟨foreign, hforeign, -⟩ := hb.foreignColumn
    -- the other table stands in front, so its cell does not depend on the new number
    have hlt : key.foreignTable < row.length := hlen ▸ (List.getElem?_eq_some_iff.1 hforeign).1
    rw [hb.foreignCell ((List.prefix_append ..).trans ht), hb.localCell]
    simp only [cellAt?, List.getElem?_append_left hlt, htable, hindex, Option.bind_eq_bind,
      Option.bind_some]
  simp only [Step.Accepts]
  generalize join.keys = keys at h ⊢
  induction h with
  | nil => simp
  | cons hb _ ih =>
    rw [List.forall_mem_cons, List.forall_mem_cons]
    exact and_congr (key_iff hb) ih

/-- **What steps make of joined rows**: each is extended by the choices of rows from
    the steps' tables that fit together with it. -/
theorem foldl_run {joined rest : List Table} {joins : List Query.Join} {steps : List Step}
    (h : BindsAll joined joins rest steps) {tables : List Table} (ht : tables = joined ++ rest)
    {rows : List Row} (hrows : ∀ row ∈ rows, row.length = joined.length) :
    steps.foldl (fun rows step => step.run tables rows) rows = rows.flatMap fun row =>
      ((tuples (rest.take joins.length)).filter fun more =>
        Fits tables joins joined.length (row ++ more)).map (row ++ ·) := by
  -- the rows so far have a number for each joined table, and no key looks further ahead
  induction h generalizing rows with
  | nil => simp [tuples, Fits, List.flatMap_singleton']
  | @cons joined join joins table rest links steps hlinks _ ih =>
    subst ht
    rw [List.foldl_cons, Step.run_eq, ih (by simp), List.flatMap_assoc]
    · refine List.flatMap_congr fun row hrow => ?_
      have hlen := hrows row hrow
      have hfits : ∀ index more, Fits (joined ++ table :: rest) (join :: joins) joined.length
          (row ++ index :: more) ↔ Step.Accepts (joined ++ table :: rest) ⟨table, links⟩ row index ∧
            Fits (joined ++ table :: rest) joins (joined.length + 1) (row ++ index :: more) :=
        fun index more => by
          rw [fits_cons, accepts_iff hlinks ⟨rest, by simp⟩ hlen index more]
      simp only [List.length_cons, List.take_succ_cons, tuples, List.filter_flatMap,
        List.map_flatMap, List.flatMap_map, List.filter_map, List.map_map, flatMap_filter]
      refine List.flatMap_congr fun index _ => ?_
      by_cases ha : Step.Accepts (joined ++ table :: rest) ⟨table, links⟩ row index
      · simp [Function.comp_def, hfits, ha]
      · simp [Function.comp_def, hfits, ha]
    · simp only [List.mem_flatMap, List.mem_map, forall_exists_index, and_imp]
      rintro _ row hrow index - rfl
      simp [hrows row hrow]

theorem rowsAfter_eq_nestedLoop {plan : Plan} {base : Table} {rest : List Table}
    {steps : List Step} (h : BindsAll [base] plan.joins rest steps)
    (hlen : rest.length = plan.joins.length) :
    rowsAfter (base :: rest) steps = nestedLoop plan (base :: rest) := by
  have hrows : ∀ row ∈ baseRows (base :: rest), row.length = [base].length := by
    simp [baseRows]
  have hjoined : base :: rest = [base] ++ rest := rfl
  rw [rowsAfter, foldl_run h hjoined hrows, ← hlen, List.take_length]
  simp only [nestedLoop, tuples, baseRows, List.flatMap_map, List.filter_flatMap, List.filter_map]
  rfl

theorem mem_nestedLoop {plan : Plan} {tables : List Table}
    (hlen : plan.names.length ≤ tables.length) {row : Row} :
    row ∈ nestedLoop plan (tables.take plan.names.length) ↔
      row.length = plan.names.length ∧
      (∀ (i index : Nat), row[i]? = some index →
        ∃ table, tables[i]? = some table ∧ index < table.size) ∧
      ∀ (s : Nat) (join : Query.Join), plan.joins[s]? = some join → ∀ key ∈ join.keys,
        SameCell (cellAt? tables row key.foreignTable key.foreignColumn)
          (cellAt? tables row (s + 1) key.localColumn) := by
  rw [nestedLoop, List.mem_filter, mem_tuples, decide_eq_true_eq, fits_iff, and_assoc,
    List.length_take_of_le hlen]
  refine and_congr_right fun hrow => and_congr ?_ ?_
  · refine forall₃_congr fun i index hi => ?_
    have hlt : i < plan.names.length := hrow ▸ (List.getElem?_eq_some_iff.1 hi).1
    rw [List.getElem?_take_of_lt hlt]
  · simp only [cellAt?_take (Nat.le_of_eq hrow), Nat.add_comm 1]

/-- A joined row has a number in range for each table. -/
theorem exists_index_of_mem_nestedLoop {plan : Plan} {tables : List Table} {row : Row}
    (hrow : row ∈ nestedLoop plan tables) {position : Nat} {table : Table}
    (htable : tables[position]? = some table) :
    ∃ index, row[position]? = some index ∧ index < table.size := by
  obtain ⟨hlen, hindex⟩ := mem_tuples.1 (List.mem_filter.1 hrow).1
  have hlt : position < row.length := hlen ▸ (List.getElem?_eq_some_iff.1 htable).1
  have hget := List.getElem?_eq_getElem hlt
  obtain ⟨table', htable', hsize⟩ := hindex position row[position] hget
  cases htable.symm.trans htable'
  exact ⟨row[position], hget, hsize⟩

/-- **A bound plan joins its own tables**, which are the first of the given ones, by the
    nested loops over them. -/
theorem execute_of_bind {plan : Plan} {tables : List Table} {bound : List Table × List Step}
    (h : bind plan tables = .ok bound) :
    bound.1 = tables.take plan.names.length ∧ plan.names.length ≤ tables.length ∧
      execute plan tables = .ok ⟨bound.1, nestedLoop plan bound.1⟩ := by
  obtain ⟨found, steps⟩ := bound
  obtain ⟨hfound, hnames, hsteps⟩ := bind_plan_eq_ok.1 h
  have hlen : found.length = plan.names.length := by rw [← hnames, List.length_map]
  have hrows : rowsAfter found steps = nestedLoop plan found := by
    obtain ⟨base, rest, rfl⟩ : ∃ base rest, found = base :: rest :=
      List.exists_cons_of_length_eq_add_one hlen
    exact rowsAfter_eq_nestedLoop hsteps (by simpa [Plan.names] using hlen)
  refine ⟨?_, hlen ▸ hfound.length_le, ?_⟩
  · rw [← hlen]
    exact List.prefix_iff_eq_take.1 hfound
  · rw [← hrows, execute, h]
    rfl

/-- **A plan whose keys look back joins its own tables** if the columns of its keys are there. -/
theorem execute_eq_ok_iff {plan : Plan} {tables : List Table}
    (hnames : tables.map (·.name) = plan.names)
    (hback : ∀ (k : Nat) (join : Query.Join), plan.joins[k]? = some join →
      ∀ key ∈ join.keys, key.foreignTable ≤ k) {result : Result} :
    execute plan tables = .ok result ↔
      KeysFound plan tables ∧ result = ⟨tables, nestedLoop plan tables⟩ := by
  have hown : tables.take plan.names.length = tables := by
    rw [← hnames, List.length_map, List.take_length]
  have hjoined : ∀ {bound}, bind plan tables = .ok bound →
      execute plan tables = .ok ⟨tables, nestedLoop plan tables⟩ := by
    intro bound hbound
    obtain ⟨htables, -, hexecute⟩ := execute_of_bind hbound
    rw [hexecute, htables, hown]
  rw [← exists_bind_iff hnames hback]
  constructor
  · intro h
    obtain ⟨bound, hbound, -⟩ := bind_eq_ok.1 h
    exact ⟨⟨bound, hbound⟩, Except.ok.inj (h.symm.trans (hjoined hbound))⟩
  · rintro ⟨⟨bound, hbound⟩, rfl⟩
    exact hjoined hbound

/-- **The rows of a join are those of the nested loops.**  A joined row has the number
    of a row for each name of the plan, and for each key of each join the cells on its
    two sides are the same.  The rows stand in lexicographic order, each once, and
    tables behind those of the plan do not count. -/
theorem execute_eq_nestedLoop {plan : Plan} {tables : List Table} {bound : List Table × List Step}
    (h : bind plan tables = .ok bound) :
    let own := tables.take plan.names.length
    execute plan tables = .ok ⟨own, nestedLoop plan own⟩ ∧
      (∀ row, row ∈ nestedLoop plan own ↔
        row.length = plan.names.length ∧
        (∀ (i index : Nat), row[i]? = some index →
          ∃ table, tables[i]? = some table ∧ index < table.size) ∧
        ∀ (s : Nat) (join : Query.Join), plan.joins[s]? = some join → ∀ key ∈ join.keys,
          SameCell (cellAt? tables row key.foreignTable key.foreignColumn)
            (cellAt? tables row (s + 1) key.localColumn)) ∧
      (nestedLoop plan own).Pairwise (· < ·) ∧
      ∀ more, execute plan (own ++ more) = execute plan tables := by
  intro own
  obtain ⟨hown, hlen, hexecute⟩ := execute_of_bind h
  rw [hown] at hexecute
  refine ⟨hexecute, fun row => mem_nestedLoop hlen, (pairwise_tuples own).filter _, fun more => ?_⟩
  obtain ⟨found, steps⟩ := bound
  obtain ⟨-, hnames, hsteps⟩ := bind_plan_eq_ok.1 h
  have hfound : found = own := hown
  have hmore : bind plan (own ++ more) = .ok (found, steps) :=
    bind_plan_eq_ok.2 ⟨hfound ▸ List.prefix_append .., hnames, hsteps⟩
  rw [execute, execute, hmore, h]

/-- Lines of orders with a customer and a part, whose price depends on both: the key of
    the last join takes its cells from two tables. -/
theorem execute_prices :
    let orders : Table :=
      ⟨"orders", ["id", "cust"], [["1", "a"], ["2", "b"], ["3", "a"]], by decide, by decide⟩
    let parts : Table := ⟨"parts", ["id", "part"], [["3", "x"], ["1", "y"], ["1", "x"]], by decide,
      by decide⟩
    let prices : Table := ⟨"prices", ["cust", "part", "price"],
      [["a", "x", "5"], ["b", "x", "6"], ["a", "x", "7"]], by decide, by decide⟩
    let plan : Plan := ⟨"orders", [⟨"parts", [⟨0, "id", "id"⟩]⟩,
      ⟨"prices", [⟨0, "cust", "cust"⟩, ⟨1, "part", "part"⟩]⟩]⟩
    execute plan [orders, parts, prices, orders] =
      .ok ⟨[orders, parts, prices], [[0, 2, 0], [0, 2, 2], [2, 0, 0], [2, 0, 2]]⟩ := by
  intro orders parts prices plan
  have hbind : ∃ bound, bind plan [orders, parts, prices, orders] = .ok bound := ⟨_, rfl⟩
  obtain ⟨bound, h⟩ := hbind
  have hrows : nestedLoop plan [orders, parts, prices] =
      [[0, 2, 0], [0, 2, 2], [2, 0, 0], [2, 0, 2]] := by decide
  exact hrows ▸ (execute_eq_nestedLoop h).1

end Stencil.Join
