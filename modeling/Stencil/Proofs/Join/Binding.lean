/-
  What it means that a plan is bound to tables.

  * `Binds`: a link holds the numbers of the columns that a key names;
  * `BindsAll`: steps hold the tables and the links of joins, one after the other;
  * `bind_plan_eq_ok`: binding succeeds with tables and steps that are bound in
    this sense, and with no others;
  * `failsWith_bind_plan`: if the tables are there and the keys look back, all that can
    be wrong is that a table lacks a column;
  * `exists_bind_iff`: then a plan can be bound if the columns of its keys are there
    (`KeysFound`).
-/
import Stencil.Join.Binding
import Stencil.Proofs.Outcome

namespace Stencil.Join

open Query

/-! ## Tables -/

/-- The tables for names are the first of the given ones, and have these names. -/
theorem supplied_eq_ok {names : List String} {tables found : List Table} :
    supplied names tables = .ok found ↔ found <+: tables ∧ found.map (·.name) = names := by
  induction names generalizing tables found with
  | nil =>
    simp only [supplied, Except.ok.injEq, List.map_eq_nil_iff]
    exact ⟨fun h => ⟨h ▸ List.nil_prefix, h.symm⟩, fun h => h.2.symm⟩
  | cons name names ih =>
    cases tables with
    | nil =>
      simp only [supplied, reduceCtorEq, List.prefix_nil, false_iff, not_and]
      rintro rfl
      simp
    | cons table tables =>
      simp only [supplied]
      split
      · rename_i hname
        simp only [map_eq_ok, ih]
        constructor
        · rintro ⟨rest, ⟨hrest, hnames⟩, rfl⟩
          exact ⟨(List.prefix_cons_inj _).2 hrest, by simp [hname, hnames]⟩
        · rintro ⟨hfound, hnames⟩
          cases found with
          | nil => simp at hnames
          | cons first rest =>
            obtain ⟨rfl, hrest⟩ := List.cons_prefix_cons.1 hfound
            exact ⟨rest, ⟨hrest, (List.cons.inj hnames).2⟩, rfl⟩
      · rename_i hname
        simp only [reduceCtorEq, false_iff, not_and]
        intro hfound hnames
        cases found with
        | nil => simp at hnames
        | cons first rest =>
          obtain ⟨rfl, -⟩ := List.cons_prefix_cons.1 hfound
          exact hname (List.cons.inj hnames).1

/-! ## Columns -/

theorem column_eq_ok {table : Table} {name : String} {index : Nat} :
    column table name = .ok index ↔ table.columnIndex? name = some index := by
  unfold column
  cases table.columnIndex? name <;> simp

/-- A link that holds the numbers of a key's columns, where `table` is joined to the
    tables `joined`. -/
structure Binds (joined : List Table) (table : Table) (key : Key) (link : Link) : Prop where
  foreignTable : link.foreignTable = key.foreignTable
  foreignColumn : ∃ foreign, joined[key.foreignTable]? = some foreign ∧
    foreign.columnIndex? key.foreignColumn = some link.foreignColumn
  localColumn : table.columnIndex? key.localColumn = some link.localColumn

theorem bindKey_eq_ok {joined : List Table} {table : Table} {join : Query.Join} {key : Key}
    {link : Link} : bindKey joined table join key = .ok link ↔ Binds joined table key link := by
  unfold bindKey
  split
  · rename_i hnone
    refine ⟨nofun, fun h => ?_⟩
    obtain ⟨foreign, hforeign, -⟩ := h.foreignColumn
    rw [hnone] at hforeign
    cases hforeign
  · rename_i foreign hsome
    simp only [bind_eq_ok, column_eq_ok, pure, Except.pure, Except.ok.injEq]
    constructor
    · rintro ⟨i, hi, j, hj, rfl⟩
      exact ⟨rfl, ⟨foreign, hsome, hi⟩, hj⟩
    · rintro ⟨ht, ⟨foreign', hforeign, hi⟩, hj⟩
      rw [hsome] at hforeign
      cases hforeign
      exact ⟨_, hi, _, hj, by rw [← ht]⟩

/-! ## Joins -/

/-- Steps that hold the tables and the links of joins, where their tables are joined
    one after the other to the tables `joined`. -/
inductive BindsAll : List Table → List Query.Join → List Table → List Step → Prop
  | nil {joined tables} : BindsAll joined [] tables []
  | cons {joined join joins table tables links steps} :
      List.Forall₂ (Binds joined table) join.keys links →
      BindsAll (joined ++ [table]) joins tables steps →
      BindsAll joined (join :: joins) (table :: tables) (⟨table, links⟩ :: steps)

theorem bindJoins_eq_ok {joined : List Table} {joins : List Query.Join} {tables : List Table}
    {steps : List Step} :
    bindJoins joined joins tables = .ok steps ↔ BindsAll joined joins tables steps := by
  induction joins generalizing joined tables steps with
  | nil =>
    simp only [bindJoins, Except.ok.injEq]
    constructor
    · rintro rfl
      exact .nil
    · rintro ⟨⟩
      rfl
  | cons join joins ih =>
    cases tables with
    | nil =>
      simp only [bindJoins, reduceCtorEq, false_iff]
      rintro ⟨⟩
    | cons table tables =>
      simp only [bindJoins, bind_eq_ok, mapM_eq_ok, bindKey_eq_ok, ih, pure, Except.pure,
        Except.ok.injEq]
      constructor
      · rintro ⟨links, hlinks, steps, hsteps, rfl⟩
        exact .cons hlinks hsteps
      · rintro (_ | ⟨hlinks, hsteps⟩)
        exact ⟨_, hlinks, _, hsteps, rfl⟩

/-- **A plan is bound to the first tables**, which have its names, and to steps that
    hold its keys. -/
theorem bind_plan_eq_ok {plan : Plan} {tables found : List Table} {steps : List Step} :
    bind plan tables = .ok (found, steps) ↔
      found <+: tables ∧ found.map (·.name) = plan.names ∧
        BindsAll (found.take 1) plan.joins (found.drop 1) steps := by
  simp only [bind, bind_eq_ok, supplied_eq_ok, bindJoins_eq_ok, pure, Except.pure, Except.ok.injEq,
    Prod.mk.injEq]
  constructor
  · rintro ⟨found, ⟨hfound, hnames⟩, steps, hsteps, rfl, rfl⟩
    exact ⟨hfound, hnames, hsteps⟩
  · rintro ⟨hfound, hnames, hsteps⟩
    exact ⟨found, ⟨hfound, hnames⟩, steps, hsteps, rfl, rfl⟩

/-! ## Failures -/

/-- A table lacks a column that a key names. -/
def LacksColumn (e : Fault) : Prop :=
  ∃ table column, e = .unknownColumn table column

theorem failsWith_column (table : Table) (name : String) :
    FailsWith LacksColumn (column table name) := by
  unfold column
  cases table.columnIndex? name with
  | none => exact failsWith_error ⟨_, _, rfl⟩
  | some index => exact failsWith_ok index

theorem failsWith_bindKey {joined : List Table} {key : Key}
    (h : key.foreignTable < joined.length) (table : Table) (join : Query.Join) :
    FailsWith LacksColumn (bindKey joined table join key) := by
  unfold bindKey
  rw [List.getElem?_eq_getElem h]
  refine failsWith_bind (failsWith_column _ _) fun _ _ => ?_
  exact failsWith_bind (failsWith_column _ _) fun _ _ => failsWith_ok _

theorem failsWith_bindJoins {joined : List Table} {joins : List Query.Join} {tables : List Table}
    (hlength : joins.length ≤ tables.length)
    (hback : ∀ (k : Nat) (join : Query.Join), joins[k]? = some join →
      ∀ key ∈ join.keys, key.foreignTable < joined.length + k) :
    FailsWith LacksColumn (bindJoins joined joins tables) := by
  induction joins generalizing joined tables with
  | nil =>
    rw [bindJoins]
    exact failsWith_ok []
  | cons join joins ih =>
    cases tables with
    | nil => simp at hlength
    | cons table tables =>
      rw [bindJoins]
      refine failsWith_bind (failsWith_mapM fun key hkey => ?_) fun links _ => ?_
      · exact failsWith_bindKey (hback 0 join rfl key hkey) table join
      refine failsWith_bind (ih (by simpa using hlength) fun k other hother key hkey => ?_)
        fun steps _ => failsWith_ok _
      -- the table of the first join is one more in front of the others
      have := hback (k + 1) other hother key hkey
      rw [List.length_append, List.length_singleton]
      omega

/-- **A plan whose keys look back fails for a missing column only**, if it is given its own
    tables. -/
theorem failsWith_bind_plan {plan : Plan} {tables : List Table}
    (hnames : tables.map (·.name) = plan.names)
    (hback : ∀ (k : Nat) (join : Query.Join), plan.joins[k]? = some join →
      ∀ key ∈ join.keys, key.foreignTable ≤ k) :
    FailsWith LacksColumn (bind plan tables) := by
  have hsupplied : supplied plan.names tables = .ok tables :=
    supplied_eq_ok.2 ⟨List.prefix_rfl, hnames⟩
  have hlength : tables.length = plan.joins.length + 1 := by
    rw [← List.length_map (·.name), hnames, Plan.names, List.length_cons, List.length_map]
  rw [bind, hsupplied]
  refine failsWith_bind (failsWith_ok tables) fun found hfound => ?_
  cases hfound
  refine failsWith_bind (failsWith_bindJoins ?_ fun k join hjoin key hkey => ?_)
    fun _ _ => failsWith_ok _
  · rw [List.length_drop]
    omega
  · have := hback k join hjoin key hkey
    rw [List.length_take]
    omega

/-! ## The columns of keys -/

/-- The table at a position has a column of a name. -/
def HasColumn (tables : List Table) (position : Nat) (name : String) : Prop :=
  ∃ table, tables[position]? = some table ∧ name ∈ table.columns

/-- The columns on both sides of a key of the table at a position are there. -/
def KeyFound (tables : List Table) (position : Nat) (key : Key) : Prop :=
  HasColumn tables key.foreignTable key.foreignColumn ∧ HasColumn tables position key.localColumn

/-- The columns of all keys of a plan are there. -/
def KeysFound (plan : Plan) (tables : List Table) : Prop :=
  ∀ (k : Nat) (join : Query.Join), plan.joins[k]? = some join →
    ∀ key ∈ join.keys, KeyFound tables (k + 1) key

theorem hasColumn_append_left {tables more : List Table} {position : Nat} {name : String}
    (h : position < tables.length) :
    HasColumn (tables ++ more) position name ↔ HasColumn tables position name := by
  rw [HasColumn, List.getElem?_append_left h, ← HasColumn]

theorem exists_columnIndex?_iff {table : Table} {name : String} :
    (∃ index, table.columnIndex? name = some index) ↔ name ∈ table.columns := by
  rw [← Option.isSome_iff_exists]
  exact List.isSome_idxOf?

/-- A link can be made for a key if its columns are there. -/
theorem exists_binds_iff {joined rest : List Table} {table : Table} {key : Key}
    (h : key.foreignTable < joined.length) :
    (∃ link, Binds joined table key link) ↔
      KeyFound (joined ++ table :: rest) joined.length key := by
  have hlocal : HasColumn (joined ++ table :: rest) joined.length key.localColumn ↔
      key.localColumn ∈ table.columns := by
    simp [HasColumn]
  rw [KeyFound, hasColumn_append_left h, hlocal]
  constructor
  · rintro ⟨link, -, ⟨foreign, hforeign, hindex⟩, hcolumn⟩
    exact ⟨⟨foreign, hforeign, exists_columnIndex?_iff.1 ⟨_, hindex⟩⟩,
      exists_columnIndex?_iff.1 ⟨_, hcolumn⟩⟩
  · rintro ⟨⟨foreign, hforeign, hindex⟩, hcolumn⟩
    obtain ⟨i, hi⟩ := exists_columnIndex?_iff.2 hindex
    obtain ⟨j, hj⟩ := exists_columnIndex?_iff.2 hcolumn
    exact ⟨⟨key.foreignTable, i, j⟩, rfl, ⟨foreign, hforeign, hi⟩, hj⟩

/-- Joins can be bound, one after the other, if the columns of their keys are there. -/
theorem exists_bindsAll_iff {joined rest : List Table} {joins : List Query.Join}
    (hlength : joins.length ≤ rest.length)
    (hback : ∀ (k : Nat) (join : Query.Join), joins[k]? = some join →
      ∀ key ∈ join.keys, key.foreignTable < joined.length + k) :
    (∃ steps, BindsAll joined joins rest steps) ↔
      ∀ (k : Nat) (join : Query.Join), joins[k]? = some join →
        ∀ key ∈ join.keys, KeyFound (joined ++ rest) (joined.length + k) key := by
  induction joins generalizing joined rest with
  | nil =>
    refine iff_of_true ⟨[], .nil⟩ fun k join hjoin => ?_
    rw [List.getElem?_nil] at hjoin
    cases hjoin
  | cons join joins ih =>
    cases rest with
    | nil => simp at hlength
    | cons table rest =>
      have hrest : (∃ steps, BindsAll (joined ++ [table]) joins rest steps) ↔
          ∀ (k : Nat) (other : Query.Join), joins[k]? = some other → ∀ key ∈ other.keys,
            KeyFound (joined ++ table :: rest) (joined.length + (k + 1)) key := by
        have hlen : (joined ++ [table]).length = joined.length + 1 := by simp
        rw [ih (by simpa using hlength) fun k other hother key hkey => ?_, List.append_assoc,
          List.singleton_append, hlen]
        · simp only [Nat.add_assoc, Nat.add_comm 1]
        · have := hback (k + 1) other hother key hkey
          omega
      have hfirst : (∃ links, List.Forall₂ (Binds joined table) join.keys links) ↔
          ∀ key ∈ join.keys, KeyFound (joined ++ table :: rest) joined.length key := by
        have hkey : ∀ key ∈ join.keys, ((∃ link, Binds joined table key link) ↔
            KeyFound (joined ++ table :: rest) joined.length key) :=
          fun key hmem => exists_binds_iff (hback 0 join rfl key hmem)
        rw [← forall₂_congr hkey]
        refine ⟨fun ⟨links, hlinks⟩ key hmem => ?_, exists_forall₂⟩
        obtain ⟨link, -, hlink⟩ := exists_mem_of_forall₂ hlinks.flip key hmem
        exact ⟨link, hlink⟩
      constructor
      · rintro ⟨_, _ | ⟨hlinks, hsteps⟩⟩ k other hother
        rcases k with _ | k
        · cases hother
          exact hfirst.1 ⟨_, hlinks⟩
        · exact hrest.1 ⟨_, hsteps⟩ k other hother
      · intro h
        obtain ⟨links, hlinks⟩ := hfirst.2 (h 0 join rfl)
        obtain ⟨steps, hsteps⟩ := hrest.2 fun k other hother => h (k + 1) other hother
        exact ⟨_, .cons hlinks hsteps⟩

/-- **A plan whose keys look back can be bound to its own tables if the columns of its keys are
    there.** -/
theorem exists_bind_iff {plan : Plan} {tables : List Table}
    (hnames : tables.map (·.name) = plan.names)
    (hback : ∀ (k : Nat) (join : Query.Join), plan.joins[k]? = some join →
      ∀ key ∈ join.keys, key.foreignTable ≤ k) :
    (∃ bound, bind plan tables = .ok bound) ↔ KeysFound plan tables := by
  have hlength : tables.length = plan.joins.length + 1 := by
    rw [← List.length_map (·.name), hnames, Plan.names, List.length_cons, List.length_map]
  obtain ⟨base, rest, rfl⟩ : ∃ base rest, tables = base :: rest :=
    List.exists_cons_of_length_eq_add_one hlength
  have hsteps := @exists_bindsAll_iff [base] rest plan.joins
    (Nat.le_of_eq (Nat.succ.inj hlength).symm) fun k join hjoin key hkey => by
      have := hback k join hjoin key hkey
      rw [List.length_singleton]
      omega
  have hfound : (∃ bound, bind plan (base :: rest) = .ok bound) ↔
      ∃ steps, BindsAll [base] plan.joins rest steps := by
    simp only [Prod.exists, bind_plan_eq_ok]
    constructor
    · rintro ⟨found, steps, hsupplied, hown, hsteps⟩
      have hlen : found.length = (base :: rest).length := by
        rw [← List.length_map (·.name), hown, ← hnames, List.length_map]
      rw [hsupplied.eq_of_length hlen] at hsteps
      exact ⟨steps, hsteps⟩
    · rintro ⟨steps, hsteps⟩
      exact ⟨base :: rest, steps, List.prefix_rfl, hnames, hsteps⟩
  rw [hfound, hsteps]
  simp only [List.singleton_append, List.length_singleton, Nat.add_comm 1]
  rfl

end Stencil.Join
