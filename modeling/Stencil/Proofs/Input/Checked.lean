/-
  What is known of an input that passed its checks.

  * `readContents_eq_ok`, `ofContents_eq_ok` and `ofSections_eq_ok`: what a stage that was
    passed has read;
  * `rows_of_ofSections`: its joined rows are those of nested loops over its tables;
  * `Checked.Sound`: its tables can be told apart, its joined rows have a number in
    range for each table, and its placeholders stand for something;
  * `sound_of_ofSections`: an input that passed its checks is sound.
-/
import Stencil.Input.Checked
import Stencil.Proofs.Query.RoundTrip
import Stencil.Proofs.Scope.Variables
import Stencil.Proofs.Table.Layout

namespace Stencil.Input

open Text

theorem dot_notMem_of_isName {name : String} (h : IsName name) : '.' ∉ name.toList := by
  intro hmem
  exact ne_of_isNameChar ((forall_isNameChar h).2 '.' hmem) rfl rfl

/-! ## The parts of a checked input -/

theorem config_plan_eq_ok {config : Config} {sections : Sections} {plan : Query.Plan}
    (h : config.plan sections = .ok plan) : Query.Plan.ofQuery config.repeater = .ok plan := by
  simp only [Config.plan, bind_eq_ok, mapError_eq_ok] at h
  obtain ⟨-, -, -, -, found, hfound, -, -, hplan⟩ := h
  cases hplan
  exact hfound

/-- Checking starts with the stages of planning. -/
theorem ofText_of_planOfText {settings : Settings} {text : String} {fault : Fault}
    (h : planOfText settings text = .error fault) :
    Checked.ofText settings text = .error fault := by
  rcases bind_eq_error.1 h with hconfig | ⟨config, hconfig, hplan⟩
  · exact bind_eq_error.2 (Or.inl hconfig)
  · exact bind_eq_error.2 (Or.inr ⟨config, hconfig, bind_eq_error.2 (Or.inl hplan)⟩)

theorem require_eq_ok {sections : Sections} {name : String} {lines : List String} :
    sections.require name = .ok lines ↔ sections.lines? name = some lines := by
  unfold Sections.require
  cases sections.lines? name <;> simp

/-- Parameters and tables that are read make up the contents, unless they share a name. -/
theorem readContents_of_read {settings : Settings} {sections : Sections} {config : Config}
    {plan : Query.Plan} {lines : List String} {globals : Values} {tables : List Table}
    (hlines : sections.lines? config.globals = some lines)
    (hglobals : Parameters.ofLines config.globals lines = .ok globals)
    (htables : plan.names.mapM (readTable settings sections config) = .ok tables) :
    readContents settings sections config plan =
      if conflicts globals (.ofTables tables) ≠ [] then
        .error (.nameConflict (.globalsAndColumns config.globals)
          (conflicts globals (.ofTables tables)))
      else .ok ⟨globals, tables, .ofTables tables⟩ := by
  rw [readContents, require_eq_ok.2 hlines, ok_bind, hglobals, ok_bind, htables, ok_bind]
  by_cases h : conflicts globals (.ofTables tables) ≠ []
  · rw [if_pos h, if_pos h]
    rfl
  · rw [if_neg h, if_neg h]
    rfl

theorem readContents_eq_ok {settings : Settings} {sections : Sections} {config : Config}
    {plan : Query.Plan} {contents : Contents} :
    readContents settings sections config plan = .ok contents ↔
      ∃ lines, sections.lines? config.globals = some lines ∧
        Parameters.ofLines config.globals lines = .ok contents.globals ∧
        plan.names.mapM (readTable settings sections config) = .ok contents.tables ∧
        contents.scope = .ofTables contents.tables ∧
        conflicts contents.globals contents.scope = [] := by
  constructor
  · intro h
    simp only [readContents, bind_eq_ok, require_eq_ok, ite_throw_bind_eq_ok] at h
    obtain ⟨lines, hlines, globals, hglobals, tables, htables, hnone, hcontents⟩ := h
    cases hcontents
    exact ⟨lines, hlines, hglobals, htables, rfl, not_not.1 hnone⟩
  · rintro ⟨lines, hlines, hglobals, htables, hscope, hnone⟩
    rw [hscope] at hnone
    rw [readContents_of_read hlines hglobals htables, if_neg (not_not.2 hnone), ← hscope]

/-- The tables of a plan have its names, and their columns are names. -/
theorem forall₂_readTable {settings : Settings} {sections : Sections} {config : Config}
    {names : List String} {tables : List Table}
    (h : names.mapM (readTable settings sections config) = .ok tables) :
    tables.map (·.name) = names ∧ ∀ table ∈ tables, ∀ column ∈ table.columns, IsName column := by
  have hread : ∀ {name table}, readTable settings sections config name = .ok table →
      table.name = name ∧ ∀ column ∈ table.columns, IsName column := by
    intro name table ht
    obtain ⟨lines, -, ht⟩ := bind_eq_ok.1 ht
    obtain ⟨-, -, -, -, hname⟩ := Table.ofLines_eq_ok ht
    exact ⟨hname, Table.isName_of_ofLines ht⟩
  rw [mapM_eq_ok] at h
  induction h with
  | nil => simp
  | cons ht _ ih =>
    obtain ⟨hname, hcolumns⟩ := hread ht
    exact ⟨by rw [List.map_cons, hname, ih.1], List.forall_mem_cons.2 ⟨hcolumns, ih.2⟩⟩

/-- Every name of a template that is no global parameter stands for one column. -/
theorem checkNames_eq_ok {template : Template} {sectionName : String} {globals : Values}
    {scope : Scope} :
    checkNames template sectionName globals scope = .ok () ↔
      ∀ name ∈ template.names, globals.contains name = false → scope.resolve name ≠ .undefined ∧
        ∀ alternatives, scope.resolve name ≠ .ambiguous alternatives := by
  have hambiguous : ∀ name, ambiguousName? scope name = none ↔
      ∀ alternatives, scope.resolve name ≠ .ambiguous alternatives := by
    intro name
    unfold ambiguousName?
    cases scope.resolve name <;> simp
  simp only [checkNames]
  rw [ite_throw_bind_eq_ok, ite_throw_eq_ok]
  simp only [not_not, undefinedNames, List.filter_eq_nil_iff, List.filterMap_eq_nil_iff,
    List.mem_filter, Bool.not_eq_true', decide_eq_true_eq, hambiguous, and_imp]
  constructor
  · rintro ⟨hundefined, hone, -⟩ name hname hglobal
    exact ⟨hundefined name hname hglobal, hone name hname hglobal⟩
  · intro h
    exact ⟨fun name hname hglobal => (h name hname hglobal).1,
      fun name hname hglobal => (h name hname hglobal).2, rfl⟩

/-- The names of the placeholders are listed. -/
theorem isListing_names (template : Template) :
    IsListing (fun name => .placeholder name ∈ template.segments) template.names := by
  refine (isListing_mergeSort _).congr fun name => ?_
  rw [List.mem_filterMap]
  constructor
  · rintro ⟨_ | placeholder, hmem, hname⟩
    · cases hname
    · cases hname
      exact hmem
  · exact fun hmem => ⟨_, hmem, rfl⟩

theorem checkDelimiters_eq_ok {template : Template} :
    template.checkDelimiters = .ok () ↔ template.misuse = none := by
  unfold Template.checkDelimiters
  cases template.misuse <;> simp

/-- A template and tables that are joined make up a checked input, unless a name of the template
    is at fault. -/
theorem ofContents_of_joined {sections : Sections} {config : Config} {plan : Query.Plan}
    {contents : Contents} {lines : List String} {result : Join.Result}
    (hlines : sections.lines? config.template = some lines)
    (hmisuse : (Template.ofLines config.template lines).misuse = none)
    (hresult : Join.execute plan contents.tables = .ok result) :
    Checked.ofContents sections config plan contents =
      checkNames (.ofLines config.template lines) config.template contents.globals contents.scope >>=
        fun _ => .ok {
          config, plan, template := .ofLines config.template lines, globals := contents.globals
          tables := contents.tables, scope := contents.scope, rows := result.rows } := by
  rw [Checked.ofContents, require_eq_ok.2 hlines, ok_bind]
  dsimp only
  rw [checkDelimiters_eq_ok.2 hmisuse, ok_bind, hresult, ok_bind]
  rfl

theorem ofContents_eq_ok {sections : Sections} {config : Config} {plan : Query.Plan}
    {contents : Contents} {c : Checked} :
    Checked.ofContents sections config plan contents = .ok c ↔
      ∃ lines result, sections.lines? config.template = some lines ∧
        (Template.ofLines config.template lines).misuse = none ∧
        Join.execute plan contents.tables = .ok result ∧
        checkNames (.ofLines config.template lines) config.template contents.globals
          contents.scope = .ok () ∧
        c = {
          config, plan, template := .ofLines config.template lines, globals := contents.globals
          tables := contents.tables, scope := contents.scope, rows := result.rows } := by
  constructor
  · intro h
    simp only [Checked.ofContents, bind_eq_ok, require_eq_ok] at h
    obtain ⟨lines, hlines, _, hmisuse, result, hresult, _, hnames, hc⟩ := h
    cases hc
    exact ⟨lines, result, hlines, checkDelimiters_eq_ok.1 hmisuse, hresult, hnames, rfl⟩
  · rintro ⟨lines, result, hlines, hmisuse, hresult, hnames, rfl⟩
    rw [ofContents_of_joined hlines hmisuse hresult, hnames, ok_bind]

/-- A checked input passed the four stages. -/
theorem ofSections_eq_ok {settings : Settings} {sections : Sections} {c : Checked} :
    Checked.ofSections settings sections = .ok c ↔
      ∃ contents, Config.ofSections settings sections = .ok c.config ∧
        c.config.plan sections = .ok c.plan ∧
        readContents settings sections c.config c.plan = .ok contents ∧
        Checked.ofContents sections c.config c.plan contents = .ok c := by
  simp only [Checked.ofSections, bind_eq_ok]
  constructor
  · rintro ⟨config, hconfig, plan, hplan, contents, hcontents, h⟩
    obtain ⟨lines, result, -, -, -, -, rfl⟩ := ofContents_eq_ok.1 h
    exact ⟨contents, hconfig, hplan, hcontents, h⟩
  · rintro ⟨contents, hconfig, hplan, hcontents, h⟩
    exact ⟨_, hconfig, _, hplan, contents, hcontents, h⟩

/-- The tables of an input can be told apart. -/
theorem plain_tables {settings : Settings} {sections : Sections} {config : Config}
    {plan : Query.Plan} (hplan : config.plan sections = .ok plan) {tables : List Table}
    (htables : plan.names.mapM (readTable settings sections config) = .ok tables) :
    Plain tables := by
  have hwf := Query.wellFormed_of_ofQuery (config_plan_eq_ok hplan)
  obtain ⟨hnames, hcolumns⟩ := forall₂_readTable htables
  refine ⟨?_, fun table ht => ?_, fun table ht column hcolumn => ?_⟩
  · rw [hnames]
    exact hwf.nodup_names
  · have hword := hwf.isWord_names table.name (hnames ▸ List.mem_map_of_mem ht)
    exact dot_notMem_of_isName hword.1
  · exact dot_notMem_of_isName (hcolumns table ht column hcolumn)

/-- The tables of an input are joined if the columns of the keys are there. -/
theorem execute_eq_ok {settings : Settings} {sections : Sections} {config : Config}
    {plan : Query.Plan} (hplan : config.plan sections = .ok plan) {tables : List Table}
    (htables : plan.names.mapM (readTable settings sections config) = .ok tables)
    {result : Join.Result} :
    Join.execute plan tables = .ok result ↔
      Join.KeysFound plan tables ∧ result = ⟨tables, Join.nestedLoop plan tables⟩ :=
  Join.execute_eq_ok_iff (forall₂_readTable htables).1
    (Query.wellFormed_of_ofQuery (config_plan_eq_ok hplan)).foreignTable_le

/-- The columns of the keys of a checked input are there, and its joined rows are those of the
    nested loops over its tables. -/
theorem rows_of_ofSections {settings : Settings} {sections : Sections} {c : Checked}
    (h : Checked.ofSections settings sections = .ok c) :
    Join.KeysFound c.plan c.tables ∧ c.rows = Join.nestedLoop c.plan c.tables := by
  obtain ⟨contents, -, hplan, hcontents, h⟩ := ofSections_eq_ok.1 h
  obtain ⟨_, -, -, htables, -, -⟩ := readContents_eq_ok.1 hcontents
  obtain ⟨_, result, -, -, hresult, -, hc⟩ := ofContents_eq_ok.1 h
  obtain ⟨hkeys, rfl⟩ := (execute_eq_ok hplan htables).1 hresult
  rw [hc]
  exact ⟨hkeys, rfl⟩

/-! ## Sound input -/

/-- An input from which the template can be filled. -/
structure Checked.Sound (c : Checked) : Prop where
  scope_eq : c.scope = .ofTables c.tables
  plain : Plain c.tables
  index_lt : ∀ row ∈ c.rows, ∀ (position : Nat) (table : Table),
    c.tables[position]? = some table → ∃ index, row[position]? = some index ∧ index < table.size
  placeholder : ∀ name, .placeholder name ∈ c.template.segments → c.globals.contains name = false →
    c.scope.resolve name ≠ .undefined ∧
      ∀ alternatives, c.scope.resolve name ≠ .ambiguous alternatives

/-- **An input that passed its checks is sound.** -/
theorem sound_of_ofSections {settings : Settings} {sections : Sections} {c : Checked}
    (h : Checked.ofSections settings sections = .ok c) : c.Sound := by
  obtain ⟨-, hrows⟩ := rows_of_ofSections h
  obtain ⟨contents, -, hplan, hcontents, h⟩ := ofSections_eq_ok.1 h
  obtain ⟨_, result, -, -, -, hcheck, hc⟩ := ofContents_eq_ok.1 h
  obtain ⟨_, -, -, htables, hscope, -⟩ := readContents_eq_ok.1 hcontents
  refine ⟨?_, ?_, ?_, ?_⟩
  · rw [hc]
    exact hscope
  · rw [hc]
    exact plain_tables hplan htables
  · rw [hrows]
    exact fun _ hrow _ _ htable => Join.exists_index_of_mem_nestedLoop hrow htable
  · rw [hc]
    exact fun name hmem =>
      checkNames_eq_ok.1 hcheck name (((isListing_names _).mem_iff name).2 hmem)

/-- The same for the text of an input. -/
theorem sound_of_ofText {settings : Settings} {text : String} {c : Checked}
    (h : Checked.ofText settings text = .ok c) : c.Sound :=
  sound_of_ofSections h

end Stencil.Input
