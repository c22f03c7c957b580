/-
  Inputs whose tables have their rows in another order.

  * `ReorderedSections`: the sections of an input, but for the order of the lines of its tables;
  * `Checked.Reordered`: an input that passed its checks, but for the order of the rows of its
    tables; `exists_checked_of_reordered` gives the one from the other;
  * `ofSections_of_reordered`: such an input has the same blocks in another order.
-/
import Stencil.Proofs.Input.Named
import Stencil.Proofs.Input.Rendering
import Stencil.Proofs.Scope.Reordered

namespace Stencil.Input

/-- The sections of a checked input that are read as something else than a table. -/
def Checked.ownSections (settings : Settings) (c : Checked) : List String :=
  [settings.configSection, c.config.template, c.config.globals]

/-- The sections of a checked input, but that in a table the lines behind the header may stand in
    another order.  A section that is read as something else as well keeps its lines, and one that
    is not read may hold anything. -/
structure ReorderedSections (settings : Settings) (c : Checked) (s moved : Sections) : Prop where
  own : ∀ name ∈ c.ownSections settings, s.lines? name = moved.lines? name
  table : ∀ name ∈ c.plan.names, name ∉ c.ownSections settings →
    ∀ lines, s.lines? name = some lines → ∃ others, moved.lines? name = some others ∧
      Table.ReorderedLines settings.flatMarker lines others

/-- A checked input, but that the rows of its tables may stand in another order. -/
structure Checked.Reordered (c c' : Checked) : Prop where
  config_eq : c'.config = c.config
  plan_eq : c'.plan = c.plan
  template_eq : c'.template = c.template
  globals_eq : c'.globals = c.globals
  scope_eq : c'.scope = c.scope
  tables : List.Forall₂ Table.Reordered c.tables c'.tables

variable {settings : Settings} {c c' : Checked} {s moved : Sections}

/-! ## Sections -/

theorem exists_table_of_reordered (h : ReorderedSections settings c s moved)
    (hflat : c.config.flat = false) {name : String} (hname : name ∈ c.plan.names) {t : Table}
    (ht : readTable settings s c.config name = .ok t) :
    ∃ u, readTable settings moved c.config name = .ok u ∧ t.Reordered u := by
  by_cases hown : name ∈ c.ownSections settings
  · rw [readTable, require_congr (h.own name hown), ← readTable] at ht
    exact ⟨t, ht, rfl, rfl, .rfl⟩
  · obtain ⟨lines, hlines, hread⟩ := bind_eq_ok.1 ht
    obtain ⟨others, hothers, hlines⟩ := h.table name hname hown lines (require_eq_ok.1 hlines)
    rw [hflat] at hread
    obtain ⟨u, hu, htu⟩ := Table.exists_ofLines_of_reorderedLines hlines hread
    refine ⟨u, ?_, htu⟩
    rw [readTable, require_eq_ok.2 hothers, ok_bind, hflat, hu]

theorem exists_tables_of_reordered (h : ReorderedSections settings c s moved)
    (hflat : c.config.flat = false) {tables : List Table}
    (htables : c.plan.names.mapM (readTable settings s c.config) = .ok tables) :
    ∃ others, c.plan.names.mapM (readTable settings moved c.config) = .ok others ∧
      List.Forall₂ Table.Reordered tables others := by
  obtain ⟨others, hothers, htu⟩ := exists_forall₂_and (mapM_eq_ok.1 htables)
    fun _ hname _ ht => exists_table_of_reordered h hflat hname ht
  exact ⟨others, mapM_eq_ok.2 hothers, htu⟩

theorem contains_of_readTable {config : Config} {name : String} {t : Table}
    (h : readTable settings s config name = .ok t) : s.contains name = true := by
  obtain ⟨lines, hlines, -⟩ := bind_eq_ok.1 h
  rw [Sections.contains, require_eq_ok.1 hlines, Option.isSome_some]

/-- Planning does not look at the rows. -/
theorem plan_of_reordered (h : ReorderedSections settings c s moved)
    (hflat : c.config.flat = false) {tables : List Table}
    (htables : c.plan.names.mapM (readTable settings s c.config) = .ok tables)
    (hplan : c.config.plan s = .ok c.plan) : c.config.plan moved = .ok c.plan := by
  have hcontains : ∀ name ∈ c.ownSections settings, s.contains name = moved.contains name :=
    fun name hname => contains_congr (h.own name hname)
  rw [← hplan]
  refine (plan_congr (hcontains _ ?_) (hcontains _ ?_) ?_).symm
  · simp [Checked.ownSections]
  · simp [Checked.ownSections]
  · intro plan hquery name hname
    cases (config_plan_eq_ok hplan).symm.trans hquery
    obtain ⟨t, -, ht⟩ := exists_mem_of_forall₂ (mapM_eq_ok.1 htables).flip name hname
    obtain ⟨u, hu, -⟩ := exists_table_of_reordered h hflat hname ht
    rw [contains_of_readTable ht, contains_of_readTable hu]

/-- **An input passes its checks whatever the order of its rows.** -/
theorem exists_checked_of_reordered (h : Checked.ofSections settings s = .ok c)
    (hflat : c.config.flat = false) (hmoved : ReorderedSections settings c s moved) :
    ∃ c', Checked.ofSections settings moved = .ok c' ∧ c.Reordered c' := by
  obtain ⟨hkeys, -⟩ := rows_of_ofSections h
  obtain ⟨contents, hconfig, hplan, hcontents, hc⟩ := ofSections_eq_ok.1 h
  obtain ⟨lines, hlines, hglobals, htables, hscope, hconflicts⟩ := readContents_eq_ok.1 hcontents
  obtain ⟨text, _, htext, hmisuse, -, hnames, hparts⟩ := ofContents_eq_ok.1 hc
  have hown : c.tables = contents.tables := congrArg Checked.tables hparts
  obtain ⟨others, hothers, hreordered⟩ := exists_tables_of_reordered hmoved hflat htables
  have hheads := Join.sameHeads_of_reordered hreordered
  have hplan' := plan_of_reordered hmoved hflat htables hplan
  rw [hown] at hkeys
  have hjoined := (execute_eq_ok hplan' hothers).2 ⟨hheads.keysFound hkeys, rfl⟩
  rw [config_congr (hmoved.own _ (by simp [Checked.ownSections]))] at hconfig
  rw [hmoved.own _ (by simp [Checked.ownSections])] at hlines htext
  rw [Scope.ofTables_congr hheads] at hscope
  let c' : Checked := {
    config := c.config, plan := c.plan, template := .ofLines c.config.template text
    globals := contents.globals, tables := others, scope := contents.scope
    rows := Join.nestedLoop c.plan others }
  have hcontents' : readContents settings moved c.config c.plan =
      .ok ⟨contents.globals, others, contents.scope⟩ :=
    readContents_eq_ok.2 ⟨lines, hlines, hglobals, hothers, hscope, hconflicts⟩
  have hc' : Checked.ofContents moved c.config c.plan
      ⟨contents.globals, others, contents.scope⟩ = .ok c' :=
    ofContents_eq_ok.2 ⟨text, _, htext, hmisuse, hjoined, hnames, rfl⟩
  refine ⟨c', ofSections_eq_ok.2 ⟨_, hconfig, hplan', hcontents', hc'⟩, rfl, rfl, ?_, ?_, ?_, ?_⟩
  · exact (congrArg Checked.template hparts).symm
  · exact (congrArg Checked.globals hparts).symm
  · exact (congrArg Checked.scope hparts).symm
  · rw [hown]
    exact hreordered

/-! ## Blocks -/

/-- A joined row with the same cells has the same block. -/
theorem Checked.Reordered.block_eq (h : c.Reordered c') (hsound : c.Sound) {row row' : Join.Row}
    (hcells : Join.SameCells c.tables c'.tables row row') : c.block row = c'.block row' := by
  have hheads := Join.sameHeads_of_reordered h.tables
  have hvalues : c.scope.values c.tables row = c'.scope.values c'.tables row' := by
    rw [h.scope_eq, hsound.scope_eq, Scope.values_congr hsound.plain hheads hcells,
      Scope.ofTables_congr hheads]
  rw [Checked.block, Checked.block, Checked.rowValues, Checked.rowValues, hvalues, h.template_eq,
    h.globals_eq]

/-- Inputs with the rows of their tables in another order have their blocks in another order. -/
theorem Checked.Reordered.exists_blocks (h : c.Reordered c')
    (hc : Checked.ofSections settings s = .ok c)
    (hc' : Checked.ofSections settings moved = .ok c') :
    ∃ blocks others, c.blocks = .ok blocks ∧ c'.blocks = .ok others ∧ blocks.Perm others := by
  have hsound := sound_of_ofSections hc
  obtain ⟨blocks, hblocks⟩ := hsound.exists_blocks
  obtain ⟨rows, hrows, hperm⟩ := Join.exists_nestedLoop_of_reordered h.tables c.plan
  rw [← (rows_of_ofSections hc).2] at hrows
  rw [← h.plan_eq, ← (rows_of_ofSections hc').2] at hperm
  have hsame : rows.mapM c'.block = .ok blocks :=
    (mapM_eq_of_forall₂ (hrows.imp fun _ _ => h.block_eq hsound)).symm.trans hblocks
  obtain ⟨others, hothers, hblocks'⟩ := List.perm_comp_forall₂ hperm.symm (mapM_eq_ok.1 hsame)
  exact ⟨blocks, others, hblocks, mapM_eq_ok.2 hothers, hblocks'.symm⟩

/-- **The order of rows decides about the order of blocks only.**  If the rows of the tables of a
    checked input are put in another order, then it passes the checks again, with the same plan,
    global parameters and variables, and has the same blocks in another order. -/
theorem ofSections_of_reordered (h : Checked.ofSections settings s = .ok c)
    (hflat : c.config.flat = false) (hmoved : ReorderedSections settings c s moved) :
    ∃ c' blocks others, Checked.ofSections settings moved = .ok c' ∧ c'.plan = c.plan ∧
      c'.globals = c.globals ∧ c'.scope = c.scope ∧ c.blocks = .ok blocks ∧
      c'.blocks = .ok others ∧ blocks.Perm others := by
  obtain ⟨c', hc', hreordered⟩ := exists_checked_of_reordered h hflat hmoved
  obtain ⟨blocks, others, hblocks, hothers, hperm⟩ := hreordered.exists_blocks h hc'
  exact ⟨c', blocks, others, hc', hreordered.plan_eq, hreordered.globals_eq, hreordered.scope_eq,
    hblocks, hothers, hperm⟩

/-- Two tables with the rows in another order, one of them between a comment and a blank line. -/
theorem ofSections_of_moved_rows :
    let settings : Settings := ⟨"C", ⟨"t", "g", "r", "f"⟩, "*", "~"⟩
    let common := [("C", "t=T"), ("C", "g=G"), ("C", "r=\"A join B on A.x=B.x\""), ("T", "$y"),
      ("G", "z=1")]
    let s : Sections := ⟨groups (common ++ [("A", "x"), ("A", "1"), ("A", "2"), ("B", "x,y"),
      ("B", "# rows"), ("B", "2,b"), ("B", "1,a"), ("B", ""), ("B", "2,b")])⟩
    let moved : Sections := ⟨groups (common ++ [("A", "x"), ("A", "2"), ("A", "1"), ("B", "x,y"),
      ("B", ""), ("B", "1,a"), ("B", "2,b"), ("B", "2,b"), ("B", "# rows")])⟩
    ∃ c' others, Checked.ofSections settings moved = .ok c' ∧
      (Checked.ofSections settings s >>= Checked.blocks) = .ok ["a", "b", "b"] ∧
      c'.blocks = .ok others ∧ ["a", "b", "b"].Perm others := by
  intro settings common s moved
  have hblocks : (Checked.ofSections settings s >>= Checked.blocks) = .ok ["a", "b", "b"] :=
    toOption_eq_some.1 (by decide +kernel)
  obtain ⟨c, hc, hfound⟩ := bind_eq_ok.1 hblocks
  have hparts : (fun c : Checked => (c.config, c.plan)) <$> Checked.ofSections settings s =
      .ok (⟨"T", "G", "A join B on A.x=B.x", false⟩, ⟨"A", [⟨"B", [⟨0, "x", "x"⟩]⟩]⟩) :=
    toOption_eq_some.1 (by decide +kernel)
  obtain ⟨_, hchecked, hparts⟩ := map_eq_ok.1 hparts
  cases hc.symm.trans hchecked
  obtain ⟨hconfig, hplan⟩ := Prod.mk.inj hparts
  have hmoved : ReorderedSections settings c s moved := by
    constructor
    · rw [Checked.ownSections, hconfig]
      decide +kernel
    · rw [hplan]
      have hnames : ∀ name ∈ (⟨"A", [⟨"B", [⟨0, "x", "x"⟩]⟩]⟩ : Query.Plan).names,
          name = "A" ∨ name = "B" := by decide
      intro name hname _ lines hlines
      obtain rfl | rfl := hnames name hname
      · have hA : s.lines? "A" = some ["x", "1", "2"] := by decide +kernel
        cases hA.symm.trans hlines
        exact ⟨["x", "2", "1"], by decide +kernel,
          @Table.ReorderedLines.intro "*" [] "x" ["1", "2"] ["2", "1"] nofun (by decide +kernel)
            (by decide +kernel) (by decide)⟩
      · have hB : s.lines? "B" = some ["x,y", "# rows", "2,b", "1,a", "", "2,b"] := by
          decide +kernel
        cases hB.symm.trans hlines
        exact ⟨["x,y", "", "1,a", "2,b", "2,b", "# rows"], by decide +kernel,
          @Table.ReorderedLines.intro "*" [] "x,y" ["# rows", "2,b", "1,a", "", "2,b"]
            ["", "1,a", "2,b", "2,b", "# rows"] nofun (by decide +kernel) (by decide +kernel)
            (by decide)⟩
  have hflat : c.config.flat = false := by rw [hconfig]
  obtain ⟨c', blocks, others, hc', -, -, -, hown, hothers, hperm⟩ :=
    ofSections_of_reordered hc hflat hmoved
  cases hfound.symm.trans hown
  exact ⟨c', others, hc', hblocks, hothers, hperm⟩

end Stencil.Input
