/-
  Global parameters beside the variables of joined rows.

  * `isListing_conflicts`: the global parameters at fault are those with the name of a
    column that one table has;
  * `notMem_globals_of_variable`: in a checked input no variable of a joined row has the
    name of a global parameter;
  * `rowValues_and_conflicts`: so the values for the template hold both as they are.
-/
import Stencil.Proofs.Input.Checked
import Stencil.Proofs.Parameters
import Stencil.Proofs.Scope.Lookup

namespace Stencil.Input

/-- The global parameters at fault are listed. -/
theorem isListing_conflicts (globals : Values) (tables : List Table) :
    IsListing (fun name => name ∈ globals.names ∧ (havingColumn tables name).length = 1)
      (conflicts globals (.ofTables tables)) := by
  refine (globals.isListing_names.filter _).congr fun name => ?_
  rw [decide_eq_true_eq, Scope.mem_bareNames, Values.mem_names]

/-- **No variable has the name of a global parameter.**  That name has no dot, and it is not the
    name of a column that one table has. -/
theorem notMem_globals_of_variable {settings : Settings} {sections : Sections} {c : Checked}
    (h : Checked.ofSections settings sections = .ok c) {row : Join.Row} {name text : String}
    (hvariable : Variable c.tables row name text) : name ∉ c.globals.names := by
  obtain ⟨contents, -, -, hcontents, h⟩ := ofSections_eq_ok.1 h
  obtain ⟨lines, -, hglobals, -, hscope, hnone⟩ := readContents_eq_ok.1 hcontents
  obtain ⟨_, _, -, -, -, -, hc⟩ := ofContents_eq_ok.1 h
  rw [hc] at hvariable ⊢
  rw [hscope] at hnone
  intro hmem
  obtain ⟨global, hglobal⟩ := Values.mem_names.1 hmem
  have hname := Parameters.isName_of_ofLines hglobals hglobal
  cases hvariable with
  | qualified _ _ => exact dot_notMem_of_isName hname (dot_mem_qualifiedName _ _)
  | bare honly hcell =>
    obtain ⟨table, htable, hcolumn⟩ := exists_mem_columns hcell
    have hone := Scope.length_havingColumn_of_only htable hcolumn honly
    exact (isListing_conflicts _ _).eq_nil_iff.1 hnone name ⟨hmem, hone⟩

/-- **Global parameters stand beside the variables of a joined row.**  In a checked input no name
    is that of a variable and of a global parameter, so each keeps its value among the values for
    the template, and there are no others.  Parameters and tables that can be read make up such an
    input only if no global parameter has the name of a column that one table has; otherwise
    the fault lists these names. -/
theorem rowValues_and_conflicts (settings : Settings) :
    (∀ text c, Checked.ofText settings text = .ok c → ∀ row ∈ c.rows,
      let own := c.scope.values c.tables row
      (∀ name ∈ own.names, name ∉ c.globals.names) ∧
      (∀ name value, own.get? name = some value → (c.rowValues row).get? name = some value) ∧
      (∀ name value, c.globals.get? name = some value →
        (c.rowValues row).get? name = some value) ∧
      (c.rowValues row).size = own.size + c.globals.size) ∧
    ∀ (sections : Sections) (config : Config) (plan : Query.Plan) (lines : List String)
      (globals : Values) (tables : List Table),
      sections.lines? config.globals = some lines →
      Parameters.ofLines config.globals lines = .ok globals →
      plan.names.mapM (readTable settings sections config) = .ok tables →
      ∃ names, IsListing
          (fun name => name ∈ globals.names ∧ (havingColumn tables name).length = 1) names ∧
        readContents settings sections config plan =
          if names = [] then .ok ⟨globals, tables, .ofTables tables⟩
          else .error (.nameConflict (.globalsAndColumns config.globals) names) := by
  constructor
  · intro text c h row _ own
    have hsound := sound_of_ofText h
    have hown : own = (Scope.ofTables c.tables).values c.tables row :=
      congrArg (·.values c.tables row) hsound.scope_eq
    have hdisjoint : ∀ name ∈ own.names, name ∉ c.globals.names := by
      intro name hname
      obtain ⟨value, hvalue⟩ := Values.mem_names.1 hname
      rw [hown, Scope.get?_values hsound.plain] at hvalue
      exact notMem_globals_of_variable h hvalue
    refine ⟨hdisjoint, fun name value hvalue => ?_, fun name value hvalue => ?_,
      Values.size_override hdisjoint⟩
    · have hglobal : c.globals.get? name = none := by
        rw [Option.eq_none_iff_forall_ne_some]
        intro global hglobal
        exact hdisjoint name (Values.mem_names.2 ⟨value, hvalue⟩)
          (Values.mem_names.2 ⟨global, hglobal⟩)
      rw [Checked.rowValues, Values.get?_override, hglobal, Option.none_or]
      exact hvalue
    · rw [Checked.rowValues, Values.get?_override, hvalue, Option.some_or]
  · intro sections config plan lines globals tables hlines hglobals htables
    refine ⟨_, isListing_conflicts globals tables, ?_⟩
    rw [readContents_of_read hlines hglobals htables, ite_not]

/-- A global parameter with the name of a column that both tables have, beside which the cells keep
    their values under the names of their tables, and two that share the name of a column that one
    of them has. -/
theorem rowValues_and_conflicts_shared :
    let settings : Settings := ⟨"C", ⟨"t", "g", "r", "f"⟩, "*", "~"⟩
    let text := "[C]\nt=T\ng=G\nr=\"A join B on A.x=B.x\"\n[T]\n$x\n[G]\nx=g\n" ++
      "[A]\nx\n1\n[B]\nx\n1"
    let sections : Sections := ⟨groups [("G", "z=1"), ("G", "x=2"), ("G", "y=3"), ("A", "x,y"),
      ("B", "x,z"), ("B", "1,3")]⟩
    (∃ c, Checked.ofText settings text = .ok c ∧ [0, 0] ∈ c.rows ∧
      (c.rowValues [0, 0]).size = (c.scope.values c.tables [0, 0]).size + 1 ∧
      (c.rowValues [0, 0]).get? "x" = some "g" ∧ (c.rowValues [0, 0]).get? "B.x" = some "1" ∧
      "B.x" ∉ c.globals.names) ∧
      ∃ names, "y" ∈ names ∧ "z" ∈ names ∧ "x" ∉ names ∧
        readContents settings sections ⟨"T", "G", "", false⟩ ⟨"A", [⟨"B", []⟩]⟩ =
          .error (.nameConflict (.globalsAndColumns "G") names) := by
  intro settings text sections
  obtain ⟨hchecked, hconflicts⟩ := rowValues_and_conflicts settings
  constructor
  · have hevaluate : ((fun c : Checked => (c.rows, c.globals.size, c.globals.get? "x",
        (c.scope.values c.tables [0, 0]).get? "B.x")) <$> Checked.ofText settings text) =
          .ok ([[0, 0]], 1, some "g", some "1") := toOption_eq_some.1 (by decide +kernel)
    obtain ⟨c, hc, hparts⟩ := map_eq_ok.1 hevaluate
    simp only [Prod.mk.injEq] at hparts
    obtain ⟨hrows, hone, hx, hcell⟩ := hparts
    have hrow : [0, 0] ∈ c.rows := hrows ▸ List.mem_singleton_self _
    obtain ⟨hapart, hown, hglobal, hsize⟩ := hchecked text c hc [0, 0] hrow
    exact ⟨c, hc, hrow, hsize.trans (congrArg _ hone), hglobal "x" "g" hx, hown "B.x" "1" hcell,
      hapart "B.x" (Values.mem_names.2 ⟨"1", hcell⟩)⟩
  · let globals := Values.ofPairs [("z", "1"), ("x", "2"), ("y", "3")]
    let tables : List Table := [⟨"A", ["x", "y"], [], by decide, by decide⟩,
      ⟨"B", ["x", "z"], [["1", "3"]], by decide, by decide⟩]
    have hlines : sections.lines? "G" = some ["z=1", "x=2", "y=3"] := by decide +kernel
    have hpairs : (Text.cleanLines ["z=1", "x=2", "y=3"]).mapM (Parameters.pair "G") =
        .ok [("z", "1"), ("x", "2"), ("y", "3")] := toOption_eq_some.1 (by decide +kernel)
    have hglobals : Parameters.ofLines "G" ["z=1", "x=2", "y=3"] = .ok globals :=
      congrArg (Values.ofPairs <$> ·) hpairs
    have htables : ["A", "B"].mapM (readTable settings sections ⟨"T", "G", "", false⟩) =
        .ok tables := toOption_eq_some.1 (by decide +kernel)
    obtain ⟨names, hnames, hread⟩ := hconflicts sections ⟨"T", "G", "", false⟩
      ⟨"A", [⟨"B", []⟩]⟩ _ globals tables hlines hglobals htables
    have hy : "y" ∈ names := (hnames.mem_iff "y").2 (by decide +kernel)
    refine ⟨names, hy, (hnames.mem_iff "z").2 (by decide +kernel), fun hx => ?_, ?_⟩
    · exact absurd ((hnames.mem_iff "x").1 hx).2 (by decide +kernel)
    · rw [hread, if_neg (List.ne_nil_of_mem hy)]

end Stencil.Input
