/-
  What can be wrong with an input.

  * `Fault.OfInput`: the faults that the text of an input can be to blame for;
  * `faults_of_input`: checking an input and filling its template fail with such faults
    only.
-/
import Stencil.Proofs.Input.Rendering

namespace Stencil

/-- The faults that the text of an input can be to blame for: not that a table was not supplied,
    that a file cannot be accessed, or that a check was passed which should have failed. -/
def Fault.OfInput : Fault → Prop
  | .missingTable _ | .fileAccess .. | .internal _ => False
  | _ => True

theorem failsWith_require (sections : Sections) (name : String) :
    FailsWith Fault.OfInput (sections.require name) := by
  unfold Sections.require
  cases sections.lines? name with
  | none => exact failsWith_error trivial
  | some lines => exact failsWith_ok lines

theorem failsWith_parameters (sectionName : String) (lines : List String) :
    FailsWith Fault.OfInput (Parameters.ofLines sectionName lines) := by
  refine failsWith_map (failsWith_mapM fun line _ => ?_)
  unfold Parameters.pair
  cases LineForm.parameter? line with
  | none => exact failsWith_error trivial
  | some pair => exact failsWith_ok pair

theorem failsWith_checkDelimiters (template : Template) :
    FailsWith Fault.OfInput template.checkDelimiters := by
  unfold Template.checkDelimiters
  cases template.misuse with
  | none => exact failsWith_ok ()
  | some misuse => exact failsWith_error trivial

namespace Input

/-! ## The stages -/

theorem failsWith_readFlat (keys : Keys) (values : Values) :
    FailsWith Fault.OfInput (Config.readFlat keys values) := by
  unfold Config.readFlat
  cases values.get? keys.flat with
  | none => exact failsWith_ok false
  | some text =>
    refine failsWith_ite (fun _ => failsWith_ok _) fun _ => ?_
    exact failsWith_ite (fun _ => failsWith_ok _) fun _ => failsWith_error trivial

theorem failsWith_config (settings : Settings) (sections : Sections) :
    FailsWith Fault.OfInput (Config.ofSections settings sections) := by
  refine failsWith_bind (failsWith_require _ _) fun lines _ => ?_
  refine failsWith_bind (failsWith_parameters _ _) fun values _ => ?_
  refine failsWith_ite (fun _ => failsWith_error trivial) fun _ => ?_
  refine failsWith_bind (failsWith_readFlat _ _) fun flat _ => ?_
  exact failsWith_ite (fun _ => failsWith_error trivial) fun _ => failsWith_ok _

theorem failsWith_plan (config : Config) (sections : Sections) :
    FailsWith Fault.OfInput (config.plan sections) := by
  have hrequire : ∀ name, FailsWith Fault.OfInput (discard (sections.require name)) := fun name =>
    failsWith_map (failsWith_require sections name)
  refine failsWith_bind (hrequire _) fun _ _ => failsWith_bind (hrequire _) fun _ _ => ?_
  refine failsWith_bind ?_ fun plan _ => ?_
  · cases Query.Plan.ofQuery config.repeater with
    | error e => exact failsWith_error trivial
    | ok plan => exact failsWith_ok plan
  · exact failsWith_bind (failsWith_forM fun name _ => hrequire name) fun _ _ => failsWith_ok plan

theorem failsWith_readTable (settings : Settings) (sections : Sections) (config : Config)
    (name : String) : FailsWith Fault.OfInput (readTable settings sections config name) := by
  refine failsWith_bind (failsWith_require _ _) fun lines _ => ?_
  refine (Table.failsWith_ofLines settings name lines config.flat).imp ?_
  rintro _ (_ | _ | _) <;> trivial

theorem failsWith_readContents (settings : Settings) (sections : Sections) (config : Config)
    (plan : Query.Plan) :
    FailsWith Fault.OfInput (readContents settings sections config plan) := by
  refine failsWith_bind (failsWith_require _ _) fun lines _ => ?_
  refine failsWith_bind (failsWith_parameters _ _) fun globals _ => ?_
  refine failsWith_bind (failsWith_mapM fun name _ => failsWith_readTable _ _ _ name)
    fun tables _ => ?_
  exact failsWith_ite (fun _ => failsWith_error trivial) fun _ => failsWith_ok _

theorem failsWith_checkNames (template : Template) (sectionName : String) (globals : Values)
    (scope : Scope) :
    FailsWith Fault.OfInput (checkNames template sectionName globals scope) := by
  refine failsWith_ite (fun _ => failsWith_error trivial) fun _ => ?_
  exact failsWith_ite (fun _ => failsWith_error trivial) fun _ => failsWith_ok ()

/-- The tables of a plan can be joined, unless one of them lacks a column. -/
theorem failsWith_execute {plan : Query.Plan} (hplan : plan.WellFormed) {tables : List Table}
    (hnames : tables.map (·.name) = plan.names) :
    FailsWith Fault.OfInput (Join.execute plan tables) := by
  have hbind := Join.failsWith_bind_plan hnames hplan.foreignTable_le
  refine failsWith_bind (hbind.imp ?_) fun _ _ => failsWith_ok _
  rintro _ ⟨table, column, rfl⟩
  trivial

theorem failsWith_ofContents {sections : Sections} {config : Config} {plan : Query.Plan}
    (hplan : plan.WellFormed) {contents : Contents}
    (hnames : contents.tables.map (·.name) = plan.names) :
    FailsWith Fault.OfInput (Checked.ofContents sections config plan contents) := by
  refine failsWith_bind (failsWith_require _ _) fun lines _ => ?_
  refine failsWith_bind (failsWith_checkDelimiters _) fun _ _ => ?_
  refine failsWith_bind (failsWith_execute hplan hnames) fun result _ => ?_
  exact failsWith_bind (failsWith_checkNames _ _ _ _) fun _ _ => failsWith_ok _

/-! ## The whole input -/

/-- The stages behind the configuration rely on those in front of them: the query gives a plan
    whose keys look back, and the tables are read in the order of its names. -/
theorem failsWith_ofText (settings : Settings) (text : String) :
    FailsWith Fault.OfInput (Checked.ofText settings text) := by
  refine failsWith_bind (failsWith_config _ _) fun config _ => ?_
  refine failsWith_bind (failsWith_plan _ _) fun plan hplan => ?_
  refine failsWith_bind (failsWith_readContents _ _ _ _) fun contents hcontents => ?_
  have hwf := Query.wellFormed_of_ofQuery (config_plan_eq_ok hplan)
  obtain ⟨_, -, -, htables, -⟩ := readContents_eq_ok.1 hcontents
  exact failsWith_ofContents hwf (forall₂_readTable htables).1

theorem render_of_ofText {settings : Settings} {text : String} {c : Checked}
    (h : Checked.ofText settings text = .ok c) : ∃ output, c.render = .ok output := by
  obtain ⟨blocks, hblocks⟩ := (sound_of_ofText h).exists_blocks
  exact ⟨_, map_eq_ok.2 ⟨blocks, hblocks, rfl⟩⟩

/-- **What can be wrong with an input.**  Checking an input and filling its template fail with
    faults of the input only, and the rows that are read from the lines of a table are never
    refused for their width. -/
theorem faults_of_input (settings : Settings) (text : String) :
    FailsWith Fault.OfInput (Checked.ofText settings text) ∧
      FailsWith Fault.OfInput (generateText settings text) ∧
      ∀ (lines : List String) (flat : Bool) (columns : List String) (rows : List (List String)),
        Table.Reads settings lines flat columns rows →
          rows.find? (·.length ≠ columns.length) = none := by
  refine ⟨failsWith_ofText settings text, ?_, fun lines flat columns rows hreads => ?_⟩
  · refine failsWith_bind (failsWith_ofText settings text) fun c hc => ?_
    obtain ⟨output, houtput⟩ := render_of_ofText hc
    rw [houtput]
    exact failsWith_ok output
  · rw [List.find?_eq_none]
    intro row hrow
    simp [hreads.length_row row hrow]

/-- A name that stands for nothing, in a template over a table with two columns. -/
theorem faults_of_undefined_name :
    let settings : Settings := ⟨"C", ⟨"t", "g", "r", "f"⟩, "*", "~"⟩
    let text := "[C]\nt=T\ng=G\nr=A\n[T]\n$w\n[G]\nz=1\n[A]\nx,y\n1,\"2\""
    (∃ e, Checked.ofText settings text = .error e ∧ e.OfInput) ∧
      (∃ e, generateText settings text = .error e ∧ e.OfInput) ∧
      Table.Reads settings ["x,y\n", "1,\"2\""] false ["x", "y"] [["1", "2"]] ∧
      [["1", "2"]].find? (·.length ≠ ["x", "y"].length) = none := by
  intro settings text
  obtain ⟨hcheck, hgenerate, hwidth⟩ := faults_of_input settings text
  have hreads : Table.Reads settings ["x,y\n", "1,\"2\""] false ["x", "y"] [["1", "2"]] :=
    ⟨⟨false, "x,y", ["1,\"2\""]⟩, by decide +kernel, by decide +kernel, rfl⟩
  have hfails : (Checked.ofText settings text).toOption.isNone = true := by decide +kernel
  have hfails' : (generateText settings text).toOption.isNone = true := by decide +kernel
  refine ⟨?_, ?_, hreads, hwidth _ _ _ _ hreads⟩
  · cases h : Checked.ofText settings text with
    | error e => exact ⟨e, rfl, hcheck e h⟩
    | ok c =>
      rw [h] at hfails
      cases hfails
  · cases h : generateText settings text with
    | error e => exact ⟨e, rfl, hgenerate e h⟩
    | ok output =>
      rw [h] at hfails'
      cases hfails'

end Input

end Stencil
