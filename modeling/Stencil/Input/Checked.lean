/-
  Checked input.

  An input file is checked in four stages: its configuration, the sections that
  are named there and the query, the parameters and tables, and at last the
  template against the joined tables.

  * `Contents` is what the third stage reads, `Checked` what passed all four;
  * `Checked.ofText` reads and checks a text;
  * `Checked.blocks` fills the template once for each joined row, and
    `Checked.render` puts the blocks together.
-/
import Stencil.Input.Config
import Stencil.Scope
import Stencil.Table.Layout
import Stencil.Template

namespace Stencil.Input

/-! ## Parameters and tables -/

/-- The parameters and tables of an input file. -/
structure Contents where
  globals : Values
  /-- The tables of the plan, in the order of its names. -/
  tables : List Table
  scope : Scope

/-- The table that a section holds. -/
def readTable (settings : Settings) (sections : Sections) (config : Config) (name : String) :
    Except Fault Table := do
  let lines ← sections.require name
  Table.ofLines settings name lines config.flat

/-- The global parameters that share the name of a bare variable, in order. -/
def conflicts (globals : Values) (scope : Scope) : List String :=
  globals.names.filter fun name => name ∈ scope.bareNames

/-- The parameters and tables of an input file.  No global parameter has the name
    of a bare variable. -/
def readContents (settings : Settings) (sections : Sections) (config : Config)
    (plan : Query.Plan) : Except Fault Contents := do
  let lines ← sections.require config.globals
  let globals ← Parameters.ofLines config.globals lines
  let tables ← plan.names.mapM (readTable settings sections config)
  let scope := Scope.ofTables tables
  let conflicts := conflicts globals scope
  if conflicts ≠ [] then
    throw (.nameConflict (.globalsAndColumns config.globals) conflicts)
  return ⟨globals, tables, scope⟩

/-! ## Template variables -/

/-- The names in a template that stand for nothing, among those that are no
    global parameters. -/
def undefinedNames (scope : Scope) (names : List String) : List String :=
  names.filter fun name => scope.resolve name = .undefined

/-- A name with what it could stand for, if that is more than one thing. -/
def ambiguousName? (scope : Scope) (name : String) : Option AmbiguousName :=
  match scope.resolve name with
  | .ambiguous alternatives => some ⟨name, alternatives⟩
  | _ => none

/-- Every name in a template is a global parameter or stands for one column. -/
def checkNames (template : Template) (sectionName : String) (globals : Values) (scope : Scope) :
    Except Fault Unit := do
  let names := template.names.filter fun name => !globals.contains name
  let undefined := undefinedNames scope names
  if undefined ≠ [] then
    throw (.undefinedVariable sectionName undefined)
  let ambiguous := names.filterMap (ambiguousName? scope)
  if ambiguous ≠ [] then
    throw (.ambiguousVariable sectionName ambiguous)

/-! ## Checked input -/

/-- An input file that passed all checks. -/
structure Checked where
  config : Config
  plan : Query.Plan
  template : Template
  globals : Values
  /-- The tables of the plan, in the order of its names. -/
  tables : List Table
  scope : Scope
  /-- The joined rows. -/
  rows : List Join.Row

namespace Checked

/-- Check the template of an input file against its parameters and tables. -/
def ofContents (sections : Sections) (config : Config) (plan : Query.Plan) (contents : Contents) :
    Except Fault Checked := do
  let lines ← sections.require config.template
  let template := Template.ofLines config.template lines
  template.checkDelimiters
  let result ← Join.execute plan contents.tables
  checkNames template config.template contents.globals contents.scope
  return {
    config, plan, template, globals := contents.globals, tables := contents.tables
    scope := contents.scope, rows := result.rows }

/-- Check the sections of an input file. -/
def ofSections (settings : Settings) (sections : Sections) : Except Fault Checked := do
  let config ← Config.ofSections settings sections
  let plan ← config.plan sections
  let contents ← readContents settings sections config plan
  ofContents sections config plan contents

/-- Check the text of an input file. -/
def ofText (settings : Settings) (text : String) : Except Fault Checked :=
  ofSections settings (.scan text)

/-- The values for the template in a joined row: its variables and the global
    parameters. -/
def rowValues (c : Checked) (row : Join.Row) : Values :=
  (c.scope.values c.tables row).override c.globals

/-- The template filled for a joined row. -/
def block (c : Checked) (row : Join.Row) : Except Fault String :=
  c.template.fill (c.rowValues row).get?

/-- The template filled for every joined row. -/
def blocks (c : Checked) : Except Fault (List String) :=
  c.rows.mapM c.block

/-- The blocks, one behind the other. -/
def render (c : Checked) : Except Fault String :=
  String.join <$> c.blocks

end Checked

/-- The output that the text of an input file generates. -/
def generateText (settings : Settings) (text : String) : Except Fault String := do
  let checked ← Checked.ofText settings text
  checked.render

end Stencil.Input
