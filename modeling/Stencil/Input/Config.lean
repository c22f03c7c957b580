/-
  The configuration of an input file.

  One section says which sections hold the template and the global parameters,
  and which query repeats the template.

  * `Config.ofSections` reads and checks that section;
  * `Config.plan` checks that the sections which the configuration and its query
    name are there, and gives the plan of the query;
  * `planOfText` does both for a text.
-/
import Stencil.Parameters
import Stencil.Query.Reader
import Stencil.Sections
import Stencil.Settings

namespace Stencil

/-- The lines of a section, which has to be there. -/
def Sections.require (s : Sections) (name : String) : Except Fault (List String) :=
  match s.lines? name with
  | some lines => .ok lines
  | none => .error (.missingSection name)

namespace Input

/-- What the configuration section says. -/
structure Config where
  /-- The section with the template. -/
  template : String
  /-- The section with the global parameters. -/
  globals : String
  /-- The query whose rows repeat the template. -/
  repeater : String
  /-- Whether all tables are in flat layout. -/
  flat : Bool
  deriving DecidableEq, Repr

namespace Config

/-- Whether all tables are in flat layout, as a parameter of the configuration
    says. -/
def readFlat (keys : Keys) (values : Values) : Except Fault Bool :=
  match values.get? keys.flat with
  | none => .ok false
  | some text =>
    if text = "false" then .ok false
    else if text = "true" then .ok true
    else .error (.wrongValue keys.flat "either `true` or `false`" text)

/-- The configuration that values hold, if the required ones are there.  The
    template and the global parameters are different sections. -/
def ofValues (settings : Settings) (values : Values) : Except Fault Config := do
  let keys := settings.keys
  let missing := keys.required.filter fun key => !values.contains key
  if missing ≠ [] then
    throw (.missingParameter settings.configSection missing)
  let flat ← readFlat keys values
  let text := fun key => (values.get? key).getD ""
  let template := text keys.template
  let globals := text keys.globals
  if template = globals then
    throw (.wrongValue keys.globals
      ("a section other than the template `" ++ template ++ "`") globals)
  return ⟨template, globals, text keys.repeater, flat⟩

/-- The configuration of an input file. -/
def ofSections (settings : Settings) (sections : Sections) : Except Fault Config := do
  let lines ← sections.require settings.configSection
  let values ← Parameters.ofLines settings.configSection lines
  ofValues settings values

/-- The plan of the configured query.  The sections that the configuration and
    the plan name have to be there. -/
def plan (config : Config) (sections : Sections) : Except Fault Query.Plan := do
  discard (sections.require config.template)
  discard (sections.require config.globals)
  let plan ← (Query.Plan.ofQuery config.repeater).mapError .querySyntax
  plan.names.forM fun name => discard (sections.require name)
  return plan

end Config

/-- The plan of the sections of an input file. -/
def planOfSections (settings : Settings) (sections : Sections) : Except Fault Query.Plan := do
  let config ← Config.ofSections settings sections
  config.plan sections

/-- The plan of an input file's text. -/
def planOfText (settings : Settings) (text : String) : Except Fault Query.Plan :=
  planOfSections settings (.scan text)

end Input

end Stencil
