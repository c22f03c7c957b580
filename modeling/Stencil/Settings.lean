/-
  Settings: the names that an input file's layout is read with.

  `Settings.standard` is the layout that is used when nothing else is asked
  for.
-/

namespace Stencil

/-- The names of the parameters in the configuration section. -/
structure Keys where
  /-- Names the section with the template. -/
  template : String
  /-- Names the section with the global parameters. -/
  globals : String
  /-- Holds the query whose rows repeat the template. -/
  repeater : String
  /-- Says whether all tables are in flat layout; it may be left out. -/
  flat : String
  deriving DecidableEq, Repr

/-- The keys that a configuration section has to declare. -/
def Keys.required (k : Keys) : List String :=
  [k.template, k.globals, k.repeater]

/-- The names that an input file's layout is read with. -/
structure Settings where
  /-- The section with the configuration. -/
  configSection : String
  keys : Keys
  /-- The line that announces the flat layout of a table. -/
  flatMarker : String
  /-- What the name of a backup adds to the name of the file. -/
  backupSuffix : String
  deriving DecidableEq, Repr

/-- The layout that is used when nothing else is asked for. -/
def Settings.standard : Settings where
  configSection := "CONFIG"
  keys :=
    { template := "template"
      globals := "global_parameters"
      repeater := "repeater_parameters"
      flat := "flat_repeater" }
  flatMarker := "*flat*"
  backupSuffix := "~"

end Stencil
