import NodeTagging.Generated.File

/-!
# The configuration of a run

Where the files of a run are, how the engine is called, what the taxonomy holds, and what the
generated files need to know of their target.
-/

namespace NodeTagging

/-- The places of the files that a run reads and writes. -/
structure ConfigPaths where
  /-- The place of the reflection dump. -/
  schema : String
  /-- The places of the generated files. -/
  generated : FilePlaces
  /-- The place of the file that calls the generated dispatcher. -/
  consumer : String
deriving DecidableEq, Repr

/-- A configuration that can be run. -/
structure Config where
  /-- The place that it was read from. -/
  path : String
  /-- The places of the files. -/
  paths : ConfigPaths
  /-- The commands that start an engine, in the order in which they are tried. -/
  engines : List String
  /-- What the taxonomy holds. -/
  taxonomy : TaxonomyRules
  /-- The settings of the target. -/
  target : Target
  /-- The names of the functions that the program calls. -/
  entryPoints : EntryPoints
deriving DecidableEq, Repr

namespace Config

/-- The name of the file that a configuration is read from by default. -/
def defaultFile : String := "generator.config.json"

/-- The commands that start an engine where none are configured. -/
def defaultEngines : List String :=
  ["godot", "godot4", "/usr/local/bin/godot"]

end Config

end NodeTagging
