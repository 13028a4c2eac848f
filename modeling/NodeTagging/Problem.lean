import NodeTagging.Diagnostic
import NodeTagging.Json.Shape

/-!
# Problems

Every cause for which a run is refused or warns, as data. What the user reads of each is decided in
one place, `Problem.diagnostic`.
-/

namespace NodeTagging

/-- A cause for refusing a run or for a warning. -/
inductive Problem where
  /-- There is no dump at the path. -/
  | dumpMissing (path : String)
  /-- The dump is not a JSON document. -/
  | dumpNotJson (path : String)
  /-- The dump has an entry of the wrong shape, of which this is the first violation. -/
  | dumpRejected (path : String) (violation : Json.Violation)
  /-- No engine wrote the dump; the reason for each that was tried. -/
  | exportFailed (path : String) (attempts : List (String × String))
  /-- There is no consumer at the path. -/
  | consumerMissing (path : String)
  /-- A binding name is given for a class that is not tagged. -/
  | staleBindingName (className : String)
  /-- A version gate is given for a class that is not tagged. -/
  | staleGate (className : String)
  /-- The dump does not declare the root of the taxonomy. -/
  | rootUndeclared (root : String)
  /-- A class is listed under two gates. -/
  | gateConflict (className first second : String)
  /-- There is no configuration at the path. -/
  | configMissing (path : String)
  /-- The configuration cannot be read as a JSON document. -/
  | configUnreadable (path reason : String)
  /-- The configuration has the wrong shape. -/
  | configRejected (path : String) (violations : List Json.Violation)
  /-- A category has the name of the catch-all. -/
  | catchAllReused (path id : String)
  /-- A category shares its name or its root with an earlier one. -/
  | categoryRepeated (path id root : String)
  /-- The root of a category has a version gate. -/
  | categoryRootGated (path root : String)
  /-- The generated files could not be written beside their places. -/
  | stagingFailed (reason : String)
  /-- A generated file could not be moved into place; the files that were not put back. -/
  | installFailed (path reason : String) (unrestored : List (String × String))
deriving DecidableEq, Repr

namespace Problem

/-- The words that stand for what is wrong with a text that is not a JSON document. -/
def syntaxFault : String := "<json syntax error>"

/-- The arguments with which an engine is asked to write its dump to a path. -/
def exportArguments (path : String) : List String :=
  ["--headless", "--dump-extension-api", path]

/-- The attempts of an export in words. -/
def attemptsText (attempts : List (String × String)) : String :=
  if attempts = [] then "no executables configured"
  else String.intercalate "; " (attempts.map fun a => a.1 ++ ": " ++ a.2)

/-- The files that were not put back, in words; nothing if there are none. -/
def unrestoredText (unrestored : List (String × String)) : String :=
  if unrestored = [] then ""
  else "; could not restore " ++
    String.intercalate ", " (unrestored.map fun u => u.1 ++ " (" ++ u.2 ++ ")")

/-- What the user is told. -/
def diagnostic : Problem → Diagnostic
  | dumpMissing path =>
    ⟨.missingDump, "Reflection dump not found", some path,
      some "Run with --dump to export it from the engine, or place the file there manually."⟩
  | dumpNotJson path =>
    ⟨.malformedDump, "Schema is not valid JSON: " ++ syntaxFault, some path, none⟩
  | dumpRejected path violation =>
    ⟨.malformedDump, "Schema entry rejected: " ++ violation.text, some path,
      some "Every entry under 'classes' needs a string 'name'; regenerate the dump with --dump."⟩
  | exportFailed path attempts =>
    ⟨.unavailableEngine,
      "Could not export the reflection dump (" ++ attemptsText attempts ++ ")", some path,
      some ("Install the engine on PATH, or run it yourself: <engine> " ++
        String.intercalate " " (exportArguments path))⟩
  | consumerMissing path =>
    ⟨.missingConsumer, "Consumer file not found; skipped the wiring check", some path, none⟩
  | staleBindingName className =>
    ⟨.staleEntry,
      "Name override for '" ++ className ++ "' matches no tagged class", none,
      some "Drop the entry from 'nameOverrides' if the class is gone."⟩
  | staleGate className =>
    ⟨.staleEntry,
      "Version gate for '" ++ className ++ "' matches no tagged class", none,
      some "Drop the entry from 'versionGates' if the class is gone."⟩
  | rootUndeclared root =>
    ⟨.malformedDump, "Taxonomy root '" ++ root ++ "' is not declared in the schema", none,
      some "Check 'taxonomyRoot' in the generator config."⟩
  | gateConflict className first second =>
    ⟨.invalidConfig,
      "Class '" ++ className ++ "' is gated by both '" ++ first ++ "' and '" ++ second ++ "'", none,
      some "Keep the class under a single gate tag."⟩
  | configMissing path =>
    ⟨.invalidConfig, "Generator config not found", some path,
      some "Create generator.config.json in the project root or pass --config <path>."⟩
  | configUnreadable path reason =>
    ⟨.invalidConfig, "Generator config is not valid JSON: " ++ reason, some path, none⟩
  | configRejected path violations =>
    ⟨.invalidConfig,
      "Invalid generator config: " ++ String.intercalate "; " (violations.map (·.text)),
      some path, none⟩
  | catchAllReused path id =>
    ⟨.invalidConfig, "Category '" ++ id ++ "' reuses the catch-all id", some path, none⟩
  | categoryRepeated path id root =>
    ⟨.invalidConfig, "Category '" ++ id ++ "' (root '" ++ root ++ "') is listed twice", some path,
      none⟩
  | categoryRootGated path root =>
    ⟨.invalidConfig, "Category root '" ++ root ++ "' cannot be version gated", some path,
      some ("Branch probes are not conditionally compiled; ungate the root or drop the " ++
        "category.")⟩
  | stagingFailed reason =>
    ⟨.failedWrite, "Could not stage generated files: " ++ reason, none, none⟩
  | installFailed path reason unrestored =>
    ⟨.failedWrite,
      "Could not move " ++ path ++ " into place: " ++ reason ++ unrestoredText unrestored,
      some path, none⟩

end Problem

end NodeTagging
