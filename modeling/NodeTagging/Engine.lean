import NodeTagging.Inheritance.Dump
import NodeTagging.Host.Basic
import NodeTagging.Path

/-!
# Getting the reflection dump

The dump lies at a configured place. On request an engine is asked to write it there first. The
configured commands are tried in order, each once, until one succeeds and the dump is there.
-/

namespace NodeTagging.Engine

/-- The time that an engine is given to write its dump, in milliseconds. -/
def exportTimeout : Nat := 30000

variable {m : Type → Type} [Monad m] [MonadExceptOf Failure m] [Host m]

/-- Whether an engine that ended in the given way has written the dump. -/
def hasExported (path : String) (outcome : CommandOutcome) : m Bool :=
  if outcome.isSuccess then Host.isPresent path else pure false

/-- Tries the given commands after the failed `attempts`, and gives the one that succeeded. -/
def tryCommands (path : String) (verbose : Bool) (attempts : List (String × String)) :
    List String → m String
  | [] => throw (.problem (.exportFailed path attempts))
  | command :: others => do
    let outcome ← Host.runCommand command (Problem.exportArguments path) exportTimeout
    if ← hasExported path outcome then
      if verbose then Host.print .log ("Exported reflection dump with '" ++ command ++ "'")
      pure command
    else
      if verbose then
        Host.print .warn
          ("Engine dump with '" ++ command ++ "' failed (" ++ outcome.reason ++ ")")
      tryCommands path verbose (attempts ++ [(command, outcome.reason)]) others

/-- Has an engine write the dump, and gives the command that did. -/
def exportDump (path : String) (verbose : Bool) (commands : List String) : m String := do
  Host.makeDirectories (Path.directory path)
  tryCommands path verbose [] commands

/-- Has an engine write the dump if that is asked for. -/
def acquireDump (path : String) (wanted verbose : Bool) (commands : List String) :
    m (Option String) :=
  if wanted then some <$> exportDump path verbose commands else pure none

/-- The class graph of the dump at a path. -/
def loadGraph (path : String) : m Inheritance := do
  if ← Host.isPresent path then
    let source ← Host.readText path
    let entries ← orProblem (Inheritance.readDump path source)
    pure (.ofEntries entries)
  else throw (.problem (.dumpMissing path))

end NodeTagging.Engine
