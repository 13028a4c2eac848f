import NodeTagging.Generated.File
import NodeTagging.Host.Basic
import NodeTagging.Path

/-!
# Installing the generated files

The generated files replace those of an earlier run as one unit. First all of them are written
beside their places (*staged*). Then each file that is in the way is moved aside, and the staged one
is moved into its place. A *journal* records how to undo what was done, newest step first. If a step
fails, the journal is undone and the staged files are removed; if all succeed, the files that were
moved aside are removed.
-/

namespace NodeTagging.Installation

/-! ### Places -/

/-- Where the file for a place is written first. -/
def stagedPath (path : String) : String := path ++ ".tmp"

/-- Where the file that is at a place is moved aside. -/
def asidePath (path : String) : String := path ++ ".bak"

/-! ### The journal -/

/-- How to undo what was done to a place. -/
inductive UndoStep where
  /-- The file that was moved aside is moved back. -/
  | restore (path : String)
  /-- The new file is removed. -/
  | discard (path : String)
deriving DecidableEq, Repr

/-- The place that a step puts back. -/
def UndoStep.path : UndoStep → String
  | .restore path => path
  | .discard path => path

/-- What was done so far, newest first. -/
abbrev Journal := List UndoStep

/-- The files that were moved aside, in the order in which they were. -/
def Journal.backups (journal : Journal) : List String :=
  journal.reverse.filterMap fun
    | .restore path => some (asidePath path)
    | .discard _ => none

variable {m : Type → Type} [Monad m] [MonadExceptOf Failure m] [Host m]

/-- Puts a place back. -/
def UndoStep.perform : UndoStep → m Unit
  | .restore path => Host.rename (asidePath path) path
  | .discard path => Host.remove path

/-- Puts all places of the journal back, newest first. The places where this fails are given with
    the reasons. -/
def undo : Journal → m (List (String × String))
  | [] => pure []
  | step :: earlier => do
    let failed ← tryCatch (do step.perform; pure []) fun e => pure [(step.path, e.reason)]
    let others ← undo earlier
    pure (failed ++ others)

/-- Removes the files at the given paths, in order. -/
def removeEach : List String → m Unit
  | [] => pure ()
  | path :: paths => do
    Host.remove path
    removeEach paths

/-! ### Staging -/

/-- Ends the run after a failure to stage, without the files that were staged. -/
def abandonStaging {α : Type} (staged : List String) (e : Failure) : m α := do
  removeEach staged
  throw (.problem (.stagingFailed e.reason))

/-- Writes the files beside their places, after those at the `staged` paths. -/
def stage (staged : List String) : List GeneratedFile → m Unit
  | [] => pure ()
  | a :: rest => do
    tryCatch (Host.makeDirectories (Path.directory a.path)) (abandonStaging staged)
    tryCatch (Host.writeText (stagedPath a.path) a.content)
      (abandonStaging (staged ++ [stagedPath a.path]))
    stage (staged ++ [stagedPath a.path]) rest

/-! ### Moving into place -/

/-- Ends the run after a failure at a place: every place is put back, and the staged files are
    removed. -/
def abandonInstall {α : Type} (staged : List String) (journal : Journal) (path : String)
    (e : Failure) : m α := do
  let unrestored ← undo journal
  removeEach staged
  throw (.problem (.installFailed path e.reason unrestored))

/-- Moves the file at a place aside, if there is one, and tells whether there was. -/
def setAside (path : String) : m Bool := do
  let present ← Host.isPresent path
  if present then Host.rename path (asidePath path)
  pure present

/-- Moves the staged files into their places, after what the journal records. -/
def moveIntoPlace (staged : List String) (journal : Journal) : List GeneratedFile → m Journal
  | [] => pure journal
  | a :: rest => do
    let replaced ← tryCatch (setAside a.path) (abandonInstall staged journal a.path)
    -- From here on the file that was moved aside has to come back if a step fails.
    let journal := if replaced then .restore a.path :: journal else journal
    tryCatch (Host.rename (stagedPath a.path) a.path) (abandonInstall staged journal a.path)
    moveIntoPlace staged (if replaced then journal else .discard a.path :: journal) rest

/-- Installs the generated files and gives their places. -/
def install (files : List GeneratedFile) : m (List String) := do
  stage [] files
  let journal ← moveIntoPlace (files.map fun a => stagedPath a.path) [] files
  removeEach journal.backups
  pure (files.map (·.path))

end NodeTagging.Installation
