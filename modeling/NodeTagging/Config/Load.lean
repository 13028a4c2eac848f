import NodeTagging.Config.Document
import NodeTagging.Host.Basic
import NodeTagging.Json.Parser

/-!
# Loading a configuration

A configuration is read from a file. Whatever keeps the file from being read as a JSON document, be
it the disk or the text, is a problem of the configuration.
-/

namespace NodeTagging.Config

variable {m : Type → Type} [Monad m] [MonadExceptOf Failure m] [Host m]

/-- The JSON document at an absolute path. -/
def loadDocument (path : String) : m Json := do
  let source ← tryCatch (Host.readText path) fun e =>
    throw (.problem (.configUnreadable path e.reason))
  match Json.parse? source with
  | some document => pure document
  | none => throw (.problem (.configUnreadable path Problem.syntaxFault))

/-- The configuration at a path. -/
def load (path : String) : m Config := do
  let workingDirectory ← Host.workingDirectory
  let place := Path.ofLocation (Path.location workingDirectory path)
  if ← Host.isPresent place then
    let document ← loadDocument place
    orProblem (ofJson workingDirectory place document)
  else throw (.problem (.configMissing place))

end NodeTagging.Config
