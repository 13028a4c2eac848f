import NodeTagging.Generated.Classifier
import NodeTagging.Generated.Declarations
import NodeTagging.Generated.NameDispatcher
import NodeTagging.Generated.ProbeDispatcher

/-!
# The generated files

The three files of a run, as texts with the places they go to: the marker declarations, the module
with the two dispatchers, and the classifier script.
-/

namespace NodeTagging

/-- The kinds of generated files. -/
inductive FileKind where
  /-- The marker declarations. -/
  | markers
  /-- The dispatchers. -/
  | dispatcher
  /-- The classifier script. -/
  | classifier
deriving DecidableEq, Repr

namespace FileKind

/-- The word for a kind. -/
def word : FileKind → String
  | .markers => "markers"
  | .dispatcher => "dispatcher"
  | .classifier => "classifier"

/-- The kind of a given word. -/
def ofWord? (word : String) : Option FileKind :=
  [markers, dispatcher, classifier].find? fun kind => kind.word = word

theorem ofWord?_word (kind : FileKind) : ofWord? kind.word = some kind := by
  cases kind <;> decide

end FileKind

/-- The places of the generated files. -/
structure FilePlaces where
  /-- The place of the marker declarations. -/
  markers : String
  /-- The place of the dispatchers. -/
  dispatcher : String
  /-- The place of the classifier script. -/
  classifier : String
deriving DecidableEq, Repr

/-- A generated file. -/
structure GeneratedFile where
  /-- What it is. -/
  kind : FileKind
  /-- Where it goes. -/
  path : String
  /-- Its text. -/
  content : String
deriving DecidableEq, Repr

namespace GeneratedFile

variable (target : Target) (entry : EntryPoints) (t : Taxonomy)

/-- The text of the marker declarations. -/
def markersText : String :=
  Text.fileOfLines ((Declarations.ofTaxonomy t).lines target)

/-- The text of the dispatcher for live nodes alone. -/
def probeDispatcherText : String :=
  Text.unlines ((ProbeDispatcher.ofTaxonomy t).lines target entry)

/-- The text of the dispatcher for type names alone. -/
def nameDispatcherText : String :=
  Text.unlines ((NameDispatcher.ofTaxonomy t).lines target entry)

/-- The lines of the module with both dispatchers. -/
def dispatcherLines : List String :=
  target.noticeLines "//" ++
    ["", "use " ++ target.commandsImport ++ ";", "use " ++ target.handleImport ++ ";", ""] ++
    (ProbeDispatcher.ofTaxonomy t).lines target entry ++ [""] ++
    (NameDispatcher.ofTaxonomy t).lines target entry

/-- The text of the module with both dispatchers. -/
def dispatcherText : String :=
  Text.fileOfLines (dispatcherLines target entry t)

/-- The text of the classifier script. -/
def classifierText : String :=
  Text.fileOfLines ((ClassifierScript.ofTaxonomy t).lines target entry)

/-- The generated files of a taxonomy, in the order in which they are written. -/
def render (paths : FilePlaces) : List GeneratedFile :=
  [⟨.markers, paths.markers, markersText target t⟩,
    ⟨.dispatcher, paths.dispatcher, dispatcherText target entry t⟩,
    ⟨.classifier, paths.classifier, classifierText target entry t⟩]

end GeneratedFile

end NodeTagging
