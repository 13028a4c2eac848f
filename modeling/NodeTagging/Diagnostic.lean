/-!
# Diagnostics

What a run tells its user about a problem: the kind of problem, a message, the file concerned and
a hint, either of which may be missing.
-/

namespace NodeTagging

namespace Diagnostic

/-- The kinds of problems. Missing consumers and stale entries are only ever warnings. -/
inductive Kind where
  /-- There is no dump. -/
  | missingDump
  /-- The dump cannot be used. -/
  | malformedDump
  /-- No engine could be run. -/
  | unavailableEngine
  /-- There is no consumer to check. -/
  | missingConsumer
  /-- A table of the configuration names a class that is not tagged. -/
  | staleEntry
  /-- The configuration cannot be used. -/
  | invalidConfig
  /-- The generated files could not be written. -/
  | failedWrite
deriving DecidableEq, Repr

namespace Kind

/-- The name of a kind in messages. -/
def name : Kind → String
  | .missingDump => "SchemaMissing"
  | .malformedDump => "SchemaMalformed"
  | .unavailableEngine => "ExternalToolUnavailable"
  | .missingConsumer => "ConsumerFileMissing"
  | .staleEntry => "UnknownClassInOverrideTable"
  | .invalidConfig => "ConfigInvalid"
  | .failedWrite => "WriteFailed"

/-- All kinds. -/
def all : List Kind :=
  [.missingDump, .malformedDump, .unavailableEngine, .missingConsumer,
    .staleEntry, .invalidConfig, .failedWrite]

/-- The kind with a given name. -/
def ofName? (name : String) : Option Kind :=
  all.find? fun kind => kind.name = name

theorem ofName?_name (kind : Kind) : ofName? kind.name = some kind := by
  cases kind <;> decide

end Kind

end Diagnostic

/-- A problem as it is told to the user. -/
structure Diagnostic where
  /-- The kind of problem. -/
  kind : Diagnostic.Kind
  /-- What is wrong. -/
  message : String
  /-- The file concerned. -/
  file? : Option String
  /-- What the user can do. -/
  hint? : Option String
deriving DecidableEq, Repr

namespace Diagnostic

/-- A part of a diagnostic between two texts; nothing if the part is missing or empty. -/
def surround (before : String) (part? : Option String) (after : String) : String :=
  match part? with
  | none => ""
  | some part => if part = "" then "" else before ++ part ++ after

/-- The diagnostic as it is printed: kind, file, message, and the hint on a line of its own. -/
def format (d : Diagnostic) : String :=
  "[" ++ d.kind.name ++ "]" ++ surround " " d.file? ":" ++ " " ++ d.message ++
    surround "\n  hint: " d.hint? ""

end Diagnostic

/-- The warnings of a run, in the order in which they were given. -/
structure WarningLog where
  /-- The warnings so far. -/
  warnings : List Diagnostic
deriving DecidableEq, Repr

namespace WarningLog

/-- The log without warnings. -/
def empty : WarningLog := ⟨[]⟩

/-- The log with one more warning. -/
def push (log : WarningLog) (warning : Diagnostic) : WarningLog :=
  ⟨log.warnings ++ [warning]⟩

/-- The log with more warnings, in order. -/
def append (log : WarningLog) (warnings : List Diagnostic) : WarningLog :=
  warnings.foldl push log

theorem warnings_append (log : WarningLog) (warnings : List Diagnostic) :
    (log.append warnings).warnings = log.warnings ++ warnings := by
  induction warnings generalizing log with
  | nil => simp [append]
  | cons w ws ih => simpa [append, push, List.append_assoc] using ih (log.push w)

end WarningLog

end NodeTagging
