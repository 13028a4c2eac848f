import NodeTagging.Config.Load
import NodeTagging.Consumer
import NodeTagging.Engine
import NodeTagging.Installation
import NodeTagging.Taxonomy.Audit

/-!
# A run

A run reads its configuration and the dump, works out the taxonomy and the generated files, installs
them, and looks into the consumer. All that can be worked out is worked out before the first file is
written: `RunPlan.make` is a function of the class graph and the configuration alone.
-/

namespace NodeTagging

/-! ### What is worked out -/

/-- What a run works out before it writes anything. -/
structure RunPlan where
  /-- The taxonomy. -/
  taxonomy : Taxonomy
  /-- The generated files. -/
  files : List GeneratedFile
  /-- The warnings about stale entries of the configuration. -/
  warnings : List Problem
deriving DecidableEq, Repr

/-- Works out the taxonomy and the generated files of a class graph. -/
def RunPlan.make (graph : Inheritance) (config : Config) : Except Problem RunPlan :=
  (Taxonomy.build graph config.taxonomy).map fun taxonomy =>
    { taxonomy := taxonomy
      files := GeneratedFile.render config.target config.entryPoints taxonomy config.paths.generated
      warnings := taxonomy.audit }

/-! ### What is reported -/

/-- The numbers of a run, as integers that a report can hold. -/
structure RunCounts where
  /-- The classes of the dump. -/
  declared : Int
  /-- The root and all classes below it. -/
  descendants : Int
  /-- The members. -/
  members : Int
  /-- The members with a gate. -/
  gated : Int
  /-- The members of each category. -/
  byCategory : List (String × Int)
deriving DecidableEq, Repr

/-- The numbers of a taxonomy and the class graph that it was made from. -/
def RunCounts.ofTaxonomy (graph : Inheritance) (t : Taxonomy) : RunCounts where
  declared := graph.names.length
  descendants := t.subtreeSize
  members := t.members.length
  gated := (t.members.filter fun c => (t.gates.gate? c).isSome).length
  byCategory := t.memberCounts.entries.map fun e => (e.1, (e.2 : Int))

/-- What a run has done. -/
structure RunReport where
  /-- The numbers of the run. -/
  counts : RunCounts
  /-- The generated files with their places. -/
  outputs : List (FileKind × String)
  /-- The warnings. -/
  warnings : List Diagnostic
  /-- What was found in the consumer. -/
  consumer : ConsumerCheck
  /-- The command that wrote the dump, if one did. -/
  exporter? : Option String
deriving DecidableEq, Repr

/-! ### The run -/

/-- What a run is asked to do. -/
structure RunRequest where
  /-- The place of the configuration. -/
  config : String
  /-- Whether an engine is to write the dump anew. -/
  dump : Bool := false
  /-- Whether the user wants to know more. -/
  verbose : Bool := false
deriving DecidableEq, Repr

namespace RunRequest

variable {m : Type → Type} [Monad m] [MonadExceptOf Failure m] [Host m]

/-- The lines about the excluded classes of the subtree. -/
def exclusionLines (graph : Inheritance) (rules : TaxonomyRules) : List String :=
  (Text.ordered (Taxonomy.subtree graph rules)).filterMap fun c =>
    (rules.exclusions.ground? c).map fun ground =>
      "Excluded " ++ c ++ " (" ++ ground.word ++ ")"

/-- Prints lines as results. -/
def printLines : List String → m Unit
  | [] => pure ()
  | line :: lines => do
    Host.print .log line
    printLines lines

/-- Does a run. -/
def perform (request : RunRequest) : m RunReport := do
  let config ← Config.load request.config
  let exporter? ←
    Engine.acquireDump config.paths.schema request.dump request.verbose config.engines
  let graph ← Engine.loadGraph config.paths.schema
  let plan ← orProblem (RunPlan.make graph config)
  if request.verbose then printLines (exclusionLines graph config.taxonomy)
  -- Nothing that can be refused is left to be worked out: the files may be replaced.
  let _ ← Installation.install plan.files
  let consumer ← ConsumerCheck.perform config.paths.consumer config.entryPoints.apply
  let log := WarningLog.empty.append
    ((plan.warnings ++ consumer.warning?.toList).map (·.diagnostic))
  pure
    { counts := .ofTaxonomy graph plan.taxonomy
      outputs := plan.files.map fun file => (file.kind, file.path)
      warnings := log.warnings
      consumer := consumer
      exporter? := exporter? }

end RunRequest

end NodeTagging
