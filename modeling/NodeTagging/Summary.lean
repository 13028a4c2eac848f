import NodeTagging.Run

/-!
# The summary of a run

What the user reads after a run that succeeded: the numbers, the files, and what is left to do.
Places are given as seen from the directory of the project.
-/

namespace NodeTagging.Summary

/-- A path as seen from the directory of the project; the directory itself is given as it is. -/
def shownPath (workingDirectory projectRoot path : String) : String :=
  let shown := Path.relative workingDirectory projectRoot path
  if shown = "" then path else shown

/-- A line with a figure, in columns. -/
def figureLine (label figure : String) : String :=
  "  " ++ Text.padRight 22 (label ++ ":") ++ figure

/-- The lines about the numbers. -/
def countLines (counts : RunCounts) : List String :=
  [figureLine "Schema classes" (toString counts.declared),
    figureLine "Descendants of root" (toString counts.descendants),
    figureLine "Tagged classes"
      (toString counts.members ++ " (" ++ toString counts.gated ++ " version gated)")] ++
    counts.byCategory.map fun c => "    " ++ c.1 ++ ": " ++ toString c.2

/-- The lines about the consumer. -/
def consumerLines (shown : String → String) (check : ConsumerCheck) (dispatcherPlace : String) :
    List String :=
  let consumer := shown check.path
  match check.wiring with
  | .wired => ["Integration: " ++ consumer ++ " already calls " ++ check.entryPoint]
  | .absent => ["Integration: skipped, " ++ consumer ++ " not found"]
  | .unwired =>
    ("Integration: " ++ consumer ++ " does not call " ++ check.entryPoint ++ " yet") ::
      (({ check with path := consumer }).instructions (shown dispatcherPlace)).map
        fun line => "  " ++ line

/-- The place of the dispatchers among the outputs. -/
def dispatcherPlace (outputs : List (FileKind × String)) : String :=
  ((outputs.find? fun o => o.1 = .dispatcher).map (·.2)).getD ""

/-- The lines of the summary. -/
def lines (workingDirectory projectRoot : String) (report : RunReport) : List String :=
  let shown := shownPath workingDirectory projectRoot
  ["Generation complete."] ++ countLines report.counts ++ ["Files written:"] ++
    report.outputs.map (fun o => "  " ++ o.1.word ++ ": " ++ shown o.2) ++
    (if report.warnings = [] then [] else ["Warnings: " ++ toString report.warnings.length]) ++
    consumerLines shown report.consumer (dispatcherPlace report.outputs)

/-- The summary as a text. -/
def text (workingDirectory projectRoot : String) (report : RunReport) : String :=
  Text.unlines (lines workingDirectory projectRoot report)

end NodeTagging.Summary
