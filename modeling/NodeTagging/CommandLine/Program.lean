import NodeTagging.CommandLine.Invocation
import NodeTagging.Summary

/-!
# The command line

The program reads its arguments, does a run and prints what came of it. It ends with status 1 if
the arguments are refused or the run fails.
-/

namespace NodeTagging.CommandLine

variable {m : Type → Type} [Monad m] [MonadExceptOf Failure m] [Host m]

/-- Whether a warning is printed. Stale entries are only told to users who want to know more. -/
def isShown (verbose : Bool) (warning : Diagnostic) : Bool :=
  verbose || warning.kind ≠ .staleEntry

/-- Prints warnings. -/
def printWarnings : List Diagnostic → m Unit
  | [] => pure ()
  | warning :: warnings => do
    Host.print .warn ("warning: " ++ warning.format)
    printWarnings warnings

/-- Does the run that an invocation asks for and prints its summary. -/
def runAndReport (i : Invocation) : m Unit := do
  let report ← RunRequest.perform ⟨i.config, i.dump, i.verbose⟩
  printWarnings (report.warnings.filter (isShown i.verbose))
  let workingDirectory ← Host.workingDirectory
  Host.print .log (Summary.text workingDirectory (Path.directory i.config) report)

/-- The program; its exit status. -/
def program (arguments : List String) : m Nat := do
  let workingDirectory ← Host.workingDirectory
  match Invocation.read workingDirectory workingDirectory arguments with
  | .error e =>
    Host.print .error e.message
    Host.print .log Invocation.helpText
    pure 1
  | .ok i =>
    if i.help then
      Host.print .log Invocation.helpText
      pure 0
    else
      tryCatch (do runAndReport i; pure 0) fun e => do
        Host.print .error "Generation failed:"
        Host.print .error e.describe
        pure 1

end NodeTagging.CommandLine
