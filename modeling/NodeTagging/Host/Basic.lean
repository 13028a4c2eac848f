import NodeTagging.Host.Failure

/-!
# The host of a run

What a run asks of the machine that it runs on: a few operations on files, the start of another
program, and lines to print. A run is written over any host, so that the same definition runs on a
disk and on a file tree in memory.
-/

namespace NodeTagging

/-- How a started program ended. -/
structure CommandOutcome where
  /-- Its exit status, if it came to one. -/
  status? : Option Int
  /-- The message of the error that kept it from running, if there was one. -/
  error? : Option String
deriving DecidableEq, Repr

namespace CommandOutcome

/-- Whether the program ran and reports success. -/
def isSuccess (o : CommandOutcome) : Bool :=
  o.status? = some 0 && o.error?.isNone

/-- Why the program does not count as successful. -/
def reason (o : CommandOutcome) : String :=
  match o.error? with
  | some message => message
  | none => "exit status " ++ (o.status?.map toString).getD "none"

end CommandOutcome

/-- Where a line is printed. -/
inductive Channel where
  /-- Results. -/
  | log
  /-- Warnings. -/
  | warn
  /-- Errors. -/
  | error
deriving DecidableEq, Repr

/-- A machine that a run can run on. A path that is not absolute is seen from the working
    directory. -/
class Host (m : Type → Type) where
  /-- The working directory, an absolute path. -/
  workingDirectory : m String
  /-- Whether there is a file or a directory at a path. -/
  isPresent : String → m Bool
  /-- The text of a file. -/
  readText : String → m String
  /-- Makes a directory and all that lead to it, as far as they are missing. -/
  makeDirectories : String → m Unit
  /-- Writes a file, in place of the one at the path if there is one. -/
  writeText : String → String → m Unit
  /-- Moves what is at the first path to the second. -/
  rename : String → String → m Unit
  /-- Removes a file, if it is there. -/
  remove : String → m Unit
  /-- Starts a program with arguments and a limit of time in milliseconds, and waits for it. -/
  runCommand : String → List String → Nat → m CommandOutcome
  /-- Prints a line. -/
  print : Channel → String → m Unit

/-- Fails with a problem, or goes on with the value. -/
def orProblem {m : Type → Type} [Monad m] [MonadExceptOf Failure m] {α : Type}
    (result : Except Problem α) : m α :=
  match result with
  | .ok a => pure a
  | .error p => throw (.problem p)

end NodeTagging
