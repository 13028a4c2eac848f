import NodeTagging.Problem

/-!
# Failures

Why a run ends early: a problem that the program itself found, a file operation that the host
refused, or an interruption of the host.
-/

namespace NodeTagging

/-! ### Refused file operations -/

/-- Why a file operation is refused. -/
inductive FileFault where
  /-- There is nothing at the path. -/
  | notFound
  /-- There is a directory at the path. -/
  | isDirectory
  /-- There is a file where a directory is needed. -/
  | notDirectory
  /-- There is a file at the path already. -/
  | alreadyExists
  /-- The directory at the path has entries. -/
  | notEmpty
deriving DecidableEq, Repr

/-- The code and the words of a fault. -/
def FileFault.text : FileFault → String
  | .notFound => "ENOENT: no such file or directory"
  | .isDirectory => "EISDIR: illegal operation on a directory"
  | .notDirectory => "ENOTDIR: not a directory"
  | .alreadyExists => "EEXIST: file already exists"
  | .notEmpty => "ENOTEMPTY: directory not empty"

/-- The step of a file operation that is refused. -/
inductive FileStep where
  /-- To read on in an open file. -/
  | read
  /-- To open a path. -/
  | openFile (path : String)
  /-- To make a directory. -/
  | makeDirectory (path : String)
  /-- To look at what is at a path. -/
  | examine (path : String)
  /-- To move a path. -/
  | rename (source target : String)
deriving DecidableEq, Repr

/-- The step in words. -/
def FileStep.text : FileStep → String
  | .read => "read"
  | .openFile path => "open '" ++ path ++ "'"
  | .makeDirectory path => "mkdir '" ++ path ++ "'"
  | .examine path => "lstat '" ++ path ++ "'"
  | .rename source target => "rename '" ++ source ++ "' -> '" ++ target ++ "'"

/-- A refused file operation. -/
inductive FileError where
  /-- A step is refused for a fault. -/
  | refused (fault : FileFault) (step : FileStep)
  /-- A directory is not removed as if it were a file. -/
  | removesDirectory (path : String)
deriving DecidableEq, Repr

/-- The error in words. -/
def FileError.message : FileError → String
  | .refused fault step => fault.text ++ ", " ++ step.text
  | .removesDirectory path =>
    "Path is a directory: rm returned EISDIR (is a directory) " ++ path

/-! ### Failures of a run -/

/-- An interruption of a call by the host. -/
inductive Interruption where
  /-- An error with a message. -/
  | error (message : String)
  /-- A bare text. -/
  | text (text : String)
deriving DecidableEq, Repr

/-- Why a run ends early. -/
inductive Failure where
  /-- The program found a problem. -/
  | problem (problem : Problem)
  /-- A file operation was refused. -/
  | file (error : FileError)
  /-- The host interrupted a call. -/
  | interrupted (interruption : Interruption)
deriving DecidableEq, Repr

namespace Failure

/-- The failure as the reason of another one. -/
def reason : Failure → String
  | problem p => p.diagnostic.message
  | file e => e.message
  | interrupted (.error message) => message
  | interrupted (.text text) => text

/-- The failure as it is told to the user. -/
def describe : Failure → String
  | problem p => p.diagnostic.format
  | failure => failure.reason

end Failure

end NodeTagging
