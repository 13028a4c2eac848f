/-!
# Paths

Paths of a POSIX file system, as texts. They are taken apart at slashes; empty steps and `.` are
dropped and `..` takes back the step before it. Nothing here looks at the disk.

A path is *absolute* if it begins with a slash. A working directory is always absolute, so a path
resolved against it is absolute too and has a unique list of steps, its *location*.
-/

namespace NodeTagging.Path

/-! ### Steps -/

/-- The steps of a path, as they are written between slashes. -/
def rawSteps (path : String) : List String :=
  (path.toList.splitOn '/').map String.ofList

/-- Whether a path begins with a slash. -/
def isAbsolute (path : String) : Bool :=
  path.toList.head? = some '/'

/-- Whether a path ends with a slash. -/
def endsWithSlash (path : String) : Bool :=
  path.toList.getLast? = some '/'

/-- One step from a place that is given by its steps, last first. From the top, `..` leads nowhere
    if the path is absolute and is kept if it is not. -/
def advance (absolute : Bool) (place : List String) (step : String) : List String :=
  if step = "" ∨ step = "." then place
  else if step = ".." then
    match place with
    | [] => if absolute then [] else [".."]
    | last :: above => if last = ".." then ".." :: place else above
  else step :: place

/-- The steps of a path without empty ones and `.`, and with `..` only where it leads above the
    start of a path that is not absolute. -/
def steps (path : String) : List String :=
  ((rawSteps path).foldl (advance (isAbsolute path)) []).reverse

/-- The steps with slashes between them. -/
def joinSteps (steps : List String) : String :=
  String.intercalate "/" steps

/-! ### Operations -/

/-- The simplest text of the same path; a slash at the end is kept. -/
def normalize (path : String) : String :=
  let body := joinSteps (steps path)
  let tail := if endsWithSlash path ∧ steps path ≠ [] then "/" else ""
  if isAbsolute path then "/" ++ body ++ tail
  else if steps path = [] then (if endsWithSlash path then "./" else ".")
  else body ++ tail

/-- Two paths one after the other, in the simplest text. An empty one is left out. -/
def join (first second : String) : String :=
  normalize (if first = "" then second else if second = "" then first else first ++ "/" ++ second)

/-- The directory that a path lies in. Slashes at the end do not count. -/
def directory (path : String) : String :=
  match path.toList with
  | [] => "."
  | c :: cs =>
    -- The first character is left out of the search: a slash there is the top, not a separator.
    match (cs.reverse.dropWhile (· = '/')).dropWhile (· ≠ '/') with
    | [] => if c = '/' then "/" else "."
    | _ :: kept =>
      if c = '/' ∧ kept = [] then "//" else String.ofList (c :: kept.reverse)

/-- The path `path` seen from the directory `base`: the latter is left aside if the former is
    absolute. -/
def under (base path : String) : String :=
  if isAbsolute path then path else base ++ "/" ++ path

/-- The location that a path leads to from a working directory. -/
def location (workingDirectory path : String) : List String :=
  steps (under workingDirectory path)

/-- The absolute path of a location. -/
def ofLocation (place : List String) : String :=
  "/" ++ joinSteps place

/-- The absolute path that leads to the same place as `path` from the directory `base`, which is
    itself seen from a working directory. -/
def resolve (workingDirectory base path : String) : String :=
  ofLocation (location (under workingDirectory base) path)

/-- The steps of both lists after their longest common beginning. -/
def dropCommon : List String → List String → List String × List String
  | a :: as, b :: bs => if a = b then dropCommon as bs else (a :: as, b :: bs)
  | as, bs => (as, bs)

/-- The path that leads from the directory `origin` to `target`; empty if they are the same. -/
def relative (workingDirectory origin target : String) : String :=
  let (up, down) := dropCommon (location workingDirectory origin) (location workingDirectory target)
  joinSteps (up.map (fun _ => "..") ++ down)

end NodeTagging.Path
