import NodeTagging.CommandLine.Program
import NodeTagging.Text.Utf8

/-!
# The program

The command line on the disk of the machine. Each operation of the host is one operation of the
system; what the system refuses becomes a failure of the run. This host starts no other program: a
dump that is asked for has to be exported by hand, as the failure of the run tells.
-/

namespace NodeTagging.Disk

/-- An operation of the system as a step of a run. -/
def attempt {α : Type} (step : FileStep) (action : IO α) : EIO Failure α :=
  action.toEIO fun
    | .noFileOrDirectory .. => .file (.refused .notFound step)
    | e => .interrupted (.error (toString e))

/-- Whether the system finds something at a path. -/
def isPresent (path : String) : EIO Failure Bool :=
  tryCatch (do let _ ← attempt (.examine path) (IO.FS.realPath path); pure (path ≠ ""))
    fun _ => pure false

/-- The text of a file, with malformed bytes replaced. -/
def readText (path : String) : EIO Failure String := do
  let bytes ← attempt (.openFile path) (IO.FS.readBinFile path)
  pure (Text.Utf8.decode (bytes.toList.map UInt8.toNat))

/-- Removes a file, if it is there. -/
def remove (path : String) : EIO Failure Unit := do
  if ← isPresent path then attempt (.examine path) (IO.FS.removeFile path)

/-- Prints a line on the stream of its channel. -/
def print (channel : Channel) (text : String) : EIO Failure Unit :=
  (match channel with
    | .log => IO.println text
    | _ => IO.eprintln text).toEIO fun e => .interrupted (.error (toString e))

instance : Host (EIO Failure) where
  workingDirectory := do
    let place ← attempt (.examine ".") IO.currentDir
    pure place.toString
  isPresent := isPresent
  readText := readText
  makeDirectories path := attempt (.makeDirectory path) (IO.FS.createDirAll path)
  writeText path text := attempt (.openFile path) (IO.FS.writeFile path text)
  rename source target := attempt (.rename source target) (IO.FS.rename source target)
  remove := remove
  runCommand _ _ _ :=
    pure { status? := none, error? := some "this host starts no other program" }
  print := print

end NodeTagging.Disk

/-- The program; its exit status is that of the command line. -/
def main (arguments : List String) : IO UInt32 := do
  let run : EIO NodeTagging.Failure Nat := NodeTagging.CommandLine.program arguments
  match ← run.toIO' with
  | .ok status => pure (UInt32.ofNat status)
  | .error e => do
    IO.eprintln e.describe
    pure 1
