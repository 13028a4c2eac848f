import NodeTagging.Host.Basic
import NodeTagging.Host.FileTree

/-!
# A host in memory

A host whose disk is a file tree, whose programs are scripted, and whose calls can be interrupted.
Which calls are interrupted is decided by a *schedule*, which sees the call and all calls before it,
so every pattern of failures is some schedule. An interrupted call has no effect. Every call is
recorded, those without effect a second time, and what was changed before a failure stays changed.
-/

namespace NodeTagging

/-! ### Calls and schedules -/

/-- A call that reaches the disk. -/
inductive Call where
  /-- To see whether something is at a path. -/
  | isPresent (path : String)
  /-- To read a file. -/
  | readText (path : String)
  /-- To make directories. -/
  | makeDirectories (path : String)
  /-- To write a file. -/
  | writeText (path : String)
  /-- To move a path. -/
  | rename (source target : String)
  /-- To remove a file. -/
  | remove (path : String)
deriving DecidableEq, Repr

/-- Which calls are interrupted: given the calls before it and the call itself. -/
abbrev Schedule := List Call → Call → Option Interruption

/-- The schedule without interruptions. -/
def Schedule.calm : Schedule := fun _ _ => none

/-- The kinds of calls. -/
inductive Call.Kind where
  /-- To see whether something is at a path. -/
  | isPresent
  /-- To read a file. -/
  | readText
  /-- To make directories. -/
  | makeDirectories
  /-- To write a file. -/
  | writeText
  /-- To move a path. -/
  | rename
  /-- To remove a file. -/
  | remove
deriving DecidableEq, Repr

namespace Call

/-- The kind of a call. -/
def kind : Call → Kind
  | isPresent _ => .isPresent
  | readText _ => .readText
  | makeDirectories _ => .makeDirectories
  | writeText _ => .writeText
  | rename _ _ => .rename
  | remove _ => .remove

/-- The path of a call, the first one of a move. -/
def path : Call → String
  | isPresent p => p
  | readText p => p
  | makeDirectories p => p
  | writeText p => p
  | rename p _ => p
  | remove p => p

/-- The path that a move leads to. -/
def target? : Call → Option String
  | rename _ q => some q
  | _ => none

end Call

/-- A rule that interrupts the calls of a kind, or one of them. -/
structure InterruptionRule where
  /-- The kind of call. -/
  kind : Call.Kind
  /-- The path of the call, if only one is meant. -/
  path? : Option String := none
  /-- The path that a move leads to, if only one is meant. -/
  target? : Option String := none
  /-- Which of the calls that the rule concerns is interrupted, counted from one; if missing, all
      of them. -/
  occurrence? : Option Nat := none
  /-- The interruption. -/
  interruption : Interruption
deriving DecidableEq, Repr

namespace InterruptionRule

/-- Whether a rule concerns a call. -/
def concerns (r : InterruptionRule) (c : Call) : Bool :=
  r.kind = c.kind && (r.path?.isNone || r.path? = some c.path) &&
    (r.target?.isNone || r.target? = c.target?)

/-- A call under rules that are given with the number of calls that each has counted: the
    interruption, and the counts afterwards. The first rule that interrupts ends the counting. -/
def apply :
    List (InterruptionRule × Nat) → Call → Option Interruption × List (InterruptionRule × Nat)
  | [], _ => (none, [])
  | (r, n) :: rules, c =>
    if r.concerns c then
      if r.occurrence?.isNone || r.occurrence? = some (n + 1) then
        (some r.interruption, (r, n + 1) :: rules)
      else ((apply rules c).1, (r, n + 1) :: (apply rules c).2)
    else ((apply rules c).1, (r, n) :: (apply rules c).2)

end InterruptionRule

/-- The schedule of a list of rules, of which the first that interrupts a call counts. -/
def Schedule.ofRules (rules : List InterruptionRule) : Schedule := fun history call =>
  (InterruptionRule.apply
    (history.foldl (fun counted c => (InterruptionRule.apply counted c).2) (rules.map (·, 0)))
    call).1

/-! ### The state of the host -/

/-- What a scripted program does when it is started. -/
structure ScriptedRun where
  /-- Its exit status. -/
  status? : Option Int := none
  /-- The message of the error that kept it from running. -/
  error? : Option String := none
  /-- The text that it stores at the path that is its last argument. -/
  writes? : Option String := none
deriving DecidableEq, Repr

/-- A program that was started. -/
structure StartedCommand where
  /-- The command. -/
  command : String
  /-- Its arguments. -/
  arguments : List String
  /-- The limit of time in milliseconds. -/
  timeout : Nat
deriving DecidableEq, Repr

/-- The state of the host. -/
structure World where
  /-- The disk. -/
  tree : FileTree
  /-- The working directory. -/
  workingDirectory : String
  /-- Which calls are interrupted. -/
  schedule : Schedule := .calm
  /-- What the programs do that are started from now on. -/
  script : List ScriptedRun := []
  /-- The error of starting a program after the end of the script. -/
  notFound : String → String := fun command => command ++ ": not found"
  /-- The calls so far. -/
  calls : List Call := []
  /-- Those of the calls that were interrupted or refused, and had no effect. -/
  failed : List Call := []
  /-- The programs that were started so far. -/
  started : List StartedCommand := []
  /-- The lines that were printed so far. -/
  printed : List (Channel × String) := []

/-- Computations on the host in memory. A failure keeps the state that it came from. -/
abbrev Sandbox := ExceptT Failure (StateM World)

namespace Sandbox

/-- A call: it is recorded, and unless it is interrupted or refused it has its effect. -/
def perform {α : Type} (call : Call) (effect : World → Except FileError (α × FileTree)) :
    Sandbox α := fun w =>
  let recorded := { w with calls := w.calls ++ [call] }
  let stopped := { recorded with failed := w.failed ++ [call] }
  match w.schedule w.calls call with
  | some interruption => (.error (.interrupted interruption), stopped)
  | none =>
    match effect w with
    | .ok (a, tree) => (.ok a, { recorded with tree := tree })
    | .error e => (.error (.file e), stopped)

/-- A call that looks at the tree. -/
def query {α : Type} (call : Call) (look : World → Except FileError α) : Sandbox α :=
  perform call fun w => (look w).map (·, w.tree)

/-- A call that changes the tree. -/
def update (call : Call) (change : World → Except FileError FileTree) : Sandbox Unit :=
  perform call fun w => (change w).map ((), ·)

/-- The start of a program: the next of the script, which may store a text at the path that is the
    last argument. After the end of the script no program is found. -/
def start (command : String) (arguments : List String) (timeout : Nat) :
    Sandbox CommandOutcome := fun w =>
  let recorded := { w with started := w.started ++ [⟨command, arguments, timeout⟩] }
  match w.script with
  | [] => (.ok { status? := none, error? := some (w.notFound command) }, recorded)
  | run :: script =>
    let tree :=
      match run.writes?, arguments.getLast? with
      | some text, some path => w.tree.store (Path.location w.workingDirectory path) text
      | _, _ => w.tree
    (.ok { status? := run.status?, error? := run.error? },
      { recorded with script := script, tree := tree })

instance : Host Sandbox where
  workingDirectory := fun w => (.ok w.workingDirectory, w)
  isPresent path := query (.isPresent path) fun w => .ok (w.tree.isPresent w.workingDirectory path)
  readText path := query (.readText path) fun w => w.tree.readText w.workingDirectory path
  makeDirectories path :=
    update (.makeDirectories path) fun w => w.tree.makeDirectories w.workingDirectory path
  writeText path text :=
    update (.writeText path) fun w => w.tree.writeText w.workingDirectory path text
  rename source target :=
    update (.rename source target) fun w => w.tree.rename w.workingDirectory source target
  remove path := update (.remove path) fun w => w.tree.remove w.workingDirectory path
  runCommand := start
  print channel text := fun w => (.ok (), { w with printed := w.printed ++ [(channel, text)] })

end Sandbox

end NodeTagging
