import NodeTagging.Proofs.Exporting
import NodeTagging.Proofs.Undisturbed

/-!
# Engines that do as they like

What an engine does to the disk is not in the hands of a run: it may write a dump or none, write it
and fail, or remove the one that another engine has written. So the programs of a script, which
write a text or nothing, are replaced here by programs of any behaviour (`Programs`), which may
depend on the disk and on all programs started before. What they do if they are started one after
another is a list of *attempts* (`attemptsOf`), and a run stops after the first attempt that has
exported the dump.

* `hostWith_scripted`: the programs of a script are among them;
* `ends_tryCommands_attempts`: what trying engines comes to, in terms of the attempts;
* `export_stops_at_first_success`: the same of a whole export, where directories are made first.
-/

namespace NodeTagging

open FileTree Sandbox

/-! ### Programs -/

namespace World

/-- The host without its records of calls and lines. -/
def unlogged (w : World) : World :=
  { w with calls := [], failed := [], printed := [] }

/-- The host after a program was started that left the given tree. -/
def ran (w : World) (asked : StartedCommand) (tree : FileTree) : World :=
  { w with started := w.started ++ [asked], script := w.script.tail, tree := tree }

end World

/-- What programs do: how the one that is asked for ends on a host, and the tree that it leaves. -/
abbrev Programs :=
  StartedCommand → World → CommandOutcome × FileTree

/-- The programs that the script of the host tells of. -/
def Programs.scripted : Programs := fun asked w =>
  match w.script with
  | [] => (⟨none, some (w.notFound asked.command)⟩, w.tree)
  | run :: _ =>
    (run.outcome,
      match asked.arguments.getLast? with
      | some path => run.after (Path.location w.workingDirectory path) w.tree
      | none => w.tree)

namespace Sandbox

/-- The start of a program. -/
def startWith (programs : Programs) (command : String) (arguments : List String) (timeout : Nat) :
    Sandbox CommandOutcome := fun w =>
  let asked : StartedCommand := ⟨command, arguments, timeout⟩
  let ended := programs asked w.unlogged
  (.ok ended.1, w.ran asked ended.2)

/-- The host in memory with the given programs. -/
@[reducible]
def hostWith (programs : Programs) : Host Sandbox :=
  { (inferInstance : Host Sandbox) with runCommand := startWith programs }

/-- The programs of a script are among those that do as they like. -/
theorem hostWith_scripted : hostWith .scripted = (inferInstance : Host Sandbox) := by
  have hstart : startWith .scripted = start := by
    funext command arguments timeout w
    obtain ⟨tree, directory, schedule, script, notFound, calls, failed, started, printed⟩ := w
    cases script with
    | nil => rfl
    | cons run script =>
      simp only [startWith, start, Programs.scripted, World.unlogged, World.ran,
        ScriptedRun.after, ScriptedRun.outcome]
      cases run.writes? <;> cases arguments.getLast? <;> rfl
  rw [hostWith, hstart]
  rfl

end Sandbox

/-! ### Attempts -/

/-- The start of an engine. -/
structure Attempt where
  /-- The command. -/
  command : String
  /-- How the program ended. -/
  outcome : CommandOutcome
  /-- The tree at that moment. -/
  tree : FileTree

/-- The engine of a command is asked for the dump. -/
def exportRequest (schema command : String) : StartedCommand :=
  ⟨command, Problem.exportArguments schema, Engine.exportTimeout⟩

/-- The attempts with all of the given engines, one after another. -/
def attemptsOf (programs : Programs) (schema : String) : World → List String → List Attempt
  | _, [] => []
  | w, command :: others =>
    let ended := programs (exportRequest schema command) w
    ⟨command, ended.1, ended.2⟩ ::
      attemptsOf programs schema (w.ran (exportRequest schema command) ended.2) others

/-- The program ended with status 0 and without an error, and something is at the path then. -/
def Attempt.Exported (a : Attempt) (workingDirectory schema : String) : Prop :=
  a.outcome.status? = some 0 ∧ a.outcome.error? = none ∧
    a.tree.isPresent workingDirectory schema = true

/-- The first of the attempts that has exported the dump, and those before it. -/
structure FirstExport (attempts : List Attempt) (workingDirectory schema : String)
    (failed : List Attempt) (a : Attempt) : Prop where
  /-- They are the first of the attempts. -/
  split : ∃ untried, attempts = failed ++ a :: untried
  /-- Those before it have not exported the dump. -/
  not_exported : ∀ b ∈ failed, ¬ b.Exported workingDirectory schema
  /-- It has. -/
  exported : a.Exported workingDirectory schema

namespace FirstExport

variable {attempts failed : List Attempt} {workingDirectory schema : String} {a b : Attempt}

theorem head (h : a.Exported workingDirectory schema) :
    FirstExport (a :: attempts) workingDirectory schema [] a where
  split := ⟨attempts, rfl⟩
  not_exported _ hb := absurd hb List.not_mem_nil
  exported := h

theorem cons (hb : ¬ b.Exported workingDirectory schema)
    (h : FirstExport attempts workingDirectory schema failed a) :
    FirstExport (b :: attempts) workingDirectory schema (b :: failed) a where
  split := by
    obtain ⟨untried, hsplit⟩ := h.split
    exact ⟨untried, congrArg (b :: ·) hsplit⟩
  not_exported := List.forall_mem_cons.2 ⟨hb, h.not_exported⟩
  exported := h.exported

theorem take_eq (h : FirstExport attempts workingDirectory schema failed a) :
    attempts.take (failed.length + 1) = failed ++ [a] := by
  obtain ⟨untried, rfl⟩ := h.split
  rw [List.append_cons]
  exact List.take_left' (by simp)

end FirstExport

section Attempts

variable (programs : Programs) (schema : String) (w : World) (engines : List String)

theorem map_command_attemptsOf :
    (attemptsOf programs schema w engines).map (·.command) = engines := by
  induction engines generalizing w with
  | nil => rfl
  | cons command others ih => exact congrArg (command :: ·) (ih _)

end Attempts

/-! ### Trying -/

section Trying

variable {schema : String} {verbose : Bool} {w : World}

theorem ends_isPresent_unlogged {path : String} (hcalm : w.schedule = .calm) :
    Ends (Host.isPresent path) w
      (fun present w' => present = w.tree.isPresent w.workingDirectory path ∧
        w'.unlogged = w.unlogged)
      fun _ _ => False := by
  have hrun : (Host.isPresent path : Sandbox Bool).run.run w =
      perform (.isPresent path)
        (fun w => (Except.ok (w.tree.isPresent w.workingDirectory path)).map (·, w.tree)) w := rfl
  rw [Ends, hrun, perform, hcalm]
  exact ⟨rfl, by rw [World.unlogged, World.unlogged, hcalm]⟩

theorem ends_hasExported_unlogged (outcome : CommandOutcome) (hcalm : w.schedule = .calm) :
    Ends (Engine.hasExported schema outcome) w
      (fun exported w' =>
        exported = (outcome.isSuccess && w.tree.isPresent w.workingDirectory schema) ∧
        w'.unlogged = w.unlogged)
      fun _ _ => False := by
  rw [Engine.hasExported]
  cases outcome.isSuccess with
  | true => exact ends_isPresent_unlogged hcalm
  | false => exact ends_pure ⟨rfl, rfl⟩

/-- A line that may be printed in between makes no difference. -/
theorem ends_report {α : Type} {x : Sandbox α} {returns : α → World → Prop}
    {fails : Failure → World → Prop} (channel : Channel) (text : String)
    (h : ∀ w', w'.unlogged = w.unlogged → Ends x w' returns fails) :
    Ends (if verbose then do Host.print channel text; x else x) w returns fails := by
  cases verbose with
  | true =>
    have hprint : Ends (Host.print channel text : Sandbox Unit) w
        (fun _ w' => w'.unlogged = w.unlogged) fun _ _ => False := rfl
    exact ends_bind (hprint.imp (fun _ => h) fun _ _ => False.elim)
  | false => exact h w rfl

/-- An attempt has exported the dump if the program counts as successful and the dump is there. -/
theorem Attempt.exported_iff {a : Attempt} {workingDirectory : String} :
    a.Exported workingDirectory schema ↔
      (a.outcome.isSuccess && a.tree.isPresent workingDirectory schema) = true := by
  simp [Exported, CommandOutcome.isSuccess, and_assoc]

/-- What trying engines comes to, after others that have failed. -/
theorem ends_tryCommands_attempts (programs : Programs) (schema : String) (verbose : Bool)
    (engines : List String) (failures : List (String × String))
    (hcalm : w.schedule = .calm) :
    let attempts := attemptsOf programs schema w.unlogged engines
    Ends (@Engine.tryCommands Sandbox _ _ (hostWith programs) schema verbose failures engines) w
      (fun command w' => ∃ failed a,
        FirstExport attempts w.workingDirectory schema failed a ∧ command = a.command ∧
        w'.started = w.started ++ (failed ++ [a]).map (exportRequest schema ·.command) ∧
        w'.tree = a.tree)
      fun e w' =>
        (∀ a ∈ attempts, ¬ a.Exported w.workingDirectory schema) ∧
        e = .problem (.exportFailed schema (failures ++
          attempts.map fun a => (a.command, a.outcome.reason))) ∧
        w'.started = w.started ++ engines.map (exportRequest schema) := by
  intro attempts
  induction engines generalizing failures w with
  | nil =>
    unfold Engine.tryCommands
    exact ends_throw ⟨by simp [attempts, attemptsOf], by simp [attempts, attemptsOf], by simp⟩
  | cons command others ih =>
    let asked := exportRequest schema command
    let first : Attempt :=
      ⟨command, (programs asked w.unlogged).1, (programs asked w.unlogged).2⟩
    let w₁ := w.ran asked first.tree
    have hattempts : attempts = first :: attemptsOf programs schema w₁.unlogged others := rfl
    have hstart : Ends (startWith programs command (Problem.exportArguments schema)
        Engine.exportTimeout) w (fun outcome w' => outcome = first.outcome ∧ w' = w₁)
        fun _ _ => False := ⟨rfl, rfl⟩
    have hcalm₁ : w₁.schedule = .calm := hcalm
    unfold Engine.tryCommands
    refine ends_bind (hstart.imp ?_ fun _ _ => False.elim)
    rintro outcome w' ⟨rfl, rfl⟩
    refine ends_bind ((ends_hasExported_unlogged first.outcome hcalm₁).imp ?_ fun _ _ => False.elim)
    rintro exported w₂ ⟨hexported, hw₂⟩
    have hfirst : first.Exported w.workingDirectory schema ↔ exported = true := by
      rw [hexported]
      exact Attempt.exported_iff
    rw [hattempts]
    cases exported with
    | true =>
      refine ends_report .log _ fun w₃ hw₃ => ends_pure ?_
      have hsame : w₃.unlogged = w₁.unlogged := hw₃.trans hw₂
      have hstarted : w₃.started = w₁.started := (congrArg World.started hsame :)
      have htree : w₃.tree = w₁.tree := (congrArg World.tree hsame :)
      exact ⟨[], first, .head (hfirst.2 rfl), rfl, hstarted, htree⟩
    | false =>
      have hnot : ¬ first.Exported w.workingDirectory schema :=
        fun h => Bool.false_ne_true (hfirst.1 h)
      refine ends_report .warn _ fun w₃ hw₃ => ?_
      have hsame : w₃.unlogged = w₁.unlogged := hw₃.trans hw₂
      have hstarted : w₃.started = w.started ++ [asked] := (congrArg World.started hsame :)
      have hdirectory : w₃.workingDirectory = w.workingDirectory :=
        (congrArg World.workingDirectory hsame :)
      have hcalm₃ : w₃.schedule = .calm := (congrArg World.schedule hsame :).trans hcalm
      have hothers := ih (failures ++ [(command, first.outcome.reason)]) hcalm₃
      simp only [hsame, hstarted, hdirectory] at hothers
      refine hothers.imp ?_ ?_
      · rintro _ w₄ ⟨failed, a, hexport, rfl, hstarted₄, htree⟩
        exact ⟨first :: failed, a, .cons hnot hexport, rfl, by simpa using hstarted₄, htree⟩
      · rintro _ w₄ ⟨hnone, rfl, hstarted₄⟩
        exact ⟨List.forall_mem_cons.2 ⟨hnot, hnone⟩, by simp [first], by simpa using hstarted₄⟩

theorem ends_makeDirectories_unlogged {path : String} {t : FileTree}
    (hcalm : w.schedule = .calm)
    (hmade : w.tree.makeDirectories w.workingDirectory path = .ok t) :
    Ends (Host.makeDirectories path) w
      (fun _ w' => w'.unlogged = ({ w with tree := t } : World).unlogged) fun _ _ => False := by
  have hrun : (Host.makeDirectories path : Sandbox Unit).run.run w =
      perform (.makeDirectories path)
        (fun w => (w.tree.makeDirectories w.workingDirectory path).map ((), ·)) w := rfl
  rw [Ends, hrun, perform]
  simp [hcalm, hmade, Schedule.calm, Except.map, World.unlogged]

end Trying

/-! ### The export -/

/-- If no call is interrupted and the directories that lead to the dump can be made, then whatever
    the programs do, the engines are started in order and with the same arguments up to the first
    that exports the dump, and its command is given. If none does, all of them were started, and the
    problem tells the reason for each. -/
theorem export_stops_at_first_success (programs : Programs) (schema : String) (verbose : Bool)
    (engines : List String) (w : World) (t : FileTree) (hcalm : w.schedule = .calm)
    (hmade : w.tree.makeDirectories w.workingDirectory (Path.directory schema) = .ok t) :
    let attempts := attemptsOf programs schema ({ w with tree := t } : World).unlogged engines
    attempts.map (·.command) = engines ∧
      Ends (@Engine.acquireDump Sandbox _ _ (hostWith programs) schema true verbose engines) w
        (fun exporter? w' => ∃ failed a,
          FirstExport attempts w.workingDirectory schema failed a ∧
          exporter? = some a.command ∧
          w'.started = w.started ++
            (engines.take (failed.length + 1)).map (exportRequest schema) ∧
          w'.tree = a.tree)
        fun e w' =>
          (∀ a ∈ attempts, ¬ a.Exported w.workingDirectory schema) ∧
          w'.started = w.started ++ engines.map (exportRequest schema) ∧
          ∃ problem, e = .problem problem ∧ problem.diagnostic.kind = .unavailableEngine ∧
            problem.diagnostic.message = "Could not export the reflection dump (" ++
              (if engines = [] then "no executables configured"
                else String.intercalate "; "
                  (attempts.map fun a => a.command ++ ": " ++ a.outcome.reason)) ++ ")" := by
  intro attempts
  have hcommands : attempts.map (·.command) = engines := map_command_attemptsOf ..
  refine ⟨hcommands, ?_⟩
  unfold Engine.acquireDump Engine.exportDump
  rw [if_pos rfl, map_eq_pure_bind, bind_assoc]
  refine ends_bind ((ends_makeDirectories_unlogged hcalm hmade).imp ?_ fun _ _ => False.elim)
  rintro - w₁ hw₁
  have hstarted : w₁.started = w.started := (congrArg World.started hw₁ :)
  have hdirectory : w₁.workingDirectory = w.workingDirectory :=
    (congrArg World.workingDirectory hw₁ :)
  have hcalm₁ : w₁.schedule = .calm := (congrArg World.schedule hw₁ :).trans hcalm
  have htried := ends_tryCommands_attempts programs schema verbose engines [] hcalm₁
  simp only [hw₁, hstarted, hdirectory] at htried
  refine ends_bind (htried.imp ?_ ?_)
  · rintro _ w₂ ⟨failed, a, hexport, rfl, hstarted₂, htree⟩
    have htaken : engines.take (failed.length + 1) = (failed ++ [a]).map (·.command) :=
      calc
        engines.take (failed.length + 1)
            = (attempts.map (·.command)).take (failed.length + 1) := by rw [hcommands]
        _ = (attempts.take (failed.length + 1)).map (·.command) := List.map_take.symm
        _ = (failed ++ [a]).map (·.command) := congrArg _ hexport.take_eq
    refine ends_pure ⟨failed, a, hexport, rfl, ?_, htree⟩
    rw [hstarted₂, htaken, List.map_map]
    rfl
  · rintro _ w₂ ⟨hnone, rfl, hstarted₂⟩
    refine ⟨hnone, hstarted₂, _, rfl, rfl, ?_⟩
    have hempty : attempts = [] ↔ engines = [] := by rw [← hcommands, List.map_eq_nil_iff]
    simp only [Problem.diagnostic, Problem.attemptsText, List.nil_append, List.map_eq_nil_iff,
      List.map_map, Function.comp_def, ← hempty, attempts]

namespace Sample

/-- Programs of which one removes the dump and reports success, one writes it and reports an error,
    one does not run, and all others report success and write nothing. -/
def unrulyPrograms : Programs := fun asked w =>
  let dump := Path.location w.workingDirectory "api/dump.json"
  if asked.command = "eraser" then (⟨some 0, none⟩, w.tree.prune dump)
  else if asked.command = "failing" then (⟨some 1, none⟩, w.tree.store dump "\x7b\x7d")
  else if asked.command = "missing" then (⟨none, some "not found"⟩, w.tree)
  else (⟨some 0, none⟩, w.tree)

/-- A host with a dump and without interruptions. -/
@[irreducible] def hostWithOldDump : World where
  tree := FileTree.empty.store ["work", "api", "dump.json"] "old"
  workingDirectory := "/work"

/-- The engines to try. -/
def unrulyEngines : List String :=
  ["eraser", "failing", "missing", "quiet", "spare"]

end Sample

open Sample in
/-- The first engine to report success while there is a dump is the fourth, which did not write
    it. -/
theorem unruly_engines_are_tried_in_order :
    let attempts := attemptsOf unrulyPrograms "api/dump.json"
      ({ hostWithOldDump with tree := hostWithOldDump.tree } : World).unlogged unrulyEngines
    let ended := (@Engine.acquireDump Sandbox _ _ (hostWith unrulyPrograms) "api/dump.json" true
      false unrulyEngines).run.run hostWithOldDump
    hostWithOldDump.tree.makeDirectories hostWithOldDump.workingDirectory
        (Path.directory "api/dump.json") = .ok hostWithOldDump.tree ∧
      ended.1 = .ok (some "quiet") ∧
      ∃ failed a, FirstExport attempts hostWithOldDump.workingDirectory "api/dump.json" failed a ∧
        some "quiet" = some a.command ∧
        ended.2.started = hostWithOldDump.started ++
          (unrulyEngines.take (failed.length + 1)).map (exportRequest "api/dump.json") ∧
        ended.2.tree = a.tree := by
  have hcalm : hostWithOldDump.schedule = .calm := by
    unfold hostWithOldDump
    rfl
  have hmade : hostWithOldDump.tree.makeDirectories hostWithOldDump.workingDirectory
      (Path.directory "api/dump.json") = .ok hostWithOldDump.tree := by
    decide +kernel
  have hquiet : ((@Engine.acquireDump Sandbox _ _ (hostWith unrulyPrograms) "api/dump.json" true
      false unrulyEngines).run.run hostWithOldDump).1 = .ok (some "quiet") := by
    decide +kernel
  exact ⟨hmade, hquiet, (export_stops_at_first_success unrulyPrograms "api/dump.json" false
    unrulyEngines hostWithOldDump _ hcalm hmade).2.returns_of_run hquiet⟩

end NodeTagging
