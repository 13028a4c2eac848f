import NodeTagging.Proofs.Outcome
import NodeTagging.Run

/-!
# Looking at the disk

Most of what a run does is to look: it asks whether something is at a path, reads files and prints
lines. This changes nothing on the disk and starts no program, however it ends (`Looked`), and what
comes out depends on nothing but what is at the paths that are looked at (`Reads`). Both are proved
in one go, along the ways in which computations are put together.
-/

namespace NodeTagging

open FileTree Sandbox

/-- The call looks at the disk, and changes nothing. -/
def Call.Looks : Call → Prop
  | .isPresent _ => True
  | .readText _ => True
  | _ => False

/-! ### Calls of a kind -/

/-- One host comes from another by calls of a kind. -/
structure Made (kind : Call → Prop) (w w' : World) : Prop where
  /-- The calls are recorded. -/
  calls : ∃ made, w'.calls = w.calls ++ made ∧ ∀ call ∈ made, kind call
  /-- So are those without effect. -/
  failed : ∃ lost, w'.failed = w.failed ++ lost
  /-- The working directory is the same. -/
  workingDirectory : w'.workingDirectory = w.workingDirectory
  /-- The schedule is the same. -/
  schedule : w'.schedule = w.schedule

namespace Made

variable {kind kind' : Call → Prop} {w w' w'' : World}

theorem refl (w : World) : Made kind w w where
  calls := ⟨[], (List.append_nil _).symm, fun _ h => absurd h List.not_mem_nil⟩
  failed := ⟨[], (List.append_nil _).symm⟩
  workingDirectory := rfl
  schedule := rfl

theorem trans (h : Made kind w w') (h' : Made kind w' w'') : Made kind w w'' where
  calls := by
    obtain ⟨made, hmade, hkind⟩ := h.calls
    obtain ⟨made', hmade', hkind'⟩ := h'.calls
    exact ⟨made ++ made', by rw [hmade', hmade, List.append_assoc],
      List.forall_mem_append.2 ⟨hkind, hkind'⟩⟩
  failed := by
    obtain ⟨lost, hlost⟩ := h.failed
    obtain ⟨lost', hlost'⟩ := h'.failed
    exact ⟨lost ++ lost', by rw [hlost', hlost, List.append_assoc]⟩
  workingDirectory := h'.workingDirectory.trans h.workingDirectory
  schedule := h'.schedule.trans h.schedule

theorem imp (h : Made kind w w') (himp : ∀ call, kind call → kind' call) : Made kind' w w' where
  calls := by
    obtain ⟨made, hmade, hkind⟩ := h.calls
    exact ⟨made, hmade, fun call hcall => himp call (hkind call hcall)⟩
  failed := h.failed
  workingDirectory := h.workingDirectory
  schedule := h.schedule

end Made

/-- One host comes from another by calls that look at the disk. -/
structure Looked (w w' : World) : Prop extends Made Call.Looks w w' where
  /-- The disk is the same. -/
  tree : w'.tree = w.tree
  /-- No program was started. -/
  started : w'.started = w.started
  /-- The programs that are still to be started are the same. -/
  script : w'.script = w.script

namespace Looked

theorem refl (w : World) : Looked w w where
  toMade := .refl w
  tree := rfl
  started := rfl
  script := rfl

theorem trans {w w' w'' : World} (h : Looked w w') (h' : Looked w' w'') : Looked w w'' where
  toMade := h.toMade.trans h'.toMade
  tree := h'.tree.trans h.tree
  started := h'.started.trans h.started
  script := h'.script.trans h.script

instance : IsPreorder World Looked where
  refl := refl
  trans _ _ _ := trans

end Looked

namespace Sandbox

/-- A call is recorded, whether or not it has its effect, and starts no program. -/
theorem ends_perform_recorded {α : Type} {call : Call}
    {effect : World → Except FileError (α × FileTree)} {w : World} :
    Ends (perform call effect) w
      (fun _ w' => Made (· = call) w w' ∧ w'.started = w.started ∧ w'.script = w.script)
      fun _ w' => Made (· = call) w w' ∧ w'.started = w.started ∧ w'.script = w.script := by
  have hmade {w' : World} (hcalls : w'.calls = w.calls ++ [call])
      (hfailed : ∃ lost, w'.failed = w.failed ++ lost)
      (hdirectory : w'.workingDirectory = w.workingDirectory)
      (hschedule : w'.schedule = w.schedule) :
      Made (· = call) w w' :=
    ⟨⟨[call], hcalls, fun _ => List.mem_singleton.1⟩, hfailed, hdirectory, hschedule⟩
  have hrun : (perform call effect).run.run w = perform call effect w := rfl
  rw [Ends, hrun, perform]
  cases w.schedule w.calls call with
  | some interruption => exact ⟨hmade rfl ⟨[call], rfl⟩ rfl rfl, rfl, rfl⟩
  | none =>
    cases effect w with
    | error e => exact ⟨hmade rfl ⟨[call], rfl⟩ rfl rfl, rfl, rfl⟩
    | ok result => exact ⟨hmade rfl ⟨[], (List.append_nil _).symm⟩ rfl rfl, rfl, rfl⟩

/-- So is a call that changes the disk. -/
theorem ends_update_recorded {call : Call} {change : World → Except FileError FileTree}
    {w : World} :
    Ends (update call change) w
      (fun _ w' => Made (· = call) w w' ∧ w'.started = w.started ∧ w'.script = w.script)
      fun _ w' => Made (· = call) w w' ∧ w'.started = w.started ∧ w'.script = w.script :=
  ends_perform_recorded

theorem looked_query {α : Type} {call : Call} {look : World → Except FileError α}
    (hcall : call.Looks) : Keeps Looked (query call look) := by
  intro w
  have htree : Ends (query call look) w (fun _ w' => w'.tree = w.tree)
      fun _ w' => w'.tree = w.tree :=
    ends_query (fun _ _ _ htree _ _ _ => htree) fun _ _ _ htree _ _ _ => htree
  have hlooked {w' : World} (h : w'.tree = w.tree ∧ Made (· = call) w w' ∧
      w'.started = w.started ∧ w'.script = w.script) : Looked w w' :=
    { toMade := h.2.1.imp fun _ heq => heq ▸ hcall
      tree := h.1
      started := h.2.2.1
      script := h.2.2.2 }
  exact (htree.and ends_perform_recorded).imp (fun _ _ => hlooked) fun _ _ => hlooked

theorem looked_workingDirectory : Keeps Looked (Host.workingDirectory : Sandbox String) :=
  fun w => Looked.refl w

theorem looked_print (channel : Channel) (text : String) :
    Keeps Looked (Host.print channel text : Sandbox Unit) :=
  fun w => { Looked.refl w with }

end Sandbox

/-! ### Hosts that are alike -/

/-- Two hosts that interrupt no call have the same at the given paths. -/
structure Alike (paths : List String) (w v : World) : Prop where
  /-- The first one interrupts no call. -/
  calm : w.schedule = .calm
  /-- Neither does the second one. -/
  calm' : v.schedule = .calm
  /-- The working directory is the same. -/
  workingDirectory : v.workingDirectory = w.workingDirectory
  /-- The same is at the paths. -/
  node?_eq : ∀ p ∈ paths, v.tree.node? (Path.location w.workingDirectory p) =
    w.tree.node? (Path.location w.workingDirectory p)

namespace Alike

variable {paths paths' : List String} {w w' v v' : World}

theorem mono (h : Alike paths w v) (hsub : paths' ⊆ paths) : Alike paths' w v where
  calm := h.calm
  calm' := h.calm'
  workingDirectory := h.workingDirectory
  node?_eq p hp := h.node?_eq p (hsub hp)

theorem looked (h : Alike paths w v) (hw : Looked w w') (hv : Looked v v') : Alike paths w' v' where
  calm := hw.schedule.trans h.calm
  calm' := hv.schedule.trans h.calm'
  workingDirectory := by rw [hw.workingDirectory, hv.workingDirectory, h.workingDirectory]
  node?_eq p hp := by
    rw [hw.workingDirectory, hw.tree, hv.tree]
    exact h.node?_eq p hp

end Alike

namespace Sandbox

variable {α β : Type} {paths : List String} {w v : World}

/-- The computation gives the same on both hosts: the same value, or the same failure. -/
def SameResult (x : Sandbox α) (w v : World) : Prop :=
  (x.run.run w).1 = (x.run.run v).1

theorem sameResult_bind {x : Sandbox α} {f : α → Sandbox β} (hx : SameResult x w v)
    (hf : ∀ a, (x.run.run w).1 = .ok a → SameResult (f a) (x.run.run w).2 (x.run.run v).2) :
    SameResult (x >>= f) w v := by
  rw [SameResult] at hx ⊢
  rw [run_bind, run_bind]
  rcases hw : x.run.run w with ⟨e | a, w'⟩ <;> rcases hv : x.run.run v with ⟨e' | a', v'⟩ <;>
    rw [hw, hv] at hx
  · exact congrArg Except.error (Except.error.inj hx)
  · cases hx
  · cases hx
  · obtain rfl := Except.ok.inj hx
    have hnext := hf a (by rw [hw])
    rwa [hw, hv] at hnext

/-! ### Computations that read -/

/-- The computation only looks at the disk, and what it gives depends on nothing but what is at the
    given paths. -/
structure Reads (paths : List String) (x : Sandbox α) : Prop where
  /-- It only looks at the disk. -/
  looked : Keeps Looked x
  /-- It gives the same on hosts that are alike. -/
  same : ∀ w v, Alike paths w v → SameResult x w v

theorem reads_pure (a : α) : Reads paths (pure a) :=
  ⟨keeps_pure a, fun _ _ _ => rfl⟩

theorem reads_throw (e : Failure) : Reads paths (throw e : Sandbox α) :=
  ⟨keeps_throw e, fun _ _ _ => rfl⟩

theorem reads_bind {x : Sandbox α} {f : α → Sandbox β} (hx : Reads paths x)
    (hf : ∀ a, Reads paths (f a)) : Reads paths (x >>= f) where
  looked := keeps_bind hx.looked fun a => (hf a).looked
  same w v halike := sameResult_bind (hx.same w v halike) fun a _ =>
    (hf a).same _ _ (halike.looked (hx.looked.run w) (hx.looked.run v))

theorem reads_tryCatch {x : Sandbox α} {handle : Failure → Sandbox α} (hx : Reads paths x)
    (hhandle : ∀ e, Reads paths (handle e)) : Reads paths (tryCatch x handle) where
  looked := keeps_tryCatch hx.looked fun e => (hhandle e).looked
  same w v halike := by
    have hsame := hx.same w v halike
    have halike' := halike.looked (hx.looked.run w) (hx.looked.run v)
    rw [SameResult] at hsame ⊢
    rw [run_tryCatch, run_tryCatch]
    rcases hw : x.run.run w with ⟨e | a, w'⟩ <;> rcases hv : x.run.run v with ⟨e' | a', v'⟩ <;>
      rw [hw, hv] at hsame halike'
    · obtain rfl := Except.error.inj hsame
      exact (hhandle e).same _ _ halike'
    · cases hsame
    · cases hsame
    · exact congrArg Except.ok (Except.ok.inj hsame)

theorem reads_orProblem (result : Except Problem α) :
    Reads paths (orProblem result : Sandbox α) := by
  cases result with
  | ok a => exact reads_pure a
  | error problem => exact reads_throw _

theorem reads_query {call : Call} {look : World → Except FileError α} (hcall : call.Looks)
    (hlook : ∀ w v, Alike paths w v → look v = look w) : Reads paths (query call look) where
  looked := looked_query hcall
  same w v halike := by
    have hvalue (u : World) (hcalm : u.schedule = .calm) : ((query call look).run.run u).1 =
        match look u with
        | .ok a => .ok a
        | .error e => .error (.file e) := by
      have hrun : (query call look).run.run u = query call look u := rfl
      rw [hrun, query, perform, hcalm]
      cases look u with
      | ok a => rfl
      | error e => rfl
    rw [SameResult, hvalue w halike.calm, hvalue v halike.calm', hlook w v halike]

theorem reads_isPresent {path : String} (hpath : path ∈ paths) :
    Reads paths (Host.isPresent path : Sandbox Bool) := by
  refine reads_query trivial fun w v halike => ?_
  rw [FileTree.isPresent, FileTree.isPresent, halike.workingDirectory, halike.node?_eq path hpath]

theorem reads_readText {path : String} (hpath : path ∈ paths) :
    Reads paths (Host.readText path : Sandbox String) := by
  refine reads_query trivial fun w v halike => ?_
  rw [FileTree.readText, FileTree.readText, halike.workingDirectory, halike.node?_eq path hpath]

theorem reads_print (channel : Channel) (text : String) :
    Reads paths (Host.print channel text : Sandbox Unit) :=
  ⟨looked_print channel text, fun _ _ _ => rfl⟩

end Sandbox

/-! ### What a run reads -/

section Steps

variable {paths : List String} {path : String}

theorem reads_loadDocument (hpath : path ∈ paths) : Reads paths (Config.loadDocument path) := by
  refine reads_bind (reads_tryCatch (reads_readText hpath) fun e => reads_throw _) fun source => ?_
  cases Json.parse? source with
  | some document => exact reads_pure document
  | none => exact reads_throw _

/-- What is read of a configuration once it is known which place its path leads to. -/
theorem reads_loadAt (workingDirectory : String) (hpath : path ∈ paths) :
    Reads paths (do
      if ← Host.isPresent path then
        let document ← Config.loadDocument path
        orProblem (Config.ofJson workingDirectory path document)
      else throw (.problem (.configMissing path)) : Sandbox Config) := by
  refine reads_bind (reads_isPresent hpath) fun present => ?_
  cases present with
  | true => exact reads_bind (reads_loadDocument hpath) fun document => reads_orProblem _
  | false => exact reads_throw _

theorem looked_load (path : String) : Keeps Looked (Config.load path : Sandbox Config) :=
  keeps_bind looked_workingDirectory fun directory =>
    (reads_loadAt directory (List.mem_singleton_self _)).looked

/-- A configuration is read from the place that its path leads to. -/
theorem same_load {w v : World} (halike : Alike paths w v)
    (hpath : Path.ofLocation (Path.location w.workingDirectory path) ∈ paths) :
    SameResult (Config.load path) w v := by
  have hdirectory (u : World) :
      (Host.workingDirectory : Sandbox String).run.run u = (.ok u.workingDirectory, u) := rfl
  refine sameResult_bind (x := Host.workingDirectory) ?_ fun directory hrun => ?_
  · rw [SameResult, hdirectory, hdirectory, halike.workingDirectory]
  · rw [hdirectory] at hrun ⊢
    rw [hdirectory]
    obtain rfl := Except.ok.inj hrun
    exact (reads_loadAt _ hpath).same w v halike

theorem reads_loadGraph (hpath : path ∈ paths) : Reads paths (Engine.loadGraph path) := by
  refine reads_bind (reads_isPresent hpath) fun present => ?_
  cases present with
  | true =>
    exact reads_bind (reads_readText hpath) fun source =>
      reads_bind (reads_orProblem _) fun entries => reads_pure _
  | false => exact reads_throw _

theorem looked_loadGraph (path : String) : Keeps Looked (Engine.loadGraph path) :=
  (reads_loadGraph (List.mem_singleton_self path)).looked

theorem reads_printLines (lines : List String) : Reads paths (RunRequest.printLines lines) := by
  induction lines with
  | nil => exact reads_pure ()
  | cons line lines ih => exact reads_bind (reads_print .log line) fun _ => ih

theorem looked_printLines (lines : List String) : Keeps Looked (RunRequest.printLines lines) :=
  (reads_printLines lines : Reads [] (RunRequest.printLines lines)).looked

theorem reads_hasExported (hpath : path ∈ paths) (outcome : CommandOutcome) :
    Reads paths (Engine.hasExported path outcome) := by
  rw [Engine.hasExported]
  split
  · exact reads_isPresent hpath
  · exact reads_pure false

theorem reads_lookIntoConsumer (hpath : path ∈ paths) (entryPoint : String) :
    Reads paths (ConsumerCheck.perform path entryPoint) := by
  refine reads_bind (reads_isPresent hpath) fun present => ?_
  cases present with
  | true => exact reads_bind (reads_readText hpath) fun source => reads_pure _
  | false => exact reads_pure _

end Steps

end NodeTagging
