import NodeTagging.Proofs.Exporting

/-!
# Everything is worked out before anything is written

A run *prepares* and then *completes* its work (`perform_eq`). To prepare is to load the
configuration, to have an engine write the dump if that is asked for, to read the dump, and to work
out the plan. Up to there a run only looks at the disk: it writes, moves and removes nothing
(`nothing_is_written_before_installing`). Only when a dump is asked for does the disk change, by the
directories that lead to the dump, which are made, and by what the engines store.

So a run that fails before it installs anything has left the disk alone but for the dump, whatever
the reason.
-/

namespace NodeTagging

open FileTree Sandbox

/-! ### Preparing -/

namespace RunRequest

/-- What a run has when everything is worked out. -/
structure Prepared where
  /-- The configuration. -/
  config : Config
  /-- The command that wrote the dump, if one did. -/
  exporter? : Option String
  /-- The classes of the dump. -/
  graph : Inheritance
  /-- What was worked out. -/
  plan : RunPlan

section Phases

variable {m : Type → Type} [Monad m] [MonadExceptOf Failure m] [Host m]

/-- Works everything out. -/
def prepare (request : RunRequest) : m Prepared := do
  let config ← Config.load request.config
  let exporter? ←
    Engine.acquireDump config.paths.schema request.dump request.verbose config.engines
  let graph ← Engine.loadGraph config.paths.schema
  let plan ← orProblem (RunPlan.make graph config)
  if request.verbose then printLines (exclusionLines graph config.taxonomy)
  pure ⟨config, exporter?, graph, plan⟩

/-- Looks into the consumer, and reports. -/
def conclude (prepared : Prepared) : m RunReport := do
  let consumer ← ConsumerCheck.perform prepared.config.paths.consumer
    prepared.config.entryPoints.apply
  let log := WarningLog.empty.append
    ((prepared.plan.warnings ++ consumer.warning?.toList).map (·.diagnostic))
  pure
    { counts := .ofTaxonomy prepared.graph prepared.plan.taxonomy
      outputs := prepared.plan.files.map fun file => (file.kind, file.path)
      warnings := log.warnings
      consumer := consumer
      exporter? := prepared.exporter? }

/-- Installs what was worked out, and looks into the consumer. -/
def complete (prepared : Prepared) : m RunReport := do
  let _ ← Installation.install prepared.plan.files
  conclude prepared

/-- A run prepares and then completes its work. -/
theorem perform_eq [LawfulMonad m] (request : RunRequest) :
    (request.perform : m RunReport) = request.prepare >>= complete := by
  cases hverbose : request.verbose with
  | true => simp [perform, prepare, complete, conclude, hverbose]
  | false => simp [perform, prepare, complete, conclude, hverbose]

end Phases

/-- What precedes the installation of a run: looks at the disk and, if a dump is asked for, the
    export of the dump to where the configuration says. -/
def Preliminary (request : RunRequest) (w w' : World) : Prop :=
  Looked w w' ∨ request.dump = true ∧ ∃ config,
    ((Config.load request.config : Sandbox Config).run.run w).1 = .ok config ∧
      Exported config.paths.schema config.engines w w'

theorem Preliminary.looked_right {request : RunRequest} {w w' w'' : World}
    (h : request.Preliminary w w') (h' : Looked w' w'') : request.Preliminary w w'' := by
  rcases h with hlooked | ⟨hdump, config, hload, hexported⟩
  · exact .inl (hlooked.trans h')
  · exact .inr ⟨hdump, config, hload, hexported.looked_right h'⟩

/-- Whatever a run prepares is preliminary, and a plan that it comes to is the one of the classes
    and the configuration that it has read. -/
theorem ends_prepare (request : RunRequest) (w : World) :
    Ends request.prepare w
      (fun prepared w' => request.Preliminary w w' ∧
        ((Config.load request.config : Sandbox Config).run.run w).1 = .ok prepared.config ∧
        RunPlan.make prepared.graph prepared.config = .ok prepared.plan)
      fun _ w' => request.Preliminary w w' := by
  rw [prepare]
  refine ends_bind ((looked_load request.config w).with_run.imp ?_ fun _ _ h => .inl h.2)
  rintro config w₀ ⟨hload, hlooked⟩
  have hconfig := congrArg Prod.fst hload
  have hacquired {w₁ : World} (h : w₁ = w₀ ∨ request.dump = true ∧
      Exported config.paths.schema config.engines w₀ w₁) : request.Preliminary w w₁ := by
    rcases h with rfl | ⟨hdump, hexported⟩
    · exact .inl hlooked
    · exact .inr ⟨hdump, config, hconfig, hexported.looked_left hlooked⟩
  refine ends_bind ((ends_acquireDump _ _ _ _ w₀).imp (fun exporter? w₁ h => ?_)
    fun _ _ => hacquired)
  -- From here on the run only looks.
  have hstop {w' : World} (h' : Looked w₁ w') := (hacquired h).looked_right h'
  refine (looked_loadGraph _).ends_bind (.refl w₁) (fun graph w₂ h₂ => ?_) fun _ _ => hstop
  refine ends_bind (ends_orProblem (fun plan hmake => ?_) fun _ _ => hstop h₂)
  cases request.verbose with
  | true =>
    exact (looked_printLines _).ends_bind h₂
      (fun _ _ h₃ => ends_pure ⟨hstop h₃, hconfig, hmake⟩) fun _ _ => hstop
  | false => exact ends_pure ⟨hstop h₂, hconfig, hmake⟩

/-- A run has worked out everything before it installs anything, and up to there it has written,
    moved and removed nothing. Without a new dump the disk is as it was and no program was started;
    with one, the disk has changed at most by the directories that lead to the dump and by what the
    started engines have written, as the configuration names them in order.

    If this fails, for whatever reason and under whatever interruptions, then so does the run, and
    nothing else has happened. -/
theorem nothing_is_written_before_installing (request : RunRequest) (w : World) :
    Ends request.prepare w
      (fun prepared w' => request.Preliminary w w' ∧
        ((Config.load request.config : Sandbox Config).run.run w).1 = .ok prepared.config ∧
        RunPlan.make prepared.graph prepared.config = .ok prepared.plan ∧
        (request.perform : Sandbox RunReport).run.run w =
          (complete prepared : Sandbox RunReport).run.run w')
      (fun e w' => request.Preliminary w w' ∧
        (request.perform : Sandbox RunReport).run.run w = (.error e, w')) := by
  refine (ends_prepare request w).with_run.imp ?_ ?_
  · rintro prepared w' ⟨hrun, hpreliminary, hconfig, hmake⟩
    refine ⟨hpreliminary, hconfig, hmake, ?_⟩
    rw [perform_eq, run_bind, hrun]
  · rintro e w' ⟨hrun, hpreliminary⟩
    refine ⟨hpreliminary, ?_⟩
    rw [perform_eq, run_bind, hrun]

end RunRequest

end NodeTagging
