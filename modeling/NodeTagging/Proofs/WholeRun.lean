import NodeTagging.Proofs.Preparation
import NodeTagging.Proofs.Undisturbed
import NodeTagging.Proofs.WellFormed

/-!
# How a whole run ends

A run comes to a *plan* without touching the places of the generated files (`Prepares`,
`RunRequest.ends_perform`), installs the files of the plan, and looks into the consumer, which
touches nothing again. So what is known of an installation is known of a run:

* a run that returns has put every file of its plan in its place (`files_are_in_place`);
* an undisturbed run that fails has left every place as it was, or it has installed all files and
  then found a directory where the consumer should be (`failed_run_keeps_outputs`).

Both need places that lie apart from each other's siblings, and the second one places that are no
directories. A configuration promises neither.
-/

namespace NodeTagging

open FileTree Installation Sandbox

/-! ### The configured places -/

/-- The places of all generated files, in the order in which they are written. -/
def FilePlaces.all (places : FilePlaces) : List String :=
  [places.markers, places.dispatcher, places.classifier]

/-- A configuration that was loaded is that of a document at the place that the path leads to. -/
theorem Config.exists_document_of_load {path : String} {w : World} {config : Config}
    (hload : ((Config.load path : Sandbox Config).run.run w).1 = .ok config) : ∃ document,
    ofJson w.workingDirectory (Path.ofLocation (Path.location w.workingDirectory path)) document =
      .ok config := by
  have hends : Ends (Config.load path) w
      (fun config _ => ∃ document, ofJson w.workingDirectory
        (Path.ofLocation (Path.location w.workingDirectory path)) document = .ok config)
      fun _ _ => True := by
    refine ends_bind (x := Host.workingDirectory) ?_
    refine ends_bind (ends_of_forall (fun present w₁ => ?_) fun _ _ => trivial)
    cases present with
    | false => exact ends_throw trivial
    | true =>
      refine ends_bind (ends_of_forall (fun document w₂ => ?_) fun _ _ => trivial)
      exact ends_orProblem (fun config hconfig => ⟨document, hconfig⟩) fun _ _ => trivial
  exact hends.returns_of_run hload

/-- The directory of the dump leads to it, as all places of a configuration were resolved. -/
theorem Config.directory_schema_prefix {path : String} {w : World} {config : Config}
    (hload : ((Config.load path : Sandbox Config).run.run w).1 = .ok config)
    (workingDirectory : String) :
    Path.location workingDirectory (Path.directory config.paths.schema) <+:
      Path.location workingDirectory config.paths.schema := by
  obtain ⟨document, hconfig⟩ := exists_document_of_load hload
  obtain ⟨-, -, rfl⟩ := eq_of_ofJson hconfig
  refine Path.directory_prefix (Path.isAbsolute_directory ?_) _ _ _
  simp [Path.ofLocation, Path.isAbsolute]

/-! ### The consumer -/

section Consumer

variable {below : Location} {w : World} {path entryPoint : String}

theorem spares_lookIntoConsumer {workingDirectory : String} (below : Location)
    (tracked : List String) (path entryPoint : String) :
    Spares workingDirectory below tracked (ConsumerCheck.perform path entryPoint) :=
  (reads_lookIntoConsumer (List.mem_singleton_self path) entryPoint).looked.spares

/-- If no call is interrupted, then all that can keep a run from looking into the consumer is a
    directory in its place. -/
theorem succeeds_lookIntoConsumer (hcalm : w.schedule = .calm)
    (hplain : (w.look below path).here ≠ some .directory) :
    Succeeds (ConsumerCheck.perform path entryPoint) w := by
  have hpresent : Ends (Host.isPresent path) w
      (fun present w₁ => (present = true → (w₁.look below path).HasFile) ∧ w₁.schedule = .calm)
      fun _ _ => True := by
    refine ends_query (fun present w₁ h htree hdirectory hschedule _ => ⟨?_, ?_⟩)
      fun _ _ _ _ _ _ _ => trivial
    · rintro rfl
      obtain ⟨-, hsome⟩ := Bool.and_eq_true_iff.1 (Except.ok.inj h)
      rw [← view_here below] at hsome
      rw [World.look, htree, hdirectory]
      exact View.hasFile_of_isSome hsome hplain
    · exact hschedule.trans hcalm
  refine ends_bind ((hpresent.of_succeeds (succeeds_isPresent hcalm)).imp ?_ fun _ _ => id)
  rintro present w₁ ⟨hfile, hcalm₁⟩
  cases present with
  | true =>
    exact ends_bind ((succeeds_readText hcalm₁ (hfile rfl)).imp (fun _ _ _ => ends_pure trivial)
      fun _ _ => id)
  | false => exact ends_pure trivial

theorem ends_lookIntoConsumer (below : Location) (tracked : List String)
    (hcalm : w.schedule = .calm) :
    Ends (ConsumerCheck.perform path entryPoint) w (fun _ _ => True)
      fun _ w' => Spared below tracked w w' ∧ (w.look below path).here = some .directory := by
  by_cases hplain : (w.look below path).here = some .directory
  · exact (spares_lookIntoConsumer below tracked path entryPoint w rfl).imp (fun _ _ _ => trivial)
      fun _ w' hspared => ⟨hspared, hplain⟩
  · exact (succeeds_lookIntoConsumer hcalm hplain).imp (fun _ _ => id) fun _ _ => False.elim

end Consumer

/-! ### Plans -/

namespace RunRequest

/-- A run comes to a plan: it loads its configuration, has an engine write the dump if that is asked
    for, and makes the plan of the classes in the dump. -/
inductive Prepares (request : RunRequest) (w : World) (config : Config) (plan : RunPlan) : Prop
  | intro {graph : Inheritance} {exporter? : Option String} {w₀ w₁ w₂ : World}
      (load : (Config.load request.config : Sandbox Config).run.run w = (.ok config, w₀))
      (dump : (Engine.acquireDump config.paths.schema request.dump request.verbose
        config.engines : Sandbox (Option String)).run.run w₀ = (.ok exporter?, w₁))
      (read : (Engine.loadGraph config.paths.schema : Sandbox Inheritance).run.run w₁ =
        (.ok graph, w₂))
      (make : RunPlan.make graph config = .ok plan)

variable {request : RunRequest} {config : Config} {w : World}

theorem paths_of_make {graph : Inheritance} {plan : RunPlan}
    (hmake : RunPlan.make graph config = .ok plan) :
    plan.files.map (·.path) = config.paths.generated.all := by
  obtain ⟨t, -, rfl⟩ := RunPlan.exists_taxonomy_of_make hmake
  rfl

theorem Prepares.paths_eq {plan : RunPlan} (h : request.Prepares w config plan) :
    plan.files.map (·.path) = config.paths.generated.all := by
  obtain ⟨-, -, -, hmake⟩ := h
  exact paths_of_make hmake

/-- What precedes and what follows the installation spares the tracked paths. -/
theorem ends_perform (below : Location) (tracked : List String)
    {returns : RunReport → World → Prop} {fails : Failure → World → Prop}
    (hload : ((Config.load request.config : Sandbox Config).run.run w).1 = .ok config)
    (hdump : ∀ q ∈ tracked, Location.Apart (Path.location w.workingDirectory config.paths.schema)
      (Path.location w.workingDirectory q))
    (hstopped : ∀ e w', Spared below tracked w w' → fails e w')
    (hinstall : ∀ plan w₁, request.Prepares w config plan → Spared below tracked w w₁ →
      Ends (install plan.files) w₁
        (fun _ w₂ => Ends (ConsumerCheck.perform config.paths.consumer config.entryPoints.apply) w₂
          (fun _ w' => ∀ report : RunReport,
            report.outputs = plan.files.map (fun file => (file.kind, file.path)) →
              returns report w')
          fails)
        fails) :
    Ends request.perform w returns fails := by
  rw [perform]
  refine (looked_load request.config).spares.ends_bind (.refl w)
    (fun config' w₀ hload' hspared₀ => ?_) hstopped
  obtain rfl : config = config' := Except.ok.inj (hload.symm.trans (congrArg Prod.fst hload'))
  refine (spares_acquireDump hdump _ _ _ (Config.directory_schema_prefix hload _)).ends_bind
    hspared₀ (fun exporter? w₁ hacquire hspared₁ => ?_) hstopped
  refine (looked_loadGraph _).spares.ends_bind hspared₁ (fun graph w₂ hread hspared₂ => ?_) hstopped
  refine ends_bind (ends_orProblem (fun plan hmake => ?_) fun problem _ => hstopped _ _ hspared₂)
  refine (looked_printLines _).spares.ends_optional hspared₂ (fun w₃ hspared₃ => ?_) hstopped
  refine ends_bind ((hinstall plan w₃ ⟨hload', hacquire, hread, hmake⟩ hspared₃).imp
    (fun _ w₄ hconsumer => ?_) fun _ _ => id)
  exact ends_bind (hconsumer.imp (fun _ w' hreport => ends_pure (hreport _ rfl)) fun _ _ => id)

end RunRequest

/-! ### Small hosts -/

namespace Sample

/-- A run without a new dump. -/
def request : RunRequest where
  config := "config"

/-- The text of a configuration with the given places of the marker declarations and of the
    dispatchers. -/
def configText (markers dispatcher : String) : String :=
  "\x7b\"paths\":\x7b\"schema\":\"api\",\"markers\":\"" ++ markers ++
    "\",\"dispatcher\":\"" ++ dispatcher ++
    "\",\"classifier\":\"c\",\"consumer\":\"main\"\x7d\x7d"

/-- What the text says. -/
def configOf (markers dispatcher : String) : Config where
  path := "/config"
  paths :=
    { schema := "/api"
      generated :=
        { markers := "/" ++ markers
          dispatcher := "/" ++ dispatcher
          classifier := "/c" }
      consumer := "/main" }
  engines := Config.defaultEngines
  taxonomy := {}
  target := {}
  entryPoints := {}

-- Irreducible, so that a run on this host is evaluated only where it is asked for.
/-- A host with the configuration, a dump of the root alone, an earlier version of the dispatchers,
    and a directory. -/
@[irreducible] def host (markers dispatcher directory : String) : World where
  tree :=
    (((FileTree.empty.store ["config"] (configText markers dispatcher)).store
      ["api"] "\x7b\"classes\":[\x7b\"name\":\"Node\"\x7d]\x7d").store
      ["d"] "old dispatchers").storeDirectory [directory]
  workingDirectory := "/"

theorem calm_host (markers dispatcher directory : String) :
    (host markers dispatcher directory).schedule = .calm := by
  rw [host]

theorem workingDirectory_host (markers dispatcher directory : String) :
    (host markers dispatcher directory).workingDirectory = "/" := by
  rw [host]

/-- A configuration with places that lie apart. -/
def config₀ : Config :=
  configOf "m" "d"

theorem separate_config₀ (markers dispatcher directory : String) :
    Separate (host markers dispatcher directory).workingDirectory
      (config₀.path :: config₀.paths.consumer :: config₀.paths.schema ::
        touched config₀.paths.generated.all) := by
  rw [workingDirectory_host]
  decide +kernel

/-- A host on which nothing is in the way of a run. -/
def openHost : World :=
  host "m" "d" "old"

/-- A host with a directory where the earlier dispatchers are to be moved aside. -/
def obstructedHost : World :=
  host "m" "d" "d.bak"

/-- A host with a directory in the place of the consumer. -/
def consumerHost : World :=
  host "m" "d" "main"

/-- A host on which the markers are to go where the dispatchers are staged. -/
def clashingHost : World :=
  host "d.tmp" "d" "old"

theorem ended_openHost :
    ((Config.load request.config : Sandbox Config).run.run openHost).1 = .ok config₀ ∧
      ∃ report, ((request.perform : Sandbox RunReport).run.run openHost).1 = .ok report := by
  have hended : ((Config.load request.config : Sandbox Config).run.run openHost).1 = .ok config₀ ∧
      ((request.perform : Sandbox RunReport).run.run openHost).1.isOk := by decide +kernel
  refine hended.imp_right fun hok => ?_
  cases hreport : ((request.perform : Sandbox RunReport).run.run openHost).1 with
  | ok report => exact ⟨report, rfl⟩
  | error e => simp [hreport, Except.isOk, Except.toBool] at hok

/-- The failure to move the earlier dispatchers aside. -/
def obstruction : Failure :=
  .problem (.installFailed "/d" (FileError.refused .isDirectory (.rename "/d" "/d.bak")).message [])

/-- The run fails and there is no consumer, and no output was a directory. -/
theorem ended_obstructedHost :
    ((Config.load request.config : Sandbox Config).run.run obstructedHost).1 = .ok config₀ ∧
      ((request.perform : Sandbox RunReport).run.run obstructedHost).1 = .error obstruction ∧
      ((request.perform : Sandbox RunReport).run.run obstructedHost).2.tree.node?
        (Path.location obstructedHost.workingDirectory config₀.paths.consumer) = none ∧
      ∀ p ∈ config₀.paths.generated.all, obstructedHost.tree.node?
        (Path.location obstructedHost.workingDirectory p) ≠ some .directory := by
  decide +kernel

end Sample

namespace RunRequest

variable {request : RunRequest} {config : Config} {w : World}

/-! ### A run that returns -/

/-- Files stay in their places as long as these are spared. -/
theorem inPlace_of_spared {files : List GeneratedFile} {tracked : List String} {w₀ w w' : World}
    (hdirectory : w.workingDirectory = w₀.workingDirectory)
    (hplaced : ∀ file ∈ files, w.look [] file.path = .ofFile [] file.content)
    (h : Spared [] tracked w w') (htracked : files.map (·.path) ⊆ tracked) :
    ∀ file ∈ files, InPlace w₀.workingDirectory w'.tree file := by
  intro file hfile
  have hlook := h.look (htracked (List.mem_map_of_mem hfile))
  rw [hplaced file hfile] at hlook
  exact inPlace_of_look (h.workingDirectory.trans hdirectory) hlook

/-- A run that returns has put every file of its plan in its place, whichever of its calls are
    interrupted. The places may be anywhere, as long as neither they nor their siblings lie in one
    another. -/
theorem files_are_in_place
    (hload : ((Config.load request.config : Sandbox Config).run.run w).1 = .ok config)
    (hseparate : Separate w.workingDirectory (touched config.paths.generated.all)) :
    Ends request.perform w
      (fun report w' => ∃ plan, request.Prepares w config plan ∧
        plan.files.map (·.path) = config.paths.generated.all ∧
        report.outputs = plan.files.map (fun file => (file.kind, file.path)) ∧
        ∀ file ∈ plan.files, InPlace w.workingDirectory w'.tree file)
      fun _ _ => True := by
  refine ends_perform [] [] hload (fun q hq => absurd hq List.not_mem_nil) (fun _ _ _ => trivial)
    fun plan w₁ hprepares hspared₁ => ?_
  have hpaths := hprepares.paths_eq
  rw [← hpaths, ← hspared₁.workingDirectory] at hseparate
  refine (ends_install [] hseparate fun _ _ => clear_nil _).imp ?_ fun _ _ _ => trivial
  rintro - w₂ ⟨-, hdirectory, hplaced⟩
  refine (spares_lookIntoConsumer [] (plan.files.map (·.path)) _ _ w₂ rfl).imp
    (fun consumer w' hspared report hreport => ?_) fun _ _ _ => trivial
  exact ⟨plan, hprepares, hpaths, hreport,
    inPlace_of_spared (hdirectory.trans hspared₁.workingDirectory) hplaced hspared
      (List.Subset.refl _)⟩

/-- A run puts the dispatchers in the place of the earlier ones. -/
theorem files_are_in_place_of_earlier :
    ((Config.load Sample.request.config : Sandbox Config).run.run Sample.openHost).1 =
        .ok Sample.config₀ ∧
      Separate Sample.openHost.workingDirectory (touched Sample.config₀.paths.generated.all) ∧
      ∃ report plan,
        ((Sample.request.perform : Sandbox RunReport).run.run Sample.openHost).1 = .ok report ∧
        Sample.request.Prepares Sample.openHost Sample.config₀ plan ∧
        ∀ file ∈ plan.files, InPlace Sample.openHost.workingDirectory
          ((Sample.request.perform : Sandbox RunReport).run.run Sample.openHost).2.tree file := by
  obtain ⟨hload, report, hreport⟩ := Sample.ended_openHost
  have hseparate := ((Sample.separate_config₀ "m" "d" "old").of_cons).of_cons.of_cons
  obtain ⟨plan, hprepares, -, -, hplaced⟩ :=
    (files_are_in_place hload hseparate).returns_of_run hreport
  exact ⟨hload, hseparate, report, plan, hreport, hprepares, hplaced⟩

/-- If the markers go where the dispatchers are staged, a run returns and has left no markers. -/
theorem markers_are_lost_if_staged_over :
    Sample.clashingHost.schedule = .calm ∧
      ((Config.load Sample.request.config : Sandbox Config).run.run Sample.clashingHost).1 =
        .ok (Sample.configOf "d.tmp" "d") ∧
      ((Sample.request.perform : Sandbox RunReport).run.run Sample.clashingHost).1.isOk ∧
      ((Sample.request.perform : Sandbox RunReport).run.run Sample.clashingHost).2.tree.node?
        (Path.location Sample.clashingHost.workingDirectory
          (Sample.configOf "d.tmp" "d").paths.generated.markers) = none := by
  refine ⟨Sample.calm_host _ _ _, ?_⟩
  decide +kernel

/-! ### A run that fails -/

/-- If a run on a host that interrupts no call fails, then every place of a generated file holds
    what it held before, unless all the files are in place and there is a directory where the
    consumer should be. The places may be anywhere apart from the dump, as long as neither they nor
    their siblings lie in one another and they are no directories. -/
theorem failed_run_keeps_outputs
    (hload : ((Config.load request.config : Sandbox Config).run.run w).1 = .ok config)
    (hcalm : w.schedule = .calm)
    (hseparate : Separate w.workingDirectory (touched config.paths.generated.all))
    (hdump : ∀ q ∈ touched config.paths.generated.all,
      Location.Apart (Path.location w.workingDirectory config.paths.schema)
        (Path.location w.workingDirectory q))
    (hplain : ∀ p ∈ config.paths.generated.all,
      w.tree.node? (Path.location w.workingDirectory p) ≠ some .directory) :
    Ends request.perform w (fun _ _ => True) fun _ w' =>
      (∀ p ∈ config.paths.generated.all, w'.tree.node? (Path.location w.workingDirectory p) =
        w.tree.node? (Path.location w.workingDirectory p)) ∨
      w'.tree.node? (Path.location w.workingDirectory config.paths.consumer) = some .directory ∧
        ∃ plan, request.Prepares w config plan ∧
          ∀ file ∈ plan.files, InPlace w.workingDirectory w'.tree file := by
  refine ends_perform [] _ hload hdump
    (fun _ w' hspared => .inl fun p hp => World.node?_eq_of_look_eq hspared.workingDirectory
      (hspared.look (self_mem_touched hp)))
    fun plan w₁ hprepares hspared₁ => ?_
  have hpaths := hprepares.paths_eq
  have hkept : ∀ p ∈ config.paths.generated.all, w₁.look [] p = w.look [] p :=
    fun p hp => hspared₁.look (self_mem_touched hp)
  rw [← hpaths] at hseparate hplain hkept ⊢
  refine (ends_install_undisturbed (hspared₁.schedule.trans hcalm)
    (hspared₁.workingDirectory ▸ hseparate) (fun _ _ => clear_nil _) ?_).imp ?_ ?_
  · intro p hp
    rw [hkept p hp, World.look, view_here]
    exact hplain p hp
  · rintro - w₂ ⟨hdirectory, hcalm₂, hplaced⟩
    have hdirectory₂ := hdirectory.trans hspared₁.workingDirectory
    refine (ends_lookIntoConsumer [] (config.paths.consumer :: plan.files.map (·.path)) hcalm₂).imp
      (fun _ _ _ _ _ => trivial) ?_
    rintro e w' ⟨hspared, hconsumer⟩
    refine .inr ⟨?_, plan, hprepares,
      inPlace_of_spared hdirectory₂ hplaced hspared (List.subset_cons_self _ _)⟩
    rw [World.look, view_here, hdirectory₂] at hconsumer
    rw [← hconsumer, ← hdirectory₂]
    exact World.node?_eq_of_look_eq hspared.workingDirectory (hspared.look List.mem_cons_self)
  · rintro e w' ⟨hdirectory, hback⟩
    exact .inl fun p hp => World.node?_eq_of_look_eq
      (hdirectory.trans hspared₁.workingDirectory) ((hback p hp).trans (hkept p hp))

/-- When the earlier dispatchers cannot be moved aside, the markers are taken away again. -/
theorem failed_run_keeps_outputs_when_obstructed :
    ((Config.load Sample.request.config : Sandbox Config).run.run Sample.obstructedHost).1 =
        .ok Sample.config₀ ∧
      Sample.obstructedHost.schedule = .calm ∧
      Separate Sample.obstructedHost.workingDirectory
        (Sample.config₀.paths.schema :: touched Sample.config₀.paths.generated.all) ∧
      (∀ p ∈ Sample.config₀.paths.generated.all, Sample.obstructedHost.tree.node?
        (Path.location Sample.obstructedHost.workingDirectory p) ≠ some .directory) ∧
      ((Sample.request.perform : Sandbox RunReport).run.run Sample.obstructedHost).1 =
        .error Sample.obstruction ∧
      ∀ p ∈ Sample.config₀.paths.generated.all,
        ((Sample.request.perform : Sandbox RunReport).run.run Sample.obstructedHost).2.tree.node?
            (Path.location Sample.obstructedHost.workingDirectory p) =
          Sample.obstructedHost.tree.node?
            (Path.location Sample.obstructedHost.workingDirectory p) := by
  obtain ⟨hload, herror, hconsumer, hplain⟩ := Sample.ended_obstructedHost
  have hcalm := Sample.calm_host "m" "d" "d.bak"
  have hapart := (Sample.separate_config₀ "m" "d" "d.bak").of_cons.of_cons
  obtain ⟨hdump, hseparate⟩ := List.pairwise_cons.1 hapart
  have hended :=
    (failed_run_keeps_outputs hload hcalm hseparate hdump hplain).fails_of_run herror
  refine ⟨hload, hcalm, hapart, hplain, herror, hended.resolve_right ?_⟩
  rw [hconsumer]
  simp

/-- A run that finds a directory in the place of the consumer fails with its files installed. -/
theorem failed_run_replaces_outputs :
    Sample.consumerHost.schedule = .calm ∧
      Separate Sample.consumerHost.workingDirectory
        (Sample.config₀.path :: Sample.config₀.paths.consumer :: Sample.config₀.paths.schema ::
          touched Sample.config₀.paths.generated.all) ∧
      ((Config.load Sample.request.config : Sandbox Config).run.run Sample.consumerHost).1 =
        .ok Sample.config₀ ∧
      ((Sample.request.perform : Sandbox RunReport).run.run Sample.consumerHost).1 =
        .error (.file (.refused .isDirectory .read)) ∧
      ¬ ∀ p ∈ Sample.config₀.paths.generated.all,
        ((Sample.request.perform : Sandbox RunReport).run.run Sample.consumerHost).2.tree.node?
            (Path.location Sample.consumerHost.workingDirectory p) =
          Sample.consumerHost.tree.node?
            (Path.location Sample.consumerHost.workingDirectory p) := by
  refine ⟨Sample.calm_host _ _ _, Sample.separate_config₀ _ _ _, ?_⟩
  decide +kernel

end RunRequest

end NodeTagging
