import NodeTagging.Proofs.Preliminaries
import NodeTagging.Proofs.Unhindered
import NodeTagging.Proofs.WholeRun

/-!
# A second run changes nothing

What a run works out depends on nothing but what is at the places that it reads, the configuration
and the dump (`same_load`, `same_prepare`). The places of the generated files lie apart from them,
so a second run works out the same as the first one. It finds the directories there and the
generated files in their places, and nothing hinders it from replacing every file by itself
(`Stored.again`). So it returns what the first one returned and leaves the disk as it was
(`second_run_changes_nothing`).
-/

namespace NodeTagging

open FileTree Installation Sandbox

/-- The configuration knows the place that it was read from. -/
theorem Config.path_of_load {path : String} {w : World} {config : Config}
    (hload : ((Config.load path : Sandbox Config).run.run w).1 = .ok config) :
    config.path = Path.ofLocation (Path.location w.workingDirectory path) := by
  obtain ⟨document, hconfig⟩ := exists_document_of_load hload
  obtain ⟨-, -, rfl⟩ := eq_of_ofJson hconfig
  rfl

/-! ### A disk with the files on it -/

namespace Installation

variable {workingDirectory : String} {files : List GeneratedFile} {t t₁ t₂ : FileTree}

section Separate

variable (hseparate : Separate workingDirectory (touched (files.map (·.path))))

include hseparate

theorem Stored.inPlace (h : Stored workingDirectory files t t₁) {a : GeneratedFile}
    (ha : a ∈ files) : InPlace workingDirectory t₁ a := by
  rw [InPlace, h.node?_eq, node?_storeAll_self hseparate ha]

/-- Elsewhere is what was there, or a directory on the way to a file. -/
theorem Stored.node?_eq_or (h : Stored workingDirectory files t t₁) (place : Location) :
    t₁.node? place = t.node? place ∨ ∃ a ∈ files,
      place = Path.location workingDirectory a.path ∨
        place ∈ above (Path.location workingDirectory a.path) := by
  by_cases hplace : ∀ a ∈ files, place ≠ Path.location workingDirectory a.path
  · rw [h.node?_eq, node?_storeAll_of_forall_ne
      (fun a ha => location_ne_nil hseparate (List.mem_map_of_mem ha)) hplace]
    by_cases hway : OnTheWay workingDirectory (files.map (·.path)) place
    · obtain ⟨p, hp, habove⟩ := hway
      obtain ⟨a, ha, rfl⟩ := List.mem_map.1 hp
      exact .inr ⟨a, ha, .inr habove⟩
    · exact .inl (if_neg fun hmade => hway hmade.2)
  · push Not at hplace
    obtain ⟨a, ha, hplace⟩ := hplace
    exact .inr ⟨a, ha, .inl hplace⟩

theorem Stored.wellFormed (h : Stored workingDirectory files t t₁) (hwell : t.WellFormed) :
    t₁.WellFormed := by
  refine hwell.of_led (fun q => ∃ a ∈ files, q = Path.location workingDirectory a.path) ?_ ?_
    fun q => ?_
  · rintro p ⟨a, ha, rfl⟩
    exact h.plain a ha
  · rintro p ⟨a, ha, rfl⟩
    exact h.led a ha
  · refine (h.node?_eq_or hseparate q).imp_right ?_
    rintro ⟨a, ha, hq⟩
    exact ⟨_, ⟨a, ha, rfl⟩, hq⟩

/-- What lies apart from the files is as it was. -/
theorem Stored.node?_eq_of_apart (h : Stored workingDirectory files t t₁) {path : String}
    (hapart : ∀ a ∈ files, Location.Apart (Path.location workingDirectory path)
      (Path.location workingDirectory a.path)) :
    t₁.node? (Path.location workingDirectory path) =
      t.node? (Path.location workingDirectory path) := by
  refine (h.node?_eq_or hseparate _).resolve_right ?_
  rintro ⟨a, ha, hplace | habove⟩
  · exact (hapart a ha).ne hplace
  · exact (hapart a ha).1 (mem_above_iff.1 habove).1

/-- To store the files once more changes nothing. -/
theorem Stored.again (h : Stored workingDirectory files t t₁)
    (h' : Stored workingDirectory files t₁ t₂) (place : Location) :
    t₂.node? place = t₁.node? place := by
  rcases h'.node?_eq_or hseparate place with hsame | ⟨a, ha, rfl | habove⟩
  · exact hsame
  · exact (h'.inPlace hseparate ha).trans (h.inPlace hseparate ha).symm
  · rw [h'.led a ha place habove, h.led a ha place habove]

end Separate

/-- Files that are stored can be installed once more, and nothing changes. -/
theorem Stored.exists_install {w : World} (h : Stored w.workingDirectory files t w.tree)
    (hwell : t.WellFormed) (hcalm : w.schedule = .calm)
    (hseparate : Separate w.workingDirectory (touched (files.map (·.path)))) :
    ∃ places w', (install files : Sandbox (List String)).run.run w = (.ok places, w') ∧
      w'.workingDirectory = w.workingDirectory ∧ w'.schedule = .calm ∧
      ∀ place, w'.tree.node? place = w.tree.node? place := by
  have hplain : ∀ a ∈ files,
      w.tree.node? (Path.location w.workingDirectory a.path) ≠ some .directory := by
    intro a ha hdirectory
    have hfile := h.inPlace hseparate ha
    rw [InPlace, hdirectory] at hfile
    cases hfile
  obtain ⟨places, w', hinstall⟩ :=
    (succeeds_install hcalm hseparate h.led hplain h.fresh).exists_run
  have hagain := (ends_install_stored (h.wellFormed hseparate hwell) hseparate
    h.fresh).returns_of_run (congrArg Prod.fst hinstall)
  rw [hinstall] at hagain
  obtain ⟨hdirectory, hschedule, hagain⟩ := hagain
  exact ⟨places, w', hinstall, hdirectory, hschedule.trans hcalm, h.again hseparate hagain⟩

end Installation

namespace RunRequest

variable {request : RunRequest} {config : Config} {w v : World}

/-- On hosts that have the same configuration and the same dump, a run prepares the same. -/
theorem same_prepare
    (hload : ((Config.load request.config : Sandbox Config).run.run w).1 = .ok config)
    (hdump : request.dump = false) (halike : Alike [config.path, config.paths.schema] w v) :
    SameResult request.prepare w v := by
  have hplace : Path.ofLocation (Path.location w.workingDirectory request.config) ∈
      [config.path, config.paths.schema] := by
    rw [← Config.path_of_load hload]
    exact List.mem_cons_self
  refine sameResult_bind (same_load halike hplace) fun config' hconfig => ?_
  obtain rfl : config = config' := Except.ok.inj (hload.symm.trans hconfig)
  -- What follows reads the dump.
  have hrest : Reads [config.path, config.paths.schema] (do
      let exporter? ←
        Engine.acquireDump config.paths.schema request.dump request.verbose config.engines
      let graph ← Engine.loadGraph config.paths.schema
      let plan ← orProblem (RunPlan.make graph config)
      if request.verbose then printLines (exclusionLines graph config.taxonomy)
      pure (⟨config, exporter?, graph, plan⟩ : Prepared) : Sandbox Prepared) := by
    rw [hdump]
    refine reads_bind (reads_pure none) fun exporter? => ?_
    refine reads_bind (reads_loadGraph (by simp)) fun graph => ?_
    refine reads_bind (reads_orProblem _) fun plan => ?_
    cases request.verbose with
    | true => exact reads_bind (reads_printLines _) fun _ => reads_pure _
    | false => exact reads_pure _
  exact hrest.same _ _ (halike.looked ((looked_load _).run w) ((looked_load _).run v))

theorem reads_conclude (prepared : Prepared) :
    Reads [prepared.config.paths.consumer] (conclude prepared) :=
  reads_bind (reads_lookIntoConsumer List.mem_cons_self _) fun _ => reads_pure _

/-- A run that returns goes through its three phases. -/
theorem perform_eq_ok_iff {report : RunReport} {w' : World} :
    (request.perform : Sandbox RunReport).run.run w = (.ok report, w') ↔ ∃ prepared w₁,
      (request.prepare : Sandbox Prepared).run.run w = (.ok prepared, w₁) ∧ ∃ places w₂,
        (install prepared.plan.files : Sandbox (List String)).run.run w₁ = (.ok places, w₂) ∧
        (conclude prepared : Sandbox RunReport).run.run w₂ = (.ok report, w') := by
  rw [perform_eq, run_bind_eq_ok_iff]
  simp only [complete, run_bind_eq_ok_iff]

/-- What a run has prepared without a new dump. -/
theorem looked_of_prepare {prepared : Prepared} {w₁ : World} (hdump : request.dump = false)
    (hprepare : (request.prepare : Sandbox Prepared).run.run w = (.ok prepared, w₁)) :
    Looked w w₁ ∧
      ((Config.load request.config : Sandbox Config).run.run w).1 = .ok prepared.config ∧
      RunPlan.make prepared.graph prepared.config = .ok prepared.plan := by
  have hends := (ends_prepare request w).returns_of_run (congrArg Prod.fst hprepare)
  rw [hprepare] at hends
  refine ⟨hends.1.resolve_right ?_, hends.2⟩
  simp [hdump]

/-- A run that returns has stored the files of its plan, and has then looked into the consumer. -/
theorem exists_stored_of_perform {report : RunReport} {w' : World}
    (hload : ((Config.load request.config : Sandbox Config).run.run w).1 = .ok config)
    (hdump : request.dump = false) (hwell : w.tree.WellFormed)
    (hseparate : Separate w.workingDirectory (touched config.paths.generated.all))
    (hfresh : ∀ p ∈ config.paths.generated.all, Fresh w.workingDirectory w.tree p)
    (hrun : (request.perform : Sandbox RunReport).run.run w = (.ok report, w')) :
    ∃ prepared w₁ w₂, (request.prepare : Sandbox Prepared).run.run w = (.ok prepared, w₁) ∧
      prepared.config = config ∧
      prepared.plan.files.map (·.path) = config.paths.generated.all ∧
      Stored w.workingDirectory prepared.plan.files w.tree w'.tree ∧
      (conclude prepared : Sandbox RunReport).run.run w₂ = (.ok report, w') ∧
      w₂.tree = w'.tree ∧ w₂.workingDirectory = w.workingDirectory ∧ w₂.schedule = w.schedule := by
  obtain ⟨prepared, w₁, hprepare, places, w₂, hinstall, hconclude⟩ := perform_eq_ok_iff.1 hrun
  obtain ⟨hlooked₁, hconfig, hmake⟩ := looked_of_prepare hdump hprepare
  obtain rfl : config = prepared.config := Except.ok.inj (hload.symm.trans hconfig)
  have hpaths := paths_of_make hmake
  have hends : Ends (install prepared.plan.files) w₁
      (fun _ w₂ => w₂.workingDirectory = w₁.workingDirectory ∧ w₂.schedule = w₁.schedule ∧
        Stored w₁.workingDirectory prepared.plan.files w₁.tree w₂.tree) fun _ _ => True := by
    refine ends_install_stored (hlooked₁.tree ▸ hwell) ?_ fun a ha => ?_
    · rwa [hpaths, hlooked₁.workingDirectory]
    · rw [hlooked₁.workingDirectory, hlooked₁.tree]
      exact hfresh _ (hpaths ▸ List.mem_map_of_mem ha)
  have hstored := hends.returns_of_run (congrArg Prod.fst hinstall)
  rw [hinstall, hlooked₁.workingDirectory, hlooked₁.schedule, hlooked₁.tree] at hstored
  obtain ⟨hdirectory, hschedule, hstored⟩ := hstored
  have hlooked₂ := (reads_conclude prepared).looked.run w₂
  rw [hconclude] at hlooked₂
  exact ⟨prepared, w₁, w₂, hprepare, rfl, hpaths, hlooked₂.tree ▸ hstored, hconclude,
    hlooked₂.tree.symm, hdirectory, hschedule⟩

/-- If a run returns, then a second run on the disk that it leaves returns the same and leaves the
    disk as it is. -/
theorem second_run_changes_nothing {report : RunReport} {w' v : World}
    (hload : ((Config.load request.config : Sandbox Config).run.run w).1 = .ok config)
    (hdump : request.dump = false) (hcalm : w.schedule = .calm) (hwell : w.tree.WellFormed)
    (hseparate : Separate w.workingDirectory (touched config.paths.generated.all))
    (hread : ∀ p ∈ [config.path, config.paths.schema, config.paths.consumer],
      ∀ q ∈ touched config.paths.generated.all,
        Location.Apart (Path.location w.workingDirectory p) (Path.location w.workingDirectory q))
    (hfresh : ∀ p ∈ config.paths.generated.all, Fresh w.workingDirectory w.tree p)
    (hrun : (request.perform : Sandbox RunReport).run.run w = (.ok report, w'))
    (htree : v.tree = w'.tree) (hdirectory : v.workingDirectory = w.workingDirectory)
    (hcalm' : v.schedule = .calm) :
    ∃ v', (request.perform : Sandbox RunReport).run.run v = (.ok report, v') ∧
      ∀ place, v'.tree.node? place = v.tree.node? place := by
  obtain ⟨prepared, w₁, w₂, hprepare, rfl, hpaths, hstored, hconclude, htree₂, hdirectory₂,
    hschedule₂⟩ := exists_stored_of_perform hload hdump hwell hseparate hfresh hrun
  rw [← hpaths] at hseparate hread
  rw [← htree] at hstored
  -- The configuration and the dump are as they were, so the same is prepared.
  have halike : Alike [prepared.config.path, prepared.config.paths.schema,
      prepared.config.paths.consumer] w v :=
    { calm := hcalm
      calm' := hcalm'
      workingDirectory := hdirectory
      node?_eq := fun p hp => hstored.node?_eq_of_apart hseparate fun a ha =>
        hread p hp a.path (self_mem_touched (List.mem_map_of_mem ha)) }
  have hsame := same_prepare hload hdump (halike.mono (by simp))
  rcases hprepare' : (request.prepare : Sandbox Prepared).run.run v with ⟨result, v₁⟩
  rw [SameResult, hprepare, hprepare'] at hsame
  obtain rfl : .ok prepared = result := hsame
  obtain ⟨hlooked, -, -⟩ := looked_of_prepare hdump hprepare'
  -- The files are installed once more, and the consumer is as it was.
  have hdirectory₁ := hlooked.workingDirectory.trans hdirectory
  rw [← hdirectory₁] at hseparate hstored
  rw [← hlooked.tree] at hstored
  obtain ⟨places, v₂, hinstall, hdirectory₃, hcalm₃, hkept⟩ :=
    hstored.exists_install hwell (hlooked.schedule.trans hcalm') hseparate
  have halike₂ : Alike [prepared.config.paths.consumer] w₂ v₂ :=
    { calm := hschedule₂.trans hcalm
      calm' := hcalm₃
      workingDirectory := by rw [hdirectory₃, hdirectory₁, hdirectory₂]
      node?_eq := fun p _ => by rw [hkept, hlooked.tree, htree, htree₂] }
  have hreads := reads_conclude prepared
  have hsame₂ := hreads.same w₂ v₂ halike₂
  have hlooked₂ := hreads.looked.run v₂
  rcases hconclude' : (conclude prepared : Sandbox RunReport).run.run v₂ with ⟨result, v'⟩
  rw [SameResult, hconclude, hconclude'] at hsame₂
  obtain rfl : .ok report = result := hsame₂
  rw [hconclude'] at hlooked₂
  refine ⟨v', perform_eq_ok_iff.2 ⟨prepared, v₁, hprepare', places, v₂, hinstall, hconclude'⟩,
    fun place => ?_⟩
  rw [hlooked₂.tree, hkept, hlooked.tree]

end RunRequest

namespace Sample

theorem wellFormed_openHost : openHost.tree.WellFormed :=
  wellFormed_of_keys (by decide +kernel)

theorem apart_openHost : ∀ p ∈ [config₀.path, config₀.paths.schema, config₀.paths.consumer],
    ∀ q ∈ touched config₀.paths.generated.all,
      Location.Apart (Path.location openHost.workingDirectory p)
        (Path.location openHost.workingDirectory q) := by
  decide +kernel

theorem fresh_openHost :
    ∀ p ∈ config₀.paths.generated.all, Fresh openHost.workingDirectory openHost.tree p := by
  decide +kernel

end Sample

/-- A run that has put the dispatchers in the place of the earlier ones can be made again. -/
theorem RunRequest.second_run_changes_nothing_of_earlier : ∃ report w',
    (Sample.request.perform : Sandbox RunReport).run.run Sample.openHost = (.ok report, w') ∧
    ((Config.load Sample.request.config : Sandbox Config).run.run Sample.openHost).1 =
      .ok Sample.config₀ ∧
    Sample.request.dump = false ∧ Sample.openHost.schedule = .calm ∧
    Sample.openHost.tree.WellFormed ∧
    Separate Sample.openHost.workingDirectory (touched Sample.config₀.paths.generated.all) ∧
    ∃ v', (Sample.request.perform : Sandbox RunReport).run.run
        { Sample.openHost with tree := w'.tree } = (.ok report, v') ∧
      ∀ place, v'.tree.node? place = w'.tree.node? place := by
  obtain ⟨hload, report, hreport⟩ := Sample.ended_openHost
  have hcalm := Sample.calm_host "m" "d" "old"
  have hseparate := ((Sample.separate_config₀ "m" "d" "old").of_cons).of_cons.of_cons
  have hrun : (Sample.request.perform : Sandbox RunReport).run.run Sample.openHost =
      (.ok report, ((Sample.request.perform : Sandbox RunReport).run.run Sample.openHost).2) :=
    Prod.ext hreport rfl
  exact ⟨report, _, hrun, hload, rfl, hcalm, Sample.wellFormed_openHost, hseparate,
    second_run_changes_nothing hload rfl hcalm Sample.wellFormed_openHost hseparate
      Sample.apart_openHost Sample.fresh_openHost hrun rfl rfl hcalm⟩

end NodeTagging
