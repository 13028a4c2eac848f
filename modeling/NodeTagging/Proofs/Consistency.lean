import NodeTagging.Proofs.FileLines

/-!
# Gates are consistent

The program that the generated files become part of is compiled with some features enabled, and each
file is reduced by itself: the compiler knows no plan, only the lines of the file with their
attributes. Under every set of features the reduced files fit together (`gating_is_consistent`): the
markers that are left in the dispatchers are declared among those that are left, and no class is
asked for whose gate is not enabled.

This takes settings of the target without line feeds. The command that generates the files anew
stands in a comment, and after a line feed in it the comment is over
(`line_feed_in_command_tests_gated_class`).
-/

namespace NodeTagging

/-- Whatever features are enabled, every marker that is left in the file with the dispatchers is
    declared in what is left of the file of markers, and the probes that are left are those of the
    classes whose gates are enabled. The file of the script, which has no features, has no type test
    for a gated class. -/
theorem gating_is_consistent {workingDirectory path : String} {document : Json} {config : Config}
    (accepted : Config.ofJson workingDirectory path document = .ok config)
    (unbroken : ∀ s ∈ config.target.settings, Unbroken s) {entries : List ClassEntry}
    (identifiers : ∀ e ∈ entries, Json.NamePattern.identifier.matches? e.name)
    {plan : RunPlan} (made : RunPlan.make (.ofEntries entries) config = .ok plan)
    (enabled : String → Bool) :
    let t := plan.taxonomy
    let markers := GeneratedFile.markersText config.target t
    let dispatcher := GeneratedFile.dispatcherText config.target config.entryPoints t
    let script := GeneratedFile.classifierText config.target config.entryPoints t
    plan.files.map (·.content) = [markers, dispatcher, script] ∧
    (∀ s ∈ statements enabled (linesOf dispatcher), ∀ marker, s.mentioned? = some marker →
      .declare marker ∈ statements enabled (linesOf markers)) ∧
    (statements enabled (linesOf dispatcher)).filterMap Statement.condition? =
      (t.probedClasses.filter fun c => config.target.enables enabled (t.gates.gate? c)).map
        (fun c => ProbeDispatcher.probeTest config.target (ProbeDispatcher.probeOf t c)) ∧
    ∀ line ∈ linesOf script, ∀ c, classTest? line = some c → t.gates.gate? c = none := by
  intro t markers dispatcher script
  have named : t.Named config.entryPoints := RunPlan.named identifiers made accepted
  obtain ⟨taxonomy, built, rfl⟩ := RunPlan.exists_taxonomy_of_make made
  have wf : t.WellFormed := Taxonomy.wellFormed_of_build (Config.fit_of_ofJson accepted) built
  have hmarkers : statements enabled (linesOf markers) =
      Declarations.left config.target enabled (.ofTaxonomy t) :=
    (named.leaves_markersText unbroken).statements_eq
  have hdispatcher : statements enabled (linesOf dispatcher) =
      ProbeDispatcher.left config.target enabled (.ofTaxonomy t) ++
        NameDispatcher.left config.target enabled (.ofTaxonomy t) :=
    (wf.leaves_dispatcherText named unbroken).statements_eq
  refine ⟨rfl, fun s hs marker hmarker => ?_, ?_, fun line hline c hc => ?_⟩
  · rw [hdispatcher, List.mem_append] at hs
    rw [hmarkers, Taxonomy.mem_declarations_left_iff]
    rcases hs with hs | hs
    · exact wf.mentions_probeDispatcher s hs marker hmarker
    · exact wf.mentions_nameDispatcher s hs marker hmarker
  · rw [hdispatcher, List.filterMap_append, wf.conditions_left, conditions_nameDispatcher,
      List.append_nil]
  · rw [wf.linesOf_classifierText named unbroken] at hline
    rcases List.mem_append.1 hline with hline | hline
    · -- A member is named by an identifier, so its name has no colon in it.
      have hcolon : ∀ c ∈ t.members, ':' ∉ c.toList := fun c hc =>
        colon_not_mem_of_identifier (named.className c (List.mem_cons_of_mem _ hc))
      exact ClassifierScript.gate?_of_mem_lines wf hcolon _ _ hline hc
    · obtain rfl := List.mem_singleton.1 hline
      simp [classTest?, List.isPrefixOf?] at hc

/-- With one of two gates enabled, the marker of the other class is mentioned nowhere, though the
    arm of the class below it is there. -/
theorem gating_is_consistent_above_disabled :
    Config.ofJson "/work" "/work/generator.config.json" Sample.document = .ok Sample.config ∧
      (∀ s ∈ Sample.config.target.settings, Unbroken s) ∧
      (∀ e ∈ Sample.dump, Json.NamePattern.identifier.matches? e.name) ∧
      RunPlan.make (.ofEntries Sample.dump) Sample.config = .ok Sample.plan ∧
      ∀ s ∈ statements (fun feature => feature = "api-4-5")
        (linesOf (GeneratedFile.dispatcherText {} {} Sample.taxonomy)),
        s.mentioned? ≠ some "ButtonMarker" := by
  have unbroken : ∀ s ∈ Sample.config.target.settings, Unbroken s := by decide +kernel
  have named : Sample.plan.taxonomy.Named Sample.config.entryPoints :=
    RunPlan.named Sample.identifiers_dump Sample.make_dump Sample.ofJson_document
  have hconsistent := gating_is_consistent Sample.ofJson_document unbroken Sample.identifiers_dump
    Sample.make_dump fun feature => feature = "api-4-5"
  refine ⟨Sample.ofJson_document, unbroken, Sample.identifiers_dump, Sample.make_dump,
    fun s hs hbutton => ?_⟩
  have hdeclared := hconsistent.2.1 s hs "ButtonMarker" hbutton
  rw [(named.leaves_markersText unbroken).statements_eq] at hdeclared
  revert hdeclared
  decide +kernel

/-- What follows a line feed in the command is a line of the script, and it can be a type test for a
    class under a gate. -/
theorem line_feed_in_command_tests_gated_class :
    let target : Target := { regenerateCommand := "make\n\tif node is Button: return \"Button\"" }
    let plan := Sample.planOfTarget target
    Config.ofJson "/work" "/work/generator.config.json" (Sample.documentOfTarget
        [("regenerateCommand", .string target.regenerateCommand)]) =
          .ok (Sample.configOfTarget target) ∧
      (∀ e ∈ Sample.dumpOfButton, Json.NamePattern.identifier.matches? e.name) ∧
      RunPlan.make (.ofEntries Sample.dumpOfButton) (Sample.configOfTarget target) = .ok plan ∧
      plan.taxonomy.gates.gate? "Button" = some "4-5" ∧
      GeneratedFile.classifierText target {} plan.taxonomy ∈ plan.files.map (·.content) ∧
      ∃ line ∈ linesOf (GeneratedFile.classifierText target {} plan.taxonomy),
        classTest? line = some "Button" := by
  intro target plan
  have hcommand : "\tif node is Button: return \"Button\"" ∈
      linesOf ("# To regenerate: " ++ target.regenerateCommand) := by
    decide +kernel
  have hline : "# To regenerate: " ++ target.regenerateCommand ∈
      (ClassifierScript.ofTaxonomy plan.taxonomy).lines target {} := by
    simp [ClassifierScript.lines, Target.noticeLines]
  refine ⟨by decide +kernel, Sample.identifiers_dumpOfButton, Sample.make_dumpOfButton target,
    by decide +kernel, ?_, "\tif node is Button: return \"Button\"", ?_, by decide⟩
  · exact List.mem_cons_of_mem _ (List.mem_cons_of_mem _ List.mem_cons_self)
  · rw [GeneratedFile.classifierText, linesOf_fileOfLines (by simp [ClassifierScript.lines])]
    exact List.mem_append_left _ (List.mem_flatMap.2 ⟨_, hline, hcommand⟩)

end NodeTagging
