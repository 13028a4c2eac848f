import NodeTagging.Proofs.ReadingBack

/-!
# Type names and features

A node whose type name is known receives the markers that the match on type names gives it, under
the features that are enabled. The match is read from the lines of the text that the dispatcher for
type names is written as. If the gate of a member is enabled, its name receives all markers that it
resolves to and that need no feature or one that is enabled. If not, the arm is deleted as a whole,
also with the markers in it that need no feature (`type_name_receives_enabled_tags`).

Such an arm is one reason why a name does not receive all enabled markers that it resolves to.
Another is a line feed in a setting of the target, since what follows it can be an arm
(`gated_arm_or_line_feed_drops_marker`).
-/

namespace NodeTagging

/-- From the match that is left under a set of features, the name of a member receives the marker of
    the root and, if its own gate is enabled, the markers of those classes that it resolves to
    whose gates are enabled, in the same order. -/
theorem type_name_receives_enabled_tags {workingDirectory path : String} {document : Json}
    {config : Config} (accepted : Config.ofJson workingDirectory path document = .ok config)
    (unbroken : ∀ s ∈ config.target.settings, Unbroken s) {entries : List ClassEntry}
    (identifiers : ∀ e ∈ entries, Json.NamePattern.identifier.matches? e.name)
    {plan : RunPlan} (made : RunPlan.make (.ofEntries entries) config = .ok plan)
    (enabled : String → Bool) {c : String} (hc : c ∈ plan.taxonomy.members) :
    let t := plan.taxonomy
    let target := config.target
    let dispatcher := GeneratedFile.nameDispatcherText target config.entryPoints t
    (∃ before, before ++ (dispatcher ++ "\n") ∈ plan.files.map (·.content)) ∧
    ∃ tags, (NameTable.ofTaxonomy t).resolve c = t.root :: tags ∧
      insertedFor (compiled enabled (linesOf dispatcher)) c = target.markerOf t.root ::
        if target.enables enabled (t.gates.gate? c) then
          (tags.filter fun x => target.enables enabled (t.gates.gate? x)).map target.markerOf
        else [] := by
  intro t target dispatcher
  have named : t.Named config.entryPoints := RunPlan.named identifiers made accepted
  have hplain : ∀ x ∈ t.root :: t.members, Text.quoted x = "\"" ++ x ++ "\"" :=
    fun x hx => quoted_of_identifier (named.className x hx)
  obtain ⟨taxonomy, built, rfl⟩ := RunPlan.exists_taxonomy_of_make made
  have wf : t.WellFormed := Taxonomy.wellFormed_of_build (Config.fit_of_ofJson accepted) built
  obtain ⟨before, hbefore⟩ := exists_dispatcherText_eq target config.entryPoints t
  refine ⟨⟨before, ?_⟩, _, wf.resolve_member hc, ?_⟩
  · rw [← hbefore]
    exact List.mem_cons_of_mem _ List.mem_cons_self
  · rw [wf.linesOf_nameDispatcherText named unbroken]
    exact wf.insertedFor_member target config.entryPoints hplain hc

/-- With the gate of a button enabled but not that of the button above it, its name receives the
    marker of the button below and those that no gate stands before. -/
theorem type_name_receives_enabled_tags_of_link_button :
    Config.ofJson "/work" "/work/generator.config.json" Sample.document = .ok Sample.config ∧
      (∀ s ∈ Sample.config.target.settings, Unbroken s) ∧
      (∀ e ∈ Sample.dump, Json.NamePattern.identifier.matches? e.name) ∧
      RunPlan.make (.ofEntries Sample.dump) Sample.config = .ok Sample.plan ∧
      "LinkButton" ∈ Sample.taxonomy.members ∧
      insertedFor (compiled (fun feature => feature = "api-4-5")
        (linesOf (GeneratedFile.nameDispatcherText {} {} Sample.taxonomy))) "LinkButton" =
          ["NodeMarker", "CanvasItemMarker", "LinkButtonMarker"] := by
  have unbroken : ∀ s ∈ Sample.config.target.settings, Unbroken s := by decide +kernel
  have hmember : "LinkButton" ∈ Sample.plan.taxonomy.members := by decide +kernel
  obtain ⟨-, tags, hresolve, hinserted⟩ := type_name_receives_enabled_tags Sample.ofJson_document
    unbroken Sample.identifiers_dump Sample.make_dump (fun feature => feature = "api-4-5") hmember
  refine ⟨Sample.ofJson_document, unbroken, Sample.identifiers_dump, Sample.make_dump, hmember,
    hinserted.trans ?_⟩
  obtain rfl : ["CanvasItem", "Button", "LinkButton"] = tags := by
    have hsample : (NameTable.ofTaxonomy Sample.plan.taxonomy).resolve "LinkButton" =
        "Node" :: ["CanvasItem", "Button", "LinkButton"] := by decide +kernel
    exact (List.cons.inj (hsample.symm.trans hresolve)).2
  decide +kernel

/-- If only the lines of the arms have line feeds, only these are read as other lines. -/
theorem linesOf_nameDispatcherText_of_beforeMatch {target : Target} {entry : EntryPoints}
    {t : Taxonomy} (hbefore : ∀ line ∈ NameDispatcher.headLines entry ++
      [indent 1 (target.insertStatement t.root), ""], Unbroken line) :
    linesOf (GeneratedFile.nameDispatcherText target entry t) =
      NameDispatcher.headLines entry ++ [indent 1 (target.insertStatement t.root), ""] ++
        matchLine :: ((NameDispatcher.ofTaxonomy t).arms.flatMap
          (NameDispatcher.armLines target) ++
            [indent 2 "_ => \x7b\x7d", indent 1 "\x7d", "\x7d"]).flatMap linesOf := by
  have hmatch : linesOf matchLine = [matchLine] := linesOf_of_unbroken (by decide)
  rw [GeneratedFile.nameDispatcherText, linesOf_unlines (by simp [NameDispatcher.lines]),
    NameDispatcher.lines_eq, List.flatMap_append, ← matchLine, List.flatMap_cons, hmatch,
    show (NameDispatcher.ofTaxonomy t).base = t.root from rfl, flatMap_linesOf hbefore,
    List.singleton_append]

/-- With no feature enabled, the name of a gated button resolves to a class without a gate and yet
    does not receive its marker. With all features enabled, but a feature prefix that has an arm
    between line feeds, the name of a button does not receive its own. -/
theorem gated_arm_or_line_feed_drops_marker :
    (Config.ofJson "/work" "/work/generator.config.json" Sample.document = .ok Sample.config ∧
      (∀ e ∈ Sample.dump, Json.NamePattern.identifier.matches? e.name) ∧
      RunPlan.make (.ofEntries Sample.dump) Sample.config = .ok Sample.plan ∧
      "LinkButton" ∈ Sample.taxonomy.members ∧
      insertedFor (compiled (fun _ => false)
        (linesOf (GeneratedFile.nameDispatcherText {} {} Sample.taxonomy))) "LinkButton" ≠
        "NodeMarker" :: ((((NameTable.ofTaxonomy Sample.taxonomy).resolve "LinkButton").tail.filter
          fun x => Target.enables {} (fun _ => false) (Sample.taxonomy.gates.gate? x)).map
            (Target.markerOf {}))) ∧
    let target : Target :=
      { gateFeaturePrefix := "a\")]\n        \"Button\" => \x7b\x7d\n#[cfg(feature = \"" }
    let plan := Sample.planOfTarget target
    let t := plan.taxonomy
    Config.ofJson "/work" "/work/generator.config.json" (Sample.documentOfTarget
        [("gateFeaturePrefix", .string target.gateFeaturePrefix)]) =
          .ok (Sample.configOfTarget target) ∧
      (∀ e ∈ Sample.dumpOfButton, Json.NamePattern.identifier.matches? e.name) ∧
      RunPlan.make (.ofEntries Sample.dumpOfButton) (Sample.configOfTarget target) = .ok plan ∧
      "Button" ∈ t.members ∧
      insertedFor (compiled (fun _ => true)
        (linesOf (GeneratedFile.nameDispatcherText target {} t))) "Button" ≠
        "NodeMarker" :: ((((NameTable.ofTaxonomy t).resolve "Button").tail.filter
          fun x => target.enables (fun _ => true) (t.gates.gate? x)).map target.markerOf) := by
  refine ⟨?_, ?_⟩
  · have unbroken : ∀ s ∈ Target.settings {}, Unbroken s := by decide +kernel
    have wf : Sample.taxonomy.WellFormed :=
      Taxonomy.wellFormed_of_build (Config.fit_of_ofJson Sample.ofJson_document) Sample.build_dump
    have named : Sample.taxonomy.Named {} :=
      RunPlan.named Sample.identifiers_dump Sample.make_dump Sample.ofJson_document
    have hplain : ∀ c ∈ Sample.taxonomy.root :: Sample.taxonomy.members,
        Text.quoted c = "\"" ++ c ++ "\"" :=
      fun c hc => quoted_of_identifier (named.className c hc)
    have hmember : "LinkButton" ∈ Sample.taxonomy.members := by decide +kernel
    refine ⟨Sample.ofJson_document, Sample.identifiers_dump, Sample.make_dump, hmember, ?_⟩
    -- The gate of the arm is not enabled, so only the marker of the root is left.
    rw [wf.linesOf_nameDispatcherText named unbroken, wf.insertedFor_member {} {} hplain hmember]
    decide +kernel
  · intro target plan t
    have hbefore : ∀ line ∈ NameDispatcher.headLines {} ++
        [indent 1 (target.insertStatement t.root), ""], Unbroken line := by
      decide +kernel
    refine ⟨by decide +kernel, Sample.identifiers_dumpOfButton, Sample.make_dumpOfButton target,
      by decide +kernel, ?_⟩
    rw [compiled_all, linesOf_nameDispatcherText_of_beforeMatch hbefore,
      NameDispatcher.insertedFor_afterMatch]
    decide +kernel

end NodeTagging
