import NodeTagging.Proofs.FileLines

/-!
# Every marker is accounted for

The file of markers declares one marker for each class that can be tagged, and the functions of the
dispatchers handle them in many places. Here the functions are read from the lines of their file,
each with the lines inside of it (`functionsOf`): the entry points, the helpers of each category and
the function for type names. What these lines say is the same inventory: the markers that are
declared are removed, each once, and are the ones that can be inserted, and each member is probed in
one place (`markers_are_accounted_for`).

The statements are read off all lines, also those under gates that are not enabled. The settings of
the target have no line feeds, since what follows one in a comment can declare a marker
(`line_feed_in_command_declares_marker`).
-/

namespace NodeTagging

namespace Taxonomy.Named

variable {t : Taxonomy} {entry : EntryPoints} (named : t.Named entry) (target : Target)

include named

theorem paren_not_mem_entryPoint : ∀ name ∈ entry.names, '(' ∉ name.toList :=
  fun name hname => paren_not_mem_of_identifier (named.entryPoint name hname)

theorem paren_not_mem_categoryId : ∀ id ∈ t.categoryIds, '(' ∉ id.toList :=
  fun id hid => paren_not_mem_of_identifier (named.categoryId id hid)

/-! ### Inside of the functions -/

theorem statementsOf_insideApply :
    statementsOf (ProbeDispatcher.insideApply target (.ofTaxonomy t)) =
      statementsOf (ProbeDispatcher.applyLines target entry (.ofTaxonomy t)) :=
  (ProbeDispatcher.readsAs_applyLines target entry _
    (named.paren_not_mem_entryPoint _ (by simp [EntryPoints.names]))).statements.symm

theorem statementsOf_insideRemove :
    statementsOf (ProbeDispatcher.insideRemove target (.ofTaxonomy t)) =
      statementsOf (ProbeDispatcher.removeLines target entry (.ofTaxonomy t)) :=
  (ProbeDispatcher.readsAs_removeLines target entry _
    (named.paren_not_mem_entryPoint _ (by simp [EntryPoints.names]))).statements.symm

theorem statementsOf_insideFromType :
    statementsOf (NameDispatcher.insideFromType target (.ofTaxonomy t)) =
      statementsOf ((NameDispatcher.ofTaxonomy t).lines target entry) :=
  (NameDispatcher.readsAs_lines target entry _
    (named.paren_not_mem_entryPoint _ (by simp [EntryPoints.names]))).statements.symm

theorem statementsOf_insideApplyHelper {id : String} (hid : id ∈ t.categoryIds) :
    statementsOf (ProbeDispatcher.insideApplyHelper target (ProbeDispatcher.helpersOf t id)) =
      statementsOf (ProbeDispatcher.applyHelperLines target (ProbeDispatcher.helpersOf t id)) :=
  (ProbeDispatcher.readsAs_applyHelperLines target
    (named.paren_not_mem_categoryId id hid)).statements.symm

theorem statementsOf_insideRemoveHelper {id : String} (hid : id ∈ t.categoryIds) :
    statementsOf (ProbeDispatcher.insideRemoveHelper target (ProbeDispatcher.helpersOf t id)) =
      statementsOf (ProbeDispatcher.removeHelperLines target (ProbeDispatcher.helpersOf t id)) :=
  (ProbeDispatcher.readsAs_removeHelperLines target
    (named.paren_not_mem_categoryId id hid)).statements.symm

/-- The functions that add markers say inside of them all that their lines do. -/
theorem statementsOf_adding :
    statementsOf (ProbeDispatcher.insideApply target (.ofTaxonomy t) ++
        t.categoryIds.flatMap fun id =>
          ProbeDispatcher.insideApplyHelper target (ProbeDispatcher.helpersOf t id)) =
      statementsOf (ProbeDispatcher.addingLines target entry (.ofTaxonomy t)) := by
  rw [ProbeDispatcher.addingLines, statementsOf_append, statementsOf_append,
    named.statementsOf_insideApply, statementsOf_flatMap, statementsOf_flatMap,
    List.flatMap_congr fun id hid => named.statementsOf_insideApplyHelper target hid]
  simp only [ProbeDispatcher.ofTaxonomy, List.flatMap_map]

/-- The functions that remove markers say inside of them all that their lines do. -/
theorem statementsOf_removing :
    statementsOf (ProbeDispatcher.insideRemove target (.ofTaxonomy t) ++
        t.categoryIds.flatMap fun id =>
          ProbeDispatcher.insideRemoveHelper target (ProbeDispatcher.helpersOf t id)) =
      statementsOf (ProbeDispatcher.removingLines target entry (.ofTaxonomy t)) := by
  rw [ProbeDispatcher.removingLines, statementsOf_append, statementsOf_append,
    named.statementsOf_insideRemove, statementsOf_flatMap, statementsOf_flatMap,
    List.flatMap_congr fun id hid => named.statementsOf_insideRemoveHelper target hid]
  simp only [ProbeDispatcher.ofTaxonomy, List.flatMap_map]

end Taxonomy.Named

/-- The marker of every class is declared once in the file of markers. In the file with the
    dispatchers, it is removed once by the functions that remove, can be inserted by the functions
    that add, and no other marker can, whether a node is probed or its type name is known. Every
    member is probed in one place: the branch roots in the entry point, and every other member in
    the helper of its category. -/
theorem markers_are_accounted_for {workingDirectory path : String} {document : Json}
    {config : Config} (accepted : Config.ofJson workingDirectory path document = .ok config)
    (unbroken : ∀ s ∈ config.target.settings, Unbroken s) {entries : List ClassEntry}
    (identifiers : ∀ e ∈ entries, Json.NamePattern.identifier.matches? e.name)
    {plan : RunPlan} (made : RunPlan.make (.ofEntries entries) config = .ok plan) :
    let t := plan.taxonomy
    let target := config.target
    let entry := config.entryPoints
    let markers := GeneratedFile.markersText target t
    let dispatcher := GeneratedFile.dispatcherText target entry t
    let roots := t.branches.map (·.root)
    plan.files.map (·.content) =
      [markers, dispatcher, GeneratedFile.classifierText target entry t] ∧
    (t.markers target).Nodup ∧
    (statementsOf (linesOf markers)).filterMap Statement.declared? = t.markers target ∧
    ∃ (apply remove fromType : List String) (adding removing : String → List String),
      functionsOf (linesOf dispatcher) =
        ⟨entry.apply, apply⟩ :: ⟨entry.remove, remove⟩ ::
          (t.categoryIds.flatMap (fun id =>
              [⟨helperFunction "apply" id, adding id⟩,
                ⟨helperFunction "remove" id, removing id⟩]) ++
            [⟨entry.fromType, fromType⟩]) ∧
      ((statementsOf (remove ++ t.categoryIds.flatMap removing)).filterMap
        Statement.removed?).Perm (t.markers target) ∧
      (∀ marker, marker ∈ (statementsOf (apply ++ t.categoryIds.flatMap adding)).filterMap
        Statement.inserted? ↔ marker ∈ t.markers target) ∧
      (∀ marker ∈ (statementsOf fromType).filterMap Statement.inserted?,
        marker ∈ t.markers target) ∧
      (statementsOf apply).filterMap Statement.condition? = roots.map (t.testOf target) ∧
      (∀ id ∈ t.categoryIds, (statementsOf (adding id)).filterMap Statement.condition? =
        (t.othersIn id).map (t.testOf target)) ∧
      (statementsOf (linesOf dispatcher)).filterMap Statement.condition? =
        (roots ++ t.categoryIds.flatMap t.othersIn).map (t.testOf target) ∧
      (roots ++ t.categoryIds.flatMap t.othersIn).Perm t.members := by
  intro t target entry markers dispatcher roots
  have named : t.Named entry := RunPlan.named identifiers made accepted
  obtain ⟨taxonomy, built, rfl⟩ := RunPlan.exists_taxonomy_of_make made
  have wf : t.WellFormed := Taxonomy.wellFormed_of_build (Config.fit_of_ofJson accepted) built
  have hroots : ∀ branch ∈ t.branches, t.categoryOf.get? branch.root = some branch.id :=
    fun branch => Taxonomy.get?_categoryOf_root built
  have hprobed := Taxonomy.probedClasses_eq wf hroots
  let adding (id : String) : List String :=
    ProbeDispatcher.insideApplyHelper target (ProbeDispatcher.helpersOf t id)
  let removing (id : String) : List String :=
    ProbeDispatcher.insideRemoveHelper target (ProbeDispatcher.helpersOf t id)
  have hfunctions :=
    (congrArg functionsOf (wf.linesOf_dispatcherText named unbroken)).trans
      (functionsOf_dispatcherLines target named.paren_not_mem_entryPoint
        named.paren_not_mem_categoryId (List.forall_mem_singleton.2 inner_empty))
  refine ⟨rfl, wf.nodup_markers target, ?_, _, _, _, adding, removing, hfunctions, ?_,
    fun marker => ?_, fun marker hmarker => ?_, ?_, fun id hid => ?_, ?_, ?_⟩
  · rw [(named.leaves_markersText unbroken).statementsOf_eq, Taxonomy.declared_left]
  · rw [named.statementsOf_removing]
    exact wf.perm_removed target entry
  · rw [named.statementsOf_adding]
    exact Taxonomy.mem_inserted_adding_iff target entry wf hroots
  · rw [named.statementsOf_insideFromType] at hmarker
    exact Taxonomy.mem_markers_of_inserted_names target entry wf hmarker
  · rw [named.statementsOf_insideApply]
    exact Taxonomy.conditions_applyLines target entry
  · rw [named.statementsOf_insideApplyHelper target hid, Taxonomy.conditions_applyHelperLines,
      Taxonomy.probedIn_eq wf hroots]
  · rw [(wf.leaves_dispatcherText named unbroken).statementsOf_eq, wf.conditions_left_all, hprobed]
  · rw [← hprobed]
    exact Taxonomy.perm_probedClasses wf hroots

/-- With classes in two categories, the entry point that removes and the helpers remove the markers
    of all classes. -/
theorem markers_are_accounted_for_in_two_categories :
    Config.ofJson "/work" "/work/generator.config.json" Sample.document = .ok Sample.config ∧
      (∀ s ∈ Sample.config.target.settings, Unbroken s) ∧
      (∀ e ∈ Sample.dump, Json.NamePattern.identifier.matches? e.name) ∧
      RunPlan.make (.ofEntries Sample.dump) Sample.config = .ok Sample.plan ∧
      ∃ (remove : List String) (removing : String → List String),
        let functions := functionsOf (linesOf (GeneratedFile.dispatcherText {} {} Sample.taxonomy))
        ⟨"remove_all_markers", remove⟩ ∈ functions ∧
        (∀ id ∈ Sample.taxonomy.categoryIds,
          ⟨helperFunction "remove" id, removing id⟩ ∈ functions) ∧
        ((statementsOf (remove ++ Sample.taxonomy.categoryIds.flatMap removing)).filterMap
          Statement.removed?).Perm
          ["NodeMarker", "AnimatedSprite2DMarker", "ButtonMarker", "CanvasItemMarker",
            "LinkButtonMarker", "OptionButtonMarker", "Sprite2DMarker", "TimerMarker"] := by
  have unbroken : ∀ s ∈ Sample.config.target.settings, Unbroken s := by decide +kernel
  obtain ⟨-, -, -, apply, remove, fromType, adding, removing, hfunctions, hremoved, -⟩ :=
    markers_are_accounted_for Sample.ofJson_document unbroken Sample.identifiers_dump
      Sample.make_dump
  have hmarkers : Sample.plan.taxonomy.markers Sample.config.target =
      ["NodeMarker", "AnimatedSprite2DMarker", "ButtonMarker", "CanvasItemMarker",
        "LinkButtonMarker", "OptionButtonMarker", "Sprite2DMarker", "TimerMarker"] := by
    decide +kernel
  refine ⟨Sample.ofJson_document, unbroken, Sample.identifiers_dump, Sample.make_dump, remove,
    removing, ?_, fun id hid => ?_, hmarkers ▸ hremoved⟩
  · exact hfunctions ▸ List.mem_cons_of_mem _ List.mem_cons_self
  · refine hfunctions ▸ List.mem_cons_of_mem _ (List.mem_cons_of_mem _ ?_)
    exact List.mem_append_left _ (List.mem_flatMap.2 ⟨id, hid, by simp⟩)

/-- What follows a line feed in the command is a line of the file of markers, and it can declare the
    marker of a member, which is declared again among those of the members. -/
theorem line_feed_in_command_declares_marker :
    let target : Target := { regenerateCommand := "make\npub struct ButtonMarker;" }
    let plan := Sample.planOfTarget target
    let markers := GeneratedFile.markersText target plan.taxonomy
    Config.ofJson "/work" "/work/generator.config.json" (Sample.documentOfTarget
        [("regenerateCommand", .string target.regenerateCommand)]) =
          .ok (Sample.configOfTarget target) ∧
      (∀ e ∈ Sample.dumpOfButton, Json.NamePattern.identifier.matches? e.name) ∧
      RunPlan.make (.ofEntries Sample.dumpOfButton) (Sample.configOfTarget target) = .ok plan ∧
      markers ∈ plan.files.map (·.content) ∧
      ¬((statementsOf (linesOf markers)).filterMap Statement.declared?).Nodup := by
  intro target plan markers
  refine ⟨by decide +kernel, Sample.identifiers_dumpOfButton, Sample.make_dumpOfButton target,
    List.mem_cons_self, fun hnodup => ?_⟩
  have hnotice : (statementsOf ((target.noticeLines "//").flatMap linesOf)).filterMap
      Statement.declared? = ["ButtonMarker"] := by
    decide +kernel
  have hmember : "ButtonMarker" ∈ (statementsOf (((Declarations.ofTaxonomy
      plan.taxonomy).members.flatMap (Declarations.memberLines target)).flatMap linesOf)).filterMap
        Statement.declared? := by
    decide +kernel
  have hlines : linesOf markers =
      (Declarations.lines target (.ofTaxonomy plan.taxonomy)).flatMap linesOf ++ [""] :=
    linesOf_fileOfLines (by simp [Declarations.lines])
  rw [hlines, Declarations.lines] at hnodup
  simp only [List.flatMap_append, List.append_assoc, statementsOf_append, List.filterMap_append,
    hnotice, List.singleton_append] at hnodup
  have hthere := List.mem_append_left
    ((statementsOf [""]).filterMap Statement.declared?) hmember
  exact (List.nodup_cons.1 hnodup).1 (List.mem_append_right _ hthere)

end NodeTagging
