import NodeTagging.Proofs.ReadingFunctions
import NodeTagging.Proofs.ReadingMatch
import NodeTagging.Proofs.ReadingScript

/-!
# The lines of the generated files

The generated programs are put together line by line, and written as the texts of files. The lines
of these texts are the lines that were put together, if no line has a line feed. Most of what stands
in a line cannot have one: classes are named by identifiers, as in every dump of the engine, and so
are categories, classes in the bindings and entry points in a configuration that was accepted, where
tags have a form of their own (`Taxonomy.Named`). What is left are the settings of the target.

* `RunPlan.named`: the names in a plan are such names;
* `Named.linesOf_markersText`, `WellFormed.linesOf_dispatcherText`,
  `WellFormed.linesOf_classifierText`: if the settings of the target have no line feed, the lines of
  each file are those that it was written from, and the empty one after the last line feed.
-/

namespace NodeTagging

/-! ### Names -/

/-- The names in a taxonomy and those of entry points are identifiers, and no tag of a gate has a
    line feed. -/
structure Taxonomy.Named (t : Taxonomy) (entry : EntryPoints) : Prop where
  className : ∀ c ∈ t.root :: t.members, Json.NamePattern.identifier.matches? c
  categoryId : ∀ id ∈ t.categoryIds, Json.NamePattern.identifier.matches? id
  bindingName : ∀ c name, t.bindingNames.get? c = some name →
    Json.NamePattern.identifier.matches? name
  gateTag : ∀ c tag, t.gates.gate? c = some tag → Unbroken tag
  entryPoint : ∀ name ∈ entry.names, Json.NamePattern.identifier.matches? name

namespace RunPlan

variable {entries : List ClassEntry} {config : Config} {plan : RunPlan}
  (identifiers : ∀ e ∈ entries, Json.NamePattern.identifier.matches? e.name)
  (made : RunPlan.make (.ofEntries entries) config = .ok plan)

include identifiers made

/-- The root and the members are named by entries of the dump. -/
theorem identifier_of_mem {c : String} (hc : c ∈ plan.taxonomy.root :: plan.taxonomy.members) :
    Json.NamePattern.identifier.matches? c := by
  obtain ⟨taxonomy, built, rfl⟩ := exists_taxonomy_of_make made
  obtain ⟨hroot, gates, -, hassembled⟩ := Taxonomy.build_eq_ok_iff.1 built
  simp only [hassembled] at hc
  have hsubtree : c ∈ Taxonomy.subtree (.ofEntries entries) config.taxonomy := by
    rcases List.mem_cons.1 hc with rfl | hc
    · exact Taxonomy.root_mem_subtree
    · exact Taxonomy.mem_subtree_of_mem_selectMembers hc
  obtain ⟨e, he, rfl⟩ := Taxonomy.mem_names_of_mem_subtree hroot hsubtree
  exact identifiers e he

/-- All other names are those of the configuration. -/
theorem named {workingDirectory path : String} {document : Json}
    (accepted : Config.ofJson workingDirectory path document = .ok config) :
    plan.taxonomy.Named config.entryPoints := by
  have spelled := Config.spelled_of_ofJson accepted
  obtain ⟨hcheck, -, hconfig⟩ := Config.eq_of_ofJson accepted
  have hclasses : ∀ c ∈ plan.taxonomy.root :: plan.taxonomy.members,
      Json.NamePattern.identifier.matches? c := fun c => identifier_of_mem identifiers made
  obtain ⟨taxonomy, built, rfl⟩ := exists_taxonomy_of_make made
  refine
    { className := hclasses
      categoryId := fun id hid =>
        identifier_of_categoryId (Taxonomy.categoryId_of_mem_categoryIds spelled built hid)
      bindingName := fun c name hname => ?_
      gateTag := fun c tag => Taxonomy.unbroken_of_gate? spelled built
      entryPoint := spelled.entryPoint }
  obtain ⟨-, gates, -, hassembled⟩ := Taxonomy.build_eq_ok_iff.1 built
  rw [show taxonomy = _ from hassembled, hconfig] at hname
  exact Config.identifier_of_bindingName (Json.Shape.check_eq_nil_iff.1 hcheck) hname

end RunPlan

/-! ### Members -/

namespace Taxonomy

variable {t : Taxonomy}

/-- An arm is that of the root, which inserts nothing, or that of a member. -/
theorem arm_cases {arm : Gated MatchArm} (harm : arm ∈ (NameDispatcher.ofTaxonomy t).arms) :
    arm = ⟨none, ⟨t.root, []⟩⟩ ∨
      ∃ c ∈ t.members, arm = NameDispatcher.matchArm t.gates (NameTable.armOf t c) := by
  obtain ⟨nameArm, hnameArm, rfl⟩ := List.mem_map.1 harm
  rcases List.mem_cons.1 hnameArm with rfl | hnameArm
  · exact .inl rfl
  · obtain ⟨c, hc, rfl⟩ := List.mem_map.1 hnameArm
    exact .inr ⟨c, hc, rfl⟩

/-- The gate of an insertion inside an arm is that of its class, where it is written. -/
theorem gate?_of_insertIn {gates : Gates} {armGate? : Option String} {c tag : String}
    (h : (NameDispatcher.insertIn gates armGate? c).gate? = some tag) :
    gates.gate? c = some tag := by
  rw [NameDispatcher.insertIn] at h
  split at h
  · simp at h
  · exact h

/-- What a clause tests for and answers are members. -/
theorem WellFormed.mem_members_of_clause (wf : t.WellFormed) {clause : ScriptClause}
    (hclause : clause ∈ (ClassifierScript.ofTaxonomy t).clauses) {c : String}
    (hc : c ∈ clause.names) : c ∈ t.members := by
  have hprobe {x : String} (hx : x ∈ t.members)
      (h : c ∈ (ClassifierScript.probeOf t.gates x).names) : c ∈ t.members := by
    rcases List.mem_pair.1 h with rfl | rfl
    · rwa [ClassifierScript.probeOf, ClassifierScript.className_ofClass]
    · exact hx
  rcases List.mem_append.1 hclause with hclause | hclause
  · obtain ⟨b, hb, rfl⟩ := List.mem_map.1 hclause
    obtain ⟨branch, hbranch, rfl⟩ := List.mem_map.1 hb
    rcases List.mem_append.1 hc with hc | hc
    · have hroot : c = branch.root := by
        rcases List.mem_pair.1 hc with rfl | rfl <;> rfl
      rw [hroot]
      exact wf.root_mem branch hbranch
    · obtain ⟨probe, hprobes, hc⟩ := List.mem_flatMap.1 hc
      obtain ⟨x, hx, rfl⟩ := List.mem_map.1 hprobes
      have hmember := (List.mem_filter.1 (mem_bySpecificity.1 hx)).1
      exact hprobe (mem_membersIn_iff.1 hmember).1 hc
  · obtain ⟨x, hx, rfl⟩ := List.mem_map.1 hclause
    exact hprobe (mem_membersIn_iff.1 (mem_bySpecificity.1 hx)).1 hc

end Taxonomy

/-! ### Lines without line feeds -/

namespace Declarations

variable {target : Target} (htarget : ∀ s ∈ target.settings, Unbroken s)

include htarget

theorem unbroken_deriveAttribute : Unbroken (deriveAttribute target) := by
  have htraits : Unbroken (String.intercalate ", " target.markerDerives) :=
    unbroken_intercalate (by decide) fun name hname =>
      htarget name (by simp [Target.settings, hname])
  simp only [deriveAttribute, unbroken_append]
  exact ⟨⟨by decide, htraits⟩, by decide⟩

theorem unbroken_structLine {c : String} (hc : Unbroken c) : Unbroken (structLine target c) := by
  simp only [structLine, unbroken_append]
  exact ⟨⟨by decide, ProbeDispatcher.unbroken_markerOf htarget hc⟩, by decide⟩

theorem unbroken_lines {d : Declarations} (hbase : Unbroken d.base)
    (hmembers : ∀ g ∈ d.members,
      (∀ tag, g.gate? = some tag → Unbroken tag) ∧ Unbroken g.item) :
    ∀ line ∈ lines target d, Unbroken line := by
  have himport : Unbroken target.componentImport := htarget _ (by simp [Target.settings])
  have hderive := unbroken_deriveAttribute htarget
  simp only [lines, memberLines, List.forall_mem_append, List.forall_mem_cons,
    List.forall_mem_flatMap, List.cons_append, unbroken_append]
  refine ⟨⟨Target.unbroken_noticeLines htarget (by decide), ?_⟩, fun g hg => ?_⟩
  · exact ⟨by decide, ⟨⟨by decide, himport⟩, by decide⟩, by decide,
      ⟨⟨by decide, hbase⟩, by decide⟩, hderive, unbroken_structLine htarget hbase, by simp⟩
  · obtain ⟨hgate, hitem⟩ := hmembers g hg
    exact ⟨by decide, Target.unbroken_gateLines htarget hgate, hderive,
      unbroken_structLine htarget hitem, by simp⟩

end Declarations

namespace Taxonomy

variable {t : Taxonomy} {target : Target} {entry : EntryPoints}

namespace Named

variable (named : t.Named entry)

include named

theorem unbroken_className {c : String} (hc : c ∈ t.root :: t.members) : Unbroken c :=
  unbroken_of_identifier (named.className c hc)

theorem unbroken_member {c : String} (hc : c ∈ t.members) : Unbroken c :=
  named.unbroken_className (List.mem_cons_of_mem _ hc)

theorem unbroken_entryPoint : ∀ name ∈ entry.names, Unbroken name :=
  fun name hname => unbroken_of_identifier (named.entryPoint name hname)

theorem unbroken_nameInBindings {c : String} (hc : c ∈ t.members) :
    Unbroken (t.nameInBindings c) := by
  rw [nameInBindings]
  cases hname : t.bindingNames.get? c with
  | none => exact named.unbroken_member hc
  | some name => exact unbroken_of_identifier (named.bindingName c name hname)

variable (htarget : ∀ s ∈ target.settings, Unbroken s)

include htarget

/-- The lines of the file of markers. -/
theorem linesOf_markersText :
    linesOf (GeneratedFile.markersText target t) =
      (Declarations.ofTaxonomy t).lines target ++ [""] := by
  have hlines : ∀ line ∈ (Declarations.ofTaxonomy t).lines target, Unbroken line :=
    Declarations.unbroken_lines htarget (named.unbroken_className List.mem_cons_self)
      (List.forall_mem_map.2 fun c hc => ⟨named.gateTag c, named.unbroken_member hc⟩)
  rw [GeneratedFile.markersText, linesOf_fileOfLines (by simp [Declarations.lines]),
    flatMap_linesOf hlines]

theorem leaves_markersText {enabled : String → Bool} :
    Leaves enabled (linesOf (GeneratedFile.markersText target t))
      (Declarations.left target enabled (.ofTaxonomy t)) := by
  rw [named.linesOf_markersText htarget, ← List.append_nil (Declarations.left _ _ _)]
  exact (Declarations.leaves_lines target _).append .blank

end Named

namespace WellFormed

variable (wf : t.WellFormed) (named : t.Named entry)

include wf named

/-- The names in the dispatcher for live nodes are those of its taxonomy. -/
theorem namesUnbroken : (ProbeDispatcher.ofTaxonomy t).NamesUnbroken := by
  have hid : ∀ id ∈ t.categoryIds, Unbroken id := fun id hid =>
    unbroken_of_identifier (named.categoryId id hid)
  refine
    { base := named.unbroken_className List.mem_cons_self
      catchAll := hid _ (List.mem_append_right _ List.mem_cons_self)
      branch := List.forall_mem_map.2 fun branch hbranch =>
        ⟨named.unbroken_nameInBindings (wf.root_mem _ hbranch),
          hid _ (List.mem_append_left _ (List.mem_map_of_mem hbranch)),
          List.forall_mem_map.2 fun c hc => ⟨named.gateTag c,
            named.unbroken_member (wf.mem_members_of_tagged (wf.root_mem _ hbranch) hc)⟩⟩
      helper := List.forall_mem_map.2 fun id hmem => ⟨hid id hmem,
        List.forall_mem_map.2 fun c hc => ?_, fun chain hchain => ?_⟩ }
  · have hc := (mem_membersIn_iff.1 (List.mem_filter.1 hc).1).1
    exact ⟨named.gateTag c, named.unbroken_member hc, named.unbroken_nameInBindings hc⟩
  · obtain ⟨hitem, hne⟩ := mem_removalsOf hchain
    obtain ⟨first, hfirst⟩ := List.exists_mem_of_ne_nil _ hne
    rw [hitem] at hfirst ⊢
    have hgate := (mem_membersUnder_iff.1 hfirst).2
    exact ⟨fun tag htag => named.gateTag first tag (hgate.trans htag), fun c hc =>
      named.unbroken_member (mem_membersIn_iff.1 (mem_membersUnder_iff.1 hc).1).1⟩

variable (htarget : ∀ s ∈ target.settings, Unbroken s)

include htarget

theorem unbroken_nameDispatcher :
    ∀ line ∈ (NameDispatcher.ofTaxonomy t).lines target entry, Unbroken line := by
  refine NameDispatcher.unbroken_lines htarget
    (named.unbroken_entryPoint _ (by simp [EntryPoints.names]))
    (named.unbroken_className List.mem_cons_self) fun arm harm => ?_
  rcases arm_cases harm with rfl | ⟨c, hc, rfl⟩
  · simp
  · refine ⟨named.gateTag c, List.forall_mem_map.2 fun x hx => ?_⟩
    exact ⟨fun tag htag => named.gateTag x tag (gate?_of_insertIn htag),
      named.unbroken_member (wf.mem_members_of_tagged hc hx)⟩

theorem unbroken_script :
    ∀ line ∈ (ClassifierScript.ofTaxonomy t).lines target entry, Unbroken line :=
  ClassifierScript.unbroken_lines htarget named.unbroken_entryPoint
    (named.unbroken_className List.mem_cons_self) fun _ hclause _ hc =>
      named.unbroken_member (wf.mem_members_of_clause hclause hc)

theorem unbroken_dispatcherLines :
    ∀ line ∈ GeneratedFile.dispatcherLines target entry t, Unbroken line := by
  have hcommands : Unbroken target.commandsImport := htarget _ (by simp [Target.settings])
  have hhandle : Unbroken target.handleImport := htarget _ (by simp [Target.settings])
  simp only [GeneratedFile.dispatcherLines, List.forall_mem_append, List.forall_mem_cons,
    unbroken_append]
  refine ⟨⟨⟨⟨Target.unbroken_noticeLines htarget (by decide), ?_⟩, ?_⟩, by decide⟩,
    unbroken_nameDispatcher wf named htarget⟩
  · exact ⟨by decide, ⟨⟨by decide, hcommands⟩, by decide⟩, ⟨⟨by decide, hhandle⟩, by decide⟩,
      by decide, by simp⟩
  · exact ProbeDispatcher.unbroken_lines htarget named.unbroken_entryPoint (namesUnbroken wf named)

/-- The lines of the file with both dispatchers. -/
theorem linesOf_dispatcherText :
    linesOf (GeneratedFile.dispatcherText target entry t) =
      GeneratedFile.dispatcherLines target entry t ++ [""] := by
  rw [GeneratedFile.dispatcherText, linesOf_fileOfLines (by simp [GeneratedFile.dispatcherLines]),
    flatMap_linesOf (unbroken_dispatcherLines wf named htarget)]

theorem leaves_dispatcherText {enabled : String → Bool} :
    Leaves enabled (linesOf (GeneratedFile.dispatcherText target entry t))
      (ProbeDispatcher.left target enabled (.ofTaxonomy t) ++
        NameDispatcher.left target enabled (.ofTaxonomy t)) := by
  rw [wf.linesOf_dispatcherText named htarget,
    ← List.append_nil (ProbeDispatcher.left _ _ _ ++ NameDispatcher.left _ _ _)]
  exact (leaves_dispatcherLines entry).append .blank

/-- The lines of the file of the script. -/
theorem linesOf_classifierText :
    linesOf (GeneratedFile.classifierText target entry t) =
      (ClassifierScript.ofTaxonomy t).lines target entry ++ [""] := by
  rw [GeneratedFile.classifierText, linesOf_fileOfLines (by simp [ClassifierScript.lines]),
    flatMap_linesOf (unbroken_script wf named htarget)]

/-- The lines of the dispatcher for type names, which ends without a line feed. -/
theorem linesOf_nameDispatcherText :
    linesOf (GeneratedFile.nameDispatcherText target entry t) =
      (NameDispatcher.ofTaxonomy t).lines target entry := by
  rw [GeneratedFile.nameDispatcherText, linesOf_unlines (by simp [NameDispatcher.lines]),
    flatMap_linesOf (unbroken_nameDispatcher wf named htarget)]

end WellFormed

end Taxonomy

/-! ### Settings with line feeds -/

namespace Sample

/-- A configuration that puts buttons under a gate and has settings of the target. -/
def documentOfTarget (settings : List (String × Json)) : Json :=
  .object
    [("paths", .object
      [("schema", .string "api.json"), ("markers", .string "markers.rs"),
        ("dispatcher", .string "dispatcher.rs"), ("classifier", .string "classifier.gd"),
        ("consumer", .string "main.rs")]),
      ("versionGates", .object [("4-5", .array [.string "Button"])]),
      ("target", .object settings)]

/-- What such a document says. -/
def configOfTarget (target : Target) : Config :=
  { config with taxonomy := { gateTable := .ofList [("4-5", ["Button"])] }, target := target }

/-- A node and a button. -/
def dumpOfButton : List ClassEntry :=
  [⟨"Node", none⟩, ⟨"Button", some "Node"⟩]

/-- Their taxonomy. -/
def taxonomyOfButton : Taxonomy :=
  Taxonomy.assemble (.ofEntries dumpOfButton) (configOfTarget {}).taxonomy
    ⟨.ofList [("Button", "4-5")]⟩

theorem identifiers_dumpOfButton :
    ∀ e ∈ dumpOfButton, Json.NamePattern.identifier.matches? e.name := by
  decide +kernel

theorem build_dumpOfButton :
    Taxonomy.build (.ofEntries dumpOfButton) (configOfTarget {}).taxonomy =
      .ok taxonomyOfButton := by
  decide +kernel

/-- The plan under settings of the target. -/
def planOfTarget (target : Target) : RunPlan where
  taxonomy := taxonomyOfButton
  files := GeneratedFile.render target {} taxonomyOfButton config.paths.generated
  warnings := taxonomyOfButton.audit

theorem make_dumpOfButton (target : Target) :
    RunPlan.make (.ofEntries dumpOfButton) (configOfTarget target) = .ok (planOfTarget target) :=
  RunPlan.make_of_build build_dumpOfButton

end Sample

end NodeTagging
