import Mathlib.Data.List.Basic
import NodeTagging.Generated.File
import NodeTagging.Proofs.Agreement

/-!
# What the generated files depend on

A taxonomy knows the gate and the binding name of any class, also of one that is not tagged. The
generated files do not make use of that: wherever they ask for a gate or a binding name, it is for a
member. So two taxonomies that have the same members in the same places, and whose gates and binding
names agree on them, have the same files (`Agrees.render`).

One lemma says so of each file: `Agrees.declarations`, `Agrees.probeDispatcher`,
`Agrees.nameDispatcher` and `Agrees.script`.
-/

namespace NodeTagging

namespace Taxonomy

/-- Two taxonomies have the same members in the same places, with the same gates and binding names.
    Those of other classes may differ. -/
structure Agrees (t t' : Taxonomy) : Prop where
  root : t'.root = t.root
  members : t'.members = t.members
  parentOf : t'.parentOf = t.parentOf
  categoryOf : t'.categoryOf = t.categoryOf
  branches : t'.branches = t.branches
  catchAll : t'.catchAll = t.catchAll
  gate? : ∀ c ∈ t.members, t'.gates.gate? c = t.gates.gate? c
  nameInBindings : ∀ c ∈ t.members, t'.nameInBindings c = t.nameInBindings c

namespace Agrees

variable {t t' : Taxonomy} (h : t.Agrees t')

include h

/-! ### Members and their order -/

theorem isTagged (c : String) : t'.isTagged c = t.isTagged c := by
  rw [Taxonomy.isTagged, Taxonomy.isTagged, h.categoryOf]

theorem membersIn (categoryId : String) : t'.membersIn categoryId = t.membersIn categoryId := by
  rw [Taxonomy.membersIn, Taxonomy.membersIn, h.members, h.categoryOf]

theorem taggedAncestors (c : String) : t'.taggedAncestors c = t.taggedAncestors c := by
  rw [Taxonomy.taggedAncestors, Taxonomy.taggedAncestors, h.parentOf, funext h.isTagged]

theorem bySpecificity (classes : List String) :
    t'.bySpecificity classes = t.bySpecificity classes := by
  have hdepth : t'.depth = t.depth := by
    funext c
    rw [depth, depth, h.parentOf]
  rw [Taxonomy.bySpecificity, Taxonomy.bySpecificity, hdepth]

theorem categoryIds : t'.categoryIds = t.categoryIds := by
  rw [Taxonomy.categoryIds, Taxonomy.categoryIds, h.branches, h.catchAll]

/-- Members are gated alike wherever they are listed. -/
theorem map_gated {classes : List String} (hclasses : ∀ c ∈ classes, c ∈ t.members) :
    classes.map t'.gated = classes.map t.gated :=
  List.map_congr_left fun c hc => by
    rw [gated, gated, h.gate? c (hclasses c hc)]

theorem probeOf {c : String} (hc : c ∈ t.members) :
    ProbeDispatcher.probeOf t' c = ProbeDispatcher.probeOf t c := by
  rw [ProbeDispatcher.probeOf, ProbeDispatcher.probeOf, h.nameInBindings c hc]

/-! ### Declarations -/

theorem declarations : Declarations.ofTaxonomy t' = Declarations.ofTaxonomy t := by
  rw [Declarations.ofTaxonomy, Declarations.ofTaxonomy, h.root, h.members,
    h.map_gated fun _ hc => hc]

/-! ### The dispatcher for type names -/

theorem armOf {c : String} (hc : c ∈ t.members) : NameTable.armOf t' c = NameTable.armOf t c := by
  rw [NameTable.armOf, NameTable.armOf, h.gate? c hc, h.taggedAncestors]

theorem nameTable : NameTable.ofTaxonomy t' = NameTable.ofTaxonomy t := by
  rw [NameTable.ofTaxonomy, NameTable.ofTaxonomy, h.root, h.members,
    List.map_congr_left fun _ hc => h.armOf hc]

theorem matchArm {arm : NameArm} (htags : ∀ c ∈ arm.tags, c ∈ t.members) :
    NameDispatcher.matchArm t'.gates arm = NameDispatcher.matchArm t.gates arm := by
  have hinserts : arm.tags.map (NameDispatcher.insertIn t'.gates arm.gate?) =
      arm.tags.map (NameDispatcher.insertIn t.gates arm.gate?) :=
    List.map_congr_left fun c hc => by
      rw [NameDispatcher.insertIn, NameDispatcher.insertIn, h.gate? c (htags c hc)]
  rw [NameDispatcher.matchArm, NameDispatcher.matchArm, hinserts]

theorem nameDispatcher (wf : t.WellFormed) :
    NameDispatcher.ofTaxonomy t' = NameDispatcher.ofTaxonomy t := by
  -- The arm of the root inserts nothing, and that of a member the members of its lineage.
  have htags : ∀ arm ∈ (NameTable.ofTaxonomy t).arms, ∀ c ∈ arm.tags, c ∈ t.members := by
    intro arm harm c hc
    rcases List.mem_cons.1 harm with rfl | harm
    · cases hc
    · obtain ⟨m, hm, rfl⟩ := List.mem_map.1 harm
      exact ((wf.mem_taggedAncestors_append_iff hm).1 hc).1
  rw [NameDispatcher.ofTaxonomy, NameDispatcher.ofTaxonomy, h.nameTable, NameDispatcher.ofTable,
    NameDispatcher.ofTable, List.map_congr_left fun arm harm => h.matchArm (htags arm harm)]

/-! ### The dispatcher for live nodes -/

theorem branchOf (wf : t.WellFormed) {branch : Category} (hbranch : branch ∈ t.branches) :
    ProbeDispatcher.branchOf t' branch = ProbeDispatcher.branchOf t branch := by
  have hroot := wf.root_mem branch hbranch
  rw [ProbeDispatcher.branchOf, ProbeDispatcher.branchOf, h.probeOf hroot, h.taggedAncestors,
    h.map_gated fun c hc => ((wf.mem_taggedAncestors_append_iff hroot).1 hc).1]

theorem probedIn (categoryId : String) :
    ProbeDispatcher.probedIn t' categoryId = ProbeDispatcher.probedIn t categoryId := by
  rw [ProbeDispatcher.probedIn, ProbeDispatcher.probedIn, ProbeDispatcher.branchRoot?,
    ProbeDispatcher.branchRoot?, h.branches, h.membersIn]

theorem membersUnder (categoryId : String) (gate? : Option String) :
    ProbeDispatcher.membersUnder t' categoryId gate? =
      ProbeDispatcher.membersUnder t categoryId gate? := by
  rw [ProbeDispatcher.membersUnder, ProbeDispatcher.membersUnder, h.membersIn]
  exact List.filter_congr fun c hc => by rw [h.gate? c (mem_membersIn_iff.1 hc).1]

theorem tagsOf (categoryId : String) :
    ProbeDispatcher.tagsOf t' categoryId = ProbeDispatcher.tagsOf t categoryId := by
  rw [ProbeDispatcher.tagsOf, ProbeDispatcher.tagsOf, h.membersIn,
    List.filterMap_congr fun c hc => h.gate? c (mem_membersIn_iff.1 hc).1]

theorem helpersOf (categoryId : String) :
    ProbeDispatcher.helpersOf t' categoryId = ProbeDispatcher.helpersOf t categoryId := by
  have hprobes : ∀ c ∈ ProbeDispatcher.probedIn t categoryId,
      (⟨t'.gates.gate? c, ProbeDispatcher.probeOf t' c⟩ : Gated Probe) =
        ⟨t.gates.gate? c, ProbeDispatcher.probeOf t c⟩ := by
    intro c hc
    have hmember := (mem_membersIn_iff.1 (List.mem_filter.1 hc).1).1
    rw [h.gate? c hmember, h.probeOf hmember]
  rw [ProbeDispatcher.helpersOf, ProbeDispatcher.helpersOf, h.probedIn,
    List.map_congr_left hprobes, ProbeDispatcher.removalsOf, ProbeDispatcher.removalsOf,
    h.membersUnder, h.tagsOf, funext fun tag => congrArg (Gated.mk (some tag))
      (h.membersUnder categoryId (some tag))]

theorem probeDispatcher (wf : t.WellFormed) :
    ProbeDispatcher.ofTaxonomy t' = ProbeDispatcher.ofTaxonomy t := by
  rw [ProbeDispatcher.ofTaxonomy, ProbeDispatcher.ofTaxonomy, h.root, h.branches, h.catchAll,
    h.categoryIds, List.map_congr_left fun _ hbranch => h.branchOf wf hbranch,
    funext h.helpersOf]

/-! ### The classifier script -/

theorem testPlan : TestPlan.ofTaxonomy t' = TestPlan.ofTaxonomy t := by
  have hbranch : TestPlan.branchOf t' = TestPlan.branchOf t := by
    funext category
    rw [TestPlan.branchOf, TestPlan.branchOf, h.membersIn, h.bySpecificity]
  rw [TestPlan.ofTaxonomy, TestPlan.ofTaxonomy, h.branches, hbranch, h.catchAll, h.membersIn,
    h.bySpecificity, h.root]

theorem scriptProbe {c : String} (hc : c ∈ t.members) :
    ClassifierScript.probeOf t'.gates c = ClassifierScript.probeOf t.gates c := by
  rw [ClassifierScript.probeOf, ClassifierScript.probeOf, NodeTest.ofClass, NodeTest.ofClass,
    h.gate? c hc]

theorem branchClause (category : Category) :
    ClassifierScript.branchClause t'.gates (TestPlan.branchOf t category) =
      ClassifierScript.branchClause t.gates (TestPlan.branchOf t category) := by
  rw [ClassifierScript.branchClause, ClassifierScript.branchClause, List.map_congr_left]
  intro c hc
  have hin := (List.mem_filter.1 (mem_bySpecificity.1 hc)).1
  exact h.scriptProbe (mem_membersIn_iff.1 hin).1

theorem script : ClassifierScript.ofTaxonomy t' = ClassifierScript.ofTaxonomy t := by
  have hbranches : (TestPlan.ofTaxonomy t).branches.map (ClassifierScript.branchClause t'.gates) =
      (TestPlan.ofTaxonomy t).branches.map (ClassifierScript.branchClause t.gates) := by
    refine List.map_congr_left fun branch hbranch => ?_
    obtain ⟨category, -, rfl⟩ := List.mem_map.1 hbranch
    exact h.branchClause category
  have hdirect : (TestPlan.ofTaxonomy t).direct.map
        (fun c => ScriptClause.direct (ClassifierScript.probeOf t'.gates c)) =
      (TestPlan.ofTaxonomy t).direct.map
        fun c => ScriptClause.direct (ClassifierScript.probeOf t.gates c) :=
    List.map_congr_left fun c hc => congrArg ScriptClause.direct
      (h.scriptProbe (mem_membersIn_iff.1 (mem_bySpecificity.1 hc)).1)
  rw [ClassifierScript.ofTaxonomy, ClassifierScript.ofTaxonomy, h.root, h.testPlan]
  simp only [hbranches, hdirect]

/-! ### The files -/

/-- Taxonomies that agree have the same files. -/
theorem render (wf : t.WellFormed) (target : Target) (entry : EntryPoints) (paths : FilePlaces) :
    GeneratedFile.render target entry t' paths = GeneratedFile.render target entry t paths := by
  simp only [GeneratedFile.render, GeneratedFile.markersText, GeneratedFile.dispatcherText,
    GeneratedFile.dispatcherLines, GeneratedFile.classifierText, h.declarations,
    h.probeDispatcher wf, h.nameDispatcher wf, h.script]

end Agrees

end Taxonomy

end NodeTagging
