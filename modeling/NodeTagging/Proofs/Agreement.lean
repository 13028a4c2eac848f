import NodeTagging.Generated.ProbeDispatcher
import NodeTagging.Proofs.Classification

/-!
# The two ways to tag a node agree

A node is tagged either by probing it or by the name that the classifier finds for it. Both ways
come to the same markers: those of the root and of the members in the lineage of its class.

* `mem_resolve_iff`: the name of the nearest member stands for the members from there up;
* `mem_inserted_iff`: of the members in a lineage, those from the branch root up are inserted
  with the branch, and those below it, which are in the category of the branch, are probed by its
  helper.
-/

namespace NodeTagging

open Hierarchy

namespace Taxonomy

variable {t : Taxonomy} {c m x : String} {branch : Category}

theorem WellFormed.isTagged_iff (wf : t.WellFormed) : t.isTagged x ↔ x ∈ t.members := by
  rw [isTagged, Table.contains, wf.get?_categoryOf]
  split <;> simp_all

theorem WellFormed.mem_taggedAncestors_iff (wf : t.WellFormed) :
    x ∈ t.taggedAncestors c ↔ x ∈ t.members ∧ x ∈ ancestors t.parentOf c := by
  simp [taggedAncestors, wf.isTagged_iff, and_comm]

/-- The tagged ancestors of a member and the member itself are the members of its lineage. -/
theorem WellFormed.mem_taggedAncestors_append_iff (wf : t.WellFormed) (hm : m ∈ t.members) :
    x ∈ t.taggedAncestors m ++ [m] ↔ x ∈ t.members ∧ x ∈ lineage t.parentOf m := by
  rw [List.mem_append, wf.mem_taggedAncestors_iff, List.mem_singleton, mem_lineage_iff]
  constructor
  · rintro (⟨hx, habove⟩ | rfl)
    · exact ⟨hx, .inr habove⟩
    · exact ⟨hm, .inl rfl⟩
  · rintro ⟨hx, rfl | habove⟩
    · exact .inr rfl
    · exact .inl ⟨hx, habove⟩

/-! ### By name -/

/-- The arm of a name: that of the root, of a member, or none. -/
theorem find?_arms (t : Taxonomy) (name : String) :
    (NameTable.ofTaxonomy t).arms.find? (fun arm => arm.typeName = name) =
      if t.root = name then some ⟨t.root, none, []⟩
      else if name ∈ t.members then some (NameTable.armOf t name)
      else none := by
  have hmembers : (t.members.map (NameTable.armOf t)).find? (fun arm => arm.typeName = name) =
      (t.members.find? fun c => c = name).map (NameTable.armOf t) :=
    List.find?_map
  rw [NameTable.ofTaxonomy, List.find?_cons, hmembers]
  by_cases hroot : t.root = name
  · simp [hroot]
  · by_cases hmember : name ∈ t.members
    · simp [hroot, hmember, find?_eq_self hmember]
    · have hnone : t.members.find? (fun c => c = name) = none :=
        List.find?_eq_none.2 fun c hc heq => hmember (of_decide_eq_true heq ▸ hc)
      simp [hroot, hmember, hnone]

theorem resolve_root : (NameTable.ofTaxonomy t).resolve t.root = [t.root] := by
  rw [NameTable.resolve, find?_arms, if_pos rfl]
  rfl

theorem resolve_of_mem (hroot : t.root ∉ t.members) (hm : m ∈ t.members) :
    (NameTable.ofTaxonomy t).resolve m = t.root :: (t.taggedAncestors m ++ [m]) := by
  have hne : t.root ≠ m := fun h => hroot (h ▸ hm)
  rw [NameTable.resolve, find?_arms, if_neg hne, if_pos hm]
  rfl

theorem WellFormed.resolve_member (wf : t.WellFormed) (hm : m ∈ t.members) :
    (NameTable.ofTaxonomy t).resolve m = t.root :: (t.taggedAncestors m ++ [m]) :=
  resolve_of_mem wf.root_not_mem hm

/-- The name that the classifier finds stands for the root and the members of the lineage. -/
theorem WellFormed.mem_resolve_iff (wf : t.WellFormed) (hc : Grounded t.parentOf c) :
    x ∈ (NameTable.ofTaxonomy t).resolve ((t.nearestMember? c).getD t.root) ↔
      x = t.root ∨ x ∈ t.members ∧ x ∈ lineage t.parentOf c := by
  cases hnear : t.nearestMember? c with
  | none =>
    have hnone : ¬ (x ∈ t.members ∧ x ∈ lineage t.parentOf c) := fun ⟨hx, hlineage⟩ =>
      List.find?_eq_none.1 hnear x hlineage (by simpa using hx)
    rw [Option.getD_none, resolve_root, List.mem_singleton, or_iff_left hnone]
  | some near =>
    have hmember : near ∈ t.members := by simpa using List.find?_some hnear
    rw [Option.getD_some, wf.resolve_member hmember, List.mem_cons,
      wf.mem_taggedAncestors_append_iff hmember]
    refine or_congr_right (and_congr_right fun hx => ⟨fun h => ?_, fun h => ?_⟩)
    · exact hc.lineage_trans (List.mem_of_find?_eq_some hnear) h
    · exact hc.mem_lineage_of_find? hnear h (by simpa using hx)

/-! ### By probing -/

/-- A branch is the first of its name. -/
theorem WellFormed.branchRoot?_branch (wf : t.WellFormed) (h : branch ∈ t.branches) :
    ProbeDispatcher.branchRoot? t branch.id = some branch.root := by
  have hfirst : t.branches.find? (fun category => category.id = branch.id) = some branch :=
    find?_eq_some_of_pairwise wf.apart h (by simp) fun other hother hid _ =>
      wf.eq_of_id_eq hother h (by simpa using hid)
  rw [ProbeDispatcher.branchRoot?, hfirst, Option.map_some]

theorem WellFormed.branchRoot?_catchAll (wf : t.WellFormed) :
    ProbeDispatcher.branchRoot? t t.catchAll = none := by
  have hnone : t.branches.find? (fun category => category.id = t.catchAll) = none :=
    List.find?_eq_none.2 fun other hother hid =>
      wf.id_ne_catchAll other hother (by simpa using hid)
  rw [ProbeDispatcher.branchRoot?, hnone, Option.map_none]

/-- The helper of a category finds the members that it probes. -/
theorem mem_foundIn_iff {id : String} (h : id ∈ t.categoryIds) {l : List String} :
    x ∈ (ProbeDispatcher.ofTaxonomy t).foundIn id l ↔
      x ∈ ProbeDispatcher.probedIn t id ∧ x ∈ l := by
  have hhelper : (ProbeDispatcher.ofTaxonomy t).helpers.find? (fun h => h.categoryId = id) =
      some (ProbeDispatcher.helpersOf t id) :=
    List.find?_map.trans (congrArg (Option.map (ProbeDispatcher.helpersOf t)) (find?_eq_self h))
  simp [ProbeDispatcher.foundIn, hhelper, ProbeDispatcher.helpersOf, ProbeDispatcher.probeOf,
    Function.comp_def]

theorem WellFormed.mem_foundIn_branch_iff (wf : t.WellFormed) (h : branch ∈ t.branches)
    {l : List String} :
    x ∈ (ProbeDispatcher.ofTaxonomy t).foundIn branch.id l ↔
      (x ∈ t.membersIn branch.id ∧ x ≠ branch.root) ∧ x ∈ l := by
  have hid : branch.id ∈ t.categoryIds := List.mem_append_left _ (List.mem_map_of_mem h)
  rw [mem_foundIn_iff hid, ProbeDispatcher.probedIn, wf.branchRoot?_branch h, List.mem_filter,
    decide_eq_true_eq, ne_eq, Option.some.injEq, eq_comm (a := branch.root)]

theorem WellFormed.mem_foundIn_catchAll_iff (wf : t.WellFormed) {l : List String} :
    x ∈ (ProbeDispatcher.ofTaxonomy t).foundIn t.catchAll l ↔
      x ∈ t.membersIn t.catchAll ∧ x ∈ l := by
  have hid : t.catchAll ∈ t.categoryIds := List.mem_append_right _ (List.mem_singleton_self _)
  rw [mem_foundIn_iff hid, ProbeDispatcher.probedIn, wf.branchRoot?_catchAll]
  simp

/-- A member of a lineage that is below the root of the branch of the lineage is in its category. -/
theorem WellFormed.mem_membersIn_branch (wf : t.WellFormed) (hc : Grounded t.parentOf c)
    (hbranch : t.branchIn? (lineage t.parentOf c) = some branch) (hx : x ∈ t.members)
    (hlineage : x ∈ lineage t.parentOf c) (hbelow : branch.root ∈ lineage t.parentOf x) :
    x ∈ t.membersIn branch.id := by
  have hown : t.branchIn? (lineage t.parentOf x) = some branch :=
    find?_eq_some_of_imp hbranch (by simpa using hbelow) fun other _ hother => by
      simpa using hc.lineage_trans hlineage (by simpa using hother)
  rw [mem_membersIn_iff, wf.categoryOf_eq hx, hown]
  exact ⟨hx, rfl⟩

/-- Probing inserts the markers of the root and of the members of the lineage. -/
theorem WellFormed.mem_inserted_iff (wf : t.WellFormed) (hc : Grounded t.parentOf c) :
    x ∈ (ProbeDispatcher.ofTaxonomy t).inserted (lineage t.parentOf c) ↔
      x = t.root ∨ x ∈ t.members ∧ x ∈ lineage t.parentOf c := by
  have hfirst : ((ProbeDispatcher.ofTaxonomy t).branches.find?
        fun b => b.probe.className ∈ lineage t.parentOf c) =
      (t.branchIn? (lineage t.parentOf c)).map (ProbeDispatcher.branchOf t) :=
    List.find?_map
  rw [ProbeDispatcher.inserted, hfirst]
  cases hbranch : t.branchIn? (lineage t.parentOf c) with
  | none =>
    -- Without a branch, only the catch-all is probed, and it holds all members of the lineage.
    simp only [Option.map_none]
    rw [List.mem_cons]
    refine or_congr_right (wf.mem_foundIn_catchAll_iff.trans ⟨fun h => ?_, fun h => ?_⟩)
    · exact ⟨(mem_membersIn_iff.1 h.1).1, h.2⟩
    · exact ⟨wf.mem_membersIn_catchAll hc hbranch h.1 h.2, h.2⟩
  | some branch =>
    obtain ⟨hmem, hroot⟩ := mem_of_branchIn? hbranch
    have hmember := wf.root_mem branch hmem
    have hinserts : ((ProbeDispatcher.branchOf t branch).inserts.map (·.item)) =
        t.taggedAncestors branch.root ++ [branch.root] := by
      simp [ProbeDispatcher.branchOf, Taxonomy.gated, Function.comp_def]
    simp only [Option.map_some]
    rw [hinserts, List.mem_append, List.mem_append, List.mem_cons,
      wf.mem_taggedAncestors_append_iff hmember]
    constructor
    · rintro (((rfl | ⟨hx, habove⟩) | hfound) | hfound)
      · exact .inl rfl
      · exact .inr ⟨hx, hc.lineage_trans hroot habove⟩
      · obtain ⟨⟨hin, -⟩, hlineage⟩ := (wf.mem_foundIn_branch_iff hmem).1 hfound
        exact .inr ⟨(mem_membersIn_iff.1 hin).1, hlineage⟩
      · obtain ⟨hin, hlineage⟩ := wf.mem_foundIn_catchAll_iff.1 hfound
        exact .inr ⟨(mem_membersIn_iff.1 hin).1, hlineage⟩
    · rintro (rfl | ⟨hx, hlineage⟩)
      · exact .inl (.inl (.inl rfl))
      · by_cases habove : x ∈ lineage t.parentOf branch.root
        · exact .inl (.inl (.inr ⟨hx, habove⟩))
        · -- What is not above the branch root in the lineage is below it.
          have hbelow := (hc.comparable hlineage hroot).resolve_left habove
          have hin := wf.mem_membersIn_branch hc hbranch hx hlineage hbelow
          have hne : x ≠ branch.root := by
            rintro rfl
            exact habove (mem_lineage_self _ _)
          exact .inl (.inr ((wf.mem_foundIn_branch_iff hmem).2 ⟨⟨hin, hne⟩, hlineage⟩))

end Taxonomy

/-! ### Under a configuration -/

/-- For every class below the root, tagged or not: the markers that a node of the class receives
    when it is probed are those that it receives by the name that the classifier finds for it. -/
theorem probing_agrees_with_classifying {workingDirectory path : String} {document : Json}
    {config : Config} (accepted : Config.ofJson workingDirectory path document = .ok config)
    {entries : List ClassEntry} {t : Taxonomy}
    (built : Taxonomy.build (.ofEntries entries) config.taxonomy = .ok t) {c : String}
    (hc : c ∈ Taxonomy.subtree (.ofEntries entries) config.taxonomy) (x : String) :
    x ∈ (ProbeDispatcher.ofTaxonomy t).inserted (lineage t.parentOf c) ↔
      x ∈ (NameTable.ofTaxonomy t).resolve
        ((TestPlan.ofTaxonomy t).answer (lineage t.parentOf c)) := by
  have wf := Taxonomy.wellFormed_of_build (Config.fit_of_ofJson accepted) built
  have hgrounded := Taxonomy.grounded_of_build built hc
  rw [wf.answer_eq_nearestMember? hgrounded, wf.mem_inserted_iff hgrounded,
    wf.mem_resolve_iff hgrounded]

/-- A class inside two categories, below an excluded class and below the roots of both. -/
theorem probing_agrees_inside_two_categories :
    Config.ofJson "/work" "/work/generator.config.json" Sample.document = .ok Sample.config ∧
      Taxonomy.build (.ofEntries Sample.dump) Sample.config.taxonomy = .ok Sample.taxonomy ∧
      "AnimatedSprite2D" ∈ Taxonomy.subtree (.ofEntries Sample.dump) Sample.config.taxonomy ∧
      "CanvasItem" ∈ (NameTable.ofTaxonomy Sample.taxonomy).resolve
        ((TestPlan.ofTaxonomy Sample.taxonomy).answer
          (lineage Sample.taxonomy.parentOf "AnimatedSprite2D")) := by
  have hbelow : "AnimatedSprite2D" ∈
      Taxonomy.subtree (.ofEntries Sample.dump) Sample.config.taxonomy := by
    decide +kernel
  refine ⟨Sample.ofJson_document, Sample.build_dump, hbelow, ?_⟩
  refine (probing_agrees_with_classifying Sample.ofJson_document Sample.build_dump hbelow _).1 ?_
  decide +kernel

end NodeTagging
