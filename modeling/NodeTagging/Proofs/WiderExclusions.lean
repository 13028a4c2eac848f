import NodeTagging.Proofs.Classification

/-!
# Excluding more classes

A class that is excluded stays in the hierarchy: the classes below it keep their ancestors, their
depth and their category. So wider tables of exclusions only delete. The classes that they take from
the members vanish from the table of type names and from the tests of the classifier, and all that
is left keeps its order (`excluding_only_deletes`).

This needs the roots of the categories to be kept. A category whose root is excluded has no branch,
and its members go to other categories.

* `Taxonomy.Thinned`: one taxonomy is another one without some of its members;
* `NameTable.without`, `TestPlan.without`: what it makes of the table and of the plan
  (`Thinned.nameTable`, `Thinned.testPlan`);
* `thinned_assemble`: wider tables of exclusions thin out a taxonomy.
-/

namespace NodeTagging

open Hierarchy

/-! ### Deleting classes -/

/-- The table without the arms of some classes, and without their markers in the other arms. -/
def NameTable.without (table : NameTable) (classes : List String) : NameTable :=
  { table with
    arms := (table.arms.filter fun arm => arm.typeName ∉ classes).map fun arm =>
      { arm with tags := arm.tags.filter fun c => c ∉ classes } }

/-- The plan without the tests for some classes. -/
def TestPlan.without (plan : TestPlan) (classes : List String) : TestPlan :=
  { plan with
    branches := plan.branches.map fun branch =>
      { branch with probes := branch.probes.filter fun c => c ∉ classes }
    direct := plan.direct.filter fun c => c ∉ classes }

namespace Taxonomy

/-- The second taxonomy is the first one without some of its members. The hierarchy is the same. -/
structure Thinned (t t' : Taxonomy) (classes : List String) : Prop where
  root : t'.root = t.root
  parentOf : t'.parentOf = t.parentOf
  members : t'.members = t.members.filter fun c => c ∉ classes
  categoryOf : ∀ c, t'.categoryOf.get? c = if c ∈ classes then none else t.categoryOf.get? c
  branches : t'.branches = t.branches
  catchAll : t'.catchAll = t.catchAll
  gates : t'.gates = t.gates
  /-- The root receives a marker all the same. -/
  root_not_mem : t.root ∉ classes

namespace Thinned

variable {t t' : Taxonomy} {classes : List String} (h : t.Thinned t' classes)

include h

/-! ### The table of type names -/

theorem isTagged (c : String) : t'.isTagged c = (decide (c ∉ classes) && t.isTagged c) := by
  rw [Taxonomy.isTagged, Taxonomy.isTagged, Table.contains, Table.contains, h.categoryOf]
  by_cases hc : c ∈ classes
  · simp [hc]
  · simp [hc]

theorem taggedAncestors (c : String) :
    t'.taggedAncestors c = (t.taggedAncestors c).filter fun a => a ∉ classes := by
  rw [Taxonomy.taggedAncestors, Taxonomy.taggedAncestors, h.parentOf, List.filter_reverse,
    List.filter_filter, funext h.isTagged]

theorem armOf {c : String} (hc : c ∉ classes) :
    NameTable.armOf t' c =
      { NameTable.armOf t c with
        tags := (NameTable.armOf t c).tags.filter fun a => a ∉ classes } := by
  have hself : [c].filter (fun a => a ∉ classes) = [c] :=
    List.filter_cons_of_pos (decide_eq_true hc)
  rw [NameTable.armOf, NameTable.armOf, h.gates, h.taggedAncestors, List.filter_append, hself]

theorem nameTable :
    NameTable.ofTaxonomy t' = (NameTable.ofTaxonomy t).without classes := by
  -- The arm of the root stays, and has no markers to lose.
  have hroot : (NameTable.ofTaxonomy t).arms.filter (fun arm => arm.typeName ∉ classes) =
      ⟨t.root, none, []⟩ ::
        (t.members.map (NameTable.armOf t)).filter fun arm => arm.typeName ∉ classes :=
    List.filter_cons_of_pos (decide_eq_true h.root_not_mem)
  have hmembers : t'.members.map (NameTable.armOf t') =
      ((t.members.map (NameTable.armOf t)).filter fun arm => arm.typeName ∉ classes).map fun arm =>
        { arm with tags := arm.tags.filter fun c => c ∉ classes } := by
    rw [h.members, List.filter_map, List.map_map]
    refine List.map_congr_left fun c hc => h.armOf ?_
    exact of_decide_eq_true (List.mem_filter.1 hc).2
  rw [NameTable.without, hroot, List.map_cons, ← hmembers, NameTable.ofTaxonomy, h.root]
  rfl

/-! ### The tests of the classifier -/

theorem membersIn (id : String) :
    t'.membersIn id = (t.membersIn id).filter fun c => c ∉ classes := by
  rw [Taxonomy.membersIn, Taxonomy.membersIn, h.members, List.filter_filter, List.filter_filter]
  refine List.filter_congr fun c _ => ?_
  rw [h.categoryOf]
  by_cases hc : c ∈ classes
  · simp [hc]
  · simp [hc]

/-- No class has changed its depth, so that those that are left keep their order. -/
theorem bySpecificity_filter (names : List String) :
    t'.bySpecificity (names.filter fun c => c ∉ classes) =
      (t.bySpecificity names).filter fun c => c ∉ classes := by
  have hdepth : t'.depth = t.depth := by
    funext c
    rw [depth, depth, h.parentOf]
  rw [filter_bySpecificity, bySpecificity, bySpecificity, hdepth]

theorem branchOf (category : Category) :
    TestPlan.branchOf t' category =
      { TestPlan.branchOf t category with
        probes := (TestPlan.branchOf t category).probes.filter fun c => c ∉ classes } := by
  have hprobes : (t'.membersIn category.id).filter (fun c => c ≠ category.root) =
      ((t.membersIn category.id).filter fun c => c ≠ category.root).filter
        fun c => c ∉ classes := by
    rw [h.membersIn, List.filter_filter, List.filter_filter]
    exact List.filter_congr fun c _ => Bool.and_comm _ _
  rw [TestPlan.branchOf, hprobes, h.bySpecificity_filter]
  rfl

theorem testPlan :
    TestPlan.ofTaxonomy t' = (TestPlan.ofTaxonomy t).without classes := by
  have hbranches : t.branches.map (TestPlan.branchOf t') =
      (t.branches.map (TestPlan.branchOf t)).map fun branch =>
        { branch with probes := branch.probes.filter fun c => c ∉ classes } := by
    rw [List.map_map]
    exact List.map_congr_left fun category _ => h.branchOf category
  rw [TestPlan.ofTaxonomy, TestPlan.ofTaxonomy, TestPlan.without, h.branches, h.catchAll, h.root,
    hbranches, h.membersIn, h.bySpecificity_filter]

end Thinned

end Taxonomy

/-! ### Wider tables -/

/-- The tables exclude no more than others do. -/
structure Exclusions.Within (x x' : Exclusions) : Prop where
  prefixes : x.prefixes ⊆ x'.prefixes
  names : x.names ⊆ x'.names
  unavailable : x.unavailable ⊆ x'.unavailable

theorem Exclusions.Within.ground?_eq_none {x x' : Exclusions} (h : x.Within x') {c : String}
    (hkept : x'.ground? c = none) : x.ground? c = none := by
  rw [ground?_eq_none_iff] at hkept ⊢
  obtain ⟨hprefixes, hname, hunavailable⟩ := hkept
  exact ⟨fun p hp => hprefixes p (h.prefixes hp), fun hc => hname (h.names hc),
    fun hc => hunavailable (h.unavailable hc)⟩

namespace Taxonomy

/-- The members that tables of exclusions take away. -/
def excludedBy (t : Taxonomy) (exclusions : Exclusions) : List String :=
  t.members.filter fun c => exclusions.ground? c ≠ none

section Widened

variable {graph : Inheritance} {rules : TaxonomyRules} {exclusions : Exclusions} {gates : Gates}
  (wider : rules.exclusions.Within exclusions)

include wider

/-- The members under wider tables are those that are not taken away. -/
theorem mem_selectMembers_widened_iff {c : String} :
    c ∈ selectMembers graph { rules with exclusions := exclusions } ↔
      c ∈ selectMembers graph rules ∧
        c ∉ (assemble graph rules gates).excludedBy exclusions := by
  have hexcluded : c ∈ (assemble graph rules gates).excludedBy exclusions ↔
      c ∈ selectMembers graph rules ∧ exclusions.ground? c ≠ none := by
    rw [excludedBy, List.mem_filter, decide_eq_true_eq]
    rfl
  rw [hexcluded, mem_selectMembers_iff, mem_selectMembers_iff]
  constructor
  · rintro ⟨hc, hkept, hroot⟩
    exact ⟨⟨hc, wider.ground?_eq_none hkept, hroot⟩, fun h => h.2 hkept⟩
  · rintro ⟨hmember, hkept⟩
    exact ⟨hmember.1, not_not.1 fun hground => hkept ⟨hmember, hground⟩, hmember.2.2⟩

variable (keeps : ∀ category ∈ rules.categories,
  category.root ∉ (assemble graph rules gates).excludedBy exclusions)

include keeps

/-- No category loses its root. -/
theorem eligibleCategories_widened :
    eligibleCategories graph { rules with exclusions := exclusions } =
      eligibleCategories graph rules := by
  refine List.filter_congr fun category hcategory => decide_eq_decide.2 ?_
  rw [mem_selectMembers_widened_iff wider, and_iff_left (keeps category hcategory)]

theorem get?_assignCategories_widened (c : String) :
    (assignCategories graph { rules with exclusions := exclusions }).get? c =
      if c ∈ (assemble graph rules gates).excludedBy exclusions then none
      else (assignCategories graph rules).get? c := by
  have hmember : c ∈ selectMembers graph { rules with exclusions := exclusions } ↔
      c ∈ selectMembers graph rules ∧ c ∉ (assemble graph rules gates).excludedBy exclusions :=
    mem_selectMembers_widened_iff wider
  rw [get?_assignCategories, get?_assignCategories, eligibleCategories_widened wider keeps]
  simp only [hmember]
  by_cases hkept : c ∈ (assemble graph rules gates).excludedBy exclusions
  · simp [hkept]
  · simp only [hkept, not_false_eq_true, and_true, if_false]
    rfl

/-- Tables that exclude more classes, but no root of a category, thin out the taxonomy. -/
theorem thinned_assemble :
    (assemble graph rules gates).Thinned
      (assemble graph { rules with exclusions := exclusions } gates)
      ((assemble graph rules gates).excludedBy exclusions) where
  root := rfl
  parentOf := rfl
  members := by
    refine List.Pairwise.eq_of_mem_iff (Text.pairwise_ordered _)
      ((Text.pairwise_ordered _).filter _) fun c => ?_
    rw [List.mem_filter, decide_eq_true_eq]
    exact mem_selectMembers_widened_iff wider
  categoryOf := get?_assignCategories_widened wider keeps
  branches := by
    rw [assemble, assemble, eligibleCategories_widened wider keeps]
    refine List.filter_congr fun category hcategory => ?_
    rw [get?_assignCategories_widened wider keeps,
      if_neg (keeps category (List.mem_filter.1 hcategory).1)]
  catchAll := rfl
  gates := rfl
  root_not_mem := fun hroot =>
    (mem_selectMembers_iff.1 (List.mem_filter.1 hroot).1).2.2 rfl

end Widened

end Taxonomy

/-- Tables that exclude more classes, but no root of a configured category that was a member, make
    for a taxonomy too. It has the same branches, every member that is left is in the same category,
    and the table of type names and the plan of the classifier are those from before without the
    classes that are taken away. -/
theorem excluding_only_deletes {rules : TaxonomyRules} {entries : List ClassEntry} {t : Taxonomy}
    (built : Taxonomy.build (.ofEntries entries) rules = .ok t) {exclusions : Exclusions}
    (wider : rules.exclusions.Within exclusions)
    (keeps : ∀ category ∈ rules.categories, category.root ∉ t.excludedBy exclusions) :
    ∃ t', Taxonomy.build (.ofEntries entries) { rules with exclusions := exclusions } = .ok t' ∧
      t'.members = t.members.filter (fun c => c ∉ t.excludedBy exclusions) ∧
      t'.branches = t.branches ∧
      (∀ c ∈ t'.members, t'.categoryOf.get? c = t.categoryOf.get? c) ∧
      NameTable.ofTaxonomy t' = (NameTable.ofTaxonomy t).without (t.excludedBy exclusions) ∧
      TestPlan.ofTaxonomy t' = (TestPlan.ofTaxonomy t).without (t.excludedBy exclusions) := by
  obtain ⟨declared, gates, hgates, rfl⟩ := Taxonomy.build_eq_ok_iff.1 built
  have thinned := Taxonomy.thinned_assemble wider keeps
  refine ⟨_, Taxonomy.build_eq_ok_iff.2 ⟨declared, gates, hgates, rfl⟩, thinned.members,
    thinned.branches, fun c hc => ?_, thinned.nameTable, thinned.testPlan⟩
  rw [thinned.members, List.mem_filter, decide_eq_true_eq] at hc
  rw [thinned.categoryOf, if_neg hc.2]

namespace Sample

/-- Tables that exclude a button with two classes below it, and a sprite. -/
def widerExclusions : Exclusions where
  prefixes := ["Animated"]
  names := ["Button"]
  unavailable := ["Node2D"]

theorem within_widerExclusions : config.taxonomy.exclusions.Within widerExclusions where
  prefixes := List.nil_subset _
  names := List.nil_subset _
  unavailable := List.Subset.refl _

end Sample

/-- Without the button, the link button below it is still a class of the canvas, and its name stands
    for one marker less. -/
theorem excluding_only_deletes_of_button :
    Taxonomy.build (.ofEntries Sample.dump) Sample.config.taxonomy = .ok Sample.taxonomy ∧
      Sample.config.taxonomy.exclusions.Within Sample.widerExclusions ∧
      (∀ category ∈ Sample.config.taxonomy.categories,
        category.root ∉ Sample.taxonomy.excludedBy Sample.widerExclusions) ∧
      Sample.taxonomy.excludedBy Sample.widerExclusions = ["AnimatedSprite2D", "Button"] ∧
      ∃ t', Taxonomy.build (.ofEntries Sample.dump)
          { Sample.config.taxonomy with exclusions := Sample.widerExclusions } = .ok t' ∧
        t'.members = ["CanvasItem", "LinkButton", "OptionButton", "Sprite2D", "Timer"] ∧
        t'.categoryOf.get? "LinkButton" = some "canvas" ∧
        (NameTable.ofTaxonomy t').resolve "LinkButton" = ["Node", "CanvasItem", "LinkButton"] ∧
        (TestPlan.ofTaxonomy t').branches =
          [⟨"Sprite2D", []⟩, ⟨"CanvasItem", ["LinkButton", "OptionButton"]⟩] := by
  have hkeeps : ∀ category ∈ Sample.config.taxonomy.categories,
      category.root ∉ Sample.taxonomy.excludedBy Sample.widerExclusions := by
    decide +kernel
  obtain ⟨t', built', hmembers, -, hcategory, htable, hplan⟩ :=
    excluding_only_deletes Sample.build_dump Sample.within_widerExclusions hkeeps
  have hleft : t'.members = ["CanvasItem", "LinkButton", "OptionButton", "Sprite2D", "Timer"] := by
    rw [hmembers]
    decide +kernel
  refine ⟨Sample.build_dump, Sample.within_widerExclusions, hkeeps, by decide +kernel, t', built',
    hleft, ?_, ?_, ?_⟩
  · rw [hcategory "LinkButton" (by simp [hleft])]
    decide +kernel
  · rw [htable]
    decide +kernel
  · rw [hplan]
    decide +kernel

end NodeTagging
