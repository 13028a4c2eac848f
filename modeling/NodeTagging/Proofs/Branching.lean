import Mathlib.Data.List.Nodup
import Mathlib.Data.List.Perm.Basic
import NodeTagging.Proofs.Classification

/-!
# Only the categories with a branch matter

Members are put into categories by all configured categories whose roots are tagged, but the
generated files only test for those that have a branch. Nothing is lost by that. The first category
whose root is in a lineage always has a branch (`find?_branches`), so that it is the first one among
the branches, too.

* `WellFormed.filter_branches`: a branch is the only one of its name;
* `idOf_branches`: the branches alone put a class of the subtree into the same category;
* `assemble_branches`: with the branches for the configured categories the taxonomy is the same, and
  so is everything that is made from it.
-/

namespace NodeTagging

open Hierarchy

namespace Taxonomy

/-! ### The branch of a category -/

/-- A branch is the only one of its name. -/
theorem WellFormed.filter_branches {t : Taxonomy} (wf : t.WellFormed) {branch : Category}
    (h : branch ∈ t.branches) : (t.branches.filter fun b => b.id = branch.id) = [branch] := by
  have hnodup : t.branches.Nodup := wf.apart.imp fun hapart heq => hapart.1 (congrArg _ heq)
  refine List.perm_singleton.1 ((List.perm_ext_iff_of_nodup (hnodup.filter _)
    (List.nodup_singleton _)).2 fun b => ?_)
  rw [List.mem_filter, decide_eq_true_eq, List.mem_singleton]
  constructor
  · rintro ⟨hb, hid⟩
    exact wf.eq_of_id_eq hb h hid
  · rintro rfl
    exact ⟨h, rfl⟩

/-! ### Without the other categories -/

section Branches

variable {graph : Inheritance} {rules : TaxonomyRules} (gates : Gates)

/-- The branches alone put a class of the subtree into the category that all categories with tagged
    roots put it into. -/
theorem idOf_branches {c : String} (h : c ∈ subtree graph rules) :
    Category.idOf (subtreeParents graph rules) (assemble graph rules gates).branches
        rules.catchAll c =
      Category.idOf (subtreeParents graph rules) (eligibleCategories graph rules)
        rules.catchAll c := by
  rw [Category.idOf, Category.idOf, Category.ofLineage?, Category.ofLineage?,
    ← find?_branches gates h]
  rfl

/-- The root of a branch is a member, so that no branch is left out when categories are chosen by
    their roots once more. -/
theorem eligibleCategories_branches :
    eligibleCategories graph { rules with categories := (assemble graph rules gates).branches } =
      (assemble graph rules gates).branches :=
  List.filter_eq_self.2 fun _ hbranch => (List.mem_filter.1 (List.mem_filter.1 hbranch).1).2

theorem assignCategories_branches :
    assignCategories graph { rules with categories := (assemble graph rules gates).branches } =
      assignCategories graph rules := by
  rw [assignCategories, assignCategories, eligibleCategories_branches]
  refine Table.tabulate_congr rfl fun c hc => congrArg some ?_
  exact idOf_branches gates (mem_subtree_of_mem_selectMembers (Text.mem_ordered.1 hc))

/-- With its own branches for the configured categories, a taxonomy is the same. -/
theorem assemble_branches :
    assemble graph { rules with categories := (assemble graph rules gates).branches } gates =
      assemble graph rules gates := by
  have hactive :
      Category.active (assemble graph rules gates).branches (assignCategories graph rules) =
        (assemble graph rules gates).branches :=
    List.filter_eq_self.2 fun _ hbranch => (List.mem_filter.1 hbranch).2
  rw [assemble, assignCategories_branches, eligibleCategories_branches, hactive]
  rfl

end Branches

end Taxonomy

/-! ### Under a configuration -/

/-- A member of a category other than the catch-all has one branch of the name of its category. The
    root of that branch is the member or one of its ancestors, and it is the first branch whose root
    is. A member of the catch-all has no branch root in its lineage. Hence the configured categories
    without a branch, be their roots excluded, undeclared or taken by an earlier category, can be
    dropped: the rules with the branches alone build the same taxonomy, which has the same members,
    categories and branches, and of which the same dispatch table and classifier are made. -/
theorem branches_determine_categories {workingDirectory path : String} {document : Json}
    {config : Config} (accepted : Config.ofJson workingDirectory path document = .ok config)
    {entries : List ClassEntry} {t : Taxonomy}
    (built : Taxonomy.build (.ofEntries entries) config.taxonomy = .ok t) :
    (∀ c ∈ t.members, ∃ id, t.categoryOf.get? c = some id ∧
      (id ≠ t.catchAll → ∃ branch,
        (t.branches.filter fun b => b.id = id) = [branch] ∧
        branch.root ∈ lineage t.parentOf c ∧
        (t.branches.find? fun b => b.root ∈ lineage t.parentOf c) = some branch) ∧
      (id = t.catchAll → ∀ branch ∈ t.branches, branch.root ∉ lineage t.parentOf c)) ∧
    Taxonomy.build (.ofEntries entries) { config.taxonomy with categories := t.branches } =
      .ok t := by
  have wf := Taxonomy.wellFormed_of_build (Config.fit_of_ofJson accepted) built
  refine ⟨fun c hc => ⟨_, wf.categoryOf_eq hc, ?_⟩, ?_⟩
  · cases hfirst : t.branchIn? (lineage t.parentOf c) with
    | none =>
      have hbelow : ∀ branch ∈ t.branches, branch.root ∉ lineage t.parentOf c := by
        simpa [Taxonomy.branchIn?] using hfirst
      exact ⟨fun hne => absurd rfl hne, fun _ => hbelow⟩
    | some branch =>
      obtain ⟨hbranch, hroot⟩ := Taxonomy.mem_of_branchIn? hfirst
      refine ⟨fun _ => ⟨branch, wf.filter_branches hbranch, hroot, hfirst⟩, fun hcatchAll => ?_⟩
      exact absurd hcatchAll (wf.id_ne_catchAll branch hbranch)
  · obtain ⟨hroot, gates, hgates, rfl⟩ := Taxonomy.build_eq_ok_iff.1 built
    exact Taxonomy.build_eq_ok_iff.2
      ⟨hroot, gates, hgates, (Taxonomy.assemble_branches gates).symm⟩

namespace Sample

/-- A configuration with categories of which only two come to have a branch: the root of the second
    is below that of the first, that of the third is excluded, and that of the last is not in the
    dump. -/
def crowdedDocument : Json :=
  .object
    [("paths", .object
      [("schema", .string "api.json"), ("markers", .string "markers.rs"),
        ("dispatcher", .string "dispatcher.rs"), ("classifier", .string "classifier.gd"),
        ("consumer", .string "main.rs")]),
      ("categories", .array
        [.object [("id", .string "canvas"), ("root", .string "CanvasItem")],
          .object [("id", .string "sprite"), ("root", .string "Sprite2D")],
          .object [("id", .string "planar"), ("root", .string "Node2D")],
          .object [("id", .string "clock"), ("root", .string "Timer")],
          .object [("id", .string "spatial"), ("root", .string "Node3D")]]),
      ("unavailable", .array [.string "Node2D"])]

/-- What the document says. -/
def crowdedConfig : Config :=
  { config with
    taxonomy :=
      { exclusions := { unavailable := ["Node2D"] }
        categories :=
          [⟨"canvas", "CanvasItem"⟩, ⟨"sprite", "Sprite2D"⟩, ⟨"planar", "Node2D"⟩,
            ⟨"clock", "Timer"⟩, ⟨"spatial", "Node3D"⟩] } }

/-- The taxonomy of the engine under that configuration. -/
def crowdedTaxonomy : Taxonomy :=
  Taxonomy.assemble (.ofEntries dump) crowdedConfig.taxonomy .empty

theorem ofJson_crowdedDocument :
    Config.ofJson "/work" "/work/generator.config.json" crowdedDocument = .ok crowdedConfig := by
  decide +kernel

theorem build_crowdedConfig :
    Taxonomy.build (.ofEntries dump) crowdedConfig.taxonomy = .ok crowdedTaxonomy := by
  decide +kernel

end Sample

/-- Three of five categories are dropped, and the sprites, which have the root of one of those in
    their lineage, stay where they are. -/
theorem branches_determine_categories_of_two_in_five :
    Config.ofJson "/work" "/work/generator.config.json" Sample.crowdedDocument =
        .ok Sample.crowdedConfig ∧
      Taxonomy.build (.ofEntries Sample.dump) Sample.crowdedConfig.taxonomy =
        .ok Sample.crowdedTaxonomy ∧
      Taxonomy.build (.ofEntries Sample.dump)
          { Sample.crowdedConfig.taxonomy with
            categories := [⟨"canvas", "CanvasItem"⟩, ⟨"clock", "Timer"⟩] } =
        .ok Sample.crowdedTaxonomy ∧
      Sample.crowdedTaxonomy.categoryOf.get? "AnimatedSprite2D" = some "canvas" := by
  have hdetermined :=
    branches_determine_categories Sample.ofJson_crowdedDocument Sample.build_crowdedConfig
  have hbranches : Sample.crowdedTaxonomy.branches =
      [⟨"canvas", "CanvasItem"⟩, ⟨"clock", "Timer"⟩] := by
    decide +kernel
  refine ⟨Sample.ofJson_crowdedDocument, Sample.build_crowdedConfig, ?_, by decide +kernel⟩
  rw [← hbranches]
  exact hdetermined.2

end NodeTagging
